import ApiPages.Text.Coded
import ApiPages.Value

namespace ApiPages.Json

def isBlank (c : Char) : Bool :=
  c == ' ' || c == '\t' || c == '\n' || c == '\r'

def skipBlanks (cs : List Char) : List Char :=
  cs.dropWhile isBlank

def shortEscapes : List (Char × Char) :=
  [('n', '\n'), ('t', '\t'), ('r', '\r'), ('b', '\x08'), ('f', '\x0c'), ('"', '"'), ('\\', '\\'),
    ('/', '/')]

def readText : Nat → List Char → Option (List Char × List Char)
  | 0, _ => none
  | _, [] => none
  | fuel + 1, c :: cs =>
    if c = '"' then some ([], cs)
    else if c = '\\' then do
      let (meant, rest) ←
        match cs with
        | 'u' :: code => (Text.codedChar code).map fun (d, length) => (d, code.drop length)
        | c :: rest => (shortEscapes.find? (·.1 == c)).map fun (_, d) => (d, rest)
        | [] => none
      let (text, rest) ← readText fuel rest
      return (meant :: text, rest)
    else (readText fuel cs).map fun (text, rest) => (c :: text, rest)

def natOf (digits : List Char) : Nat :=
  digits.foldl (fun n c => n * 10 + (c.toNat - '0'.toNat)) 0

def splitDigits (cs : List Char) : List Char × List Char :=
  (cs.takeWhile Char.isDigit, cs.dropWhile Char.isDigit)

def exponentAt (cs : List Char) : Option (Int × List Char) :=
  match cs with
  | e :: rest =>
    let negative := rest.head? == some '-'
    let (digits, after) :=
      splitDigits (if negative || rest.head? == some '+' then rest.drop 1 else rest)
    if (e == 'e' || e == 'E') && !digits.isEmpty then
      some (Number.signed negative (natOf digits), after)
    else none
  | [] => none

def readNumber (cs : List Char) : Option (Number × List Char) :=
  let negative := cs.head? == some '-'
  let (whole, rest) := splitDigits (if negative then cs.drop 1 else cs)
  let (part, after) := if rest.head? = some '.' then splitDigits (rest.drop 1) else ([], rest)
  let rest := if part.isEmpty then rest else after
  if whole.isEmpty then none
  else
    match part, exponentAt rest with
    | [], none => some (.int (Number.signed negative (natOf whole)), rest)
    | part, none =>
      some (.double (.ofScientific negative (natOf (whole ++ part)) (-part.length)), rest)
    | part, some (exponent, rest) =>
      some (.double (.ofScientific negative (natOf (whole ++ part)) (exponent - part.length)),
        rest)

def words : List (String × Value) :=
  [("null", .null), ("true", .bool true), ("false", .bool false), ("NaN", .number (.double .nan)),
    ("Infinity", .number (.double (.infinite false))),
    ("-Infinity", .number (.double (.infinite true)))]

def wordAt (cs : List Char) : Option (Value × List Char) :=
  words.findSome? fun (word, v) =>
    if word.toList.isPrefixOf cs then some (v, cs.drop word.length) else none

mutual

/-- Reads a value. The readers call each other at most `fuel` deep: each takes up a character, or
calls one that does. -/
def read (fuel : Nat) (cs : List Char) : Option (Value × List Char) :=
  match fuel, skipBlanks cs with
  | 0, _ => none
  | fuel + 1, '\x7b' :: cs =>
    match skipBlanks cs with
    | '\x7d' :: cs => some (.record [], cs)
    | cs => (readFields fuel [] cs).map fun (fields, cs) => (.record fields, cs)
  | fuel + 1, '[' :: cs =>
    match skipBlanks cs with
    | ']' :: cs => some (.list [], cs)
    | cs => (readItems fuel cs).map fun (items, cs) => (.list items, cs)
  | _, '"' :: cs =>
    (readText (cs.length + 1) cs).map fun (text, cs) => (.text (String.ofList text), cs)
  | _, cs => (wordAt cs).or ((readNumber cs).map fun (n, cs) => (.number n, cs))

def readItems (fuel : Nat) (cs : List Char) : Option (List Value × List Char) :=
  match fuel with
  | 0 => none
  | fuel + 1 => do
    let (item, cs) ← read fuel cs
    match skipBlanks cs with
    | ',' :: cs => (readItems fuel cs).map fun (items, cs) => (item :: items, cs)
    | ']' :: cs => return ([item], cs)
    | _ => none

/-- Reads the fields of a record up to its brace. Of equal keys the last value counts. -/
def readFields (fuel : Nat) (fields : Record) (cs : List Char) : Option (Record × List Char) :=
  match fuel with
  | 0 => none
  | fuel + 1 =>
    match skipBlanks cs with
    | '"' :: cs => do
      let (key, cs) ← readText (cs.length + 1) cs
      match skipBlanks cs with
      | ':' :: cs => do
        let (v, cs) ← read fuel cs
        let fields := Table.set fields (String.ofList key) v
        match skipBlanks cs with
        | ',' :: cs => readFields fuel fields cs
        | '\x7d' :: cs => return (fields, cs)
        | _ => none
      | _ => none
    | _ => none

end

def parse (text : String) : Option Value := do
  let cs := text.toList
  let (v, rest) ← read (2 * cs.length + 2) cs
  if rest.all isBlank then return v else none

def escapeChar (c : Char) : List Char :=
  if c = '"' ∨ c = '\\' then ['\\', c]
  else if c.toNat < 0x20 ∨ c.toNat = 0x7F then
    ['\\', 'u', '0', '0', (c.toNat / 16).digitChar, (c.toNat % 16).digitChar]
  else [c]

def quote (s : String) : String :=
  String.ofList ('"' :: s.toList.flatMap escapeChar ++ ['"'])

def writeNumber : Number → String
  | .double .nan => "NaN"
  | .double (.infinite false) => "Infinity"
  | .double (.infinite true) => "-Infinity"
  | n => n.display

mutual

/-- Writes a value. What has no form of its own is written as text. -/
def write : Value → String
  | .null => "null"
  | .bool b => if b then "true" else "false"
  | .number n => writeNumber n
  | .text s => quote s
  | .list items => "[" ++ String.intercalate "," (writeItems items) ++ "]"
  | .record fields => "\x7b" ++ String.intercalate "," (writeFields fields) ++ "\x7d"
  | v => quote v.display

def writeItems : List Value → List String
  | [] => []
  | v :: vs => write v :: writeItems vs

def writeFields : List (String × Value) → List String
  | [] => []
  | (key, v) :: fields => (quote key ++ ":" ++ write v) :: writeFields fields

end

end ApiPages.Json
