import ApiPages.Yaml.Token.Block
import ApiPages.Yaml.Token.Mark
import ApiPages.Yaml.Token.Plain
import ApiPages.Yaml.Token.Quoted

namespace ApiPages.Yaml

/-- A token that turns out to be a key if a colon follows it on the same line. -/
structure OpenKey where
  depth : Nat
  number : Nat
  /-- Whether it cannot be anything else than a key. -/
  required : Bool
  start : Reader

/-- How far a key may be from its colon. -/
def keyReach : Nat := 1024

def OpenKey.isStale (key : OpenKey) (r : Reader) : Bool :=
  key.start.line != r.line || keyReach < r.index - key.start.index

/-- A place in a document, the tokens in front of it, and what surrounds it. -/
structure Lexer where
  reader : Reader
  tokens : Array Token := #[]
  depth : Nat := 0
  /-- The columns of the open collections without brackets, the innermost first. -/
  indents : List Int := []
  keyAllowed : Bool := true
  openKeys : List OpenKey := []
  done : Bool := false

namespace Lexer

def indent (l : Lexer) : Int :=
  l.indents.head?.getD (-1)

def emit (l : Lexer) (t : Token) : Lexer :=
  { l with tokens := l.tokens.push t }

def advance (l : Lexer) (t : Token) (after : Reader) : Lexer :=
  { l.emit t with reader := after }

def openKey? (l : Lexer) : Option OpenKey :=
  l.openKeys.find? (·.depth == l.depth)

def dropStale (l : Lexer) : Except Fault Lexer :=
  if l.openKeys.any fun key => key.required && key.isStale l.reader then .error notYaml
  else .ok { l with openKeys := l.openKeys.filter fun key => !key.isStale l.reader }

def dropKey (l : Lexer) : Except Fault Lexer :=
  if l.openKeys.any fun key => key.required && key.depth == l.depth then
    .error notYaml
  else .ok { l with openKeys := l.openKeys.filter (·.depth != l.depth) }

def noteKey (l : Lexer) : Except Fault Lexer :=
  if l.keyAllowed then do
    let l ← l.dropKey
    let key : OpenKey := {
      depth := l.depth
      number := l.tokens.size
      required := l.depth == 0 && l.indent == l.reader.column
      start := l.reader }
    return { l with openKeys := l.openKeys ++ [key] }
  else .ok l

def closeTo (column : Int) (l : Lexer) : Lexer :=
  if l.depth = 0 then
    let closed := l.indents.takeWhile (column < ·)
    { l with
      tokens := closed.foldl (fun tokens _ => tokens.push .blockEnd) l.tokens
      indents := l.indents.drop closed.length }
  else l

/-- Opens a collection at a column unless one is open there; `number` is the place of its
token. -/
def openAt (l : Lexer) (column : Int) (number : Nat) (t : Token) : Lexer :=
  if l.depth = 0 ∧ l.indent < column then
    { l with
      indents := column :: l.indents
      tokens := l.tokens.insertIdxIfInBounds number t }
  else l

def skip (l : Lexer) : Lexer :=
  let start :=
    if l.reader.index = 0 ∧ l.reader.rest.head? = some Reader.byteOrderMark then l.reader.next
    else l.reader
  let (reader, broken) := start.skipBlanks
  { l with reader, keyAllowed := l.keyAllowed || (broken && l.depth == 0) }

def finish (l : Lexer) : Except Fault Lexer := do
  let l ← (l.closeTo (-1)).dropKey
  return { l.emit .streamEnd with keyAllowed := false, openKeys := [], done := true }

def readDocumentMark (l : Lexer) (t : Token) (after : Reader) : Except Fault Lexer := do
  let l ← (l.closeTo (-1)).dropKey
  return { l with keyAllowed := false }.advance t after

def readOpening (l : Lexer) (t : Token) : Except Fault Lexer := do
  let l ← l.noteKey
  return { l with depth := l.depth + 1, keyAllowed := true }.advance t l.reader.next

def readClosing (l : Lexer) (t : Token) : Except Fault Lexer := do
  let l ← l.dropKey
  return { l with depth := l.depth - 1, keyAllowed := false }.advance t l.reader.next

def readComma (l : Lexer) : Except Fault Lexer := do
  let l ← l.dropKey
  return { l with keyAllowed := true }.advance .comma l.reader.next

def readDash (l : Lexer) : Except Fault Lexer :=
  if l.depth = 0 ∧ !l.keyAllowed then .error notYaml
  else do
    let l ← (l.openAt l.reader.column l.tokens.size .blockSequence).dropKey
    return { l with keyAllowed := true }.advance .entry l.reader.next

/-- A mark in front of a key or value that has no bracket around it and need not fit on a line. -/
def readLongMark (l : Lexer) (t : Token) : Except Fault Lexer :=
  if l.depth = 0 ∧ !l.keyAllowed then .error notYaml
  else do
    let l ← (l.openAt l.reader.column l.tokens.size .blockMapping).dropKey
    return { l with keyAllowed := l.depth == 0 }.advance t l.reader.next

def readColon (l : Lexer) : Except Fault Lexer :=
  match l.openKey? with
  | none => l.readLongMark .value
  | some key =>
    let l := { l with
      tokens := l.tokens.insertIdxIfInBounds key.number .key
      openKeys := l.openKeys.filter (·.depth != l.depth)
      keyAllowed := false }
    .ok ((l.openAt key.start.column key.number .blockMapping).advance .value l.reader.next)

def readWord (l : Lexer) (read : Reader → Except Fault (Token × Reader)) : Except Fault Lexer := do
  let l ← l.noteKey
  let (t, after) ← read l.reader
  return { l with keyAllowed := false }.advance t after

def readPlainWord (l : Lexer) : Except Fault Lexer := do
  let l ← l.noteKey
  let plain := readPlain (l.depth != 0) (l.indent + 1) l.reader.rest.length l.reader
  return { l with keyAllowed := plain.onNewLine }.advance (.scalar plain.text true) plain.after

def readBlock (l : Lexer) (folded : Bool) : Except Fault Lexer := do
  let l ← l.dropKey
  let (text, after) ← readBlockText folded l.indent l.reader.next
  return { l with keyAllowed := true }.advance (.scalar text false) after

def readToken (l : Lexer) (c : Char) (cs : List Char) : Except Fault Lexer :=
  let inFlow := l.depth != 0
  if c = '%' ∧ l.reader.column = 0 then do
    let (t, after) ← readDirective l.reader
    l.readDocumentMark t after
  else if l.reader.atMark '-' then l.readDocumentMark .documentStart (l.reader.drop 3)
  else if l.reader.atMark '.' then l.readDocumentMark .documentEnd (l.reader.drop 3)
  else if c = '[' then l.readOpening .openBracket
  else if c = '\x7b' then l.readOpening .openBrace
  else if c = ']' then l.readClosing .closeBracket
  else if c = '\x7d' then l.readClosing .closeBrace
  else if c = ',' then l.readComma
  else if c = '-' ∧ Reader.endsWord cs then l.readDash
  else if c = '?' ∧ (inFlow ∨ Reader.endsWord cs) then l.readLongMark .key
  else if c = ':' ∧ (inFlow ∨ Reader.endsWord cs) then l.readColon
  else if c = '*' then
    l.readWord fun r => (readAnchor r).map fun (name, after) => (.reference name, after)
  else if c = '&' then
    l.readWord fun r => (readAnchor r).map fun (name, after) => (.anchor name, after)
  else if c = '!' then l.readWord readTag
  else if (c = '|' ∨ c = '>') ∧ !inFlow then l.readBlock (c == '>')
  else if c = '\'' ∨ c = '"' then
    l.readWord fun r => (readQuoted c r.next).map fun (text, after) => (.scalar text false, after)
  else if startsPlain inFlow l.reader.rest then l.readPlainWord
  else .error notYaml

def step (l : Lexer) : Except Fault Lexer := do
  let l ← l.skip.dropStale
  let l := l.closeTo l.reader.column
  match l.reader.rest with
  | [] => l.finish
  | c :: cs => l.readToken c cs

/-- The tokens in front of the first one of which it is open whether it is a key. -/
def settled (l : Lexer) : List Token :=
  match l.openKeys.find? (!·.isStale l.reader) with
  | none => l.tokens.toList
  | some key => l.tokens.toList.take key.number

/-- Reads on up to the end of the document, or up to what is no token. Every token has at least
one character, so there are at most as many steps as characters, and one more. -/
def run : Nat → Lexer → List Token
  | 0, l => l.tokens.toList
  | steps + 1, l =>
    if l.done then l.tokens.toList
    else
      match l.step with
      | .ok l => run steps l
      | .error fault => l.settled ++ [.broken fault]

end Lexer

def tokens (cs : List Char) : List Token :=
  Lexer.run (cs.length + 2) { reader := { rest := cs } }

end ApiPages.Yaml
