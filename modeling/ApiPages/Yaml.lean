import ApiPages.Yaml.Node
import ApiPages.Yaml.Scalar

namespace ApiPages.Yaml

namespace Document

def node (d : Document) (number : Nat) : Node :=
  d.nodes.getD number default

def isType (type : Option String) (name : String) : Bool :=
  type.all (· == Reading.standardLead ++ name)

/-- The type of a scalar: the one that is written, the one that its text shows, or else text. -/
def scalarType (type : Option String) (text : List Char) (plain : Bool) :
    Except Fault ScalarType :=
  match type with
  | none => .ok (if plain then ScalarType.ofText text else .text)
  | some type =>
    match ScalarType.named.find? fun (name, _) => type == Reading.standardLead ++ name with
    | some (_, type) => .ok type
    | none => .error notYaml

/-- Whether a list stands for a record in order, or for pairs: its items are records of one field. -/
def isPairs (type : Option String) : Bool :=
  type.any fun type =>
    type == Reading.standardLead ++ "omap" || type == Reading.standardLead ++ "pairs"

def isSet (type : Option String) : Bool :=
  type.any (· == Reading.standardLead ++ "set")

def scalarValue (type : Option String) (text : List Char) (plain : Bool) : Except Fault Value := do
  (← scalarType type text plain).value text

def hasType (d : Document) (number : Nat) (type : ScalarType) : Bool :=
  match d.node number with
  | .scalar written text plain => (scalarType written text plain).toOption == some type
  | _ => false

def isCollection (d : Document) (number : Nat) : Bool :=
  match d.node number with
  | .scalar .. => false
  | _ => true

def ownPairs (d : Document) (pairs : List (Nat × Nat)) : List (Nat × Nat) :=
  pairs.filter fun (key, _) => !d.hasType key .merge

/-- The pairs of a mapping: in front those that it takes over from a mapping, or from a list of
mappings, of which the last comes first. What is inside itself takes over nothing from itself;
`within` are the mappings on the way, and `fuel` bounds their number. -/
def pairsOf (d : Document) : Nat → List Nat → Nat → Except Fault (List (Nat × Nat))
  | 0, _, _ => .error notYaml
  | fuel + 1, within, number =>
    match d.node number with
    | .mapping _ pairs =>
      if within.contains number then .ok (d.ownPairs pairs)
      else do
        let sources := (pairs.filter fun (key, _) => d.hasType key .merge).map Prod.snd
        let merged ← sources.mapM fun source =>
          match d.node source with
          | .sequence _ items => do
            let parts ← items.mapM fun item => pairsOf d fuel (number :: within) item
            return parts.reverse.flatten
          | _ => pairsOf d fuel (number :: within) source
        return merged.flatten ++ d.ownPairs pairs
    | _ => .error notYaml

def checkNode (d : Document) (number : Nat) : Except Fault Unit :=
  match d.node number with
  | .scalar type text plain => (scalarValue type text plain).map fun _ => ()
  | .sequence type _ => if isType type "seq" || isPairs type then .ok () else .error notYaml
  | .mapping type _ => if isType type "map" || isSet type then .ok () else .error notYaml

/-- A key must be a scalar. The key by default stands for its text. -/
def checkKey (d : Document) (number : Nat) : Except Fault Unit :=
  if d.hasType number .default then .ok ()
  else do
    d.checkNode number
    if d.isCollection number then .error notYaml else .ok ()

def allPairs (d : Document) (number : Nat) : Except Fault (List (Nat × Nat)) :=
  d.pairsOf (d.nodes.size + 1) [] number

def onlyPair (d : Document) (number : Nat) : Except Fault (Nat × Nat) :=
  match d.node number with
  | .mapping _ [pair] => .ok pair
  | _ => .error notYaml

def checkItem (d : Document) (type : Option String) (item : Nat) : Except Fault (List Nat) := do
  if isPairs type then
    let (key, value) ← d.onlyPair item
    d.checkNode key
    d.checkNode value
    return [key, value]
  else
    d.checkNode item
    return [item]

/-- What is wrong with the contents of a list or mapping; else the lists and mappings in it. -/
def checkContents (d : Document) (number : Nat) : Except Fault (List Nat) :=
  match d.node number with
  | .scalar .. => .ok []
  | .sequence type items => do
    let parts ← items.mapM (d.checkItem type)
    return parts.flatten.filter d.isCollection
  | .mapping .. => do
    let pairs ← d.allPairs number
    pairs.forM fun (key, value) => do
      d.checkKey key
      d.checkNode value
    return (pairs.map Prod.snd).filter d.isCollection

/-- Checks level by level: what contains something is checked before its contents. -/
def checkLevels (d : Document) : Nat → List Nat → List Nat → Except Fault Unit
  | 0, _, _ => .ok ()
  | fuel + 1, seen, level =>
    if level.isEmpty then .ok ()
    else do
      let below ← level.mapM d.checkContents
      let next := below.flatten.eraseDups.filter fun number => !seen.contains number
      checkLevels d fuel (seen ++ next) next

def check (d : Document) : Except Fault Unit := do
  d.checkNode d.root
  let level := [d.root].filter d.isCollection
  d.checkLevels (d.nodes.size + 1) level level

/-- Sets the value under a key. Of equal keys the first stays, with the last value. -/
def setEntry (entries : List (Value × Value)) (key value : Value) : List (Value × Value) :=
  if entries.any (·.1.same key) then
    entries.map fun (k, v) => if k.same key then (k, value) else (k, v)
  else entries ++ [(key, value)]

def recordOf (entries : List (Value × Value)) : Value :=
  let fields? := entries.mapM fun (key, value) =>
    match key with
    | .text s => some (s, value)
    | _ => none
  match fields? with
  | some fields => .record fields
  | none => .mapping entries

def keyValue (d : Document) (number : Nat) : Except Fault Value :=
  match d.node number with
  | .scalar type text plain =>
    if d.hasType number .default then .ok (.text (String.ofList text))
    else scalarValue type text plain
  | _ => .error notYaml

/-- The values at the first levels are read on, so that only a list or record that is inside itself
below them is cut off. -/
def readLevels : Nat := 2

/-- The value of a node at some level, with the lists and mappings on the way to it; there are no
more of these below the first levels than nodes. -/
def valueOf (d : Document) : Nat → Nat → List Nat → Nat → Except Fault Value
  | 0, _, _, _ => .error notYaml
  | fuel + 1, level, within, number =>
    let inside := if level < readLevels then [] else number :: within
    match d.node number with
    | .scalar type text plain => scalarValue type text plain
    | .sequence type items =>
      if within.contains number then .ok (.shown "[...]" "[...]")
      else
        let itemOf (item : Nat) : Except Fault Value :=
          if isPairs type then do
            let (key, value) ← d.onlyPair item
            return .pair (← valueOf d fuel (level + 1) inside key)
              (← valueOf d fuel (level + 1) inside value)
          else valueOf d fuel (level + 1) inside item
        (items.mapM itemOf).map .list
    | .mapping type _ =>
      if within.contains number then .ok (.shown "\x7b...\x7d" "\x7b...\x7d")
      else do
        let pairs ← d.allPairs number
        let entries ← pairs.mapM fun (key, value) => do
          return (← d.keyValue key, ← valueOf d fuel (level + 1) inside value)
        let entries := entries.foldl (fun done (key, value) => setEntry done key value) []
        return if isSet type then .set (entries.map Prod.fst) else recordOf entries

def toValue (d : Document) : Except Fault Value := do
  d.check
  d.valueOf (d.nodes.size + readLevels + 1) 0 [] d.root

end Document

/-- Controls, and code points that are no characters, must not stand in a document. -/
def isAllowed (c : Char) : Bool :=
  let n := c.toNat
  n == 9 || n == 10 || n == 13 || (32 ≤ n && n ≤ 126) || n == 0x85 ||
    (0xA0 ≤ n && n != 0xFFFE && n != 0xFFFF)

/-- Reads the only value of a text. Line ends of every convention count as line feeds. -/
def parse (text : String) : Except Fault Value :=
  let cs := Text.unifyBreaks text.toList
  if cs.all isAllowed then do (← Document.ofText cs).toValue else .error notYaml

end ApiPages.Yaml
