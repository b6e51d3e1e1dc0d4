import ApiPages.Table
import ApiPages.Yaml.Token.Lexer

namespace ApiPages.Yaml

/-- A part of a document. Parts refer to each other by number, so that one may stand in several
places, or inside itself. A type is the one that is written in front. -/
inductive Node where
  /-- If `plain`, the type shows in the text. -/
  | scalar (type : Option String) (text : List Char) (plain : Bool)
  | sequence (type : Option String) (items : List Nat)
  | mapping (type : Option String) (pairs : List (Nat × Nat))
  deriving DecidableEq, Repr

instance : Inhabited Node :=
  ⟨.scalar none [] true⟩

structure Draft where
  tokens : List Token
  nodes : Array Node := #[]
  anchors : Table String Nat := []
  handles : Table String String := []

abbrev Reading := StateT Draft (Except Fault)

namespace Reading

def peek : Reading Token := do
  match (← get).tokens with
  | .broken fault :: _ => throw fault
  | t :: _ => return t
  | [] => return .streamEnd

def skip : Reading Unit :=
  modify fun d => { d with tokens := d.tokens.tail }

def malformed {α : Type} : Reading α :=
  throw notYaml

def addNode (n : Node) : Reading Nat :=
  modifyGet fun d => (d.nodes.size, { d with nodes := d.nodes.push n })

def setNode (number : Nat) (n : Node) : Reading Unit :=
  modify fun d => { d with nodes := d.nodes.setIfInBounds number n }

def addEmpty : Reading Nat :=
  addNode default

structure Marks where
  anchor : Option String := none
  type : Option String := none

def typeName (handle : Option String) (name : String) : Reading String := do
  match handle with
  | none => return name
  | some handle =>
    match Table.get? (← get).handles handle with
    | some lead => return lead ++ name
    | none => malformed

def readMarks : Reading Marks := do
  match ← peek with
  | .anchor anchor => do
    skip
    match ← peek with
    | .tag handle name => do
      skip
      return { anchor := some anchor, type := some (← typeName handle name) }
    | _ => return { anchor := some anchor }
  | .tag handle name => do
    skip
    match ← peek with
    | .anchor anchor => do
      skip
      return { anchor := some anchor, type := some (← typeName handle name) }
    | _ => return { type := some (← typeName handle name) }
  | _ => return {}

/-- Whether the type is left to what follows: none is written, or an exclamation mark. -/
def Marks.leavesType (m : Marks) : Bool :=
  m.type.all (· == "!")

def Marks.writtenType (m : Marks) : Option String :=
  m.type.filter (· != "!")

def addMarked (m : Marks) (n : Node) : Reading Nat := do
  let number ← addNode n
  match m.anchor with
  | none => return number
  | some name =>
    if Table.contains (← get).anchors name then malformed
    else do
      modify fun d => { d with anchors := Table.set d.anchors name number }
      return number

def addScalar (m : Marks) (text : List Char) (plain : Bool) : Reading Nat :=
  addMarked m (.scalar m.writtenType text ((plain && m.type.isNone) || m.type == some "!"))

def addSequence (m : Marks) (items : Reading (List Nat)) : Reading Nat := do
  let number ← addMarked m (.sequence m.writtenType [])
  setNode number (.sequence m.writtenType (← items))
  return number

def addMapping (m : Marks) (pairs : Reading (List (Nat × Nat))) : Reading Nat := do
  let number ← addMarked m (.mapping m.writtenType [])
  setNode number (.mapping m.writtenType (← pairs))
  return number

def readUnless (stops : List Token) (read : Reading Nat) : Reading Nat := do
  if stops.contains (← peek) then addEmpty else read

def behindColon (stops : List Token) (read : Reading Nat) : Reading Nat := do
  if (← peek) = .value then do
    skip
    readUnless stops read
  else addEmpty

def readSeparator (isFirst : Bool) : Reading Unit := do
  if !isFirst then
    if (← peek) = .comma then skip else malformed

mutual

/-- Reads a node: one with brackets around it, unless `inBlock`; a list whose dashes stand below
its key only if `underKey`. The readers call each other at most `fuel` deep: each reads a token, or
calls one that does. -/
def readNode (fuel : Nat) (inBlock underKey : Bool) : Reading Nat :=
  match fuel with
  | 0 => malformed
  | fuel + 1 => do
    match ← peek with
    | .reference name => do
      skip
      match Table.get? (← get).anchors name with
      | some number => return number
      | none => malformed
    | _ => do
      let m ← readMarks
      match ← peek with
      | .scalar text plain => do
        skip
        addScalar m text plain
      | .openBracket => do
        skip
        addSequence m (readFlowItems fuel true)
      | .openBrace => do
        skip
        addMapping m (readFlowPairs fuel true)
      | t =>
        if t = .entry ∧ underKey then addSequence m (readItemsUnderKey fuel)
        else if t = .blockSequence ∧ inBlock then do
          skip
          addSequence m (readItems fuel)
        else if t = .blockMapping ∧ inBlock then do
          skip
          addMapping m (readPairs fuel)
        else if m.anchor.isSome || m.type.isSome then addScalar m [] m.leavesType
        else malformed

def readItems (fuel : Nat) : Reading (List Nat) :=
  match fuel with
  | 0 => malformed
  | fuel + 1 => do
    match ← peek with
    | .entry => do
      skip
      let item ← readUnless [.entry, .blockEnd] (readNode fuel true false)
      return item :: (← readItems fuel)
    | .blockEnd => do
      skip
      return []
    | _ => malformed

def readItemsUnderKey (fuel : Nat) : Reading (List Nat) :=
  match fuel with
  | 0 => malformed
  | fuel + 1 => do
    match ← peek with
    | .entry => do
      skip
      let item ← readUnless [.entry, .key, .value, .blockEnd] (readNode fuel true false)
      return item :: (← readItemsUnderKey fuel)
    | _ => return []

def readPairs (fuel : Nat) : Reading (List (Nat × Nat)) :=
  match fuel with
  | 0 => malformed
  | fuel + 1 => do
    match ← peek with
    | .key => do
      skip
      let key ← readUnless [.key, .value, .blockEnd] (readNode fuel true true)
      let value ← behindColon [.key, .value, .blockEnd] (readNode fuel true true)
      return (key, value) :: (← readPairs fuel)
    | .blockEnd => do
      skip
      return []
    | _ => malformed

/-- Reads the items of a list up to its bracket. A pair among them is a mapping of its own. -/
def readFlowItems (fuel : Nat) (isFirst : Bool) : Reading (List Nat) :=
  match fuel with
  | 0 => malformed
  | fuel + 1 => do
    if (← peek) = .closeBracket then do
      skip
      return []
    else do
      readSeparator isFirst
      match ← peek with
      | .closeBracket => do
        skip
        return []
      | .key => do
        skip
        let key ← readUnless [.value, .comma, .closeBracket] (readNode fuel false false)
        let value ← behindColon [.comma, .closeBracket] (readNode fuel false false)
        let item ← addNode (.mapping none [(key, value)])
        return item :: (← readFlowItems fuel false)
      | _ => do
        let item ← readNode fuel false false
        return item :: (← readFlowItems fuel false)

def readFlowPairs (fuel : Nat) (isFirst : Bool) : Reading (List (Nat × Nat)) :=
  match fuel with
  | 0 => malformed
  | fuel + 1 => do
    if (← peek) = .closeBrace then do
      skip
      return []
    else do
      readSeparator isFirst
      match ← peek with
      | .closeBrace => do
        skip
        return []
      | .key => do
        skip
        let key ← readUnless [.value, .comma, .closeBrace] (readNode fuel false false)
        let value ← behindColon [.comma, .closeBrace] (readNode fuel false false)
        return (key, value) :: (← readFlowPairs fuel false)
      | _ => do
        let key ← readNode fuel false false
        let value ← addEmpty
        return (key, value) :: (← readFlowPairs fuel false)

end

/-- The types of the format itself have names that start so. -/
def standardLead : String :=
  "tag:yaml.org,2002:"

def standardHandles : Table String String :=
  [("!", "!"), ("!!", standardLead)]

def isDirective : Token → Bool
  | .version _ => true
  | .handle .. => true
  | .otherDirective => true
  | _ => false

/-- What the directives of a document declare: a version at most once, and each handle. -/
def declared (directives : List Token) : Except Fault (Table String String) :=
  let versions : List Nat := directives.filterMap fun t =>
    match t with
    | .version major => some major
    | _ => none
  let handles : Table String String := directives.filterMap fun t =>
    match t with
    | .handle handle lead => some (handle, lead)
    | _ => none
  let names : List String := handles.map Prod.fst
  if versions.length ≤ 1 ∧ (∀ major ∈ versions, major = 1) ∧ names.Nodup then
    .ok handles
  else .error notYaml

def readExplicit : Reading Nat := do
  let directives := (← get).tokens.takeWhile isDirective
  let handles ← declared directives
  modify fun d => { d with
    tokens := d.tokens.drop directives.length
    handles := handles ++ standardHandles }
  if (← peek) = .documentStart then do
    skip
    let next ← peek
    if isDirective next || next == .documentStart || next == .documentEnd then addEmpty
    else if next = .streamEnd then addEmpty
    else readNode (2 * (← get).tokens.length + 4) true false
  else malformed

def skipEnds : Reading Unit :=
  modify fun d => { d with tokens := d.tokens.dropWhile (· == .documentEnd) }

/-- Reads the only document of a text; the answer is the number of the outermost node. -/
def readDocument : Reading Nat := do
  let next ← peek
  let root ←
    if isDirective next || next == .documentStart then readExplicit
    else if next = .streamEnd then addEmpty
    else do
      modify fun d => { d with handles := standardHandles }
      readNode (2 * (← get).tokens.length + 4) true false
  skipEnds
  if (← peek) = .streamEnd then return root else malformed

end Reading

structure Document where
  nodes : Array Node
  root : Nat

def Document.ofText (cs : List Char) : Except Fault Document := do
  let (root, draft) ← Reading.readDocument.run { tokens := tokens cs }
  return { nodes := draft.nodes, root }

end ApiPages.Yaml
