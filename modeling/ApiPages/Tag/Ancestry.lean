import ApiPages.Tag

namespace ApiPages.Tag

def parseClassName (tagname complaint : String) : Scan Yield := do
  Scan.blanks
  match ← Scan.identChain with
  | some name => return .one [("tagname", .text tagname), ("name", .text name)]
  | none =>
    Scan.complain .tagSyntax complaint
    return .nothing

def declareClassName (tagname : String) (v : Value) : Yield :=
  match v with
  | .text s => if s = "" then .nothing else .one [("tagname", .text tagname), ("name", .text s)]
  | _ => .nothing

/-- The name in the first record, unless that record is empty. -/
def mergeClassName (docs code : List Record) : Except Fault Value :=
  match firstOf docs code with
  | none => .ok .null
  | some [] => .ok .null
  | some r => Record.required r "name"

def ancestor : Tag where
  patterns := ["extends", "extend"]
  tagname := some "extends"
  scope := ["class"]
  declarationKey := "extend"
  declarationDefault := some [("tagname", .text "extends"), ("name", .text "Ext.Base")]
  parse := fun _ => parseClassName "extends" "@extends is missing a class name"
  declare := declareClassName "extends"
  merge := fun _ docs code => mergeClassName docs code

/-- Reads names as long as there are some; each one leaves less to read. -/
def scanNames (c : Cursor) : List String × Cursor :=
  match h : Scan.identChain (Scan.blanks c).2 with
  | (none, after) => ([], after)
  | (some name, after) =>
    have := Scan.rest_length_identChain h
    have := Scan.rest_length_blanks c
    let (names, last) := scanNames after
    (name :: names, last)
termination_by c.rest.length

def mixinRecord (name : String) : Record :=
  [("tagname", .text "mixins"), ("name", .text name)]

def parseMixins : Scan Yield := do
  let names ← scanNames
  return if names.isEmpty then .nothing else .many (names.map mixinRecord)

def textsOf (vs : List Value) : List String :=
  vs.filterMap fun
    | .text s => some s
    | _ => none

/-- One name, a list of names, or names under keys. -/
def declareMixins (v : Value) : Yield :=
  match v with
  | .text s => .many [mixinRecord s]
  | .list items => .many ((textsOf items).map mixinRecord)
  | .record r => .many ((textsOf (Table.values r)).map mixinRecord)
  | .mapping entries => .many ((textsOf (entries.map Prod.snd)).map mixinRecord)
  | .pair a b => .many ((textsOf [a, b]).map mixinRecord)
  | _ => .nothing

def addNew (names : List Value) (name : Value) : List Value :=
  if names.any (·.same name) then names else names ++ [name]

def mergeMixins (docs code : List Record) : Except Fault Value := do
  let names ← (docs ++ code).mapM fun r => Record.required r "name"
  return if names.isEmpty then .null else .list (names.foldl addNew [])

def mixins : Tag where
  patterns := ["mixins"]
  tagname := some "mixins"
  repeatable := true
  scope := ["class"]
  declarationKey := "mixins"
  parse := fun _ => parseMixins
  declare := declareMixins
  merge := fun _ docs code => mergeMixins docs code

def override : Tag where
  patterns := ["override"]
  tagname := some "override"
  scope := ["class"]
  declarationKey := "override"
  parse := fun _ => parseClassName "override" "@override is missing the target class name"
  declare := declareClassName "override"
  merge := fun _ docs code => mergeClassName docs code
  process := fun s _ =>
    let target := Record.optional s.attributes "override"
    .ok { attributes := s.attributes, target := if target.truthy then some target else none }

end ApiPages.Tag
