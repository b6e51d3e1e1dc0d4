import ApiPages.Tag

namespace ApiPages.Tag

def scanDefault : Scan (Option String) := do
  if (← Scan.accept .equals).isSome then
    Scan.blanks
    let text ← Scan.accept .toBracket
    return some (Text.trimmed (text.getD ""))
  else
    return none

/-- Reads `name`, or `name = default` behind an opening bracket, up to the closing one. -/
def scanBracketed (complaint : String) : Scan (Option String × Option String) := do
  Scan.blanks
  let name ← Scan.identChain
  Scan.blanks
  let default ← scanDefault
  if (← Scan.accept .closeBracket).isNone then
    Scan.complain .tagSyntax complaint
  return (name, default)

def defaultField : Option String → Record
  | some text => [("default", .text text)]
  | none => []

def parseParam : Scan Yield := do
  Scan.blanks
  let type ← Scan.typedef
  Scan.blanks
  let optional := (← Scan.accept .openBracket).isSome
  let (name, default) ←
    if optional then scanBracketed "Unclosed [ in @param name"
    else do
      let name ← Scan.identChain
      pure (name, none)
  if (name.getD "") = "" then
    Scan.complain .tagSyntax "@param is missing a parameter name"
  return .one ([("tagname", .text "params"), ("type", .ofText? type),
    ("optional", .bool optional), ("name", .ofText? name)] ++ defaultField default ++
    [("doc", multiline)])

def cleanParam (r : Record) : Record :=
  [("name", Record.optional r "name"), ("type", Record.optional r "type"),
    ("optional", .bool (Record.optional r "optional").truthy),
    ("default", Record.optional r "default"), ("doc", (Record.optional r "doc").or (.text ""))]

/-- The last declared parameter of a name. -/
def declaredParam (code : List Record) (name : Value) : Option Record :=
  code.reverse.find? fun r => (Record.optional r "name").same name

/-- A documented parameter, which takes a missing type from the declared one of its name. -/
def documentedParam (code : List Record) (r : Record) : Record :=
  match declaredParam code (Record.optional r "name") with
  | none => cleanParam r
  | some declared =>
    if (Record.optional r "type").truthy then cleanParam r
    else Table.set (cleanParam r) "type" (Record.optional declared "type")

/-- Documented parameters if there are any, else those of the declaration. -/
def mergeParams (docs code : List Record) : Except Fault Value :=
  if docs.isEmpty then
    .ok (if code.isEmpty then .null else .list (code.map fun r => .record (cleanParam r)))
  else if (code ++ docs).all fun r => (Record.optional r "name").canName then
    .ok (.list (docs.map fun r => .record (documentedParam code r)))
  else .error .wrongShape

def formatAll (f : Formatter) (v : Value) : Value × Option Fault :=
  match v with
  | .list items =>
    let (items, fault) := f.formatItems "doc" items
    (.list items, fault)
  | v => (v, if v.truthy then some .wrongShape else none)

def itemsOf (v : Value) : Except Fault (List Value) :=
  match v with
  | .list items => .ok items
  | v => if v.truthy then .error .wrongShape else .ok []

def paramHtml (v : Value) : Except Fault String := do
  let optional ← v.required "optional"
  let default ← v.optional "default"
  let name ← v.required "name"
  let type ← v.required "type"
  let html ← v.htmlOf
  let mark := if optional.truthy then " (optional)" else ""
  let shown :=
    match default with
    | .null => ""
    | default => s!" Defaults to: <code>{default.escaped}</code>"
  let shownName := (name.or (.text "")).escaped
  let shownType := (type.or (.text "Object")).escaped
  return s!"<li><span class=\"pre\">{shownName}</span> : {shownType}{mark}" ++
    s!"<div class=\"sub-desc\">{html}{shown}</div></li>"

def paramsHtml (v : Value) : Except Fault (Option String) := do
  let items ← (← itemsOf v).mapM paramHtml
  return if items.isEmpty then none
    else some ("<h3 class=\"pa\">Parameters</h3><ul>" ++ String.join items ++ "</ul>")

def param : Tag where
  patterns := ["param"]
  tagname := some "params"
  repeatable := true
  scope := ["method_like"]
  position := some (.int 11)
  parse := fun _ => parseParam
  merge := fun _ docs code => mergeParams docs code
  format := formatAll
  html := fun _ => paramsHtml

def parseReturn : Scan Yield := do
  Scan.blanks
  let type ← Scan.typedef
  Scan.blanks
  let _ ← Scan.accept .returnWord
  return .one [("tagname", .text "return"), ("type", (Value.ofText? type).or (.text "Object")),
    ("doc", multiline)]

def returnHtml (v : Value) : Except Fault (Option String) :=
  if v.truthy then do
    let type ← v.required "type"
    let html ← v.htmlOf
    return if type.isText "undefined" then none
      else some ("<h3 class=\"pa\">Returns</h3><ul><li>" ++
        s!"<span class=\"pre\">{type.escaped}</span>" ++
        s!"<div class=\"sub-desc\">{html}</div></li></ul>")
  else .ok none

def returned : Tag where
  patterns := ["return", "returns"]
  tagname := some "return"
  scope := ["method_like"]
  position := some (.int 13)
  parse := fun _ => parseReturn
  merge := fun _ docs code =>
    match firstOf docs code with
    | none => .ok .null
    | some r =>
      .ok (.record [("type", (Record.optional r "type").or (.text "Object")),
        ("doc", (Record.optional r "doc").or (.text ""))])
  format := fun f v => if v.truthy then f.formatField "doc" v else (v, none)
  html := fun _ => returnHtml

def mergeThrown (r : Record) : Except Fault Value := do
  let type ← Record.required r "type"
  return .record [("type", type), ("doc", (Record.optional r "doc").or (.text ""))]

def thrownHtml (v : Value) : Except Fault String := do
  let type ← v.required "type"
  let html ← v.htmlOf
  return s!"<li>{type.escaped}<div class=\"sub-desc\">{html}</div></li>"

def throwsHtml (v : Value) : Except Fault (Option String) := do
  let items ← (← itemsOf v).mapM thrownHtml
  return if items.isEmpty then none
    else some s!"<h3 class=\"pa\">Throws</h3><ul>{String.join items}</ul>"

def thrown : Tag where
  patterns := ["throws"]
  tagname := some "throws"
  repeatable := true
  scope := ["method_like"]
  position := some (.int 14)
  parse := fun _ => do
    Scan.blanks
    let type ← Scan.typedef
    return .one [("tagname", .text "throws"), ("type", (Value.ofText? type).or (.text "Object")),
      ("doc", multiline)]
  merge := fun _ docs _ =>
    if docs.isEmpty then .ok .null
    else do
      return .list (← docs.mapM mergeThrown)
  format := formatAll
  html := fun _ => throwsHtml

end ApiPages.Tag
