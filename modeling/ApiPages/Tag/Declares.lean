import ApiPages.Tag.Signature

namespace ApiPages.Tag

/-- Reads `name` or `[name = default]`, and then the mark of a required option. -/
def parseMember (tagname : String) (hasDefault canRequire : Bool) : Scan Yield := do
  Scan.blanks
  let type ← Scan.typedef
  Scan.blanks
  let bracketed ← if hasDefault then Scan.accept .openBracket else pure none
  let fields ← if bracketed.isSome then do
      let (name, default) ← scanBracketed s!"Unclosed [ in @{tagname} name"
      pure ([("name", Value.ofText? name)] ++ defaultField default ++
        [("optional", Value.bool true)])
    else do
      let name ← Scan.identChain
      pure [("name", Value.ofText? name)]
  let required ← if canRequire then do
      Scan.blanks
      Scan.accept .requiredMark
    else pure none
  return .one ([("tagname", .text tagname), ("type", .ofText? type)] ++ fields ++
    (if required.isSome then [("required", .bool true)] else []))

def fallback (docs code : List Record) : Record :=
  if docs.isEmpty then [] else code.headD []

def memberDefault (r fallback : Record) : Value :=
  match Table.get? r "default" with
  | some v => v
  | none => Record.optional fallback "default"

def mergeMember (hasDefault canRequire : Bool) (s : Subject) (docs code : List Record) : Value :=
  match firstOf docs code with
  | none => .null
  | some r =>
    let other := fallback docs code
    let name := ((Record.optional r "name").or (Record.optional other "name")).or (.text s.name)
    let type := ((Record.optional r "type").or (Record.optional other "type")).or (.text "Object")
    let default :=
      match memberDefault r other with
      | .null => []
      | v => [("default", v)]
    let required := (docs ++ code).any fun r => (Record.optional r "required").truthy
    .record ([("name", name), ("type", type)] ++ (if hasDefault then default else []) ++
      (if canRequire then [("required", .bool required)] else []))

def occursIn (part : List Char) : List Char → Bool
  | [] => part.isEmpty
  | c :: cs => part.isPrefixOf (c :: cs) || occursIn part cs

def defaultHtml (v : Value) : Except Fault (Option String) :=
  if !v.truthy then .ok none
  else
    match v with
    | .record r =>
      .ok ((Table.get? r "default").map fun d => s!"<p>Defaults to: <code>{d.escaped}</code></p>")
    | .text s => if occursIn "default".toList s.toList then .error .wrongShape else .ok none
    | .list items => if items.any (·.isText "default") then .error .wrongShape else .ok none
    | _ => .error .wrongShape

/-- A tag that declares a member of one kind and its section on class pages. -/
def declares (kind : MemberKind) (pattern : String) (hasDefault : Bool) (type : MemberType) :
    Tag where
  patterns := [pattern]
  tagname := some kind.word
  scope := [kind.word]
  position := if hasDefault then some (.int 5) else none
  memberType := some type
  parse := fun _ => parseMember kind.word hasDefault (kind = .cfg)
  merge := fun s docs code => .ok (mergeMember hasDefault (kind = .cfg) s docs code)
  html := fun _ v => if hasDefault then defaultHtml v else .ok none

def staticSplit (members : String) : List Subsection :=
  [{ title := "Instance " ++ members, wanted := [("static", .bool false)], isDefault := true },
    { title := "Static " ++ members, wanted := [("static", .bool true)] }]

def cfg : Tag :=
  { declares .cfg "cfg" true
      { name := "cfg"
        category := "property_like"
        title := "Config options"
        toolbarTitle := some "Configs"
        position := .int 1
        subsections :=
          [{ title := "Required config options", wanted := [("required", .bool true)] },
            { title := "Optional config options", wanted := [("required", .bool false)],
              isDefault := true }] } with
    process := fun s _ => do
      let required ← (Record.optional s.attributes "cfg").optionalIn "required"
      return { attributes := Table.set s.attributes "required" (.bool required.truthy) } }

def property : Tag :=
  declares .property "property" true
    { name := "property"
      category := "property_like"
      title := "Properties"
      position := .int 2
      subsections := staticSplit "properties" }

def method : Tag :=
  declares .method "method" false
    { name := "method"
      category := "method_like"
      title := "Methods"
      position := .int 3
      subsections := staticSplit "methods" }

def event : Tag :=
  declares .event "event" false
    { name := "event"
      category := "method_like"
      title := "Events"
      position := .int 4 }

def cssVar : Tag :=
  declares .cssVar "var" true
    { name := "css_var"
      category := "property_like"
      title := "CSS Variables"
      toolbarTitle := some "CSS Vars"
      position := .int 5 }

def cssMixin : Tag :=
  declares .cssMixin "mixin" false
    { name := "css_mixin"
      category := "method_like"
      title := "CSS Mixins"
      position := .int 6 }

end ApiPages.Tag
