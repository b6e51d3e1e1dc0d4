import ApiPages.Tag

namespace ApiPages.Tag

/-- Makes a tag a flag: where it occurs its attribute is true. A label shows the flag on the
page. -/
def flag (t : Tag) (label : String) : Tag :=
  { t with
    parse := fun _ => pure (.one [("tagname", t.tagnameValue)])
    merge := fun _ docs code =>
      .ok (if docs.isEmpty && code.isEmpty then .null else .bool true)
    html := fun _ v =>
      .ok (if v.truthy && label != "" then
        some s!"<span class=\"signature {t.key}\">{label}</span>"
      else none) }

def plainFlag (name : String) (scope : List String) : Tag :=
  flag
    { patterns := [name]
      tagname := some name
      scope
      position := some (.int 2) }
    name

def privateFlag : Tag :=
  plainFlag "private" ["all"]

def protectedFlag : Tag :=
  plainFlag "protected" ["all"]

/-- Members without the tag belong to instances, and say so. -/
def staticFlag : Tag :=
  { plainFlag "static" ["member"] with
    process := fun s _ =>
      .ok { attributes :=
        if Table.contains s.attributes "static" then s.attributes
        else Table.set s.attributes "static" (.bool false) } }

/-- A method that returns `this` is chainable without the tag as well. -/
def chainable : Tag :=
  { plainFlag "chainable" ["method"] with
    position := some (.double (.ofScientific false 21 (-1)))
    process := fun s _ =>
      if Table.contains s.attributes "chainable" then .ok { attributes := s.attributes }
      else do
        let type ← (Record.optional s.attributes "return").optionalIn "type"
        return { attributes := Table.set s.attributes "chainable" (.bool (type.isText "this")) } }

end ApiPages.Tag
