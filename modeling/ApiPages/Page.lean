import ApiPages.Page.Fragment
import ApiPages.Page.Section
import ApiPages.Report
import ApiPages.Text.Escape

namespace ApiPages.Page

abbrev Descriptions := Table String String

/-- Renders members in turn. A fault leaves the attributes of the later ones alone. Where two
members have one id, the later one is described. -/
def describe (reg : Registry) (f : Formatter) :
    List Member → Descriptions → List Member × Except Fault Descriptions
  | [], known => ([], .ok known)
  | m :: ms, known =>
    match render reg f (.member m.kind) m.attributes with
    | (attributes, .error fault) => ({ m with attributes } :: ms, .error fault)
    | (attributes, .ok html) =>
      let (rest, result) := describe reg f ms (Table.set known m.id (f.format m.doc ++ html))
      ({ m with attributes } :: rest, result)

def memberBlock (known : Descriptions) (m : Member) : String :=
  let description := (Table.get? known m.id).getD ""
  s!"    <div class=\"member\" id=\"{m.kind.word}-{Text.escape m.id}\">\n" ++
    s!"      <h4 class=\"member-name\">{Text.escape m.name}</h4>\n" ++
    s!"      <div class=\"description\">{description}</div>\n" ++
    "    </div>\n"

def viewBlock (known : Descriptions) (v : View) : String :=
  let title :=
    if v.showTitle then s!"    <h3 class=\"members-subtitle\">{Text.escape v.title}</h3>\n" else ""
  title ++ String.join (v.members.map (memberBlock known))

def sectionBlock (known : Descriptions) (s : Section) : String :=
  s!"  <div class=\"members-section\" id=\"{Text.escape s.type.name}\">\n" ++
    s!"    <h2 class=\"members-title\">{Text.escape s.type.title}</h2>\n" ++
    String.join (s.views.map (viewBlock known)) ++ "  </div>\n"

def layout (name doc tags : String) (known : Descriptions) (sections : List Section) : String :=
  s!"<div class=\"class-doc\" id=\"{Text.escape name}\">\n" ++
    s!"  <h1>{Text.escape name}</h1>\n" ++
    (if tags = "" then "" else s!"  <div class=\"tags\">{tags}</div>\n") ++
    s!"  <div class=\"doc-contents\">{doc}</div>\n" ++
    String.join (sections.map (sectionBlock known)) ++ "</div>"

/-- The page of a class, and the class with the HTML that was made of its attributes. -/
def ofClass (reg : Registry) (f : Formatter) (c : ClassDoc) : ClassDoc × Except Fault String :=
  match describe reg f c.members [] with
  | (members, .error fault) => ({ c with members }, .error fault)
  | (members, .ok known) =>
    match render reg f .cls c.attributes with
    | (attributes, .error fault) => ({ c with members, attributes }, .error fault)
    | (attributes, .ok tags) =>
      let c := { c with members, attributes }
      (c, .ok (layout c.name (f.format c.doc) tags known (sections reg c)))

def report (reg : Registry) (f : Formatter) (c : ClassDoc) : Report (ClassDoc × String) := do
  match ofClass reg f c with
  | (_, .error fault) => .fail fault
  | (c, .ok html) =>
    Report.progress .debug "render" s!"Rendered class {c.name}"
    return (c, html)

end ApiPages.Page
