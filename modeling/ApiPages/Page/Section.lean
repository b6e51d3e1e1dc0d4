import ApiPages.Registry

namespace ApiPages.Page

structure View where
  title : String
  members : List Member
  showTitle : Bool := true
  subsection : Option Subsection := none

structure Section where
  type : MemberType
  views : List View

def Section.members (s : Section) : List Member :=
  s.views.flatMap View.members

def viewOf (members : List Member) (s : Subsection) : Option View :=
  match members.filter fun m => s.accepts m.attributes with
  | [] => none
  | m :: ms => some { title := s.title, members := m :: ms, subsection := some s }

/-- Hides the title of a view that shows all members under the default subsection. -/
def hideTitle (count : Nat) (v : View) : View :=
  match v.subsection with
  | some s => if s.isDefault && v.members.length == count then { v with showTitle := false } else v
  | none => v

def split (type : MemberType) (members : List Member) : List View :=
  if type.subsections.isEmpty then [{ title := type.title, members, showTitle := false }]
  else
    match type.subsections.filterMap (viewOf members) with
    | [v] => [hideTitle members.length v]
    | views => views

def sectionOf (c : ClassDoc) (type : MemberType) : Option Section :=
  match c.members.filter (·.kind.word == type.name) with
  | [] => none
  | m :: ms => some { type, views := split type (m :: ms) }

def sections (reg : Registry) (c : ClassDoc) : List Section :=
  reg.sections.filterMap (sectionOf c)

end ApiPages.Page
