import ApiPages.Kind
import ApiPages.Occurrences
import ApiPages.Source

namespace ApiPages

/-- A documented member of a class. Entries of several classes with one `serial` are one member
that those classes share. -/
structure Member where
  id : String
  owner : String
  kind : MemberKind := .method
  name : String
  /-- Where it is declared; a place may be unknown. -/
  files : List (Option SourceRef) := []
  doc : String := ""
  attributes : Record := []
  raw : Occurrences := {}
  serial : Nat := 0

def Member.position (m : Member) : Option SourceRef :=
  m.files.head?.join

def Member.nameOr (id name : String) : String :=
  if name = "" then id else name

/-- A documented class, or an override that patches one. -/
structure ClassDoc where
  name : String
  files : List (Option SourceRef) := []
  members : List Member := []
  doc : String := ""
  attributes : Record := []
  raw : Occurrences := {}
  isOverride : Bool := false
  overrideTarget : Value := .null

namespace ClassDoc

def position (c : ClassDoc) : Option SourceRef :=
  c.files.head?.join

def member? (c : ClassDoc) (id : String) : Option Member :=
  c.members.find? (·.id == id)

def memberIds (c : ClassDoc) : List String :=
  c.members.map Member.id

def addMember (c : ClassDoc) (m : Member) : Except Fault ClassDoc :=
  match c.member? m.id with
  | some _ => .error (.duplicateMember c.name m.id)
  | none => .ok { c with members := c.members ++ [m] }

end ClassDoc

end ApiPages
