import ApiPages.Entity
import ApiPages.PathName
import ApiPages.Text.Space

namespace ApiPages

/-- Appends a block of documentation behind a blank line. -/
def addDoc (doc addition : String) : String :=
  Text.trimmed (doc ++ "\n\n" ++ addition)

namespace ClassDoc

/-- The name of an override on the page of the class it patches: without one, its file. -/
def displayName (c : ClassDoc) : Except Fault String :=
  if c.name ≠ "" then .ok c.name
  else
    match c.files with
    | [] => .ok ""
    | some ref :: _ => .ok (PathName.baseName ref.file)
    | none :: _ => .error .unknownFile

def overriddenDoc (override doc addition : String) : String :=
  addDoc doc s!"**From override {override}:** {addition}"

def modifyLast (p : Member → Bool) (f : Member → Member) : List Member → List Member
  | [] => []
  | m :: ms => if p m && !ms.any p then f m :: ms else m :: modifyLast p f ms

def patchMember (override : String) (m theirs : Member) : Member :=
  { m with
    doc :=
      if theirs.doc ≠ "" then overriddenDoc override m.doc theirs.doc
      else addDoc m.doc s!"**Overridden in {override}.**"
    files := m.files ++ theirs.files }

def adoptMember (override owner : String) (m : Member) : Member :=
  { m with doc := addDoc m.doc s!"**Defined in override {override}.**", owner }

def enterMember (override owner : String) (members : List Member) (theirs : Member) :
    List Member :=
  if members.any (·.id == theirs.id) then
    modifyLast (·.id == theirs.id) (fun m => patchMember override m theirs) members
  else members ++ [adoptMember override owner theirs]

/-- Takes one member of an override into the members of a class. A member that both share is
read as the class has it. -/
def takeMember (override owner : String) (members : List Member) (entry : Member) : List Member :=
  enterMember override owner members ((members.find? (·.serial == entry.serial)).getD entry)

/-- The class `c` with what the override `o`, displayed as `override`, has to add. -/
def patch (override : String) (o c : ClassDoc) : ClassDoc :=
  { c with
    doc := if o.doc ≠ "" then overriddenDoc override c.doc o.doc else c.doc
    files := c.files ++ o.files
    members := o.members.foldl (takeMember override c.name) c.members }

def refresh (current : List Member) (c : ClassDoc) : ClassDoc :=
  { c with
    members := c.members.map fun m => (current.find? (·.serial == m.serial)).getD m }

end ClassDoc

end ApiPages
