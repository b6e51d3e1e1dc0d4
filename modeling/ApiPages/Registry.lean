import ApiPages.Tag

namespace ApiPages

/-- The tags in use, found by the names that they claim. -/
structure Registry where
  tags : List Tag := []
  byPattern : Table String Tag := []
  byTagname : Table String Tag := []
  byDeclaration : Table String Tag := []
  memberTypes : Table String MemberType := []

namespace Registry

def claim (t : Tag) (fault : String → Fault) (index : Table String Tag) (key : String) :
    Except Fault (Table String Tag) :=
  if Table.contains index key then .error (fault key) else .ok (index ++ [(key, t)])

def claimIfNamed (t : Tag) (fault : String → Fault) (index : Table String Tag) (key : String) :
    Except Fault (Table String Tag) :=
  if key = "" then .ok index else claim t fault index key

def addMemberType (types : Table String MemberType) : Option MemberType → Table String MemberType
  | some type => Table.set types type.name type
  | none => types

/-- Adds a tag whose patterns, tagname and declaration key are free and whose scope is known. -/
def register (reg : Registry) (t : Tag) : Except Fault Registry := do
  let byPattern ← t.patterns.foldlM (claim t .patternTaken) reg.byPattern
  let byTagname ← claimIfNamed t .tagnameTaken reg.byTagname t.key
  let byDeclaration ← claimIfNamed t .declarationKeyTaken reg.byDeclaration t.declarationKey
  let _ ← t.kinds
  return {
    tags := reg.tags ++ [t]
    byPattern
    byTagname
    byDeclaration
    memberTypes := addMemberType reg.memberTypes t.memberType }

def ofTags (tags : List Tag) : Except Fault Registry :=
  tags.foldlM register {}

def findByPattern (reg : Registry) (pattern : String) : Option Tag :=
  Table.get? reg.byPattern pattern

def findByTagname (reg : Registry) (tagname : String) : Option Tag :=
  Table.get? reg.byTagname tagname

def findByName (reg : Registry) (name : Name) : Option Tag :=
  name.text?.bind reg.findByTagname

def findByDeclaration (reg : Registry) (key : String) : Option Tag :=
  Table.get? reg.byDeclaration key

def declarationTags (reg : Registry) : List Tag :=
  Table.values reg.byDeclaration

/-- Ascending positions; no position is as good as one beyond all numbers. -/
def positionLe (p q : Option Number) : Bool :=
  (p.getD .infinity).le (q.getD .infinity)

/-- The tags that belong to a kind, by position and then in their order of registration. -/
def pluginsFor (reg : Registry) (kind : Kind) : List Tag :=
  (reg.tags.filter (·.covers kind)).mergeSort fun a b => positionLe a.position b.position

def renderOrder (reg : Registry) (kind : Kind) : List Tag :=
  (reg.pluginsFor kind).filter (·.position.isSome)

def sections (reg : Registry) : List MemberType :=
  (Table.values reg.memberTypes).mergeSort fun a b => a.position.le b.position

def memberType? (reg : Registry) (name : String) : Option MemberType :=
  Table.get? reg.memberTypes name

def css (reg : Registry) : String :=
  String.intercalate "\n" ((reg.tags.map Tag.css).filter (· ≠ ""))

end Registry

end ApiPages
