import ApiPages.Scope
import ApiPages.Value

namespace ApiPages

/-- A slice of a section of members: those whose attributes count as true or false as `wanted`
says. -/
structure Subsection where
  title : String
  wanted : Table String Value
  isDefault : Bool := false

def Subsection.accepts (s : Subsection) (attributes : Record) : Bool :=
  s.wanted.all fun (key, value) =>
    (Value.bool ((Table.get? attributes key).getD .null).truthy).same value

structure MemberType where
  name : String
  category : String
  title : String
  position : Number
  toolbarTitle : Option String := none
  subsections : List Subsection := []

def MemberType.check (t : MemberType) : Except Fault MemberType :=
  if t.category = "method_like" ∨ t.category = "property_like" then .ok t
  else .error .unknownMemberCategory

end ApiPages
