import ApiPages.Kind

namespace ApiPages

inductive Scope where
  | cls
  | member
  | methodLike
  | propertyLike
  | everything
  | only (kind : MemberKind)
  deriving DecidableEq, Repr

namespace Scope

def covers : Scope → Kind → Bool
  | .cls, .cls => true
  | .member, .member _ => true
  | .methodLike, .member kind => kind.isMethodLike
  | .propertyLike, .member kind => !kind.isMethodLike
  | .everything, _ => true
  | .only kind, .member other => kind = other
  | _, _ => false

def ofWord? (token : String) : Option Scope :=
  match token with
  | "class" => some .cls
  | "member" => some .member
  | "method_like" => some .methodLike
  | "property_like" => some .propertyLike
  | "all" => some .everything
  | token => (MemberKind.ofWord? token).map .only

def ofWord (token : String) : Except Fault Scope :=
  match ofWord? token with
  | some scope => .ok scope
  | none => .error (.unknownScope token)

/-- The scope that a value names; what cannot name anything is no question at all. -/
def ofValue (v : Value) : Except Fault Scope :=
  match v with
  | .text token => ofWord token
  | v => if v.canName then .error (.unknownScope v.display) else .error .wrongShape

def kinds (scope : Scope) : List Kind :=
  Kind.all.filter scope.covers

def tokenCovers (token : String) (kind : Kind) : Bool :=
  match ofWord? token with
  | some scope => scope.covers kind
  | none => false

end Scope

end ApiPages
