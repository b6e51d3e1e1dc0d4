import ApiPages.Fault
import ApiPages.Value

namespace ApiPages

inductive MemberKind where
  | cfg
  | property
  | method
  | event
  | cssVar
  | cssMixin
  deriving DecidableEq, Repr

namespace MemberKind

def all : List MemberKind :=
  [.cfg, .property, .method, .event, .cssVar, .cssMixin]

def word : MemberKind → String
  | .cfg => "cfg"
  | .property => "property"
  | .method => "method"
  | .event => "event"
  | .cssVar => "css_var"
  | .cssMixin => "css_mixin"

def ofWord? (word : String) : Option MemberKind :=
  all.find? (·.word == word)

def ofValue (v : Value) : Except Fault MemberKind :=
  match v with
  | .text word =>
    match ofWord? word with
    | some kind => .ok kind
    | none => .error (.unknownMemberKind v.nested)
  | v => .error (.unknownMemberKind v.nested)

def isMethodLike : MemberKind → Bool
  | .method => true
  | .event => true
  | .cssMixin => true
  | _ => false

@[simp]
theorem ofWord?_word (kind : MemberKind) : ofWord? kind.word = some kind := by
  cases kind <;> rfl

theorem word_injective {a b : MemberKind} (h : a.word = b.word) : a = b := by
  have h' := congrArg ofWord? h
  simpa using h'

end MemberKind

inductive Kind where
  | cls
  | member (kind : MemberKind)
  deriving DecidableEq, Repr

namespace Kind

/-- All kinds, in the alphabetical order of their words. -/
def all : List Kind :=
  [.member .cfg, .cls, .member .cssMixin, .member .cssVar, .member .event, .member .method,
    .member .property]

def word : Kind → String
  | .cls => "class"
  | .member kind => kind.word

def ofWord? (word : String) : Option Kind :=
  all.find? (·.word == word)

@[simp]
theorem ofWord?_word (kind : Kind) : ofWord? kind.word = some kind := by
  rcases kind with _ | kind
  · rfl
  · cases kind <;> rfl

end Kind

end ApiPages
