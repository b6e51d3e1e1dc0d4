import ApiPages.Fault
import ApiPages.Source
import ApiPages.Value

namespace ApiPages

inductive Category where
  | tag
  | tagRepeated
  | tagSyntax
  | extend
  | override
  | nodoc
  deriving DecidableEq, Repr

namespace Category

def all : List Category :=
  [.tag, .tagRepeated, .tagSyntax, .extend, .override, .nodoc]

def word : Category → String
  | .tag => "tag"
  | .tagRepeated => "tag_repeated"
  | .tagSyntax => "tag_syntax"
  | .extend => "extend"
  | .override => "override"
  | .nodoc => "nodoc"

def ofWord (word : String) : Except Fault Category :=
  match all.find? (·.word == word) with
  | some category => .ok category
  | none => .error (.unknownCategory word)

def ofValue (v : Value) : Except Fault Category :=
  match v with
  | .text word => ofWord word
  | v => if v.canName then .error (.unknownCategory v.display) else .error .wrongShape

theorem ofWord_word (category : Category) : ofWord category.word = .ok category := by
  cases category <;> rfl

end Category

/-- A diagnostic that does not stop anything. -/
structure Warning where
  category : Category
  message : String
  position : Option SourceRef := none
  deriving DecidableEq, Repr

def Warning.text (w : Warning) : String :=
  match w.position with
  | none => w.message
  | some ref => s!"{ref.text}: {w.message}"

end ApiPages
