import ApiPages.Cursor
import ApiPages.Entity
import ApiPages.Formatter
import ApiPages.Subsection

namespace ApiPages

inductive Yield where
  | nothing
  | one (r : Record)
  | many (rs : List Record)

def Yield.records : Yield → List Record
  | .nothing => []
  | .one r => [r]
  | .many rs => rs

structure Subject where
  kind : Kind
  name : String
  position : Option SourceRef := none
  attributes : Record := []

/-- The attributes of a class or member after a tag has looked at it, and the class it patches
if the tag makes it an override. -/
structure Outcome where
  attributes : Record
  target : Option Value := none

/-- A tag of documentation comments: how it is written, where it belongs, and what it does at
each stage. An empty text stands for a key or style that the tag does not have. -/
structure Tag where
  patterns : List String := []
  /-- The name of the tag's records and attribute; an empty one is as good as none. -/
  tagname : Option String := none
  repeatable : Bool := false
  /-- Whether the last one counts where the tag may stand only once. -/
  keepsLast : Bool := false
  scope : List String := []
  position : Option Number := none
  css : String := ""
  memberType : Option MemberType := none
  declarationKey : String := ""
  /-- The record that a class gets when its declaration lacks the key. -/
  declarationDefault : Option Record := none
  parse : Option SourceRef → Scan Yield := fun _ => pure .nothing
  declare : Value → Yield := fun _ => .nothing
  /-- Folds the records of comment and declaration into one value; null stands for none. -/
  merge : Subject → List Record → List Record → Except Fault Value := fun _ _ _ => .ok .null
  /-- Derives attributes once all tags are merged, whether or not this one occurs. -/
  process : Subject → List Record → Except Fault Outcome := fun s _ =>
    .ok { attributes := s.attributes }
  format : Formatter → Value → Value × Option Fault := fun _ v => (v, none)
  /-- The HTML of the tag's own value, null if there is none. -/
  html : Kind → Value → Except Fault (Option String) := fun _ _ => .ok none

namespace Tag

def key (t : Tag) : String :=
  t.tagname.getD ""

def tagnameValue (t : Tag) : Value :=
  .ofText? t.tagname

def own (t : Tag) (attributes : Record) : Option Value :=
  t.tagname.bind (Table.get? attributes)

/-- What the tag is called when it is switched on. -/
def name (t : Tag) : Except Fault String :=
  if t.key ≠ "" then .ok t.key
  else
    match t.patterns with
    | pattern :: _ => .ok pattern
    | [] => .error .namelessTag

def label (t : Tag) : String :=
  match t.patterns with
  | pattern :: _ => "@" ++ pattern
  | [] => t.key

def covers (t : Tag) (kind : Kind) : Bool :=
  t.scope.any fun token => Scope.tokenCovers token kind

def kinds (t : Tag) : Except Fault (List Kind) := do
  let _ ← t.scope.mapM Scope.ofWord
  return Kind.all.filter t.covers

/-- The text that asks for the documentation behind a tag. -/
def multiline : Value := .text "multiline"

def firstOf (docs code : List Record) : Option Record :=
  (docs ++ code).head?

end Tag

end ApiPages
