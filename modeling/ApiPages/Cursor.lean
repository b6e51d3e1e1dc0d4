import ApiPages.Text.Digit
import ApiPages.Text.Space
import ApiPages.Text.Word
import ApiPages.Warning

namespace ApiPages

/-- How many characters at the front of a text belong to a match, if there is one. -/
abbrev Pattern := List Char → Option Nat

namespace Pattern

def run (p : Char → Bool) : Pattern := fun cs =>
  some (cs.takeWhile p).length

def run1 (p : Char → Bool) : Pattern := fun cs =>
  match cs.takeWhile p with
  | [] => none
  | _ :: taken => some (taken.length + 1)

def char (p : Char → Bool) : Pattern
  | [] => none
  | c :: _ => if p c then some 1 else none

def literal (word : List Char) : Pattern := fun cs =>
  if word.isPrefixOf cs then some word.length else none

/-- A word and then a mark, which may be missing. -/
def literalThen (word : List Char) (mark : Char) : Pattern := fun cs =>
  if (word ++ [mark]).isPrefixOf cs then some (word.length + 1) else literal word cs

def blanks : Pattern :=
  run fun c => c == ' ' || c == '\t'

def ident : Pattern :=
  run1 Text.isIdent

def chainTail : List Char → Nat
  | [] => 0
  | [c] => if Text.isIdent c then 1 else 0
  | c :: d :: cs =>
    if Text.isIdent c then chainTail (d :: cs) + 1
    else if c = '.' ∧ Text.isIdent d then chainTail cs + 2
    else 0

def identChain : Pattern
  | [] => none
  | c :: cs => if Text.isIdent c then some (chainTail cs + 1) else none

theorem pos_of_identChain {cs : List Char} {n : Nat} (h : identChain cs = some n) : 0 < n := by
  unfold identChain at h
  split at h
  · cases h
  · split at h
    · cases h
      omega
    · cases h

theorem length_pos_of_identChain {cs : List Char} {n : Nat} (h : identChain cs = some n) :
    0 < cs.length := by
  cases cs with
  | nil => cases h
  | cons c cs => simp

def version : Pattern :=
  run1 Text.isVersion

def digit : Pattern :=
  char Text.isDigit

def toLineEnd : Pattern :=
  run (· != '\n')

def toBracket : Pattern :=
  run (· != ']')

def openBrace : Pattern := char (· == '{')

def openBracket : Pattern := char (· == '[')

def closeBracket : Pattern := char (· == ']')

def equals : Pattern := char (· == '=')

def returnWord : Pattern :=
  literalThen ['r', 'e', 't', 'u', 'r', 'n'] '.'

def requiredMark : Pattern :=
  literal ['(', 'r', 'e', 'q', 'u', 'i', 'r', 'e', 'd', ')']

end Pattern

/-- A place in a text: what lies before it, what comes next, and what was wrong so far. -/
structure Cursor where
  consumed : List Char := []
  rest : List Char
  complaints : List (Category × String) := []

abbrev Scan (α : Type) := StateM Cursor α

namespace Cursor

def start (text : List Char) : Cursor :=
  { rest := text }

def text (c : Cursor) : List Char :=
  c.consumed ++ c.rest

def index (c : Cursor) : Nat :=
  c.consumed.length

def atEnd (c : Cursor) : Bool :=
  c.rest.isEmpty

def skip (c : Cursor) (n : Nat) : Cursor :=
  { c with consumed := c.consumed ++ c.rest.take n, rest := c.rest.drop n }

def complain (c : Cursor) (category : Category) (message : String) : Cursor :=
  { c with complaints := c.complaints ++ [(category, message)] }

def warnings (c : Cursor) (position : Option SourceRef) : List Warning :=
  c.complaints.map fun (category, message) => { category, message, position }

@[simp]
theorem text_skip (c : Cursor) (n : Nat) : (c.skip n).text = c.text := by
  simp [text, skip]

/-- How long the interior of a brace expression is, `depth` inner braces being open. -/
def interior (depth : Nat) : List Char → Option Nat
  | [] => none
  | c :: cs =>
    if c = '{' then (interior (depth + 1) cs).map (· + 1)
    else if c = '}' then
      match depth with
      | 0 => some 0
      | depth + 1 => (interior depth cs).map (· + 1)
    else (interior depth cs).map (· + 1)

end Cursor

namespace Scan

def eos : Scan Bool := fun c => (c.atEnd, c)

def rest : Scan (List Char) := fun c => (c.rest, c)

def complain (category : Category) (message : String) : Scan Unit := fun c =>
  ((), c.complain category message)

def look (p : Pattern) : Scan Bool := fun c => ((p c.rest).isSome, c)

def accept (p : Pattern) : Scan (Option String) := fun c =>
  match p c.rest with
  | some n => (some (String.ofList (c.rest.take n)), c.skip n)
  | none => (none, c)

def blanks : Scan Unit := do
  let _ ← accept .blanks

def ident : Scan (Option String) := accept .ident

def identChain : Scan (Option String) := accept .identChain

def version : Scan (Option String) := accept .version

theorem accept_eq_some {p : Pattern} {c after : Cursor} {s : String}
    (h : accept p c = (some s, after)) :
    ∃ n, p c.rest = some n ∧ s = String.ofList (c.rest.take n) ∧ after = c.skip n := by
  unfold accept at h
  cases hp : p c.rest with
  | none =>
    rw [hp] at h
    cases h
  | some n =>
    rw [hp] at h
    cases h
    exact ⟨n, rfl, rfl, rfl⟩

theorem rest_length_identChain {c after : Cursor} {name : String}
    (h : identChain c = (some name, after)) : after.rest.length < c.rest.length := by
  obtain ⟨n, hn, -, rfl⟩ := accept_eq_some h
  have hpos := Pattern.pos_of_identChain hn
  have hrest := Pattern.length_pos_of_identChain hn
  simp only [Cursor.skip, List.length_drop]
  omega

theorem rest_length_blanks (c : Cursor) : (blanks c).2.rest.length ≤ c.rest.length := by
  change (c.skip (c.rest.takeWhile fun d => d == ' ' || d == '\t').length).rest.length ≤ _
  simp only [Cursor.skip, List.length_drop]
  omega

/-- Reads a type in braces, which may nest. One that is not closed takes all that is left. -/
def typedef : Scan (Option String) := fun c =>
  match c.rest with
  | '{' :: inner =>
    match Cursor.interior 0 inner with
    | some n => (some (String.ofList (Text.trim (inner.take n))), c.skip (n + 2))
    | none =>
      (some (String.ofList (Text.trim inner)),
        (c.complain .tagSyntax "Unterminated type definition").skip (inner.length + 1))
  | _ => (none, c)

def restOfLine : Scan String := do
  let line ← accept .toLineEnd
  return Text.trimmed (line.getD "")

end Scan

end ApiPages
