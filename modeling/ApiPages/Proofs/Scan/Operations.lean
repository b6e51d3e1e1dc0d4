import ApiPages.Proofs.Scan

/-!
# A place in a text, whatever is done there

A place is moved by a dozen operations only, and none of them moves it back or changes the text. So
it stays within the text and divides it in two, through all operations in whatever order, and
through every reading that does nothing but perform them.
-/

namespace ApiPages.Scan

open Cursor (Ahead)

/-! ### Operations -/

/-- What tags look for. -/
inductive Mark where
  | openBrace
  | openBracket
  | closeBracket
  | equals
  | toBracket
  | returnWord
  | requiredMark
  | digit
  | toLineEnd
  deriving DecidableEq, Repr

def Mark.pattern : Mark → Pattern
  | .openBrace => .openBrace
  | .openBracket => .openBracket
  | .closeBracket => .closeBracket
  | .equals => .equals
  | .toBracket => .toBracket
  | .returnWord => .returnWord
  | .requiredMark => .requiredMark
  | .digit => .digit
  | .toLineEnd => .toLineEnd

/-- What can be done at a place. The word of a warning need not be that of a category. -/
inductive Operation where
  | eos
  | rest
  | blanks
  | ident
  | identChain
  | version
  | typedef
  | restOfLine
  | look (mark : Mark)
  | accept (mark : Mark)
  | warn (word message : String)
  deriving DecidableEq, Repr

/-- What comes back from an operation. -/
inductive Answer where
  | nothing
  | truth (b : Bool)
  | text (s : String)
  | found (s : Option String)
  | refused (fault : Fault)
  deriving DecidableEq, Repr

namespace Answer

def holds : Answer → Bool
  | .truth b => b
  | _ => false

def written : Answer → String
  | .text s => s
  | _ => ""

def found? : Answer → Option String
  | .found s => s
  | _ => none

end Answer

def perform : Operation → Scan Answer
  | .eos => .truth <$> Scan.eos
  | .rest => (fun cs => .text (String.ofList cs)) <$> Scan.rest
  | .blanks => (fun _ => .nothing) <$> Scan.blanks
  | .ident => .found <$> Scan.ident
  | .identChain => .found <$> Scan.identChain
  | .version => .found <$> Scan.version
  | .typedef => .found <$> Scan.typedef
  | .restOfLine => .text <$> Scan.restOfLine
  | .look mark => .truth <$> Scan.look mark.pattern
  | .accept mark => .found <$> Scan.accept mark.pattern
  | .warn word message =>
    match Category.ofWord word with
    | .ok category => (fun _ => .nothing) <$> Scan.complain category message
    | .error fault => Pure.pure (.refused fault)

/-- The place behind some operations. -/
def performAll (c : Cursor) (ops : List Operation) : Cursor :=
  ops.foldl (fun c op => (perform op c).2) c

theorem performAll_append (c : Cursor) (ops later : List Operation) :
    performAll c (ops ++ later) = performAll (performAll c ops) later :=
  List.foldl_append

namespace Operation

/-- The operations that take what they find. -/
def takes : Operation → Bool
  | .ident => true
  | .identChain => true
  | .version => true
  | .accept _ => true
  | _ => false

/-- The operations that leave the place where it is. -/
def stays : Operation → Bool
  | .eos => true
  | .rest => true
  | .look _ => true
  | .warn _ _ => true
  | _ => false

/-- What an operation may do at a place: it moves forward, past exactly what it took, and not at all
where it found nothing or was not to take anything. -/
structure Disciplined (op : Operation) (c : Cursor) : Prop where
  forward : c.index ≤ (perform op c).2.index
  taken : op.takes = true →
    (∃ s, (perform op c).1 = .found (some s) ∧
      (perform op c).2.consumed = c.consumed ++ s.toList ∧
      c.rest = s.toList ++ (perform op c).2.rest) ∨
      (perform op c).1 = .found none ∧ (perform op c).2 = c
  stayed : op.stays = true →
    (perform op c).2.consumed = c.consumed ∧ (perform op c).2.rest = c.rest

end Operation

theorem ahead_perform (op : Operation) (c : Cursor) : Ahead c (perform op c).2 := by
  cases op with
  | eos => exact .refl c
  | rest => exact .refl c
  | blanks => exact (Reads.blanks c).1
  | ident => exact (Reads.accept _ c).1
  | identChain => exact (Reads.identChain c).1
  | version => exact (Reads.version c).1
  | typedef => exact (Reads.typedef c).1
  | restOfLine => exact (Reads.restOfLine c).1
  | look mark => exact .refl c
  | accept mark => exact (Reads.accept _ c).1
  | warn word message =>
      rw [perform]
      cases Category.ofWord word with
      | ok category => exact .complain c category message
      | error fault => exact .refl c

theorem ahead_performAll (c : Cursor) (ops : List Operation) : Ahead c (performAll c ops) := by
  induction ops generalizing c with
  | nil => exact .refl c
  | cons op ops ih => exact (ahead_perform op c).trans (ih _)

theorem accept_cases (p : Pattern) (c : Cursor) :
    (∃ s, (accept p c).1 = some s ∧ (accept p c).2.consumed = c.consumed ++ s.toList ∧
      c.rest = s.toList ++ (accept p c).2.rest) ∨
      (accept p c).1 = none ∧ (accept p c).2 = c := by
  rw [accept]
  cases p c.rest with
  | none => exact Or.inr ⟨rfl, rfl⟩
  | some n =>
      refine Or.inl ⟨String.ofList (c.rest.take n), rfl, ?_, ?_⟩
      · rw [String.toList_ofList]
        rfl
      · rw [String.toList_ofList]
        exact (List.take_append_drop n c.rest).symm

theorem taken_accept {m : Scan Answer} {p : Pattern} (hm : m = .found <$> accept p) (c : Cursor) :
    (∃ s, (m c).1 = .found (some s) ∧ (m c).2.consumed = c.consumed ++ s.toList ∧
      c.rest = s.toList ++ (m c).2.rest) ∨ (m c).1 = .found none ∧ (m c).2 = c := by
  subst hm
  rcases accept_cases p c with ⟨s, hs, hconsumed, hrest⟩ | ⟨hnone, hstays⟩
  · exact Or.inl ⟨s, congrArg Answer.found hs, hconsumed, hrest⟩
  · exact Or.inr ⟨congrArg Answer.found hnone, hstays⟩

theorem disciplined_perform (op : Operation) (c : Cursor) : op.Disciplined c where
  forward := (ahead_perform op c).index_le
  taken htakes := by
    cases op with
    | ident => exact taken_accept rfl c
    | identChain => exact taken_accept rfl c
    | version => exact taken_accept rfl c
    | accept mark => exact taken_accept rfl c
    | _ => cases htakes
  stayed hstays := by
    cases op with
    | eos => exact ⟨rfl, rfl⟩
    | rest => exact ⟨rfl, rfl⟩
    | look mark => exact ⟨rfl, rfl⟩
    | warn word message =>
        rw [perform]
        cases Category.ofWord word <;> exact ⟨rfl, rfl⟩
    | _ => cases hstays

/-! ### Places in a text -/

/-- A place that divides a text into what lies before it and what comes next. -/
structure Within (text : List Char) (c : Cursor) : Prop where
  index_le : c.index ≤ text.length
  consumed_append_rest : c.consumed ++ c.rest = text
  rest_eq : c.rest = text.drop c.index

theorem within_of_ahead {text : List Char} {c : Cursor} (h : Ahead (.start text) c) :
    Within text c := by
  have hwhole : c.consumed ++ c.rest = text := h.text_eq
  refine ⟨?_, hwhole, ?_⟩
  · rw [← hwhole, List.length_append]
    exact Nat.le_add_right _ _
  · rw [← hwhole]
    exact List.drop_left.symm

theorem within_performAll (text : List Char) (ops : List Operation) :
    Within text (performAll (.start text) ops) :=
  within_of_ahead (ahead_performAll _ ops)

/-! ### Readings made of operations -/

variable {α β : Type}

/-- A reading that performs some operations one after another and does nothing else. Which one comes
next may hang on the answers so far. -/
inductive Performs : Scan α → Cursor → List Operation → Prop
  | pure (a : α) (c : Cursor) : Performs (Pure.pure a) c []
  | step {op : Operation} {f : Answer → Scan α} {c : Cursor} {later : List Operation}
      (h : Performs (f (perform op c).1) (perform op c).2 later) :
      Performs (perform op >>= f) c (op :: later)

namespace Performs

variable {m : Scan α} {c : Cursor} {ops later : List Operation}

theorem cursor_eq (h : Performs m c ops) : (m c).2 = performAll c ops := by
  induction h with
  | pure a c => rfl
  | step h ih => exact ih

theorem bind {f : α → Scan β} (hm : Performs m c ops)
    (hf : Performs (f (m c).1) (m c).2 later) : Performs (m >>= f) c (ops ++ later) := by
  induction hm with
  | pure a c => rwa [pure_bind]
  | step h ih =>
      rw [bind_assoc]
      exact .step (ih hf)

theorem map (f : α → β) (hm : Performs m c ops) : Performs (f <$> m) c ops := by
  have hbind := hm.bind (f := fun a => Pure.pure (f a)) (.pure (f (m c).1) (m c).2)
  rwa [List.append_nil, ← map_eq_pure_bind] at hbind

end Performs

/-- A reading that is made of operations, wherever it starts. -/
def Composed (m : Scan α) : Prop :=
  ∀ c, ∃ ops, Performs m c ops

namespace Composed

theorem pure (a : α) : Composed (Pure.pure a) :=
  fun c => ⟨[], .pure a c⟩

theorem bind {m : Scan α} {f : α → Scan β} (hm : Composed m) (hf : ∀ a, Composed (f a)) :
    Composed (m >>= f) := by
  intro c
  obtain ⟨ops, hops⟩ := hm c
  obtain ⟨later, hlater⟩ := hf (m c).1 (m c).2
  exact ⟨ops ++ later, hops.bind hlater⟩

theorem ite_bind {m n : Scan α} {f : α → Scan β} (cond : Prop) [Decidable cond] (hm : Composed m)
    (hn : Composed n) (hf : ∀ a, Composed (f a)) :
    Composed (if cond then m >>= f else n >>= f) := by
  split
  · exact hm.bind hf
  · exact hn.bind hf

theorem operation (op : Operation) (f : Answer → α) : Composed (f <$> perform op) := by
  intro c
  rw [map_eq_pure_bind]
  exact ⟨[op], .step (.pure (f (perform op c).1) (perform op c).2)⟩

theorem blanks : Composed Scan.blanks :=
  operation .blanks fun _ => ()

theorem identChain : Composed Scan.identChain :=
  operation .identChain Answer.found?

theorem version : Composed Scan.version :=
  operation .version Answer.found?

theorem typedef : Composed Scan.typedef :=
  operation .typedef Answer.found?

theorem restOfLine : Composed Scan.restOfLine :=
  operation .restOfLine Answer.written

theorem look (mark : Mark) : Composed (Scan.look mark.pattern) :=
  operation (.look mark) Answer.holds

theorem accept (mark : Mark) : Composed (Scan.accept mark.pattern) :=
  operation (.accept mark) Answer.found?

theorem complain (category : Category) (message : String) :
    Composed (Scan.complain category message) := by
  have heq : Scan.complain category message =
      (fun _ => ()) <$> perform (.warn category.word message) := by
    rw [perform, Category.ofWord_word]
    rfl
  rw [heq]
  exact operation _ _

end Composed

end ApiPages.Scan
