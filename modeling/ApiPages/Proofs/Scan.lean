import ApiPages.Cursor

/-!
# Reading forward

A step of reading moves the cursor forward over the text and changes nothing of it. Steps that do so
one by one do so one after another, and what is known of the result of each can be used behind it.
-/

namespace ApiPages

/-- Skipping a front of what comes next. -/
theorem Cursor.skip_length {c : Cursor} {front rest : List Char} (h : c.rest = front ++ rest) :
    c.skip front.length = { c with consumed := c.consumed ++ front, rest } := by
  rw [skip, h, List.take_left, List.drop_left]

/-- One cursor stands further on in the text of another, or at the same place. -/
def Cursor.Ahead (c after : Cursor) : Prop :=
  ∃ read, after.consumed = c.consumed ++ read ∧ c.rest = read ++ after.rest

namespace Cursor.Ahead

theorem refl (c : Cursor) : Ahead c c :=
  ⟨[], by simp, rfl⟩

theorem trans {a b c : Cursor} (hab : Ahead a b) (hbc : Ahead b c) : Ahead a c := by
  obtain ⟨first, hconsumed, hrest⟩ := hab
  obtain ⟨second, hconsumed', hrest'⟩ := hbc
  refine ⟨first ++ second, ?_, ?_⟩
  · rw [hconsumed', hconsumed, List.append_assoc]
  · rw [hrest, hrest', List.append_assoc]

theorem skip (c : Cursor) (n : Nat) : Ahead c (c.skip n) :=
  ⟨c.rest.take n, rfl, (List.take_append_drop n c.rest).symm⟩

theorem complain (c : Cursor) (category : Category) (message : String) :
    Ahead c (c.complain category message) :=
  refl c

theorem text_eq {c after : Cursor} (h : Ahead c after) : after.text = c.text := by
  obtain ⟨read, hconsumed, hrest⟩ := h
  rw [text, text, hconsumed, hrest, List.append_assoc]

theorem index_le {c after : Cursor} (h : Ahead c after) : c.index ≤ after.index := by
  obtain ⟨read, hconsumed, -⟩ := h
  rw [index, index, hconsumed, List.length_append]
  exact Nat.le_add_right _ _

end Cursor.Ahead

namespace Scan

/-- A step that reads forward wherever it starts, and whose results satisfy `P`. -/
def Reads {α : Type} (P : α → Prop) (m : Scan α) : Prop :=
  ∀ c, Cursor.Ahead c (m c).2 ∧ P (m c).1

namespace Reads

variable {α β : Type} {P : α → Prop} {Q : β → Prop} {m : Scan α}

theorem pure {a : α} (h : P a) : Reads P (Pure.pure a) :=
  fun c => ⟨.refl c, h⟩

theorem bind {f : α → Scan β} (hm : Reads P m) (hf : ∀ a, P a → Reads Q (f a)) :
    Reads Q (m >>= f) := by
  intro c
  obtain ⟨hahead, hP⟩ := hm c
  obtain ⟨hahead', hQ⟩ := hf _ hP (m c).2
  exact ⟨hahead.trans hahead', hQ⟩

theorem seq {R : α → Prop} {f : α → Scan β} (hm : Reads R m) (hf : ∀ a, Reads Q (f a)) :
    Reads Q (m >>= f) :=
  hm.bind fun a _ => hf a

theorem ite_bind {n : Scan α} {f : α → Scan β} (cond : Prop) [Decidable cond] (hm : Reads P m)
    (hn : Reads P n) (hf : ∀ a, P a → Reads Q (f a)) :
    Reads Q (if cond then m >>= f else n >>= f) := by
  split
  · exact hm.bind hf
  · exact hn.bind hf

theorem look (p : Pattern) : Reads (fun _ => True) (Scan.look p) :=
  fun c => ⟨.refl c, trivial⟩

theorem complain (category : Category) (message : String) :
    Reads (fun _ => True) (Scan.complain category message) :=
  fun c => ⟨.complain c category message, trivial⟩

theorem accept (p : Pattern) : Reads (fun _ => True) (Scan.accept p) := by
  intro c
  rw [Scan.accept]
  cases p c.rest with
  | none => exact ⟨.refl c, trivial⟩
  | some n => exact ⟨.skip c n, trivial⟩

theorem blanks : Reads (fun _ => True) Scan.blanks :=
  (accept _).seq fun _ => pure trivial

theorem identChain : Reads (fun found => ∀ name, found = some name → name ≠ "") Scan.identChain := by
  intro c
  refine ⟨(accept _ c).1, fun name hname => ?_⟩
  obtain ⟨n, hmatch, rfl, -⟩ := accept_eq_some (Prod.ext hname rfl)
  have hpos := Pattern.pos_of_identChain hmatch
  have hrest := Pattern.length_pos_of_identChain hmatch
  intro hempty
  have hnil : c.rest.take n = [] := by simpa using congrArg String.toList hempty
  have hlength := congrArg List.length hnil
  rw [List.length_take, List.length_nil] at hlength
  omega

theorem version : Reads (fun _ => True) Scan.version :=
  accept _

theorem restOfLine : Reads (fun _ => True) Scan.restOfLine :=
  (accept _).seq fun _ => pure trivial

theorem typedef : Reads (fun _ => True) Scan.typedef := by
  intro c
  rw [Scan.typedef]
  split
  · rename_i inner _
    split
    · exact ⟨.skip c _, trivial⟩
    · exact ⟨(Cursor.Ahead.complain c _ _).trans (.skip _ _), trivial⟩
  · exact ⟨.refl c, trivial⟩

end Reads

end Scan

end ApiPages
