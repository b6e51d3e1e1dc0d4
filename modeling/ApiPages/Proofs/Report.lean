import ApiPages.Proofs.Except
import ApiPages.Report
import Mathlib.Data.List.Forall2

/-!
# Reports that end well

A report is made of steps each of which may fail. It ends well if they all do, and what is known of
the result of a step can be used in the steps behind it.
-/

namespace ApiPages.Report

/-- A report without a fault, whose result satisfies `P`. -/
def Ends {α : Type} (P : α → Prop) (r : Report α) : Prop :=
  ∃ a notes, r = .ok a notes ∧ P a

variable {α β : Type}

theorem forM_warn (ws : List Warning) : ws.forM warn = .ok () (ws.map Note.warning) := by
  induction ws with
  | nil => rfl
  | cons w ws ih =>
      change (warn w >>= fun _ => ws.forM warn) = _
      rw [ih]
      rfl

theorem filterMap_map_warning (ws : List Warning) :
    (ws.map Note.warning).filterMap Note.warning? = ws := by
  rw [List.filterMap_map]
  exact List.filterMap_some

theorem exists_notes_of_bind {r : Report α} {f : α → Report β} {b : β} {notes : List Note}
    (h : (r >>= f) = .ok b notes) :
    ∃ a first later, r = .ok a first ∧ f a = .ok b later ∧ notes = first ++ later := by
  cases r with
  | fail fault => cases h
  | ok a first =>
      rw [ok_bind] at h
      cases hf : f a with
      | fail fault => simp [hf] at h
      | ok b' later =>
          rw [hf, after_ok] at h
          cases h
          exact ⟨a, first, later, rfl, hf, rfl⟩

theorem bind_eq_ok {r : Report α} {f : α → Report β} {b : β} {notes : List Note}
    (h : (r >>= f) = .ok b notes) : ∃ a first later, r = .ok a first ∧ f a = .ok b later := by
  obtain ⟨a, first, later, hr, hf, -⟩ := exists_notes_of_bind h
  exact ⟨a, first, later, hr, hf⟩

theorem ofExcept_eq_ok {x : Except Fault α} {a : α} {notes : List Note}
    (h : ofExcept x = .ok a notes) : x = .ok a := by
  cases x with
  | error fault => cases h
  | ok a' =>
      cases h
      rfl

theorem notes_of_ofExcept {x : Except Fault α} {a : α} {notes : List Note}
    (h : ofExcept x = .ok a notes) : notes = [] := by
  cases x with
  | error fault => cases h
  | ok a' =>
      cases h
      rfl

theorem notes_of_mapM {f : α → Report β} {g : α → List Note} {xs : List α} {ys : List β}
    {notes : List Note} (hf : ∀ x y notes, f x = .ok y notes → notes = g x)
    (h : xs.mapM f = .ok ys notes) : notes = xs.flatMap g := by
  induction xs generalizing ys notes with
  | nil =>
      cases h
      rfl
  | cons x xs ih =>
      rw [List.mapM_cons] at h
      obtain ⟨y, first, _, hy, hbehind, rfl⟩ := exists_notes_of_bind h
      obtain ⟨later, rest, _, hlater, hend, rfl⟩ := exists_notes_of_bind hbehind
      cases hend
      rw [List.flatMap_cons, hf x y first hy, ih hlater, List.append_nil]

theorem mapM_eq_ok {f : α → Report β} {xs : List α} {ys : List β} {notes : List Note}
    (h : xs.mapM f = .ok ys notes) :
    List.Forall₂ (fun x y => ∃ notes, f x = .ok y notes) xs ys := by
  induction xs generalizing ys notes with
  | nil =>
      cases h
      exact .nil
  | cons x xs ih =>
      rw [List.mapM_cons] at h
      obtain ⟨y, _, _, hy, h⟩ := bind_eq_ok h
      obtain ⟨later, _, _, hlater, h⟩ := bind_eq_ok h
      cases h
      exact .cons ⟨_, hy⟩ (ih hlater)

/-- A walk over what a walk has led to leads there again, with the same notes, if each of its steps
does. -/
theorem mapM_again {f : α → Report α} (hf : ∀ x y notes, f x = .ok y notes → f y = .ok y notes)
    {xs ys : List α} {notes : List Note} (h : xs.mapM f = .ok ys notes) :
    ys.mapM f = .ok ys notes := by
  induction xs generalizing ys notes with
  | nil =>
      cases h
      rfl
  | cons x xs ih =>
      rw [List.mapM_cons] at h
      obtain ⟨y, first, _, hy, hbehind, rfl⟩ := exists_notes_of_bind h
      obtain ⟨later, rest, _, hlater, hend, rfl⟩ := exists_notes_of_bind hbehind
      cases hend
      rw [List.mapM_cons, hf x y first hy, ok_bind, ih hlater]
      rfl

namespace Ends

variable {P : α → Prop} {Q : β → Prop}

theorem pure {a : α} (h : P a) : Ends P (Pure.pure a) :=
  ⟨a, [], rfl, h⟩

theorem bind {r : Report α} {f : α → Report β} (hr : Ends P r) (hf : ∀ a, P a → Ends Q (f a)) :
    Ends Q (r >>= f) := by
  obtain ⟨a, notes, rfl, hP⟩ := hr
  obtain ⟨b, later, hb, hQ⟩ := hf a hP
  exact ⟨b, notes ++ later, by rw [ok_bind, hb, after_ok], hQ⟩

theorem map {f : α → β} {r : Report α} (hr : Ends P r) (hf : ∀ a, P a → Q (f a)) :
    Ends Q (f <$> r) := by
  rw [map_eq_pure_bind]
  exact hr.bind fun a ha => pure (hf a ha)

theorem seq {r : Report Unit} {s : Report β} (hr : Ends (fun _ => True) r) (hs : Ends Q s) :
    Ends Q (r >>= fun _ => s) :=
  hr.bind fun _ _ => hs

theorem ofExcept {x : Except Fault α} (h : ∃ a, x = .ok a ∧ P a) : Ends P (Report.ofExcept x) := by
  obtain ⟨a, rfl, hP⟩ := h
  exact ⟨a, [], rfl, hP⟩

theorem progress (level : Level) (stage message : String) :
    Ends (fun _ => True) (Report.progress level stage message) :=
  ⟨(), _, rfl, trivial⟩

theorem forM_warn (ws : List Warning) : Ends (fun _ => True) (ws.forM warn) :=
  ⟨(), _, Report.forM_warn ws, trivial⟩

theorem mapM {f : α → Report β} {xs : List α} (h : ∀ x ∈ xs, Ends Q (f x)) :
    Ends (fun ys => ∀ y ∈ ys, Q y) (xs.mapM f) := by
  induction xs with
  | nil => exact pure fun _ hy => absurd hy List.not_mem_nil
  | cons x xs ih =>
      obtain ⟨hx, hxs⟩ := List.forall_mem_cons.mp h
      rw [List.mapM_cons]
      exact hx.bind fun y hy => (ih hxs).bind fun ys hys =>
        pure (List.forall_mem_cons.mpr ⟨hy, hys⟩)

/-- A walk over a list that gives back each item gives back the list. -/
theorem mapM_self {f : α → Report α} {xs : List α} (h : ∀ x ∈ xs, Ends (· = x) (f x)) :
    Ends (· = xs) (xs.mapM f) := by
  induction xs with
  | nil => exact pure rfl
  | cons x xs ih =>
      obtain ⟨hx, hxs⟩ := List.forall_mem_cons.mp h
      rw [List.mapM_cons]
      refine hx.bind fun y hy => (ih hxs).bind fun ys hys => pure ?_
      rw [hy, hys]

theorem foldlM {I : β → Prop} {f : β → α → Report β} {xs : List α} {b : β}
    (h : ∀ b x, x ∈ xs → I b → Ends I (f b x)) (hb : I b) : Ends I (xs.foldlM f b) := by
  induction xs generalizing b with
  | nil => exact pure hb
  | cons x xs ih =>
      rw [List.foldlM_cons]
      refine (h b x List.mem_cons_self hb).bind fun b' hb' => ih (fun b z hz => ?_) hb'
      exact h b z (List.mem_cons_of_mem _ hz)

end Ends

/-! ### Warnings, item by item -/

/-- What is told about some items in turn, where `R` has one warning or none for each. -/
inductive Told (R : α → Option Warning → Prop) : List α → List Warning → Prop
  | nil : Told R [] []
  | warned {x : α} {w : Warning} {xs : List α} {ws : List Warning} (h : R x (some w))
      (hrest : Told R xs ws) : Told R (x :: xs) (w :: ws)
  | passed {x : α} {xs : List α} {ws : List Warning} (h : R x none) (hrest : Told R xs ws) :
      Told R (x :: xs) ws

namespace Told

variable {R : α → Option Warning → Prop} {xs : List α} {ws ws' : List Warning}

theorem cons {x : α} {w : Option Warning} (h : R x w) (hrest : Told R xs ws) :
    Told R (x :: xs) (w.toList ++ ws) := by
  cases w with
  | none => exact .passed h hrest
  | some w => exact .warned h hrest

theorem filterMap {f : α → Option Warning} (h : ∀ x ∈ xs, R x (f x)) :
    Told R xs (xs.filterMap f) := by
  induction xs with
  | nil => exact .nil
  | cons x xs ih =>
      obtain ⟨hx, hxs⟩ := List.forall_mem_cons.mp h
      have htold := cons hx (ih hxs)
      rw [List.filterMap_cons]
      cases hf : f x with
      | none => rwa [hf] at htold
      | some w => rwa [hf] at htold

theorem unique (htold : Told R xs ws) (h : ∀ x ∈ xs, ∀ w w', R x w → R x w' → w = w')
    (htold' : Told R xs ws') : ws = ws' := by
  induction htold generalizing ws' with
  | nil =>
      cases htold'
      rfl
  | warned hx _ ih =>
      obtain ⟨hanswer, hrest⟩ := List.forall_mem_cons.mp h
      cases htold' with
      | warned hx' hrest' =>
          obtain rfl := Option.some.inj (hanswer _ _ hx hx')
          rw [ih hrest hrest']
      | passed hx' hrest' => cases hanswer _ _ hx hx'
  | passed hx _ ih =>
      obtain ⟨hanswer, hrest⟩ := List.forall_mem_cons.mp h
      cases htold' with
      | warned hx' hrest' => cases hanswer _ _ hx hx'
      | passed hx' hrest' => exact ih hrest hrest'

end Told

/-! ### Reports that end alike -/

/-- Both reports have a fault, or both have results that are related and the same notes in whatever
order. -/
inductive Agree (R : α → β → Prop) : Report α → Report β → Prop
  | fail (fault fault' : Fault) : Agree R (.fail fault) (.fail fault')
  | ok {a : α} {b : β} {notes notes' : List Note} (h : R a b) (hnotes : notes.Perm notes') :
      Agree R (.ok a notes) (.ok b notes')

namespace Agree

variable {γ δ : Type} {R : α → β → Prop} {S : γ → δ → Prop}

theorem pure {a : α} {b : β} (h : R a b) : Agree R (Pure.pure a) (Pure.pure b) :=
  .ok h .nil

theorem bind {r : Report α} {r' : Report β} {f : α → Report γ} {g : β → Report δ}
    (h : Agree R r r') (hf : ∀ a b, R a b → Agree S (f a) (g b)) :
    Agree S (r >>= f) (r' >>= g) := by
  cases h with
  | fail fault fault' => exact .fail fault fault'
  | @ok a b notes notes' hR hnotes =>
      have hnext := hf a b hR
      rw [ok_bind, ok_bind]
      generalize f a = s, g b = s' at hnext
      cases hnext with
      | fail fault fault' => exact .fail fault fault'
      | ok hS hlater => exact .ok hS (hnotes.append hlater)

theorem ofExcept {x : Except Fault α} {y : Except Fault β} (h : Except.Agree R x y) :
    Agree R (Report.ofExcept x) (Report.ofExcept y) := by
  cases h with
  | ok hR => exact .ok hR .nil
  | error fault fault' => exact .fail fault fault'

theorem forM_warn {ws ws' : List Warning} (h : ws.Perm ws') :
    Agree (fun _ _ => True) (ws.forM warn) (ws'.forM warn) := by
  rw [Report.forM_warn, Report.forM_warn]
  exact .ok trivial (h.map Note.warning)

theorem mapM {f : α → Report γ} {g : β → Report δ} {xs : List α} {ys : List β}
    (h : List.Forall₂ (fun x y => Agree S (f x) (g y)) xs ys) :
    Agree (List.Forall₂ S) (xs.mapM f) (ys.mapM g) := by
  induction h with
  | nil => exact pure .nil
  | cons hhead _ ih =>
      rw [List.mapM_cons, List.mapM_cons]
      exact hhead.bind fun a b hS => ih.bind fun as bs hrest => pure (.cons hS hrest)

end Agree

end ApiPages.Report
