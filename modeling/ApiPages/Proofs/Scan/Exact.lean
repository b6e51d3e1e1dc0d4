import ApiPages.Proofs.Scan.Braces
import ApiPages.Proofs.Scan.Chain

/-!
# Reading what was written

A step takes a front of a text off if it stops right behind it, whatever stood before, and has
nothing to complain of. What was written piece by piece is read piece by piece, as long as each
piece ends where the next one says it does.
-/

namespace ApiPages

namespace Pattern

theorem run_append {p : Char → Bool} {front rest : List Char} (hfront : ∀ c ∈ front, p c = true)
    (hrest : rest.takeWhile p = []) : run p (front ++ rest) = some front.length := by
  rw [run, List.takeWhile_append_of_pos hfront, hrest, List.append_nil]

end Pattern

theorem Cursor.skip_zero (c : Cursor) : c.skip 0 = c := by
  simp [skip]

theorem Cursor.skip_skip (c : Cursor) (m n : Nat) : (c.skip m).skip n = c.skip (m + n) := by
  simp [skip, List.take_add, List.append_assoc]

/-! ### Steps of reading -/

namespace Scan

/-- A step that takes `front` off a text that goes on with `rest`, and finds `a` in it. -/
def Takes {α : Type} (m : Scan α) (front rest : List Char) (a : α) : Prop :=
  ∀ c : Cursor, c.rest = front ++ rest → m c = (a, c.skip front.length)

namespace Takes

variable {α β : Type} {m : Scan α} {f : α → Scan β} {front behind rest : List Char} {a : α} {b : β}

theorem pure (a : α) (rest : List Char) : Takes (Pure.pure a) [] rest a :=
  fun c _ => by rw [List.length_nil, Cursor.skip_zero]; rfl

theorem bind (hm : Takes m front (behind ++ rest) a) (hf : Takes (f a) behind rest b) :
    Takes (m >>= f) (front ++ behind) rest b := by
  intro c hc
  rw [List.append_assoc] at hc
  have hbehind : (c.skip front.length).rest = behind ++ rest := by
    rw [Cursor.skip, hc]
    exact List.drop_left
  have hlater := hf (c.skip front.length) hbehind
  rw [Cursor.skip_skip, ← List.length_append] at hlater
  change f (m c).1 (m c).2 = _
  rw [hm c hc]
  exact hlater

theorem look (hm : Takes m [] (front ++ rest) a) (hf : Takes (f a) front rest b) :
    Takes (m >>= f) front rest b :=
  hm.bind hf

theorem last (hm : Takes m front rest a) (hf : Takes (f a) [] rest b) :
    Takes (m >>= f) front rest b := by
  have htakes : Takes (m >>= f) (front ++ []) rest b := hm.bind hf
  rwa [List.append_nil] at htakes

theorem accept {p : Pattern} (h : p (front ++ rest) = some front.length) :
    Takes (Scan.accept p) front rest (some (String.ofList front)) := by
  intro c hc
  rw [Scan.accept, hc, h]
  dsimp only
  rw [List.take_left]

theorem accept_none {p : Pattern} (h : p rest = none) : Takes (Scan.accept p) [] rest none := by
  intro c hc
  rw [Scan.accept, hc, List.nil_append, h, List.length_nil, Cursor.skip_zero]

theorem char {p : Char → Bool} {c : Char} (hc : p c = true) (rest : List Char) :
    Takes (Scan.accept (.char p)) [c] rest (some (String.ofList [c])) :=
  accept (by simp [Pattern.char, hc])

theorem blanks (hfront : ∀ c ∈ front, c = ' ' ∨ c = '\t')
    (hrest : ∀ c ∈ rest.head?, c ≠ ' ' ∧ c ≠ '\t') : Takes Scan.blanks front rest () := by
  have hblank : ∀ c ∈ front, (c == ' ' || c == '\t') = true := fun c hc => by
    simpa using hfront c hc
  refine last (accept (Pattern.run_append hblank ?_)) (pure () rest)
  cases rest with
  | nil => rfl
  | cons c rest => simp [hrest c rfl]

theorem identChain (hfront : Pattern.IsChain front) (hrest : Pattern.Stops rest) :
    Takes Scan.identChain front rest (some (String.ofList front)) :=
  accept (Pattern.identChain_append hfront hrest)

theorem typedef {type : List Char} (h : Text.Balanced type) (rest : List Char) :
    Takes Scan.typedef ('{' :: type ++ ['}']) rest (some (String.ofList (Text.trim type))) := by
  intro c hc
  have hinner : c.rest = '{' :: (type ++ '}' :: rest) := by
    rw [hc]
    simp
  have hinterior : Cursor.interior 0 (type ++ '}' :: rest) = some type.length :=
    h.interior_append rest
  rw [Scan.typedef, hinner]
  simp only [hinterior]
  rw [List.take_left]
  simp

end Takes

end Scan

end ApiPages
