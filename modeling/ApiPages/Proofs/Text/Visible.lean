import ApiPages.Proofs.Text.Trim

/-!
# Texts that start with a visible character

A text of which nothing is trimmed at its front is kept as it is behind another one. So where two
texts are put together and the second one starts visibly, trimming takes the front of the first and
the end of the second.
-/

namespace ApiPages.Text

/-- A text that starts with something other than a blank. -/
def Visible (cs : List Char) : Prop :=
  ∃ c rest, cs = c :: rest ∧ isSpace c = false

theorem ne_newline_of_isSpace {c : Char} (h : isSpace c = false) : c ≠ '\n' := by
  rintro rfl
  exact absurd h (by decide)

namespace Visible

variable {cs : List Char} (h : Visible cs)
include h

theorem ne_nil : cs ≠ [] := by
  obtain ⟨c, rest, rfl, -⟩ := h
  exact List.cons_ne_nil c rest

theorem isBlank : Text.isBlank cs = false := by
  obtain ⟨c, rest, rfl, hc⟩ := h
  simp [Text.isBlank, hc]

theorem head?_append_ne (rest : List Char) : (cs ++ rest).head? ≠ some '\n' := by
  obtain ⟨c, cs, rfl, hc⟩ := h
  exact fun heq => ne_newline_of_isSpace hc (Option.some.inj heq)

theorem dropBreaks : Visible (Text.dropBreaks cs) := by
  obtain ⟨c, rest, rfl, hc⟩ := h
  exact ⟨c, Text.dropBreaks rest, dropBreaks_cons (ne_newline_of_isSpace hc) rest, hc⟩

end Visible

/-! ### Both ends of a text -/

def trimFront (cs : List Char) : List Char :=
  cs.dropWhile isSpace

def trimEnd (cs : List Char) : List Char :=
  dropTrailing isSpace cs

theorem trimFront_of_isBlank {cs : List Char} (h : isBlank cs = true) : trimFront cs = [] :=
  List.dropWhile_eq_nil_iff.mpr (List.all_eq_true.mp h)

theorem trimFront_ne_nil {cs : List Char} (h : isBlank cs = false) : trimFront cs ≠ [] := by
  intro hnil
  have hblank : isBlank cs = true := List.all_eq_true.mpr (List.dropWhile_eq_nil_iff.mp hnil)
  exact absurd (h.symm.trans hblank) Bool.false_ne_true

theorem visible_trimFront {cs : List Char} (h : isBlank cs = false) : Visible (trimFront cs) := by
  obtain ⟨c, rest, hcons⟩ := List.exists_cons_of_ne_nil (trimFront_ne_nil h)
  have hhead := List.head?_dropWhile_not isSpace cs
  rw [← trimFront, hcons] at hhead
  exact ⟨c, rest, hcons, by simpa using hhead⟩

theorem trimFront_of_visible {cs : List Char} (h : Visible cs) : trimFront cs = cs := by
  obtain ⟨c, rest, rfl, hc⟩ := h
  exact List.dropWhile_cons_of_neg (by simp [hc])

theorem visible_trimEnd {cs : List Char} (h : Visible cs) : Visible (trimEnd cs) := by
  obtain ⟨c, rest, rfl, hc⟩ := h
  have hfirst : dropTrailing isSpace [c] = [c] := dropTrailing_eq_self (by simpa using hc)
  exact ⟨c, trimEnd rest, dropTrailing_append_of_eq hfirst rest, hc⟩

/-- In front of a visible text nothing is trimmed but the front of what stands there. -/
theorem trim_append_visible {bs : List Char} (h : Visible bs) (as : List Char) :
    trim (as ++ bs) = trimFront as ++ trimEnd bs := by
  have hfront : trimFront (as ++ bs) = trimFront as ++ bs := by
    rw [trimFront, List.dropWhile_append]
    split
    · rename_i hempty
      rw [trimFront, List.isEmpty_iff.mp hempty, List.nil_append]
      exact trimFront_of_visible h
    · rfl
  calc trim (as ++ bs)
      = dropTrailing isSpace (trimFront as ++ bs) := congrArg (dropTrailing isSpace) hfront
    _ = trimFront as ++ trimEnd bs :=
        dropTrailing_append_of_ne_nil (visible_trimEnd h).ne_nil (trimFront as)

end ApiPages.Text
