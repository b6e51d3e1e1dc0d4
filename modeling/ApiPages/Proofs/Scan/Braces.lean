import ApiPages.Cursor
import Mathlib.Data.List.TakeWhile

/-!
# Braces

Behind an opened brace the interior of a text goes up to the first place where one more brace is
closed than were opened, which is where the braces of the text with that first one are paired. A
text has no interior if there is no such place.
-/

namespace ApiPages

namespace Text

/-- As many braces are closed as are opened, in whatever order. -/
def Paired (cs : List Char) : Prop :=
  cs.count '}' = cs.count '{'

/-- As many braces are closed as are opened, and none before it is opened. -/
def Balanced (cs : List Char) : Prop :=
  (∀ n, (cs.take n).count '}' ≤ (cs.take n).count '{') ∧ cs.count '}' = cs.count '{'

theorem balanced_iff {cs : List Char} : Balanced cs ↔
    (∀ n < cs.length, (cs.take n).count '}' ≤ (cs.take n).count '{') ∧
      cs.count '}' = cs.count '{' := by
  refine ⟨fun h => ⟨fun n _ => h.1 n, h.2⟩, fun ⟨hfront, htotal⟩ => ⟨fun n => ?_, htotal⟩⟩
  by_cases hn : n < cs.length
  · exact hfront n hn
  · rw [List.take_of_length_le (Nat.le_of_not_lt hn), htotal]

instance (cs : List Char) : Decidable (Balanced cs) :=
  decidable_of_iff' _ balanced_iff

/-- Nowhere are more than `depth` braces closed that were not opened before. -/
def Within (depth : Nat) (cs : List Char) : Prop :=
  ∀ n, (cs.take n).count '}' ≤ depth + (cs.take n).count '{'

theorem balanced_iff_within {cs : List Char} : Balanced cs ↔ Within 0 cs ∧ Paired cs := by
  simp [Balanced, Within, Paired]

section Within

variable {depth : Nat} {c : Char} {cs : List Char}

theorem within_nil : Within depth [] :=
  fun n => by simp

theorem within_cons_iff : Within depth (c :: cs) ↔ ∀ n,
    (cs.take n).count '}' + (if c = '}' then 1 else 0) ≤
      depth + ((cs.take n).count '{' + if c = '{' then 1 else 0) := by
  rw [Within, ← Nat.and_forall_add_one]
  simp [List.count_cons]

theorem within_open_iff : Within depth ('{' :: cs) ↔ Within (depth + 1) cs := by
  rw [within_cons_iff, Within]
  refine forall_congr' fun n => ?_
  simp
  omega

theorem within_close_iff : Within (depth + 1) ('}' :: cs) ↔ Within depth cs := by
  rw [within_cons_iff, Within]
  refine forall_congr' fun n => ?_
  simp
  omega

theorem not_within_close : ¬ Within 0 ('}' :: cs) := by
  rw [within_cons_iff]
  exact fun h => by simpa using h 0

theorem within_other_iff (hopen : c ≠ '{') (hclose : c ≠ '}') :
    Within depth (c :: cs) ↔ Within depth cs := by
  rw [within_cons_iff, Within]
  simp [hopen, hclose]

end Within

/-- The shortest front of a text, nothing apart, in which the braces are paired. -/
structure FirstPaired (cs front : List Char) : Prop where
  starts : front <+: cs
  ne_nil : front ≠ []
  paired : Paired front
  least : ∀ other, other <+: cs → other ≠ [] → Paired other → front.length ≤ other.length

/-- A brace is opened at the front of a text, and in no front of it the braces are paired. -/
structure Unclosed (cs : List Char) : Prop where
  opened : cs.head? = some '{'
  unpaired : ∀ front, front <+: cs → front ≠ [] → ¬ Paired front

section Opened

variable {inner : List Char} (hwithin : Within 0 inner)
include hwithin

theorem not_paired_of_within {front : List Char} (h : front <+: '{' :: inner)
    (hne : front ≠ []) : ¬ Paired front := by
  obtain ⟨c, cs, rfl⟩ := List.exists_cons_of_ne_nil hne
  obtain ⟨rfl, hcs⟩ := List.cons_prefix_cons.mp h
  have hcount := hwithin cs.length
  rw [← List.prefix_iff_eq_take.mp hcs] at hcount
  intro hpaired
  simp [Paired] at hpaired
  omega

theorem firstPaired_of_within (hpaired : Paired inner) (rest : List Char) :
    FirstPaired ('{' :: (inner ++ '}' :: rest)) ('{' :: inner ++ ['}']) where
  starts := ⟨rest, by simp⟩
  ne_nil := by simp
  paired := by
    rw [Paired] at hpaired ⊢
    simp [hpaired]
  least other hother hne hpaired' := by
    by_contra hshorter
    refine not_paired_of_within hwithin ?_ hne hpaired'
    refine List.prefix_of_prefix_length_le hother (List.prefix_append _ ('}' :: rest)) ?_
    simp at hshorter ⊢
    omega

end Opened

end Text

/-! ### Interiors -/

namespace Cursor

open Text (Within)

/-- A text that closes `depth` more braces than it opens, none of them too early, ends in front of
the brace that closes one more. -/
theorem interior_append {depth : Nat} {cs : List Char} (hwithin : Within depth cs)
    (htotal : cs.count '}' = depth + cs.count '{') (rest : List Char) :
    interior depth (cs ++ '}' :: rest) = some cs.length := by
  induction cs generalizing depth with
  | nil =>
      obtain rfl : depth = 0 := by simpa using htotal.symm
      rfl
  | cons c cs ih =>
      rw [List.cons_append]
      unfold interior
      by_cases hopen : c = '{'
      · subst hopen
        have hlater : cs.count '}' = depth + 1 + cs.count '{' := by
          simp at htotal
          omega
        rw [if_pos rfl, ih (Text.within_open_iff.mp hwithin) hlater]
        rfl
      · rw [if_neg hopen]
        by_cases hclose : c = '}'
        · subst hclose
          rw [if_pos rfl]
          cases depth with
          | zero => exact absurd hwithin Text.not_within_close
          | succ depth =>
              have hlater : cs.count '}' = depth + cs.count '{' := by
                simp at htotal
                omega
              dsimp only
              rw [ih (Text.within_close_iff.mp hwithin) hlater]
              rfl
        · have hlater : cs.count '}' = depth + cs.count '{' := by
            simpa [hopen, hclose] using htotal
          rw [if_neg hclose, ih ((Text.within_other_iff hopen hclose).mp hwithin) hlater]
          rfl

theorem exists_of_interior {depth n : Nat} {cs : List Char} (h : interior depth cs = some n) :
    ∃ inner rest, cs = inner ++ '}' :: rest ∧ inner.length = n ∧ Within depth inner ∧
      inner.count '}' = depth + inner.count '{' := by
  fun_induction interior depth cs generalizing n with
  | case1 => cases h
  | case2 depth cs ih =>
      obtain ⟨m, hm, rfl⟩ := Option.map_eq_some_iff.mp h
      obtain ⟨inner, rest, rfl, hlength, hwithin, htotal⟩ := ih hm
      refine ⟨'{' :: inner, rest, rfl, by simp [hlength], Text.within_open_iff.mpr hwithin, ?_⟩
      simp
      omega
  | case3 cs hopen =>
      cases h
      exact ⟨[], cs, rfl, rfl, Text.within_nil, rfl⟩
  | case4 cs depth hopen ih =>
      obtain ⟨m, hm, rfl⟩ := Option.map_eq_some_iff.mp h
      obtain ⟨inner, rest, rfl, hlength, hwithin, htotal⟩ := ih hm
      refine ⟨'}' :: inner, rest, rfl, by simp [hlength], Text.within_close_iff.mpr hwithin, ?_⟩
      simp
      omega
  | case5 depth c cs hopen hclose ih =>
      obtain ⟨m, hm, rfl⟩ := Option.map_eq_some_iff.mp h
      obtain ⟨inner, rest, rfl, hlength, hwithin, htotal⟩ := ih hm
      refine ⟨c :: inner, rest, rfl, by simp [hlength],
        (Text.within_other_iff hopen hclose).mpr hwithin, ?_⟩
      simpa [hopen, hclose] using htotal

theorem within_of_interior {depth : Nat} {cs : List Char} (h : interior depth cs = none) :
    Within depth cs := by
  fun_induction interior depth cs with
  | case1 => exact Text.within_nil
  | case2 depth cs ih => exact Text.within_open_iff.mpr (ih (Option.map_eq_none_iff.mp h))
  | case3 cs hopen => cases h
  | case4 cs depth hopen ih => exact Text.within_close_iff.mpr (ih (Option.map_eq_none_iff.mp h))
  | case5 depth c cs hopen hclose ih =>
      exact (Text.within_other_iff hopen hclose).mpr (ih (Option.map_eq_none_iff.mp h))

end Cursor

theorem Text.Balanced.interior_append {cs : List Char} (h : Balanced cs) (rest : List Char) :
    Cursor.interior 0 (cs ++ '}' :: rest) = some cs.length := by
  obtain ⟨hwithin, hpaired⟩ := balanced_iff_within.mp h
  exact Cursor.interior_append hwithin (hpaired.trans (Nat.zero_add _).symm) rest

end ApiPages
