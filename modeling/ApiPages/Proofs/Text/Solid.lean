import ApiPages.Text.Space
import ApiPages.Text.Split

/-!
# The solid part of a text

What is left of a text once its blanks are taken out. Trimming, dropping blank pieces and joining
lines change only blanks, so none of them changes the solid part.
-/

namespace ApiPages.Text

/-- The characters of a text that are not blank. -/
def solid (cs : List Char) : List Char :=
  cs.filter fun c => !isSpace c

@[simp]
theorem solid_nil : solid [] = [] := rfl

@[simp]
theorem solid_append (as bs : List Char) : solid (as ++ bs) = solid as ++ solid bs :=
  List.filter_append ..

theorem solid_of_isBlank {cs : List Char} (h : isBlank cs = true) : solid cs = [] := by
  rw [solid, List.filter_eq_nil_iff]
  intro c hc
  simp [List.all_eq_true.mp h c hc]

/-! ### Trimming -/

section Trimming

variable {p : Char → Bool} (hp : ∀ c, p c = true → isSpace c = true)
include hp

theorem solid_dropWhile (cs : List Char) : solid (cs.dropWhile p) = solid cs := by
  have hfront : solid (cs.takeWhile p) = [] := by
    refine solid_of_isBlank (List.all_eq_true.mpr fun c hc => hp c ?_)
    exact List.all_eq_true.mp List.all_takeWhile c hc
  calc solid (cs.dropWhile p)
      = solid (cs.takeWhile p) ++ solid (cs.dropWhile p) := by rw [hfront, List.nil_append]
    _ = solid (cs.takeWhile p ++ cs.dropWhile p) := (solid_append _ _).symm
    _ = solid cs := by rw [List.takeWhile_append_dropWhile]

theorem solid_dropTrailing (cs : List Char) : solid (dropTrailing p cs) = solid cs := by
  have hreverse : ∀ ds : List Char, solid ds.reverse = (solid ds).reverse := fun ds =>
    List.filter_reverse
  calc solid (dropTrailing p cs)
      = (solid (cs.reverse.dropWhile p)).reverse := hreverse _
    _ = (solid cs.reverse).reverse := by rw [solid_dropWhile hp]
    _ = solid cs := by rw [hreverse, List.reverse_reverse]

theorem solid_trimWhile (cs : List Char) : solid (trimWhile p cs) = solid cs := by
  rw [trimWhile, solid_dropTrailing hp, solid_dropWhile hp]

end Trimming

theorem solid_trim (cs : List Char) : solid (trim cs) = solid cs :=
  solid_trimWhile (fun _ h => h) cs

theorem isSpace_of_eq_newline (c : Char) (h : (c == '\n') = true) : isSpace c = true := by
  rw [beq_iff_eq] at h
  subst h
  rfl

/-! ### Joining -/

theorem solid_unlines (ls : List (List Char)) : solid (unlines ls) = solid ls.flatten := by
  induction ls with
  | nil => rfl
  | cons first ls ih =>
      cases ls with
      | nil => rw [unlines, joinWith, List.intercalate_singleton, List.flatten_singleton]
      | cons second ls =>
          rw [unlines, joinWith] at ih ⊢
          rw [List.intercalate_cons_cons, solid_append, solid_append, ih, List.flatten_cons,
            solid_append]
          simp [solid, isSpace]

theorem solid_flatten_filter_isBlank (ls : List (List Char)) :
    solid (ls.filter fun cs => !isBlank cs).flatten = solid ls.flatten := by
  induction ls with
  | nil => rfl
  | cons cs ls ih =>
      by_cases hblank : isBlank cs = true
      · rw [List.filter_cons_of_neg (by simp [hblank]), ih, List.flatten_cons, solid_append,
          solid_of_isBlank hblank, List.nil_append]
      · rw [List.filter_cons_of_pos (by simp [hblank]), List.flatten_cons, List.flatten_cons,
          solid_append, solid_append, ih]

theorem solid_flatten_map {f : List Char → List Char} (hf : ∀ cs, solid (f cs) = solid cs)
    (ls : List (List Char)) : solid (ls.map f).flatten = solid ls.flatten := by
  induction ls with
  | nil => rfl
  | cons cs ls ih =>
      rw [List.map_cons, List.flatten_cons, List.flatten_cons, solid_append, solid_append, hf, ih]

end ApiPages.Text
