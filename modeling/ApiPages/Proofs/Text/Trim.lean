import ApiPages.Text.Space
import ApiPages.Text.Split
import Mathlib.Data.List.DropRight

/-!
# Trimming and splitting

What trimming leaves alone: a text without blanks at its ends, and such texts put together. A line
break at the end of a text is always trimmed.
-/

namespace ApiPages.Text

theorem dropTrailing_concat {p : Char → Bool} {c : Char} (hc : p c = true) (cs : List Char) :
    dropTrailing p (cs ++ [c]) = dropTrailing p cs :=
  List.rdropWhile_concat_pos p cs c hc

theorem trim_concat {c : Char} (hc : isSpace c = true) (cs : List Char) :
    trim (cs ++ [c]) = trim cs := by
  have hleading : [c].dropWhile isSpace = [] := by simp [hc]
  rw [trim, trim, trimWhile, trimWhile, List.dropWhile_append, hleading]
  split
  · rename_i hempty
    rw [List.isEmpty_iff.mp hempty]
  · exact dropTrailing_concat hc _

theorem trim_append_break (cs : List Char) : trim (cs ++ ['\n']) = trim cs :=
  trim_concat rfl cs

theorem trim_cons {c : Char} (hc : isSpace c = true) (cs : List Char) :
    trim (c :: cs) = trim cs := by
  rw [trim, trim, trimWhile, trimWhile, List.dropWhile_cons_of_pos hc]

theorem trim_eq_self_iff {cs : List Char} :
    trim cs = cs ↔ cs.dropWhile isSpace = cs ∧ dropTrailing isSpace cs = cs := by
  constructor
  · intro htrim
    have htrailing : (trim cs).length ≤ (cs.dropWhile isSpace).length :=
      (List.rdropWhile_prefix isSpace _).length_le
    have hdrop : cs.dropWhile isSpace = cs := by
      refine (List.dropWhile_suffix isSpace).eq_of_length ?_
      have hleading := (List.dropWhile_sublist (l := cs) isSpace).length_le
      rw [htrim] at htrailing
      omega
    rw [trim, trimWhile, hdrop] at htrim
    exact ⟨hdrop, htrim⟩
  · rintro ⟨hdrop, htrailing⟩
    rw [trim, trimWhile, hdrop, htrailing]

theorem trim_eq_self_iff_ends {cs : List Char} :
    trim cs = cs ↔
      (∀ c ∈ cs.head?, isSpace c = false) ∧ ∀ c ∈ cs.getLast?, isSpace c = false := by
  have hleading : cs.dropWhile isSpace = cs ↔ ∀ c ∈ cs.head?, isSpace c = false := by
    cases cs <;> simp [List.dropWhile_eq_self_iff]
  have htrailing : cs.rdropWhile isSpace = cs ↔ ∀ c ∈ cs.getLast?, isSpace c = false := by
    rw [List.rdropWhile_eq_self_iff]
    rcases List.eq_nil_or_concat cs with rfl | ⟨cs, c, rfl⟩ <;> simp
  exact trim_eq_self_iff.trans (and_congr hleading htrailing)

theorem trim_sublist (cs : List Char) : (trim cs).Sublist cs :=
  (List.rdropWhile_prefix isSpace _).sublist.trans (List.dropWhile_sublist isSpace)

theorem trim_trim (cs : List Char) : trim (trim cs) = trim cs := by
  refine trim_eq_self_iff.mpr ⟨?_, List.rdropWhile_idempotent isSpace (cs.dropWhile isSpace)⟩
  have hfront : trim cs <+: cs.dropWhile isSpace := List.rdropWhile_prefix isSpace _
  rw [List.dropWhile_eq_self_iff]
  intro hpos
  rw [hfront.getElem hpos]
  exact List.dropWhile_eq_self_iff.mp (List.dropWhile_idempotent isSpace cs) _

theorem trim_append {as bs : List Char} (ha : trim as = as) (hb : trim bs = bs) (hne : as ≠ [])
    (hne' : bs ≠ []) (ds : List Char) : trim (as ++ ds ++ bs) = as ++ ds ++ bs := by
  obtain ⟨hfirst, -⟩ := trim_eq_self_iff_ends.mp ha
  obtain ⟨-, hlast⟩ := trim_eq_self_iff_ends.mp hb
  refine trim_eq_self_iff_ends.mpr ⟨?_, ?_⟩
  · rwa [List.append_assoc, List.head?_append_of_ne_nil _ hne]
  · rwa [List.getLast?_append_of_ne_nil _ hne']

theorem trim_toList_eq {s : String} (h : trimmed s = s) : trim s.toList = s.toList := by
  rw [← trimmed_toList, h]

theorem mem_of_mem_splitAt {sep : Char} {cs piece : List Char} (h : piece ∈ splitAt sep cs) :
    ∀ c ∈ piece, c ∈ cs := by
  induction cs generalizing piece with
  | nil =>
      obtain rfl := List.mem_singleton.mp h
      exact fun _ hc => hc
  | cons d cs ih =>
      rw [splitAt] at h
      split at h
      · rcases List.mem_cons.mp h with rfl | h
        · exact fun _ hc => absurd hc List.not_mem_nil
        · exact fun c hc => List.mem_cons_of_mem d (ih h c hc)
      · split at h
        · rename_i hnil
          exact absurd hnil (splitAt_ne_nil sep cs)
        · rename_i first pieces hpieces
          rw [hpieces] at ih
          rcases List.mem_cons.mp h with rfl | h
          · intro c hc
            rcases List.mem_cons.mp hc with rfl | hc
            · exact List.mem_cons_self
            · exact List.mem_cons_of_mem d (ih List.mem_cons_self c hc)
          · exact fun c hc => List.mem_cons_of_mem d (ih (List.mem_cons_of_mem first h) c hc)

/-! ### Final blanks -/

section Trailing

variable {p : Char → Bool} {as bs : List Char}

theorem dropTrailing_append_of_eq (h : dropTrailing p as = as) (bs : List Char) :
    dropTrailing p (as ++ bs) = as ++ dropTrailing p bs := by
  have hreverse : as.reverse.dropWhile p = as.reverse := List.reverse_eq_iff.mp h
  rw [dropTrailing, dropTrailing, List.reverse_append, List.dropWhile_append]
  split
  · rename_i hempty
    rw [hreverse, List.reverse_reverse, List.isEmpty_iff.mp hempty, List.reverse_nil,
      List.append_nil]
  · rw [List.reverse_append, List.reverse_reverse]

theorem dropTrailing_append_of_ne_nil (h : dropTrailing p bs ≠ []) (as : List Char) :
    dropTrailing p (as ++ bs) = as ++ dropTrailing p bs := by
  have hne : bs.reverse.dropWhile p ≠ [] := fun hnil => h (by rw [dropTrailing, hnil]; rfl)
  rw [dropTrailing, dropTrailing, List.reverse_append, List.dropWhile_append,
    if_neg (by simpa using hne), List.reverse_append, List.reverse_reverse]

theorem dropTrailing_eq_self (h : ∀ c ∈ as, p c = false) : dropTrailing p as = as :=
  List.rdropWhile_eq_self_iff.mpr fun hne => by simpa using h _ (List.getLast_mem hne)

end Trailing

/-- A text without the line breaks at its end. -/
def dropBreaks (cs : List Char) : List Char :=
  dropTrailing (· == '\n') cs

/-- Text that ends with one line break and not with several. -/
def BreaksOnce (cs : List Char) : Prop :=
  dropBreaks cs ++ ['\n'] = cs

instance (cs : List Char) : Decidable (BreaksOnce cs) :=
  inferInstanceAs (Decidable (_ = _))

theorem exists_dropBreaks_append (cs : List Char) :
    ∃ breaks, (∀ c ∈ breaks, c = '\n') ∧ dropBreaks cs ++ breaks = cs := by
  refine ⟨cs.rtakeWhile (· == '\n'), fun c hc => ?_, List.rdropWhile_append_rtakeWhile⟩
  have hbreak : (c == '\n') = true := List.mem_rtakeWhile_imp (p := (· == '\n')) hc
  exact beq_iff_eq.mp hbreak

theorem dropBreaks_cons {c : Char} (hc : c ≠ '\n') (cs : List Char) :
    dropBreaks (c :: cs) = c :: dropBreaks cs := by
  have hfirst : dropTrailing (· == '\n') [c] = [c] := dropTrailing_eq_self (by simpa using hc)
  exact dropTrailing_append_of_eq hfirst cs

theorem dropBreaks_eq_self {cs : List Char} (h : ∀ c ∈ cs.getLast?, isSpace c = false) :
    dropBreaks cs = cs := by
  refine List.rdropWhile_eq_self_iff.mpr fun hne hbreak => ?_
  have hlast := h _ (List.getLast_mem_getLast? hne)
  rw [beq_iff_eq.mp hbreak] at hlast
  exact absurd hlast (by decide)

theorem breaksOnce_append {cs : List Char} (h : dropBreaks cs ≠ []) (front : List Char) :
    BreaksOnce (front ++ cs) ↔ BreaksOnce cs := by
  have hdrop : dropBreaks (front ++ cs) = front ++ dropBreaks cs :=
    dropTrailing_append_of_ne_nil h front
  rw [BreaksOnce, BreaksOnce, hdrop, List.append_assoc, List.append_cancel_left_eq]

section Junction

variable {cs xs ys : List Char} (hxs : xs.head? ≠ some '\n') (hys : ys.head? ≠ some '\n')
include hxs hys

theorem breaksOnce_of_append_eq (h : dropBreaks cs ++ '\n' :: xs = cs ++ ys) :
    BreaksOnce cs := by
  obtain ⟨breaks, hbreaks, hcs⟩ := exists_dropBreaks_append cs
  have hwhole : dropBreaks cs ++ '\n' :: xs = dropBreaks cs ++ (breaks ++ ys) := by
    rw [h, ← List.append_assoc, hcs]
  have hrest : '\n' :: xs = breaks ++ ys := List.append_cancel_left hwhole
  match breaks with
  | [] => exact absurd (congrArg List.head? hrest).symm hys
  | [d] =>
      obtain rfl := hbreaks d List.mem_cons_self
      exact hcs
  | d :: e :: later =>
      obtain rfl := hbreaks e (List.mem_cons_of_mem d List.mem_cons_self)
      exact absurd (congrArg List.head? (List.cons.inj hrest).2) hxs

theorem dropBreaks_append_eq_iff :
    dropBreaks cs ++ '\n' :: xs = cs ++ ys ↔ BreaksOnce cs ∧ xs = ys := by
  constructor
  · intro h
    have hbreak : BreaksOnce cs := breaksOnce_of_append_eq hxs hys h
    have hwhole : (dropBreaks cs ++ ['\n']) ++ xs = (dropBreaks cs ++ ['\n']) ++ ys := by
      rw [List.append_assoc, List.singleton_append, h, hbreak]
    exact ⟨hbreak, List.append_cancel_left hwhole⟩
  · rintro ⟨hbreak, rfl⟩
    calc dropBreaks cs ++ '\n' :: xs
        = (dropBreaks cs ++ ['\n']) ++ xs := by rw [List.append_assoc, List.singleton_append]
      _ = cs ++ xs := by rw [hbreak]

end Junction

/-! ### Lines -/

theorem splitAt_of_not_mem {sep : Char} {piece : List Char} (h : sep ∉ piece) :
    splitAt sep piece = [piece] := by
  induction piece with
  | nil => rfl
  | cons c piece ih =>
      obtain ⟨hc, hpiece⟩ := List.ne_and_not_mem_of_not_mem_cons h
      rw [splitAt, if_neg (Ne.symm hc), ih hpiece]

theorem splitAt_append {sep : Char} {piece : List Char} (h : sep ∉ piece) (cs : List Char) :
    splitAt sep (piece ++ sep :: cs) = piece :: splitAt sep cs := by
  induction piece with
  | nil => rw [List.nil_append, splitAt, if_pos rfl]
  | cons c piece ih =>
      obtain ⟨hc, hpiece⟩ := List.ne_and_not_mem_of_not_mem_cons h
      rw [List.cons_append, splitAt, if_neg (Ne.symm hc), ih hpiece]

theorem lines_flatMap {ls : List (List Char)} (h : ∀ l ∈ ls, '\n' ∉ l) {last : List Char}
    (hlast : '\n' ∉ last) :
    lines (ls.flatMap (fun l => l ++ ['\n']) ++ last) = ls ++ [last] := by
  induction ls with
  | nil => exact splitAt_of_not_mem hlast
  | cons l ls ih =>
      obtain ⟨hl, hls⟩ := List.forall_mem_cons.mp h
      rw [List.flatMap_cons, List.append_assoc, List.append_assoc, List.singleton_append, lines,
        splitAt_append hl, ← lines, ih hls, List.cons_append]

theorem joinWith_cons (sep piece : List Char) (pieces : List (List Char)) :
    joinWith sep (piece :: pieces) = piece ++ pieces.flatMap fun p => sep ++ p := by
  induction pieces generalizing piece with
  | nil => rw [joinWith, List.intercalate_singleton, List.flatMap_nil, List.append_nil]
  | cons next pieces ih =>
      calc joinWith sep (piece :: next :: pieces)
          = piece ++ sep ++ joinWith sep (next :: pieces) := List.intercalate_cons_cons
        _ = piece ++ (next :: pieces).flatMap fun p => sep ++ p := by
            rw [ih, List.flatMap_cons, List.append_assoc, List.append_assoc]

theorem joinWith_append_cons (sep piece : List Char) (front pieces : List (List Char)) :
    joinWith sep (front ++ piece :: pieces) =
      joinWith sep (front ++ [piece]) ++ pieces.flatMap fun p => sep ++ p := by
  cases front with
  | nil =>
      rw [List.nil_append, List.nil_append, joinWith_cons, joinWith_cons, List.flatMap_nil,
        List.append_nil]
  | cons first front =>
      simp only [List.cons_append, joinWith_cons, List.flatMap_append, List.flatMap_cons,
        List.flatMap_nil, List.append_nil, List.append_assoc]

theorem unlines_singleton (l : List Char) : unlines [l] = l := by
  rw [unlines, joinWith, List.intercalate_singleton]

theorem unlines_cons_cons (l next : List Char) (ls : List (List Char)) :
    unlines (l :: next :: ls) = l ++ '\n' :: unlines (next :: ls) := by
  rw [unlines, joinWith, List.intercalate_cons_cons, List.append_assoc]
  rfl

theorem unlines_concat (ls : List (List Char)) (last : List Char) :
    unlines (ls ++ [last]) = ls.flatMap (fun l => l ++ ['\n']) ++ last := by
  induction ls with
  | nil => simp [unlines, joinWith]
  | cons l ls ih =>
      obtain ⟨next, later, hcons⟩ := List.exists_cons_of_ne_nil (List.concat_ne_nil last ls)
      rw [List.cons_append, hcons, unlines_cons_cons, ← hcons, ih, List.flatMap_cons,
        List.append_assoc, List.append_assoc]
      rfl

end ApiPages.Text
