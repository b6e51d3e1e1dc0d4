import ApiPages.Proofs.Comment.Decorated

/-!
# Comments between their delimiters

A comment has the text of what stands between its delimiters, and nothing of the delimiters is left.
Only where nothing stands between them is the star of the last one taken for a second star of the
first one, so that the slash behind it stays.
-/

namespace ApiPages

/-! ### Words within a line -/

namespace Text

section Words

variable {word xs ys : List Char} {c : Char}

theorem prefix_of_not_mem (h : word <+: xs ++ c :: ys) (hc : c ∉ word) : word <+: xs := by
  rcases List.prefix_or_prefix_of_prefix h (List.prefix_append xs _) with hword | ⟨later, rfl⟩
  · exact hword
  · rw [List.prefix_append_right_inj] at h
    cases later with
    | nil => exact ⟨[], by rw [List.append_nil, List.append_nil]⟩
    | cons d later =>
        obtain rfl := (List.cons_prefix_cons.mp h).1
        exact absurd (List.mem_append_right xs List.mem_cons_self) hc

theorem infix_of_not_mem (h : word <:+: xs ++ c :: ys) (hc : c ∉ word) :
    word <:+: xs ∨ word <:+: ys := by
  induction xs with
  | nil =>
      rcases List.infix_cons_iff.mp h with hfront | hlater
      · exact Or.inl (prefix_of_not_mem hfront hc).isInfix
      · exact Or.inr hlater
  | cons x xs ih =>
      rcases List.infix_cons_iff.mp h with hfront | hlater
      · exact Or.inl (prefix_of_not_mem hfront hc).isInfix
      · exact (ih hlater).imp_left List.infix_cons

end Words

theorem infix_unlines_of_mem {l : List Char} {ls : List (List Char)} (h : l ∈ ls) :
    l <:+: unlines ls := by
  induction ls with
  | nil => exact absurd h List.not_mem_nil
  | cons first ls ih =>
      cases ls with
      | nil =>
          obtain rfl := List.mem_singleton.mp h
          exact ⟨[], [], by rw [unlines_singleton, List.append_nil, List.nil_append]⟩
      | cons next ls =>
          rw [unlines_cons_cons]
          rcases List.mem_cons.mp h with rfl | h
          · exact (List.prefix_append l _).isInfix
          · have hlater : unlines (next :: ls) <:+ first ++ '\n' :: unlines (next :: ls) :=
              (List.suffix_cons '\n' _).trans (List.suffix_append first _)
            exact (ih h).trans hlater.isInfix

theorem exists_infix_of_infix_unlines {word : List Char} (hword : '\n' ∉ word) (hne : word ≠ [])
    {ls : List (List Char)} (h : word <:+: unlines ls) : ∃ l ∈ ls, word <:+: l := by
  induction ls with
  | nil => exact absurd (List.infix_nil.mp h) hne
  | cons l ls ih =>
      cases ls with
      | nil => exact ⟨l, List.mem_cons_self, by rwa [unlines_singleton] at h⟩
      | cons next ls =>
          rw [unlines_cons_cons] at h
          rcases infix_of_not_mem h hword with hfirst | hlater
          · exact ⟨l, List.mem_cons_self, hfirst⟩
          · obtain ⟨other, hmem, hother⟩ := ih hlater
            exact ⟨other, List.mem_cons_of_mem l hmem, hother⟩

theorem sublist_unlines_map {f : List Char → List Char} (hf : ∀ l, (f l).Sublist l)
    (ls : List (List Char)) : (unlines (ls.map f)).Sublist (unlines ls) := by
  induction ls with
  | nil => exact List.Sublist.refl []
  | cons l ls ih =>
      cases ls with
      | nil =>
          rw [List.map_singleton, unlines_singleton, unlines_singleton]
          exact hf l
      | cons next ls =>
          rw [List.map_cons, List.map_cons, unlines_cons_cons, unlines_cons_cons, ← List.map_cons]
          exact (hf l).append (ih.cons_cons '\n')

theorem trim_infix (cs : List Char) : trim cs <:+: cs :=
  (List.rdropWhile_prefix isSpace _).isInfix.trans (List.dropWhile_suffix isSpace).isInfix

end Text

namespace Comment

/-! ### The decoration of a line -/

/-- A line, and what is left of it without decoration: without its indentation, a star that belongs
to no delimiter, and one blank. -/
inductive Undecorated : List Char → List Char → Prop
  | blank {indent text : List Char} (hindent : IsIndent indent) :
      Undecorated (indent ++ '*' :: ' ' :: text) text
  | star {indent text : List Char} (hindent : IsIndent indent)
      (htext : ∀ c ∈ text.head?, c ≠ ' ' ∧ c ≠ '*' ∧ c ≠ '/') :
      Undecorated (indent ++ '*' :: text) text
  | plain {line : List Char} (hline : ∀ indent text, IsIndent indent →
      line = indent ++ '*' :: text → text.head? = some '*' ∨ text.head? = some '/') :
      Undecorated line line

theorem afterStar_eq_some {text : List Char}
    (h : ∀ c ∈ text.head?, c ≠ ' ' ∧ c ≠ '*' ∧ c ≠ '/') : afterStar ('*' :: text) = some text := by
  cases text with
  | nil => rfl
  | cons c cs =>
      obtain ⟨hblank, hstar, hslash⟩ := h c rfl
      simp [afterStar, afterStar.unlessDelimiter, hblank, hstar, hslash]

theorem afterStar_eq_none {text : List Char}
    (h : text.head? = some '*' ∨ text.head? = some '/') : afterStar ('*' :: text) = none := by
  cases text with
  | nil => simp at h
  | cons c cs =>
      rcases h with h | h
      all_goals
        obtain rfl := Option.some.inj h
        rfl

section Starred

variable {indent text : List Char} (hindent : IsIndent indent)
include hindent

theorem dropWhile_of_star : (indent ++ '*' :: text).dropWhile (fun c => c == ' ' || c == '\t') =
    '*' :: text :=
  hindent.dropWhile_append _

theorem undecorate_of_star : undecorate (indent ++ '*' :: text) =
    (afterStar ('*' :: text)).getD (indent ++ '*' :: text) := by
  rw [undecorate, dropWhile_of_star hindent]

theorem eq_of_star {indent' text' : List Char} (hindent' : IsIndent indent')
    (h : indent ++ '*' :: text = indent' ++ '*' :: text') : text = text' := by
  have hdrop : (indent ++ '*' :: text).dropWhile _ = '*' :: text := dropWhile_of_star hindent
  rw [h, dropWhile_of_star hindent'] at hdrop
  exact (List.cons.inj hdrop).2.symm

end Starred

theorem undecorate_of_not_star {line : List Char}
    (h : ¬ ∃ indent text, IsIndent indent ∧ line = indent ++ '*' :: text) :
    undecorate line = line := by
  rw [undecorate]
  cases hrest : line.dropWhile fun c => c == ' ' || c == '\t' with
  | nil => rfl
  | cons c rest =>
      have hc : c ≠ '*' := by
        rintro rfl
        refine h ⟨line.takeWhile fun c => c == ' ' || c == '\t', rest, fun c hc => ?_, ?_⟩
        · simpa using List.mem_takeWhile_imp hc
        · rw [← hrest, List.takeWhile_append_dropWhile]
      simp [afterStar, hc]

theorem Undecorated.undecorate_eq {line text : List Char} (h : Undecorated line text) :
    undecorate line = text := by
  cases h with
  | blank hindent =>
      rw [undecorate_of_star hindent]
      rfl
  | star hindent htext =>
      rw [undecorate_of_star hindent, afterStar_eq_some htext]
      rfl
  | plain hline =>
      by_cases hstar : ∃ indent text, IsIndent indent ∧ line = indent ++ '*' :: text
      · obtain ⟨indent, text, hindent, rfl⟩ := hstar
        rw [undecorate_of_star hindent, afterStar_eq_none (hline indent text hindent rfl)]
        rfl
      · exact undecorate_of_not_star hstar

theorem undecorated_undecorate (line : List Char) : Undecorated line (undecorate line) := by
  by_cases hstar : ∃ indent text, IsIndent indent ∧ line = indent ++ '*' :: text
  · obtain ⟨indent, text, hindent, rfl⟩ := hstar
    rw [undecorate_of_star hindent]
    by_cases hdelimiter : text.head? = some '*' ∨ text.head? = some '/'
    · rw [afterStar_eq_none hdelimiter]
      refine .plain fun indent' text' hindent' heq => ?_
      rwa [← eq_of_star hindent hindent' heq]
    · match text with
      | [] => exact .star hindent (by simp)
      | c :: cs =>
          by_cases hblank : c = ' '
          · subst hblank
            exact .blank hindent
          · have htext : ∀ d ∈ (c :: cs).head?, d ≠ ' ' ∧ d ≠ '*' ∧ d ≠ '/' := by
              rintro d ⟨⟩
              exact ⟨hblank, fun h => hdelimiter (Or.inl (congrArg some h)),
                fun h => hdelimiter (Or.inr (congrArg some h))⟩
            rw [afterStar_eq_some htext]
            exact .star hindent htext
  · rw [undecorate_of_not_star hstar]
    exact .plain fun indent text hindent heq => absurd ⟨indent, text, hindent, heq⟩ hstar

theorem undecorate_eq_iff {line text : List Char} :
    undecorate line = text ↔ Undecorated line text := by
  refine ⟨?_, Undecorated.undecorate_eq⟩
  rintro rfl
  exact undecorated_undecorate line

theorem Undecorated.suffix {line text : List Char} (h : Undecorated line text) : text <:+ line := by
  cases h with
  | @blank indent text hindent => exact ⟨indent ++ ['*', ' '], by simp⟩
  | @star indent text hindent htext => exact ⟨indent ++ ['*'], by simp⟩
  | plain hline => exact List.suffix_rfl

theorem undecorate_suffix (line : List Char) : undecorate line <:+ line :=
  (undecorated_undecorate line).suffix

/-! ### Delimiters -/

/-- The comment with a body, between a slash with a star and a star with a slash. -/
def delimited (body : List Char) : List Char :=
  ['/', '*'] ++ body ++ ['*', '/']

theorem trim_delimited (body : List Char) : Text.trim (delimited body) = delimited body :=
  Text.trim_append (by decide) (by decide) (List.cons_ne_nil _ _) (List.cons_ne_nil _ _) body

/-- The first delimiter is one star long if another character stands behind this star. -/
theorem dropOpening_delimited {body : List Char} (hbody : body ≠ [])
    (hstar : body.head? ≠ some '*') : dropOpening (delimited body) = body ++ ['*', '/'] := by
  obtain ⟨c, cs, rfl⟩ := List.exists_cons_of_ne_nil hbody
  have hc : c ≠ '*' := fun h => hstar (congrArg some h)
  simp [delimited, dropOpening, hc]

/-- The lines of a text without their decoration, and without the blanks around them. -/
def plainText (body : List Char) : List Char :=
  Text.trim (Text.unlines ((Text.lines body).map undecorate))

theorem strip_delimited_of_ne_nil {body : List Char} (hbody : body ≠ [])
    (hstar : body.head? ≠ some '*') : strip (delimited body) = plainText body := by
  rw [strip, trim_delimited, dropOpening_delimited hbody hstar, dropClosing_append]
  rfl

theorem plainText_sublist (body : List Char) : (plainText body).Sublist body := by
  have hlines := Text.sublist_unlines_map (fun l => (undecorate_suffix l).sublist)
    (Text.lines body)
  rw [Text.unlines_lines] at hlines
  exact (Text.trim_sublist _).trans hlines

theorem infix_of_infix_plainText {word body : List Char} (hword : '\n' ∉ word) (hne : word ≠ [])
    (h : word <:+: plainText body) : word <:+: body := by
  obtain ⟨l, hl, hpart⟩ :=
    Text.exists_infix_of_infix_unlines hword hne (h.trans (Text.trim_infix _))
  obtain ⟨line, hline, rfl⟩ := List.mem_map.mp hl
  have hbody := Text.infix_unlines_of_mem hline
  rw [Text.unlines_lines] at hbody
  exact (hpart.trans (undecorate_suffix line).isInfix).trans hbody

/-- **Nothing of its delimiters is left of a comment with something between them.** It has the text
of its lines without their decoration, none of whose characters comes from a delimiter, and no
delimiter comes up there. A comment with nothing between its delimiters is another matter. -/
theorem strip_between_delimiters {body : List Char} (hstar : body.head? ≠ some '*')
    (hend : ¬ ['*', '/'] <:+: body) :
    (∀ line text, undecorate line = text ↔ Undecorated line text) ∧
      (strip (delimited body) = plainText body ↔ body ≠ []) ∧
      (body ≠ [] → (strip (delimited body)).Sublist body ∧
        ¬ ['*', '/'] <:+: strip (delimited body)) := by
  refine ⟨fun _ _ => undecorate_eq_iff, ⟨?_, fun hbody => ?_⟩, fun hbody => ?_⟩
  · rintro heq rfl
    exact absurd heq (by decide +kernel)
  · exact strip_delimited_of_ne_nil hbody hstar
  · rw [strip_delimited_of_ne_nil hbody hstar]
    refine ⟨plainText_sublist body, fun hpart => hend ?_⟩
    exact infix_of_infix_plainText (by decide) (List.cons_ne_nil _ _) hpart

/-- Lines that start and end with what could be taken for a delimiter. -/
def slashedBody : List Char :=
  "/ a\n\t* b\n * * c\n ** d *".toList

theorem strip_slashedBody : slashedBody.head? ≠ some '*' ∧ ¬ ['*', '/'] <:+: slashedBody ∧
    strip "/*/ a\n\t* b\n * * c\n ** d **/".toList = "/ a\nb\n* c\n ** d *".toList := by
  have hstar : slashedBody.head? ≠ some '*' := by decide
  have hend : ¬ ['*', '/'] <:+: slashedBody := by decide +kernel
  have htext := (strip_between_delimiters hstar hend).2.1.mpr (by decide)
  refine ⟨hstar, hend, htext.trans ?_⟩
  decide +kernel

/-- The comment with nothing between its delimiters has the last slash for its text. -/
theorem strip_empty_keeps_slash : ([] : List Char).head? ≠ some '*' ∧ ¬ ['*', '/'] <:+: [] ∧
    delimited [] = "/**/".toList ∧ strip (delimited []) = ['/'] ∧ plainText [] = [] := by
  decide +kernel

end Comment

end ApiPages
