import ApiPages.Proofs.Logged
import ApiPages.Proofs.Report
import ApiPages.Proofs.Scan
import ApiPages.Proofs.Scan.Braces

/-!
# Types in braces

A type in braces ends at the first place where as many braces are closed as are opened, however deep
they nest. If there is no such place the type is all that is left, and this is the one case that is
complained of.
-/

namespace ApiPages

/-- A log once it has been told all that was complained of up to a place. -/
def Log.hear (log : Log) (c : Cursor) (position : Option SourceRef) : Log :=
  log.add ((c.warnings position).map Note.warning)

theorem Log.warnings_hear (log : Log) (c : Cursor) (position : Option SourceRef) :
    (log.hear c position).warnings =
      log.warnings ++ (c.warnings position).filter fun w => log.enabled w.category := by
  rw [hear, warnings_add, Report.filterMap_map_warning]

theorem Log.warnings_hear_complain (log : Log) (c : Cursor) (category : Category)
    (message : String) (position : Option SourceRef) :
    (log.hear (c.complain category message) position).warnings =
      (log.hear c position).warnings ++
        if log.enabled category then [Warning.mk category message position] else [] := by
  rw [warnings_hear, warnings_hear, Cursor.complain, Cursor.warnings, List.map_append,
    List.filter_append, List.append_assoc, List.map_singleton, List.filter_singleton]
  cases log.enabled category <;> rfl

namespace Scan

open Text (Paired Balanced FirstPaired Unclosed)

/-- The warning of a type whose brace is never paired. -/
def unterminated (position : Option SourceRef) : Warning :=
  { category := .tagSyntax, message := "Unterminated type definition", position }

/-- What reading a type comes to: nothing where no brace is opened, else what stands between the
first brace and the one that pairs it, or else, with a complaint, all that is left. -/
inductive ReadsType (c : Cursor) : Option String → Cursor → Prop
  | nothing (h : c.rest.head? ≠ some '{') : ReadsType c none c
  | closed {type rest : List Char} (hrest : c.rest = '{' :: (type ++ '}' :: rest))
      (hfirst : FirstPaired c.rest ('{' :: type ++ ['}'])) :
      ReadsType c (some (String.ofList (Text.trim type)))
        { c with consumed := c.consumed ++ ('{' :: type ++ ['}']), rest }
  | unclosed {inner : List Char} (hrest : c.rest = '{' :: inner) (hunclosed : Unclosed c.rest) :
      ReadsType c (some (String.ofList (Text.trim inner)))
        { (c.complain .tagSyntax "Unterminated type definition") with
          consumed := c.text
          rest := [] }

variable {c : Cursor}

theorem typedef_of_not_open (h : c.rest.head? ≠ some '{') : typedef c = (none, c) := by
  rw [typedef]
  split
  · rename_i inner hrest
    exact absurd (congrArg List.head? hrest) h
  · rfl

theorem typedef_of_interior {type rest : List Char}
    (hrest : c.rest = '{' :: (type ++ '}' :: rest))
    (h : Cursor.interior 0 (type ++ '}' :: rest) = some type.length) :
    typedef c = (some (String.ofList (Text.trim type)),
      { c with consumed := c.consumed ++ ('{' :: type ++ ['}']), rest }) := by
  have hlength : type.length + 2 = ('{' :: type ++ ['}']).length := by simp
  have hsplit : c.rest = ('{' :: type ++ ['}']) ++ rest := by simp [hrest]
  rw [typedef, hrest]
  simp only [h]
  rw [List.take_left, hlength, Cursor.skip_length hsplit]

theorem typedef_of_no_interior {inner : List Char} (hrest : c.rest = '{' :: inner)
    (h : Cursor.interior 0 inner = none) :
    typedef c = (some (String.ofList (Text.trim inner)),
      { (c.complain .tagSyntax "Unterminated type definition") with
        consumed := c.text
        rest := [] }) := by
  have hskip : (c.complain .tagSyntax "Unterminated type definition").skip (inner.length + 1) =
      { (c.complain .tagSyntax "Unterminated type definition") with
        consumed := c.text
        rest := [] } := by
    simp [Cursor.skip, Cursor.complain, Cursor.text, hrest]
  rw [typedef, hrest]
  simp only [h]
  rw [hskip]

theorem readsType_typedef (c : Cursor) : ReadsType c (typedef c).1 (typedef c).2 := by
  by_cases hopen : c.rest.head? = some '{'
  · obtain ⟨inner, hrest⟩ := List.head?_eq_some_iff.mp hopen
    cases hinterior : Cursor.interior 0 inner with
    | none =>
        have hwithin := Cursor.within_of_interior hinterior
        rw [typedef_of_no_interior hrest hinterior]
        refine .unclosed hrest ⟨hopen, fun front hfront => ?_⟩
        rw [hrest] at hfront
        exact Text.not_paired_of_within hwithin hfront
    | some n =>
        obtain ⟨type, rest, rfl, rfl, hwithin, htotal⟩ := Cursor.exists_of_interior hinterior
        rw [typedef_of_interior hrest hinterior]
        refine .closed hrest ?_
        rw [hrest]
        exact Text.firstPaired_of_within hwithin (htotal.trans (Nat.zero_add _)) rest
  · rw [typedef_of_not_open hopen]
    exact .nothing hopen

theorem ReadsType.hear_of_closed {found : Option String} {after : Cursor}
    (h : ReadsType c found after) (hclosed : ¬ Unclosed c.rest) (log : Log)
    (position : Option SourceRef) : log.hear after position = log.hear c position := by
  cases h with
  | nothing => rfl
  | closed => rfl
  | unclosed hrest hunclosed => exact absurd hunclosed hclosed

theorem ReadsType.hear_of_unclosed {found : Option String} {after : Cursor}
    (h : ReadsType c found after) (hunclosed : Unclosed c.rest) (log : Log)
    (position : Option SourceRef) : (log.hear after position).warnings =
      (log.hear c position).warnings ++
        if log.enabled .tagSyntax then [unterminated position] else [] := by
  cases h with
  | nothing hopen => exact absurd hunclosed.opened hopen
  | closed hrest hfirst =>
      exact absurd hfirst.paired (hunclosed.unpaired _ hfirst.starts hfirst.ne_nil)
  | unclosed => exact log.warnings_hear_complain c _ _ position

/-- **A type ends where its braces are paired.** Reading a type comes to what `ReadsType` says of
any text and place: to what stands inside of the shortest front with paired braces, if there is one.
A log is told of nothing, or of one warning exactly if a brace is opened and never paired. So a type
that was written in braces is read as it was written, whatever stands behind it. -/
theorem typedef_to_paired_brace (c : Cursor) :
    ReadsType c (typedef c).1 (typedef c).2 ∧
      (∀ (log : Log) position,
        (¬ Unclosed c.rest → log.hear (typedef c).2 position = log.hear c position) ∧
        (Unclosed c.rest → (log.hear (typedef c).2 position).warnings =
          (log.hear c position).warnings ++
            if log.enabled .tagSyntax then [unterminated position] else [])) ∧
      ∀ type rest, Balanced type → c.rest = '{' :: type ++ '}' :: rest →
        typedef c = (some (String.ofList (Text.trim type)),
          { c with consumed := c.consumed ++ ('{' :: type ++ ['}']), rest }) := by
  have hreads := readsType_typedef c
  refine ⟨hreads, fun log position => ⟨fun h => ?_, fun h => ?_⟩, fun type rest htype hrest => ?_⟩
  · exact hreads.hear_of_closed h log position
  · exact hreads.hear_of_unclosed h log position
  · exact typedef_of_interior hrest (htype.interior_append rest)

/-- A type with braces inside and a brace behind it, read from the middle of a text. -/
theorem typedef_nested :
    Balanced " Map\x7bkey\x7d ".toList ∧
      typedef {
          consumed := "@param ".toList
          rest := "\x7b Map\x7bkey\x7d \x7d \x7d".toList } =
        (some "Map\x7bkey\x7d",
          { consumed := "@param \x7b Map\x7bkey\x7d \x7d".toList, rest := " \x7d".toList }) := by
  have htype : Balanced " Map\x7bkey\x7d ".toList := by decide +kernel
  have hread := (typedef_to_paired_brace {
    consumed := "@param ".toList
    rest := "\x7b Map\x7bkey\x7d \x7d \x7d".toList }).2.2 _ " \x7d".toList htype rfl
  refine ⟨htype, hread.trans ?_⟩
  rw [Prod.mk.injEq, Cursor.mk.injEq]
  decide +kernel

end Scan

end ApiPages
