import ApiPages.Comment
import ApiPages.Proofs.Text.Trim

/-!
# Comments with a star in front of each line

A comment that is written in the usual way, between its delimiters and with a star in front of each
line, has the text of those lines, whatever they say and however far they are indented.
-/

namespace ApiPages

theorem Text.trim_append_of_isBlank {blanks : List Char} (h : isBlank blanks = true)
    (cs : List Char) : trim (cs ++ blanks) = trim cs := by
  induction blanks generalizing cs with
  | nil => rw [List.append_nil]
  | cons c blanks ih =>
      obtain ⟨hc, hblanks⟩ := Bool.and_eq_true_iff.mp h
      rw [← List.singleton_append, ← List.append_assoc, ih hblanks, trim_concat hc]

/-- Whether the last line ends with a break makes no difference to a trimmed text. -/
theorem Text.trim_flatMap_break (ls : List (List Char)) :
    trim (ls.flatMap fun l => l ++ ['\n']) = trim (unlines ls) := by
  rcases List.eq_nil_or_concat ls with rfl | ⟨ls, last, rfl⟩
  · rfl
  · rw [List.concat_eq_append, unlines_concat, List.flatMap_append, List.flatMap_singleton,
      ← List.append_assoc, trim_append_break]

namespace Comment

/-- Nothing but what may stand in front of the star of a line. -/
def IsIndent (cs : List Char) : Prop :=
  ∀ c ∈ cs, c = ' ' ∨ c = '\t'

instance (cs : List Char) : Decidable (IsIndent cs) :=
  List.decidableBAll (fun c => c = ' ' ∨ c = '\t') cs

theorem IsIndent.isBlank {cs : List Char} (h : IsIndent cs) : Text.isBlank cs = true := by
  refine List.all_eq_true.mpr fun c hc => ?_
  rcases h c hc with rfl | rfl <;> rfl

theorem IsIndent.dropWhile_append {cs : List Char} (h : IsIndent cs) (rest : List Char) :
    (cs ++ rest).dropWhile (fun c => c == ' ' || c == '\t') =
      rest.dropWhile fun c => c == ' ' || c == '\t' :=
  List.dropWhile_append_of_pos fun c hc => by simpa using h c hc

/-- A line of a comment behind a star, and what stands in front of the star. -/
structure StarredLine where
  indent : List Char
  text : List Char

namespace StarredLine

def source (l : StarredLine) : List Char :=
  l.indent ++ '*' :: ' ' :: l.text

structure Plain (l : StarredLine) : Prop where
  indent : IsIndent l.indent
  oneLine : '\n' ∉ l.text

theorem plain_iff {l : StarredLine} : l.Plain ↔ IsIndent l.indent ∧ '\n' ∉ l.text :=
  ⟨fun h => ⟨h.indent, h.oneLine⟩, fun ⟨hindent, hline⟩ => ⟨hindent, hline⟩⟩

instance (l : StarredLine) : Decidable l.Plain :=
  decidable_of_iff' _ plain_iff

variable {l : StarredLine} (h : l.Plain)
include h

theorem undecorate_source : undecorate l.source = l.text := by
  rw [undecorate, source, h.indent.dropWhile_append]
  rfl

theorem oneLine_source : '\n' ∉ l.source := by
  have hindent : '\n' ∉ l.indent := fun hmem => by simpa using h.indent _ hmem
  simp [source, hindent, h.oneLine]

end StarredLine

/-- The comment that is written around some lines, with `closing` in front of its end. -/
def framed (ls : List StarredLine) (closing : List Char) : List Char :=
  ['/', '*', '*', '\n'] ++ ls.flatMap (fun l => l.source ++ ['\n']) ++ closing ++ ['*', '/']

theorem trim_framed (ls : List StarredLine) (closing : List Char) :
    Text.trim (framed ls closing) = framed ls closing := by
  have hframe : ∀ cs : List Char, Text.trim (['/', '*', '*'] ++ cs ++ ['*', '/']) =
      ['/', '*', '*'] ++ cs ++ ['*', '/'] :=
    Text.trim_append (by decide) (by decide) (List.cons_ne_nil _ _) (List.cons_ne_nil _ _)
  have hsplit : framed ls closing = ['/', '*', '*'] ++
      (['\n'] ++ ls.flatMap (fun l => l.source ++ ['\n']) ++ closing) ++ ['*', '/'] := by
    simp [framed]
  rw [hsplit]
  exact hframe _

theorem dropClosing_append (cs : List Char) : dropClosing (cs ++ ['*', '/']) = cs := by
  rw [dropClosing, if_pos (List.isSuffixOf_iff_suffix.mpr (List.suffix_append cs _))]
  simp

theorem undecorate_of_isIndent {cs : List Char} (h : IsIndent cs) : undecorate cs = cs := by
  have hdrop := h.dropWhile_append []
  rw [List.append_nil] at hdrop
  rw [undecorate, hdrop]
  rfl

section Framed

variable {ls : List StarredLine} (hls : ∀ l ∈ ls, l.Plain) {closing : List Char}
  (hclosing : IsIndent closing)
include hls hclosing

/-- Inside of the delimiters stand a line with nothing, the lines, and what ends the comment. -/
theorem lines_framed : Text.lines (dropClosing (dropOpening (framed ls closing))) =
    [] :: ls.map StarredLine.source ++ [closing] := by
  have hopening : dropOpening (framed ls closing) =
      ([] :: ls.map StarredLine.source).flatMap (fun l => l ++ ['\n']) ++ closing ++
        ['*', '/'] := by
    simp [framed, dropOpening, List.flatMap_map]
  have hlines : ∀ l ∈ [] :: ls.map StarredLine.source, '\n' ∉ l := by
    refine List.forall_mem_cons.mpr ⟨List.not_mem_nil, fun l hl => ?_⟩
    obtain ⟨line, hline, rfl⟩ := List.mem_map.mp hl
    exact StarredLine.oneLine_source (hls line hline)
  have hlast : '\n' ∉ closing := fun hmem => by simpa using hclosing _ hmem
  rw [hopening, dropClosing_append, Text.lines_flatMap hlines hlast]

theorem undecorate_framed :
    (Text.lines (dropClosing (dropOpening (framed ls closing)))).map undecorate =
      [] :: ls.map StarredLine.text ++ [closing] := by
  have htexts : (ls.map StarredLine.source).map undecorate = ls.map StarredLine.text := by
    rw [List.map_map]
    exact List.map_congr_left fun l hl => StarredLine.undecorate_source (hls l hl)
  rw [lines_framed hls hclosing, List.map_append, List.map_cons, htexts, List.map_singleton,
    undecorate_of_isIndent hclosing]
  rfl

theorem strip_framed : strip (framed ls closing) =
    Text.trim ((ls.map StarredLine.text).flatMap fun l => l ++ ['\n']) := by
  rw [strip, trim_framed, undecorate_framed hls hclosing, Text.unlines_concat,
    Text.trim_append_of_isBlank hclosing.isBlank, List.flatMap_cons, List.nil_append,
    List.singleton_append, Text.trim_cons rfl]

/-- **Comments have the text of their lines.** From a comment with a star in front of each line each
line loses its indentation, this one star and the blank behind it, whatever else it says, and the
text of the comment is that of its lines without the blanks around it. -/
theorem strip_decoration : (∀ l ∈ ls, undecorate l.source = l.text) ∧
    strip (framed ls closing) = Text.trim (Text.unlines (ls.map StarredLine.text)) := by
  refine ⟨fun l hl => StarredLine.undecorate_source (hls l hl), ?_⟩
  rw [strip_framed hls hclosing, Text.trim_flatMap_break]

end Framed

/-- Lines that look like decoration, like delimiters and like nothing at all. -/
def starryLines : List StarredLine := [
  { indent := [], text := [] },
  { indent := " \t".toList, text := "* a point in **bold**".toList },
  { indent := "\t".toList, text := "*/ no end".toList },
  { indent := " ".toList, text := "/** no start".toList },
  { indent := "   ".toList, text := "  * deep".toList },
  { indent := " ".toList, text := "  ".toList }]

theorem strip_starryLines : (∀ l ∈ starryLines, l.Plain) ∧ IsIndent "\t ".toList ∧
    strip (framed starryLines "\t ".toList) =
      "* a point in **bold**\n*/ no end\n/** no start\n  * deep".toList := by
  have hplain : ∀ l ∈ starryLines, l.Plain := by decide +kernel
  have hclosing : IsIndent "\t ".toList := by decide +kernel
  refine ⟨hplain, hclosing, (strip_decoration hplain hclosing).2.trans ?_⟩
  decide +kernel

/-- The comment that is written around some lines in the usual way. -/
def decorated (ls : List (List Char)) : List Char :=
  ['/', '*', '*', '\n'] ++ ls.flatMap (fun l => [' ', '*', ' '] ++ l ++ ['\n']) ++ [' ', '*', '/']

theorem strip_decorated {ls : List (List Char)} (h : ∀ l ∈ ls, '\n' ∉ l) :
    strip (decorated ls) = Text.trim (ls.flatMap fun l => l ++ ['\n']) := by
  have hindent : IsIndent [' '] := by decide
  let starred : List StarredLine := ls.map fun l => { indent := [' '], text := l }
  have hframed : decorated ls = framed starred [' '] := by
    simp [decorated, framed, starred, StarredLine.source, List.flatMap_map]
  have htexts : starred.map StarredLine.text = ls := by
    simp [starred, Function.comp_def]
  have hstarred : ∀ l ∈ starred, l.Plain := by
    intro l hl
    obtain ⟨text, htext, rfl⟩ := List.mem_map.mp hl
    exact ⟨hindent, h text htext⟩
  rw [hframed, strip_framed hstarred hindent, htexts]

end Comment

end ApiPages
