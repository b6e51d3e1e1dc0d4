import ApiPages.Proofs.Scan.Exact
import ApiPages.Proofs.Tag.Break
import ApiPages.Proofs.Tag.Reading

/-!
# Lists of names

Names that are written one after another on a line, with blanks between them, are read one by one.
Each of them moves the place on, so that the reading comes to an end, and it does not go beyond the
line.
-/

namespace ApiPages

open Scan (Takes ReadsChain)

theorem Scan.index_lt_of_identChain {c after : Cursor} {name : String}
    (h : identChain c = (some name, after)) : c.index < after.index := by
  obtain ⟨n, hn, -, rfl⟩ := accept_eq_some h
  have hpos := Pattern.pos_of_identChain hn
  have hle := Pattern.le_of_identChain hn
  simp only [Cursor.index, Cursor.skip, List.length_append, List.length_take]
  omega

namespace Tag

/-! ### Reading goes on and ends -/

/-- Names found one after another, each with the place moved on, and then none. -/
inductive ReadsNames : Cursor → List String → Cursor → Prop
  | done {c after : Cursor} (hnone : Scan.identChain (Scan.blanks c).2 = (none, after)) :
      ReadsNames c [] after
  | next {c after last : Cursor} {name : String} {names : List String}
      (hname : Scan.identChain (Scan.blanks c).2 = (some name, after))
      (hmoved : c.index < after.index) (hlater : ReadsNames after names last) :
      ReadsNames c (name :: names) last

theorem readsNames_scanNames (c : Cursor) : ReadsNames c (scanNames c).1 (scanNames c).2 := by
  fun_induction scanNames c with
  | case1 c after h => exact .done h
  | case2 c name after h _ _ names last hnames ih =>
      rw [hnames] at ih
      have hblanks := (Scan.Reads.blanks c).1.index_le
      exact .next h (hblanks.trans_lt (Scan.index_lt_of_identChain h)) ih

/-- There are no more names than characters they were read from. -/
theorem ReadsNames.index_le {c last : Cursor} {names : List String}
    (h : ReadsNames c names last) : c.index + names.length ≤ last.index := by
  induction h with
  | @done c after hnone =>
      have hahead := (Scan.Reads.blanks c).1.trans (Scan.Reads.identChain (Scan.blanks c).2).1
      rw [hnone] at hahead
      exact hahead.index_le
  | next hname hmoved hlater ih =>
      rw [List.length_cons]
      omega

/-! ### Names on a line -/

/-- A name and the blanks in front of it. -/
structure Listed where
  gap : List Char
  name : List Char

namespace Listed

def source (l : Listed) : List Char :=
  l.gap ++ l.name

/-- The records of names that are listed. -/
def records (ls : List Listed) : List Record :=
  ls.map fun l => mixinRecord (String.ofList l.name)

/-- A chain of names behind spaces or tabs. -/
structure Plain (l : Listed) : Prop where
  gap : ∀ c ∈ l.gap, c = ' ' ∨ c = '\t'
  name : Pattern.IsChain l.name

end Listed

/-- Blanks up to the end of a line or of the text. -/
structure EndsLine (blanks rest : List Char) : Prop where
  blanks : ∀ c ∈ blanks, c = ' ' ∨ c = '\t'
  rest : rest = [] ∨ ∃ later, rest = '\n' :: later

theorem stops_of_blank {c : Char} (h : c = ' ' ∨ c = '\t') (rest : List Char) :
    Pattern.Stops (c :: rest) := by
  rcases h with rfl | rfl
  all_goals
    rintro _ ⟨⟩
    decide

theorem EndsLine.stops {blanks rest : List Char} (h : EndsLine blanks rest) :
    Pattern.Stops (blanks ++ rest) := by
  cases blanks with
  | cons c blanks => exact stops_of_blank (h.blanks c List.mem_cons_self) _
  | nil =>
      rcases h.rest with rfl | ⟨later, rfl⟩
      · rintro _ ⟨⟩
      · rintro _ ⟨⟩
        decide

theorem EndsLine.identChain_eq_none {blanks rest : List Char} (h : EndsLine blanks rest) :
    Pattern.identChain rest = none := by
  rcases h.rest with rfl | ⟨later, rfl⟩
  · rfl
  · rw [Pattern.identChain, if_neg (by decide)]

theorem EndsLine.head_not_blank {blanks rest : List Char} (h : EndsLine blanks rest) :
    ∀ c ∈ rest.head?, c ≠ ' ' ∧ c ≠ '\t' := by
  rcases h.rest with rfl | ⟨later, rfl⟩
  · rintro _ ⟨⟩
  · rintro _ ⟨⟩
    decide

theorem Listed.Plain.head_not_blank {l : Listed} (h : l.Plain) (rest : List Char) :
    ∀ c ∈ (l.name ++ rest).head?, c ≠ ' ' ∧ c ≠ '\t' := by
  obtain ⟨d, ds, hname, hd⟩ := h.name.exists_cons
  rw [hname]
  rintro _ ⟨⟩
  constructor
  · rintro rfl
    exact absurd hd (by decide)
  · rintro rfl
    exact absurd hd (by decide)

theorem takes_scanNames_nil {blanks rest : List Char} (h : EndsLine blanks rest) :
    Takes scanNames blanks rest [] := by
  have hnext : Takes (Scan.blanks >>= fun _ => Scan.identChain) blanks rest none :=
    .last (.blanks h.blanks h.head_not_blank) (.accept_none h.identChain_eq_none)
  intro c hc
  have hread : Scan.identChain (Scan.blanks c).2 = (none, c.skip blanks.length) := hnext c hc
  rw [scanNames_of_none (by rw [hread]), hread]

theorem takes_scanNames_cons {l : Listed} (h : l.Plain) {behind rest : List Char}
    {names : List String} (hstops : Pattern.Stops (behind ++ rest))
    (hlater : Takes scanNames behind rest names) :
    Takes scanNames (l.source ++ behind) rest (String.ofList l.name :: names) := by
  have hnext : Takes (Scan.blanks >>= fun _ => Scan.identChain) l.source (behind ++ rest)
      (some (String.ofList l.name)) :=
    .bind (.blanks h.gap (h.head_not_blank _)) (.identChain h.name hstops)
  intro c hc
  rw [List.append_assoc] at hc
  have hread : Scan.identChain (Scan.blanks c).2 =
      (some (String.ofList l.name), c.skip l.source.length) := hnext c hc
  have hbehind : (c.skip l.source.length).rest = behind ++ rest := by
    rw [Cursor.skip_length hc]
  rw [scanNames_of_some (by rw [hread]), hread, hlater _ hbehind, Cursor.skip_skip,
    List.length_append]

section Line

variable {ls : List Listed} (hls : ∀ l ∈ ls, l.Plain) (hgaps : ∀ l ∈ ls, l.gap ≠ [])
  {blanks rest : List Char} (hend : EndsLine blanks rest)
include hls hgaps hend

theorem stops_line : Pattern.Stops (ls.flatMap Listed.source ++ blanks ++ rest) := by
  cases ls with
  | nil => exact hend.stops
  | cons l ls =>
      obtain ⟨c, gap, hgap⟩ := List.exists_cons_of_ne_nil (hgaps l List.mem_cons_self)
      have hc := (hls l List.mem_cons_self).gap c (by rw [hgap]; exact List.mem_cons_self)
      rw [List.flatMap_cons, Listed.source, hgap]
      exact stops_of_blank hc _

theorem takes_scanNames : Takes scanNames (ls.flatMap Listed.source ++ blanks) rest
    (ls.map fun l => String.ofList l.name) := by
  induction ls with
  | nil => exact takes_scanNames_nil hend
  | cons l ls ih =>
      obtain ⟨hl, hls⟩ := List.forall_mem_cons.mp hls
      have hgaps := (List.forall_mem_cons.mp hgaps).2
      rw [List.flatMap_cons, List.append_assoc]
      exact takes_scanNames_cons hl (stops_line hls hgaps hend) (ih hls hgaps)

end Line

theorem parse_mixins (position : Option SourceRef) (c : Cursor) :
    mixins.parse position c =
      (if (scanNames c).1 = [] then .nothing else .many ((scanNames c).1.map mixinRecord),
        (scanNames c).2) := by
  change (if (scanNames c).1.isEmpty then Yield.nothing
    else .many ((scanNames c).1.map mixinRecord), (scanNames c).2) = _
  simp only [List.isEmpty_iff]

/-- Names with all kinds of characters, behind nothing, a tab and two spaces. -/
def assortedNames : Listed × List Listed :=
  ({ gap := [], name := "Ext.util-9.$é".toList },
    [{ gap := ['\t'], name := "_a".toList }, { gap := [' ', ' '], name := "b-".toList }])

end Tag

end ApiPages
