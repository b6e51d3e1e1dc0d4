import ApiPages.Proofs.Comment.Kept
import ApiPages.Proofs.Text.Visible

/-!
# Tags that nobody knows

A comment with no tag that is registered has no records, and its whole text is documentation. Yet
the text is cut at these tags as at all others, and when the pieces are put together again each tag
has one line break in front of it, whether or not it had one before.
-/

namespace ApiPages.Comment

open Text (isSpace isTagName dropBreaks BreaksOnce Visible ne_newline_of_isSpace)

/-! ### Pieces of a text -/

/-- Puts pieces together, with one line break between any two. -/
def rejoin (pieces : List (List Char)) : List Char :=
  Text.unlines (pieces.map dropBreaks)

theorem Segment.visible_source (s : Segment) : Visible s.source :=
  ⟨'@', s.pattern ++ s.body, rfl, rfl⟩

theorem rejoin_singleton (p : List Char) : rejoin [p] = dropBreaks p := by
  rw [rejoin, List.map_singleton, Text.unlines_singleton]

theorem rejoin_cons_cons (p q : List Char) (ps : List (List Char)) :
    rejoin (p :: q :: ps) = dropBreaks p ++ '\n' :: rejoin (q :: ps) := by
  rw [rejoin, List.map_cons, List.map_cons, Text.unlines_cons_cons]
  rfl

theorem visible_rejoin {p : List Char} (h : Visible p) (ps : List (List Char)) :
    Visible (rejoin (p :: ps)) := by
  obtain ⟨c, cs, hp, hc⟩ := h.dropBreaks
  cases ps with
  | nil => exact ⟨c, cs, (rejoin_singleton p).trans hp, hc⟩
  | cons q ps => exact ⟨c, cs ++ '\n' :: rejoin (q :: ps), by rw [rejoin_cons_cons, hp]; rfl, hc⟩

theorem filter_rejoin (ps : List (List Char)) :
    (rejoin ps).filter (· ≠ '\n') = ps.flatten.filter (· ≠ '\n') := by
  have hdrop : ∀ p, (dropBreaks p).filter (· ≠ '\n') = p.filter (· ≠ '\n') := fun p => by
    obtain ⟨breaks, hbreaks, hp⟩ := Text.exists_dropBreaks_append p
    have hnone : breaks.filter (· ≠ '\n') = [] := by simpa using hbreaks
    conv_rhs => rw [← hp, List.filter_append, hnone, List.append_nil]
  induction ps with
  | nil => rfl
  | cons p ps ih =>
      rw [List.flatten_cons, List.filter_append, ← ih, ← hdrop p]
      cases ps with
      | nil => simp [rejoin, Text.unlines, Text.joinWith]
      | cons q ps => simp [rejoin_cons_cons]

section Last

variable {ps : List (List Char)} (hps : ∀ p ∈ ps, Visible p)
  (hlast : ∀ c ∈ ps.flatten.getLast?, isSpace c = false)
include hps hlast

theorem getLast?_rejoin : (rejoin ps).getLast? = ps.flatten.getLast? := by
  induction ps with
  | nil => rfl
  | cons p ps ih =>
      cases ps with
      | nil =>
          rw [List.flatten_singleton] at hlast ⊢
          rw [rejoin_singleton, Text.dropBreaks_eq_self hlast]
      | cons q ps =>
          have hlater : ∀ r ∈ q :: ps, Visible r := (List.forall_mem_cons.mp hps).2
          have hq : Visible q := hlater q List.mem_cons_self
          have hne : (q :: ps).flatten ≠ [] := by simp [hq.ne_nil]
          rw [List.flatten_cons, List.getLast?_append_of_ne_nil _ hne] at hlast ⊢
          rw [rejoin_cons_cons, ← List.singleton_append, ← List.append_assoc,
            List.getLast?_append_of_ne_nil _ (visible_rejoin hq ps).ne_nil, ih hlater hlast]

theorem trim_rejoin : Text.trim (rejoin ps) = rejoin ps := by
  refine Text.trim_eq_self_iff_ends.mpr ⟨?_, by rwa [getLast?_rejoin hps hlast]⟩
  cases ps with
  | nil => simp [rejoin, Text.unlines, Text.joinWith]
  | cons p ps =>
      obtain ⟨c, cs, hp, hc⟩ := visible_rejoin (hps p List.mem_cons_self) ps
      rw [hp]
      simpa using hc

end Last

/-- Of a text without blanks at its ends each piece is joined that is there at all. -/
theorem joinDocs_eq_rejoin {docs : List (List Char)} (hdocs : ∀ p ∈ docs, p ≠ [] → Visible p)
    (hlast : ∀ c ∈ docs.flatten.getLast?, isSpace c = false) :
    joinDocs docs = rejoin (docs.filter fun p => !p.isEmpty) := by
  have hkept : docs.filter (fun p => !Text.isBlank p) = docs.filter fun p => !p.isEmpty := by
    refine List.filter_congr fun p hp => ?_
    by_cases hne : p = []
    · rw [hne]
      rfl
    · obtain ⟨c, cs, rfl, hc⟩ := hdocs p hp hne
      simp [Text.isBlank, hc]
  have hvisible : ∀ p ∈ docs.filter fun p => !p.isEmpty, Visible p := by
    intro p hp
    obtain ⟨hp, hne⟩ := List.mem_filter.mp hp
    exact hdocs p hp (by simpa using hne)
  have htrimmed : (docs.filter fun p => !p.isEmpty).map (Text.trimWhile (· == '\n')) =
      (docs.filter fun p => !p.isEmpty).map dropBreaks := by
    refine List.map_congr_left fun p hp => ?_
    obtain ⟨c, cs, rfl, hc⟩ := hvisible p hp
    rw [Text.trimWhile, List.dropWhile_cons_of_neg (by simpa using ne_newline_of_isSpace hc),
      dropBreaks]
  have hflatten : (docs.filter fun p => !p.isEmpty).flatten = docs.flatten :=
    List.flatten_filter_not_isEmpty
  calc joinDocs docs
      = Text.trim (Text.unlines ((docs.filter fun p => !p.isEmpty).map
          (Text.trimWhile (· == '\n')))) := by rw [joinDocs, hkept]
    _ = Text.trim (rejoin (docs.filter fun p => !p.isEmpty)) := by rw [htrimmed, rejoin]
    _ = rejoin (docs.filter fun p => !p.isEmpty) := trim_rejoin hvisible (by rwa [hflatten])

/-- Putting the pieces together gives the text back exactly if one line break stands in front of
each tag. -/
theorem rejoin_eq_iff (front : List Char) {p : List Char} {later : List Segment} (hp : Visible p)
    (hlast : ∀ c ∈ (p ++ later.flatMap Segment.source).getLast?, isSpace c = false) :
    rejoin (p :: later.map Segment.source) = p ++ later.flatMap Segment.source ↔
      ∀ i ∈ starts (front ++ p).length later,
        BreaksOnce ((front ++ p ++ later.flatMap Segment.source).take i) := by
  induction later generalizing front p with
  | nil =>
      rw [List.flatMap_nil, List.append_nil] at hlast
      simp [starts, rejoin_singleton, Text.dropBreaks_eq_self hlast]
  | cons s later ih =>
      have hs : Visible s.source := s.visible_source
      rw [List.flatMap_cons] at hlast ⊢
      rw [List.getLast?_append_of_ne_nil _ (by simp [hs.ne_nil])] at hlast
      have hlater := ih (front ++ p) hs hlast
      have hhere : BreaksOnce (front ++ p) ↔ BreaksOnce p :=
        Text.breaksOnce_append hp.dropBreaks.ne_nil front
      have hrejoined := (visible_rejoin hs (later.map Segment.source)).head?_append_ne []
      rw [List.append_nil] at hrejoined
      rw [starts, List.forall_mem_cons, ← List.length_append, ← List.append_assoc (front ++ p),
        ← hlater, List.append_assoc (front ++ p), List.take_left, hhere, List.map_cons,
        rejoin_cons_cons]
      exact Text.dropBreaks_append_eq_iff hrejoined (hs.head?_append_ne _)

theorem le_of_mem_starts {later : List Segment} {n i : Nat} (h : i ∈ starts n later) : n ≤ i := by
  obtain ⟨j, rfl, -⟩ := (mem_starts_add (n := 0)).mp h
  exact Nat.le_add_right n j

theorem rejoin_source_eq_iff {text p : List Char} {later : List Segment} (hp : Visible p)
    (hjoined : p ++ later.flatMap Segment.source = text)
    (hlast : ∀ c ∈ text.getLast?, isSpace c = false) :
    rejoin (p :: later.map Segment.source) = text ↔
      ∀ i ∈ starts p.length later, i = 0 ∨ BreaksOnce (text.take i) := by
  rw [← hjoined] at hlast
  have hiff := rejoin_eq_iff [] hp hlast
  rw [List.nil_append, hjoined] at hiff
  refine hiff.trans (forall₂_congr fun i hi => (or_iff_right ?_).symm)
  have hpos : 0 < p.length := List.length_pos_iff.mpr hp.ne_nil
  have hle := le_of_mem_starts hi
  omega

theorem filter_source (later : List Segment) :
    (later.map Segment.source).filter (fun piece => !piece.isEmpty) = later.map Segment.source := by
  refine List.filter_eq_self.mpr fun piece hpiece => ?_
  obtain ⟨s, -, rfl⟩ := List.mem_map.mp hpiece
  rfl

section Cut

variable {text head : List Char} {later : List Segment} (hcut : Cut true text head later)
  (htrim : Text.trim text = text)
include hcut htrim

theorem Cut.joinDocs_eq : joinDocs (head :: later.map Segment.source) =
    rejoin ((head :: later.map Segment.source).filter fun piece => !piece.isEmpty) := by
  obtain ⟨hfirst, hlast⟩ := Text.trim_eq_self_iff_ends.mp htrim
  have hjoined : (head :: later.map Segment.source).flatten = text := by
    rw [List.flatten_cons, ← List.flatMap_def, hcut.joined]
  refine joinDocs_eq_rejoin (List.forall_mem_cons.mpr ⟨fun hne => ?_, ?_⟩) (by rwa [hjoined])
  · obtain ⟨c, cs, rfl⟩ := List.exists_cons_of_ne_nil hne
    refine ⟨c, cs, rfl, hfirst c ?_⟩
    rw [← hcut.joined]
    rfl
  · intro piece hpiece _
    obtain ⟨s, -, rfl⟩ := List.mem_map.mp hpiece
    exact s.visible_source

theorem Cut.rejoin_eq_iff :
    rejoin ((head :: later.map Segment.source).filter fun piece => !piece.isEmpty) = text ↔
      ∀ i, MarkerAt true text i → i = 0 ∨ BreaksOnce (text.take i) := by
  obtain ⟨hfirst, hlast⟩ := Text.trim_eq_self_iff_ends.mp htrim
  have hjoined := hcut.joined
  simp only [hcut.markers]
  cases head with
  | nil =>
      cases later with
      | nil => simpa [starts, rejoin, Text.unlines, Text.joinWith] using hjoined
      | cons s rest =>
          rw [List.filter_cons_of_neg (by simp), filter_source, List.map_cons, starts,
            List.forall_mem_cons, List.length_nil, Nat.zero_add]
          exact (rejoin_source_eq_iff s.visible_source hjoined hlast).trans
            (and_iff_right (Or.inl rfl)).symm
  | cons c cs =>
      have hvisible : Visible (c :: cs) := ⟨c, cs, rfl, hfirst c (by rw [← hjoined]; rfl)⟩
      rw [List.filter_cons_of_pos rfl, filter_source]
      exact rejoin_source_eq_iff hvisible hjoined hlast

end Cut

/-! ### Tags that nobody knows -/

/-- The name behind the marker at place `i`. -/
def nameAt (text : List Char) (i : Nat) : List Char :=
  (text.drop (i + 1)).takeWhile isTagName

/-- No tag of a text is registered. -/
def Unregistered (reg : Registry) (text : List Char) : Prop :=
  ∀ i, MarkerAt true text i → reg.findByPattern (String.ofList (nameAt text i)) = none

/-- The warning for a tag that nobody knows. -/
def unsupported (position : Option SourceRef) (s : Segment) : Warning where
  category := .tag
  message := "Unsupported tag: @" ++ String.ofList s.pattern
  position := position

theorem exists_pattern_eq_nameAt (b : Bool) (cs : List Char) :
    ∀ s ∈ (segments b cs).2, ∃ i, MarkerAt b cs i ∧ s.pattern = nameAt cs i := by
  fun_induction segments b cs with
  | case1 b => exact fun _ hs => absurd hs List.not_mem_nil
  | case2 b c cs hmark body later hsegments ih =>
      rw [hsegments] at ih
      have hspace : isSpace c = false := by
        simp only [Bool.and_eq_true, beq_iff_eq] at hmark
        rw [hmark.1.2]
        rfl
      refine List.forall_mem_cons.mpr ⟨⟨0, markerAt_cons_zero.mpr hmark, rfl⟩, fun s hs => ?_⟩
      obtain ⟨j, hj, hname⟩ := ih s hs
      have hdrop : (cs.takeWhile isTagName ++ cs.dropWhile isTagName).drop
            ((cs.takeWhile isTagName).length + (j + 1)) =
          (cs.dropWhile isTagName).drop (j + 1) :=
        List.drop_length_add_append (j + 1)
      rw [List.takeWhile_append_dropWhile] at hdrop
      refine ⟨(cs.takeWhile isTagName).length + j + 1, ?_, ?_⟩
      · rw [markerAt_cons_succ, hspace]
        exact (markerAt_dropWhile cs _).mpr ⟨j, rfl, hj⟩
      · rw [hname, nameAt, nameAt, List.drop_succ_cons, Nat.add_assoc, hdrop]
  | case3 b c cs hplain head later hsegments ih =>
      rw [hsegments] at ih
      intro s hs
      obtain ⟨i, hi, hname⟩ := ih s hs
      exact ⟨i + 1, markerAt_cons_succ.mpr hi, hname⟩

section Parse

variable {reg : Registry} {comment : String} (h : Unregistered reg (strip comment.toList))
include h

theorem mapM_route_unregistered (position : Option SourceRef) :
    (segments true (strip comment.toList)).2.mapM (route reg position) =
      .ok ((segments true (strip comment.toList)).2.map (routeUnknown position)) := by
  refine Except.mapM_eq_ok_map fun s hs => ?_
  obtain ⟨i, hi, hname⟩ := exists_pattern_eq_nameAt true _ s hs
  rw [route, hname, h i hi]

theorem parse_eq_rejoin (position : Option SourceRef) {head : List Char} {later : List Segment}
    (hsegments : segments true (strip comment.toList) = (head, later)) :
    parse reg comment position = .ok
      { doc := String.ofList
          (rejoin ((head :: later.map Segment.source).filter fun piece => !piece.isEmpty))
        occurrences := [] }
      ((later.map (unsupported position)).map Note.warning ++
        [Note.progress .debug "doc_parser" "Parsed 0 tag records"]) := by
  have hcut := cut_segments true (strip comment.toList)
  have htrim : Text.trim (strip comment.toList) = strip comment.toList := Text.trim_trim _
  have hrouted := mapM_route_unregistered h position
  rw [hsegments] at hcut hrouted
  have hdocs : (later.map (routeUnknown position)).flatMap Routed.docs =
      later.map Segment.source := by
    rw [List.flatMap_map, List.map_eq_flatMap]
    rfl
  have hwarnings : (later.map (routeUnknown position)).flatMap Routed.warnings =
      later.map (unsupported position) := by
    rw [List.flatMap_map, List.map_eq_flatMap]
    rfl
  have hrecords : (later.map (routeUnknown position)).flatMap Routed.records = [] := by
    simp [routeUnknown]
  rw [parse_eq_ok hsegments hrouted (by rw [hrecords]; rfl), hdocs, hcut.joinDocs_eq htrim,
    hwarnings, hrecords]
  rfl

/-- **Unregistered tags stay in the documentation.** A comment with no registered tag has no records
and a warning for each of its tags. Its documentation has all of its text, and each tag starts a
line there: it is the text as it was exactly if in front of each tag, but for one at the very
start, there was one line break. -/
theorem parse_unregistered (position : Option SourceRef) :
    ∃ head later parsed notes,
      Cut true (strip comment.toList) head later ∧
      parse reg comment position = .ok parsed notes ∧
      parsed.occurrences = [] ∧
      notes.filterMap Note.warning? = later.map (unsupported position) ∧
      parsed.doc.toList =
        rejoin ((head :: later.map Segment.source).filter fun piece => !piece.isEmpty) ∧
      parsed.doc.toList.filter (· ≠ '\n') = (strip comment.toList).filter (· ≠ '\n') ∧
      (parsed.doc = String.ofList (strip comment.toList) ↔
        ∀ i, MarkerAt true (strip comment.toList) i →
          i = 0 ∨ BreaksOnce ((strip comment.toList).take i)) := by
  have hcut := cut_segments true (strip comment.toList)
  have htrim : Text.trim (strip comment.toList) = strip comment.toList := Text.trim_trim _
  obtain ⟨head, later, hsegments⟩ :
      ∃ head later, segments true (strip comment.toList) = (head, later) := ⟨_, _, rfl⟩
  rw [hsegments] at hcut
  refine ⟨head, later, _, _, hcut, parse_eq_rejoin h position hsegments, rfl,
    filterMap_warning? _ _ _ _, String.toList_ofList, ?_, ?_⟩
  · rw [String.toList_ofList, filter_rejoin, List.flatten_filter_not_isEmpty, List.flatten_cons,
      ← List.flatMap_def, hcut.joined]
  · rw [String.ofList_inj]
    exact hcut.rejoin_eq_iff htrim

end Parse

theorem unregistered_ofTags {tags : List Tag} {reg : Registry}
    (hreg : Registry.ofTags tags = .ok reg) {text : List Char}
    (h : ∀ i < text.length, MarkerAt true text i →
      ∀ t ∈ tags, String.ofList (nameAt text i) ∉ t.patterns) : Unregistered reg text := by
  intro i hi
  have hlt : i < text.length := (List.getElem?_eq_some_iff.mp hi.1).1
  refine Option.eq_none_iff_forall_ne_some.mpr fun t ht => ?_
  obtain ⟨hmem, hpattern⟩ := (Registry.findByPattern_eq_some_iff hreg).mp ht
  exact h i hlt hi t hmem hpattern

theorem parse_nope_line :
    ∃ reg, Registry.ofTags Tag.standard = .ok reg ∧
      Unregistered reg (strip "Calls home.\n@nope here.".toList) ∧ ∃ parsed notes,
        parse reg "Calls home.\n@nope here." none = .ok parsed notes ∧
        parsed.occurrences = [] ∧ parsed.doc = "Calls home.\n@nope here." := by
  obtain ⟨reg, hreg⟩ : ∃ reg, Registry.ofTags Tag.standard = .ok reg := ⟨_, rfl⟩
  have hnone : Unregistered reg (strip "Calls home.\n@nope here.".toList) :=
    unregistered_ofTags hreg (by decide +kernel)
  obtain ⟨head, later, parsed, notes, -, hparse, hoccurrences, -, -, -, hdoc⟩ :=
    parse_unregistered hnone none
  refine ⟨reg, hreg, hnone, parsed, notes, hparse, hoccurrences, ?_⟩
  have hbreaks : ∀ i < (strip "Calls home.\n@nope here.".toList).length,
      MarkerAt true (strip "Calls home.\n@nope here.".toList) i →
        i = 0 ∨ BreaksOnce ((strip "Calls home.\n@nope here.".toList).take i) := by
    decide +kernel
  rw [hdoc.mpr fun i hi => hbreaks i (List.getElem?_eq_some_iff.mp hi.1).1 hi]
  decide +kernel

/-- A tag in the middle of a line is moved to the next line, and one behind an empty line is moved
up to the text in front of it. -/
theorem parse_moves_unregistered :
    ∃ reg, Registry.ofTags Tag.standard = .ok reg ∧
      Unregistered reg (strip "Mail @home is fine.\n\n@nope here.".toList) ∧ ∃ parsed notes,
        parse reg "Mail @home is fine.\n\n@nope here." none = .ok parsed notes ∧
        parsed.doc = "Mail \n@home is fine.\n@nope here." ∧
        parsed.doc ≠ String.ofList (strip "Mail @home is fine.\n\n@nope here.".toList) := by
  obtain ⟨reg, hreg⟩ : ∃ reg, Registry.ofTags Tag.standard = .ok reg := ⟨_, rfl⟩
  have hnone : Unregistered reg (strip "Mail @home is fine.\n\n@nope here.".toList) :=
    unregistered_ofTags hreg (by decide +kernel)
  have hsegments : segments true (strip "Mail @home is fine.\n\n@nope here.".toList) =
      ("Mail ".toList, [
        { pattern := "home".toList, body := " is fine.\n\n".toList },
        { pattern := "nope".toList, body := " here.".toList }]) := by
    decide +kernel
  exact ⟨reg, hreg, hnone, _, _, parse_eq_rejoin hnone none hsegments, by decide +kernel,
    by decide +kernel⟩

end ApiPages.Comment
