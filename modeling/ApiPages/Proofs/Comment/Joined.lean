import ApiPages.Proofs.Comment.Filed
import ApiPages.Proofs.Comment.Kept
import ApiPages.Proofs.Tag.Break

/-!
# Comments put together

A text that is put behind another one on a line of its own, and that starts with a tag, is cut off
again at that tag. The pieces of the first text are the same as before but for a line break behind
the last of them, which no standard tag takes notice of. So the two texts are read together as each
of them is read alone.
-/

namespace ApiPages

namespace Comment

open Text (isTagName isSpace)

/-! ### Texts without stars -/

theorem undecorate_of_plain {line : List Char} (h : '*' ∉ line) : undecorate line = line := by
  have hnone : afterStar (line.dropWhile fun c => c == ' ' || c == '\t') = none := by
    rw [afterStar.eq_def]
    split
    · rename_i cs hstar
      refine absurd ?_ h
      apply (List.dropWhile_suffix fun c => c == ' ' || c == '\t').subset
      rw [hstar]
      exact List.mem_cons_self
    · rfl
  rw [undecorate, hnone, Option.getD_none]

/-- A text without stars has no delimiters and no decoration. -/
theorem strip_of_plain {comment text : List Char} (htext : Text.trim comment = text)
    (htrim : Text.trim text = text) (h : '*' ∉ text) : strip comment = text := by
  have hopening : dropOpening text = text := by
    rw [dropOpening.eq_def]
    split
    · simp at h
    · simp at h
    · rfl
  have hclosing : dropClosing text = text := by
    rw [dropClosing, if_neg]
    intro hsuffix
    refine h ((List.isSuffixOf_iff_suffix.mp hsuffix).subset ?_)
    exact List.mem_cons_self
  have hlines : (Text.lines text).map undecorate = Text.lines text := by
    conv_rhs => rw [← List.map_id (Text.lines text)]
    refine List.map_congr_left fun line hline => undecorate_of_plain fun hstar => ?_
    exact h (Text.mem_of_mem_splitAt hline '*' hstar)
  rw [strip, htext, hopening, hclosing, hlines, Text.unlines_lines, htrim]

/-! ### Cutting -/

/-- A segment with or without a line break behind it. -/
structure Segment.Padded (s padded : Segment) : Prop where
  pattern : padded.pattern = s.pattern
  body : padded.body = s.body ∨ padded.body = s.body ++ ['\n']

theorem isTagName_break : isTagName '\n' = false := by decide

theorem startsName_append_break (cs rest : List Char) :
    startsName (cs ++ '\n' :: rest) = startsName cs := by
  cases cs <;> rfl

theorem takeWhile_append_break (cs rest : List Char) :
    (cs ++ '\n' :: rest).takeWhile isTagName = cs.takeWhile isTagName := by
  induction cs with
  | nil => simp [isTagName_break]
  | cons c cs ih => simp [List.takeWhile_cons, ih]

theorem dropWhile_append_break (cs rest : List Char) :
    (cs ++ '\n' :: rest).dropWhile isTagName = cs.dropWhile isTagName ++ '\n' :: rest := by
  induction cs with
  | nil => simp [isTagName_break]
  | cons c cs ih =>
      rw [List.cons_append, List.dropWhile_cons, List.dropWhile_cons, ih]
      split <;> rfl

theorem segments_mark {name : List Char} (hname : startsName name = true) :
    segments true ('@' :: name) = ([], {
      pattern := name.takeWhile isTagName
      body := (segments false (name.dropWhile isTagName)).1 } ::
        (segments false (name.dropWhile isTagName)).2) := by
  have hmark : (true && '@' == '@' && startsName name) = true := hname
  rw [segments, if_pos hmark]

/-- A text is cut off at a tag on a line of its own, and the line break stays with what comes
before it. -/
theorem exists_segments_append {name : List Char} (hname : startsName name = true) (b : Bool)
    (cs : List Char) :
    ∃ head later, segments b (cs ++ '\n' :: '@' :: name) =
        (head, later ++ (segments true ('@' :: name)).2) ∧
      (head = (segments b cs).1 ∨ head = (segments b cs).1 ++ ['\n']) ∧
      List.Forall₂ Segment.Padded (segments b cs).2 later := by
  fun_induction segments b cs with
  | case1 b =>
      have hbreak : ¬ (b && '\n' == '@' && startsName ('@' :: name)) = true := by simp
      have hspace : isSpace '\n' = true := rfl
      refine ⟨['\n'], [], ?_, Or.inr rfl, .nil⟩
      rw [List.nil_append, segments, if_neg hbreak, hspace, segments_mark hname]
      rfl
  | case2 b c cs hmark body later hsegments ih =>
      obtain ⟨body', later', hsegments', hbody, hlater⟩ := ih
      have hmark' : (b && c == '@' && startsName (cs ++ '\n' :: '@' :: name)) = true := by
        rwa [startsName_append_break]
      rw [hsegments] at hbody hlater
      refine ⟨[], { pattern := cs.takeWhile isTagName, body := body' } :: later', ?_, Or.inl rfl,
        .cons ⟨rfl, hbody⟩ hlater⟩
      rw [List.cons_append, segments, if_pos hmark', takeWhile_append_break,
        dropWhile_append_break, hsegments']
      rfl
  | case3 b c cs hplain head later hsegments ih =>
      obtain ⟨head', later', hsegments', hhead, hlater⟩ := ih
      have hplain' : ¬ (b && c == '@' && startsName (cs ++ '\n' :: '@' :: name)) = true := by
        rwa [startsName_append_break]
      rw [hsegments] at hhead hlater
      refine ⟨c :: head', later', ?_, ?_, hlater⟩
      · rw [List.cons_append, segments, if_neg hplain', hsegments']
      · exact hhead.imp (congrArg (c :: ·)) (congrArg (c :: ·))

/-- Behind a line break a text that starts with a tag is cut as it is alone, and so is the text in
front of it but for the break. -/
theorem exists_segments_joined {text name : List Char} (htext : Text.trim text = text)
    (hstar : '*' ∉ text) (hmark : Text.trim ('@' :: name) = '@' :: name)
    (hstar' : '*' ∉ '@' :: name) (hname : startsName name = true) :
    ∃ later, (segments true (strip (text ++ '\n' :: '@' :: name))).2 =
        later ++ (segments true (strip ('@' :: name))).2 ∧
      List.Forall₂ Segment.Padded (segments true (strip text)).2 later := by
  rw [strip_of_plain hmark hmark hstar', strip_of_plain htext htext hstar]
  cases text with
  | nil =>
      have hdrop : Text.trim ('\n' :: '@' :: name) = '@' :: name := hmark
      rw [List.nil_append, strip_of_plain hdrop hmark hstar']
      exact ⟨[], rfl, by rw [segments]; exact .nil⟩
  | cons c cs =>
      have hjoin := Text.trim_append htext hmark (List.cons_ne_nil _ _) (List.cons_ne_nil _ _)
        ['\n']
      rw [List.append_assoc, List.singleton_append] at hjoin
      have hplain : '*' ∉ c :: cs ++ '\n' :: '@' :: name := by
        simp only [List.mem_append, List.mem_cons] at hstar hstar' ⊢
        rintro (h | h | h)
        · exact hstar h
        · exact absurd h (by decide)
        · exact hstar' h
      rw [strip_of_plain hjoin hjoin hplain]
      obtain ⟨head, later, hsegments, -, hlater⟩ := exists_segments_append hname true (c :: cs)
      exact ⟨later, by rw [hsegments], hlater⟩

/-! ### Routing -/

section Routing

theorem routeTo_padded {t : Tag} (ht : t.IgnoresBreak) {position : Option SourceRef}
    {pattern body : List Char} {routed : Routed}
    (hroute : routeTo t position ⟨pattern, body⟩ = .ok routed) :
    ∃ routed', routeTo t position ⟨pattern, body ++ ['\n']⟩ = .ok routed' ∧
      routed'.records = routed.records ∧ routed'.warnings = routed.warnings := by
  obtain ⟨hyield, hcursor⟩ := ht position _ _ (Cursor.padded_start body)
  cases hparse : t.parse position (Cursor.start body) with
  | mk yield cursor =>
      cases hparse' : t.parse position (Cursor.start (body ++ ['\n'])) with
      | mk yield' cursor' =>
          rw [hparse, hparse'] at hyield hcursor
          obtain rfl : yield' = yield := hyield
          have hwarnings : cursor'.warnings position = cursor.warnings position := by
            rw [Cursor.warnings, Cursor.warnings, hcursor.complaints]
          rw [routeTo, hparse] at hroute
          rw [routeTo, hparse']
          dsimp only at hroute ⊢
          rw [hcursor.trim_rest, hwarnings]
          split at hroute
          · rename_i htagged
            rw [if_pos htagged]
            split <;> rename_i hawaits
            · rw [if_pos hawaits] at hroute
              obtain rfl := Except.ok.inj hroute
              exact ⟨_, rfl, rfl, rfl⟩
            · rw [if_neg hawaits] at hroute
              obtain rfl := Except.ok.inj hroute
              exact ⟨_, rfl, rfl, rfl⟩
          · cases hroute

variable {reg : Registry} (hreg : ∀ pattern t, reg.findByPattern pattern = some t → t.IgnoresBreak)
  {position : Option SourceRef}
include hreg

theorem route_padded {s padded : Segment} (h : s.Padded padded) {routed : Routed}
    (hroute : route reg position s = .ok routed) :
    ∃ routed', route reg position padded = .ok routed' ∧ routed'.records = routed.records ∧
      routed'.warnings = routed.warnings := by
  obtain ⟨pattern, body⟩ := s
  obtain ⟨pattern', body'⟩ := padded
  obtain rfl : pattern' = pattern := h.pattern
  rcases h.body with rfl | rfl
  · exact ⟨routed, hroute, rfl, rfl⟩
  · rw [route] at hroute ⊢
    cases hfind : reg.findByPattern (String.ofList pattern') with
    | none =>
        simp only [hfind] at hroute ⊢
        obtain rfl := Except.ok.inj hroute
        exact ⟨_, rfl, rfl, rfl⟩
    | some t =>
        simp only [hfind] at hroute ⊢
        exact routeTo_padded (hreg _ t hfind) hroute

theorem mapM_route_padded {later padded : List Segment}
    (h : List.Forall₂ Segment.Padded later padded) {routed : List Routed}
    (hrouted : later.mapM (route reg position) = .ok routed) :
    ∃ routed', padded.mapM (route reg position) = .ok routed' ∧
      routed'.flatMap Routed.records = routed.flatMap Routed.records ∧
      routed'.flatMap Routed.warnings = routed.flatMap Routed.warnings := by
  induction h generalizing routed with
  | nil => exact ⟨routed, hrouted, rfl, rfl⟩
  | @cons s s' later padded hs _ ih =>
      rw [List.mapM_cons] at hrouted
      obtain ⟨part, hpart, hrouted⟩ := Except.bind_eq_ok_iff.mp hrouted
      obtain ⟨parts, hparts, hrouted⟩ := Except.bind_eq_ok_iff.mp hrouted
      obtain rfl := Except.ok.inj hrouted
      obtain ⟨part', hpart', hrecords, hwarnings⟩ := route_padded hreg hs hpart
      obtain ⟨parts', hparts', hrecords', hwarnings'⟩ := ih hparts
      refine ⟨part' :: parts', ?_, ?_, ?_⟩
      · rw [List.mapM_cons, hpart', hparts']
        rfl
      · rw [List.flatMap_cons, List.flatMap_cons, hrecords, hrecords']
      · rw [List.flatMap_cons, List.flatMap_cons, hwarnings, hwarnings']

/-- Behind a line break a text that starts with a tag routes as it does alone, and of the text in
front of it the records and warnings stay. -/
theorem mapM_route_joined {text name : List Char} (htext : Text.trim text = text)
    (hstar : '*' ∉ text) (hmark : Text.trim ('@' :: name) = '@' :: name)
    (hstar' : '*' ∉ '@' :: name) (hname : startsName name = true) {routed routed' : List Routed}
    (hrouted : (segments true (strip text)).2.mapM (route reg position) = .ok routed)
    (hrouted' :
      (segments true (strip ('@' :: name))).2.mapM (route reg position) = .ok routed') :
    ∃ padded, (segments true (strip (text ++ '\n' :: '@' :: name))).2.mapM (route reg position) =
        .ok (padded ++ routed') ∧
      padded.flatMap Routed.records = routed.flatMap Routed.records ∧
      padded.flatMap Routed.warnings = routed.flatMap Routed.warnings := by
  obtain ⟨later, hsegments, hpadded⟩ := exists_segments_joined htext hstar hmark hstar' hname
  obtain ⟨padded, hroutedPadded, hsame⟩ := mapM_route_padded hreg hpadded hrouted
  refine ⟨padded, ?_, hsame⟩
  rw [hsegments, List.mapM_append, hroutedPadded, hrouted']
  rfl

end Routing

theorem ignoresBreak_standard {reg : Registry} (h : Registry.ofTags Tag.standard = .ok reg)
    (pattern : String) (t : Tag) (hfind : reg.findByPattern pattern = some t) : t.IgnoresBreak :=
  Tag.ignoresBreak_standard t (Registry.mem_of_findByPattern h hfind)

/-- **A tag is read by itself.** With the standard tags, two texts without stars, the second of
which starts with a tag, are read together as each is read alone, whatever is wrong with them: the
records and warnings of the first come first, and so do its names. -/
theorem parse_joined {reg : Registry} (hreg : Registry.ofTags Tag.standard = .ok reg)
    {first second : String} (hfirst : Text.trimmed first = first)
    (hsecond : Text.trimmed second = second) (hstar : '*' ∉ first.toList)
    (hstar' : '*' ∉ second.toList) {letter : Char} {rest : List Char}
    (hmark : second.toList = '@' :: letter :: rest) (hletter : letter.isAlpha = true)
    (position : Option SourceRef) :
    ∃ parsed notes parsed' notes' joined both,
      parse reg first position = .ok parsed notes ∧
      parse reg second position = .ok parsed' notes' ∧
      parse reg (first ++ "\n" ++ second) position = .ok joined both ∧
      (∀ name, joined.occurrences.of name =
        parsed.occurrences.of name ++ parsed'.occurrences.of name) ∧
      (Table.keys joined.occurrences).Nodup ∧
      Table.keys joined.occurrences = Table.keys parsed.occurrences ++
        (Table.keys parsed'.occurrences).filter (· ∉ Table.keys parsed.occurrences) ∧
      both.filterMap Note.warning? =
        notes.filterMap Note.warning? ++ notes'.filterMap Note.warning? := by
  have horderly := orderly_standard hreg
  have htext : Text.trim first.toList = first.toList := by
    rw [← Text.trimmed_toList, hfirst]
  have htext' : Text.trim second.toList = second.toList := by
    rw [← Text.trimmed_toList, hsecond]
  have hjoined : (first ++ "\n" ++ second).toList = first.toList ++ '\n' :: second.toList := by
    rw [String.toList_append, String.toList_append, List.append_assoc]
    rfl
  obtain ⟨routed, raw, hrouted, -, hraw, hfiled⟩ :=
    exists_routed horderly position (segments true (strip first.toList)).2
  obtain ⟨routed', raw', hrouted', -, hraw', hfiled'⟩ :=
    exists_routed horderly position (segments true (strip second.toList)).2
  have hroutedTag := hrouted'
  rw [hmark] at htext' hstar' hroutedTag
  obtain ⟨padded, hroutedBoth, hrecords, hwarnings⟩ :=
    mapM_route_joined (ignoresBreak_standard hreg) htext hstar htext' hstar' hletter hrouted
      hroutedTag
  rw [← hmark, ← hjoined] at hroutedBoth
  obtain ⟨_, both, heq, -, hboth, hfiledBoth⟩ :=
    exists_routed horderly position (segments true (strip (first ++ "\n" ++ second).toList)).2
  obtain rfl := Except.ok.inj (hroutedBoth.symm.trans heq)
  have hparse : parse reg first position = .ok _ _ := parse_eq_ok rfl hrouted hraw
  have hparse' : parse reg second position = .ok _ _ := parse_eq_ok rfl hrouted' hraw'
  have hparseBoth : parse reg (first ++ "\n" ++ second) position = .ok _ _ :=
    parse_eq_ok rfl hroutedBoth hboth
  refine ⟨_, _, _, _, _, _, hparse, hparse', hparseBoth, fun name => ?_, ?_, ?_, ?_⟩
  · dsimp only
    rw [hfiledBoth, hfiled, hfiled', List.flatMap_append, hrecords, List.filter_append]
  · exact Occurrences.nodup_keys_addDocs hboth .nil
  · rw [List.flatMap_append, hrecords, Occurrences.addDocs, List.foldlM_append] at hboth
    obtain ⟨middle, hmiddle, hbehind⟩ := Except.bind_eq_ok_iff.mp hboth
    obtain rfl := Except.ok.inj (hraw.symm.trans hmiddle)
    exact Occurrences.keys_addDocs hbehind hraw' (List.append_nil _).symm
  · rw [filterMap_warning?, filterMap_warning?, filterMap_warning?, List.flatMap_append, hwarnings]

theorem broken_param_joined :
    ∃ reg, Registry.ofTags Tag.standard = .ok reg ∧
      Text.trimmed "A list. @param \x7bFoo [x = 1" = "A list. @param \x7bFoo [x = 1" ∧
      Text.trimmed "@extend 7 @param" = "@extend 7 @param" ∧
      '*' ∉ "A list. @param \x7bFoo [x = 1".toList ∧ '*' ∉ "@extend 7 @param".toList ∧
      "@extend 7 @param".toList = '@' :: 'e' :: "xtend 7 @param".toList ∧ 'e'.isAlpha = true ∧
      ∃ parsed notes parsed' notes' joined both,
        parse reg "A list. @param \x7bFoo [x = 1" none = .ok parsed notes ∧
        parse reg "@extend 7 @param" none = .ok parsed' notes' ∧
        parse reg ("A list. @param \x7bFoo [x = 1" ++ "\n" ++ "@extend 7 @param") none =
          .ok joined both ∧
        (∀ name, joined.occurrences.of name =
          parsed.occurrences.of name ++ parsed'.occurrences.of name) ∧
        (Table.keys joined.occurrences).Nodup ∧
        Table.keys joined.occurrences = Table.keys parsed.occurrences ++
          (Table.keys parsed'.occurrences).filter (· ∉ Table.keys parsed.occurrences) ∧
        both.filterMap Note.warning? =
          notes.filterMap Note.warning? ++ notes'.filterMap Note.warning? := by
  obtain ⟨reg, hreg⟩ : ∃ reg, Registry.ofTags Tag.standard = .ok reg := ⟨_, rfl⟩
  have hfirst : Text.trimmed "A list. @param \x7bFoo [x = 1" = "A list. @param \x7bFoo [x = 1" := by
    decide +kernel
  have hsecond : Text.trimmed "@extend 7 @param" = "@extend 7 @param" := by decide +kernel
  have hstar : '*' ∉ "A list. @param \x7bFoo [x = 1".toList := by decide +kernel
  have hstar' : '*' ∉ "@extend 7 @param".toList := by decide +kernel
  have hmark : "@extend 7 @param".toList = '@' :: 'e' :: "xtend 7 @param".toList := by
    decide +kernel
  have hletter : 'e'.isAlpha = true := by decide
  exact ⟨reg, hreg, hfirst, hsecond, hstar, hstar', hmark, hletter,
    parse_joined hreg hfirst hsecond hstar hstar' hmark hletter none⟩

end Comment

end ApiPages
