import ApiPages.Proofs.Comment.Cut
import ApiPages.Proofs.Comment.Fate
import ApiPages.Proofs.Registry
import ApiPages.Proofs.Report
import ApiPages.Proofs.Tag.Sturdy
import ApiPages.Proofs.Text.Solid

/-!
# No text is lost

Reading a comment cuts its text at the markers and routes each segment by itself. Nothing that is
not blank is lost on the way to the documentation, and nothing gets there twice.
-/

namespace ApiPages

theorem Tag.Sturdy.orderly {t : Tag} (h : t.Sturdy) : t.Orderly where
  forward position body := (h.parse position (Cursor.start body)).1
  tagged position body r hr :=
    ⟨_, ((h.parse position (Cursor.start body)).2 r hr).tagname_eq⟩

namespace Occurrences

theorem foldlM_add_ok {add : Occurrences → Record → Except Fault Occurrences}
    (put : Groups → Occurrences)
    (hadd : ∀ groups r name, Record.tagname r = .ok name →
      add (put groups) r = .ok (put (groups.add name r)))
    {rs : List Record} (h : ∀ r ∈ rs, ∃ name, Record.tagname r = .ok name) (groups : Groups) :
    ∃ groups', rs.foldlM add (put groups) = .ok (put groups') ∧ ∀ name,
      groups'.of name = groups.of name ++ rs.filter fun r => Record.tagname r = .ok name := by
  induction rs generalizing groups with
  | nil => exact ⟨groups, rfl, fun name => (List.append_nil _).symm⟩
  | cons r rs ih =>
      obtain ⟨⟨name, hname⟩, hrs⟩ := List.forall_mem_cons.mp h
      obtain ⟨groups', hrun, hfiled⟩ := ih hrs (groups.add name r)
      refine ⟨groups', ?_, fun other => ?_⟩
      · rw [List.foldlM_cons, hadd groups r name hname]
        exact hrun
      · rw [hfiled, Groups.of_add]
        by_cases heq : name = other
        · rw [if_pos heq, List.filter_cons_of_pos (by simp [hname, heq]), List.append_assoc,
            List.singleton_append]
        · rw [if_neg heq, List.filter_cons_of_neg (by simp [hname, heq])]

section Sides

variable {rs : List Record} (h : ∀ r ∈ rs, ∃ name, Record.tagname r = .ok name) (raw : Occurrences)
include h

theorem addDocs_ok : ∃ docs, addDocs raw rs = .ok { raw with doc := docs } ∧ ∀ name,
    docs.of name = raw.doc.of name ++ rs.filter fun r => Record.tagname r = .ok name :=
  foldlM_add_ok (fun groups => { raw with doc := groups })
    (fun _ _ _ hname => by rw [addDoc, hname]; rfl) h raw.doc

theorem addCodes_filed : ∃ code, addCodes raw rs = .ok { raw with code := code } ∧ ∀ name,
    code.of name = raw.code.of name ++ rs.filter fun r => Record.tagname r = .ok name :=
  foldlM_add_ok (fun groups => { raw with code := groups })
    (fun _ _ _ hname => by rw [addCode, hname]; rfl) h raw.code

end Sides

end Occurrences

namespace Comment

open Text (solid)

theorem solid_joinDocs (docs : List (List Char)) : solid (joinDocs docs) = solid docs.flatten := by
  let trimmed := (docs.filter fun doc => !Text.isBlank doc).map (Text.trimWhile (· == '\n'))
  calc solid (joinDocs docs)
      = solid (Text.unlines trimmed) := Text.solid_trim _
    _ = solid trimmed.flatten := Text.solid_unlines _
    _ = solid (docs.filter fun doc => !Text.isBlank doc).flatten :=
        Text.solid_flatten_map (Text.solid_trimWhile Text.isSpace_of_eq_newline) _
    _ = solid docs.flatten := Text.solid_flatten_filter_isBlank _

theorem filterMap_warning? (ws : List Warning) (level : Level) (stage message : String) :
    (ws.map Note.warning ++ [Note.progress level stage message]).filterMap Note.warning? = ws := by
  rw [List.filterMap_append, Report.filterMap_map_warning]
  exact List.append_nil _

theorem parse_eq_ok {reg : Registry} {comment : String} {position : Option SourceRef}
    {head : List Char} {later : List Segment} {routed : List Routed} {raw : Occurrences}
    (hsegments : segments true (strip comment.toList) = (head, later))
    (hrouted : later.mapM (route reg position) = .ok routed)
    (hraw : Occurrences.addDocs {} (routed.flatMap Routed.records) = .ok raw) :
    parse reg comment position = .ok
      { doc := String.ofList (joinDocs (head :: routed.flatMap Routed.docs))
        occurrences := raw.doc }
      ((routed.flatMap Routed.warnings).map Note.warning ++ [Note.progress .debug "doc_parser"
        s!"Parsed {(routed.flatMap Routed.records).length} tag records"]) := by
  rw [parse, hsegments]
  simp only [hrouted, hraw, Report.ofExcept, Report.ok_bind, Report.after_nil, Report.forM_warn]
  rfl

section Routed

variable {reg : Registry}
  (hreg : ∀ pattern t, reg.findByPattern pattern = some t → t.Orderly)
include hreg

theorem Fate.tagged {position : Option SourceRef} {s : Segment} {routed : Routed}
    (h : Fate reg position s routed) :
    ∀ r ∈ routed.records, ∃ name, Record.tagname r = .ok name := by
  refine h.forall_records (fun r text hr => ?_) fun t ht => (hreg _ t ht).tagged position s.body
  rw [Record.tagname_set_doc]
  exact hr

/-- All segments are routed, and all records that they have are filed. -/
theorem exists_routed (position : Option SourceRef) (later : List Segment) :
    ∃ routed raw, later.mapM (route reg position) = .ok routed ∧
      List.Forall₂ (Fate reg position) later routed ∧
      Occurrences.addDocs {} (routed.flatMap Routed.records) = .ok raw ∧
      ∀ name, raw.doc.of name =
        (routed.flatMap Routed.records).filter fun r => Record.tagname r = .ok name := by
  have hroute : ∀ s ∈ later, ∃ r, route reg position s = .ok r ∧ Fate reg position s r :=
    fun s _ => route_fate hreg
  obtain ⟨routed, hrouted, hfates⟩ := Except.mapM_ok hroute
  have htagged : ∀ r ∈ routed.flatMap Routed.records, ∃ name, Record.tagname r = .ok name := by
    intro r hr
    obtain ⟨part, hpart, hr⟩ := List.mem_flatMap.mp hr
    obtain ⟨s, -, hfate⟩ := Except.exists_of_mem_right hfates part hpart
    exact hfate.tagged hreg r hr
  obtain ⟨docs, hraw, hfiled⟩ := Occurrences.addDocs_ok htagged {}
  exact ⟨routed, _, hrouted, hfates, hraw, hfiled⟩

/-- A comment is read by routing its segments and filing what records they have. -/
theorem exists_parse_eq_ok (comment : String) (position : Option SourceRef) :
    ∃ head later routed raw, segments true (strip comment.toList) = (head, later) ∧
      List.Forall₂ (Fate reg position) later routed ∧
      (∀ name, Groups.of raw name =
        (routed.flatMap Routed.records).filter fun r => Record.tagname r = .ok name) ∧
      parse reg comment position = .ok
        { doc := String.ofList (joinDocs (head :: routed.flatMap Routed.docs))
          occurrences := raw }
        ((routed.flatMap Routed.warnings).map Note.warning ++ [Note.progress .debug "doc_parser"
          s!"Parsed {(routed.flatMap Routed.records).length} tag records"]) := by
  obtain ⟨head, later, hsegments⟩ :
      ∃ head later, segments true (strip comment.toList) = (head, later) := ⟨_, _, rfl⟩
  obtain ⟨routed, raw, hrouted, hfates, hraw, hfiled⟩ := exists_routed hreg position later
  exact ⟨head, later, routed, raw.doc, hsegments, hfates, hfiled,
    parse_eq_ok hsegments hrouted hraw⟩

/-- **No text is lost.** A comment whose tags are orderly is always read. Its text is cut at the
markers, each segment meets its fate, and the documentation is made of the head and of what the
segments leave for it: of the same characters in the same order, blanks aside. -/
theorem parse_keeps_text (comment : String) (position : Option SourceRef) :
    ∃ head later routed parsed notes,
      segments true (strip comment.toList) = (head, later) ∧
      Cut true (strip comment.toList) head later ∧
      List.Forall₂ (Fate reg position) later routed ∧
      parse reg comment position = .ok parsed notes ∧
      notes.filterMap Note.warning? = routed.flatMap Routed.warnings ∧
      (∀ name, parsed.occurrences.of name =
        (routed.flatMap Routed.records).filter fun r => Record.tagname r = .ok name) ∧
      solid parsed.doc.toList = solid (head ++ (routed.flatMap Routed.docs).flatten) := by
  obtain ⟨head, later, routed, raw, hsegments, hfates, hfiled, hparse⟩ :=
    exists_parse_eq_ok hreg comment position
  have hcut := cut_segments true (strip comment.toList)
  rw [hsegments] at hcut
  refine ⟨head, later, routed, _, _, hsegments, hcut, hfates, hparse, ?_, hfiled, ?_⟩
  · exact filterMap_warning? _ _ _ _
  · rw [String.toList_ofList, solid_joinDocs, List.flatten_cons]

end Routed

theorem orderly_standard {reg : Registry} (h : Registry.ofTags Tag.standard = .ok reg)
    (pattern : String) (t : Tag) (hfind : reg.findByPattern pattern = some t) : t.Orderly :=
  (Tag.sturdy_standard t (Registry.mem_of_findByPattern h hfind)).orderly

theorem list_keeps_text :
    ∃ reg, Registry.ofTags Tag.standard = .ok reg ∧
      (∀ pattern t, reg.findByPattern pattern = some t → t.Orderly) ∧
      ∃ routed parsed notes,
        List.Forall₂ (Fate reg none)
          [{ pattern := "nope".toList, body := " x ".toList },
            { pattern := "since".toList, body := " 2.0".toList }] routed ∧
        parse reg "A list. @nope x @since 2.0" none = .ok parsed notes ∧
        solid parsed.doc.toList =
          solid ("A list. ".toList ++ (routed.flatMap Routed.docs).flatten) := by
  obtain ⟨reg, hreg⟩ : ∃ reg, Registry.ofTags Tag.standard = .ok reg := ⟨_, rfl⟩
  refine ⟨reg, hreg, orderly_standard hreg, ?_⟩
  obtain ⟨head, later, routed, parsed, notes, hsegments, -, hfates, hparse, -, -, hdoc⟩ :=
    parse_keeps_text (orderly_standard hreg) "A list. @nope x @since 2.0" none
  have hcut : segments true (strip "A list. @nope x @since 2.0".toList) =
      ("A list. ".toList, [{ pattern := "nope".toList, body := " x ".toList },
        { pattern := "since".toList, body := " 2.0".toList }]) := by
    decide +kernel
  obtain ⟨rfl, rfl⟩ := Prod.mk.inj (hcut.symm.trans hsegments)
  exact ⟨routed, parsed, notes, hfates, hparse, hdoc⟩

end Comment

end ApiPages
