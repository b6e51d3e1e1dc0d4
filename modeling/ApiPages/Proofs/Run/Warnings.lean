import ApiPages.Proofs.Logged
import ApiPages.Proofs.Merge.Complaint
import ApiPages.Proofs.Override.Warned
import ApiPages.Proofs.Run.Again

/-!
# The warnings of a run

Three stages write to one log. What each of them tells can be said without it: merging complains of
tagnames, an override is skipped for a reason, and a class that is left may be undocumented.
-/

namespace ApiPages.Run

open ClassTable

/-- What is told of a class that is left. -/
inductive Lacks (c : ClassDoc) : Option Warning → Prop
  | undocumented (hdoc : c.doc = "") : Lacks c (some {
      category := .nodoc
      message := s!"No documentation for {c.name}"
      position := c.position })
  | documented (hdoc : c.doc ≠ "") : Lacks c none

/-- The warnings to expect of a run with some tags that merges `table` into `merged` and leaves
`final`. -/
def Expected (tags : List Tag) (table merged final : ClassTable) (ws : List Warning) : Prop :=
  ∃ complaints skipped lacking,
    Report.Told (Merge.Complains tags) table.filings complaints ∧
      Report.Told (fun entry => Hinders merged entry.2) (worklist merged) skipped ∧
      Report.Told (fun entry => Lacks entry.2) final lacking ∧
      ws = complaints ++ skipped ++ lacking

theorem lacks_undocumented (c : ClassDoc) : Lacks c (undocumented c) := by
  rw [undocumented]
  split
  · exact .undocumented ‹_›
  · exact .documented ‹_›

theorem Lacks.unique {c : ClassDoc} {w w' : Option Warning} (h : Lacks c w) (h' : Lacks c w') :
    w = w' := by
  cases h with
  | undocumented hdoc =>
      cases h' with
      | undocumented => rfl
      | documented hdoc' => exact absurd hdoc hdoc'
  | documented hdoc =>
      cases h' with
      | undocumented hdoc' => exact absurd hdoc' hdoc
      | documented => rfl

section Warnings

variable {tags : List Tag} {reg : Registry} (hreg : Registry.ofTags tags = .ok reg)
  {table merged final : ClassTable}
include hreg

/-- No two sequences of warnings are to be expected of one run. -/
theorem Expected.unique (hkeys : (Table.keys merged).Nodup) {ws ws' : List Warning}
    (h : Expected tags table merged final ws) (h' : Expected tags table merged final ws') :
    ws = ws' := by
  obtain ⟨complaints, skipped, lacking, hcomplaints, hskipped, hlacking, rfl⟩ := h
  obtain ⟨complaints', skipped', lacking', hcomplaints', hskipped', hlacking', rfl⟩ := h'
  obtain rfl := hcomplaints.unique (fun _ _ _ _ hw hw' => hw.unique hreg hw') hcomplaints'
  obtain rfl := hskipped.unique (fun _ _ _ _ hw hw' => hw.unique hkeys hw') hskipped'
  obtain rfl := hlacking.unique (fun _ _ _ _ hw hw' => hw.unique hw') hlacking'
  rfl

theorem expected_stages (hkeys : (Table.keys table).Nodup) {external known : List String}
    {notes : List Note} (h : stages reg table external = .ok (final, known) notes) :
    ∃ merged first, mergeTable reg table = .ok merged first ∧ (Table.keys merged).Nodup ∧
      List.Forall₂ (Remains merged) (merged.filter fun entry => !entry.2.isOverride) final ∧
      Expected tags table merged final (notes.filterMap Note.warning?) := by
  obtain ⟨_, started, _, hstarted, hmerging, rfl⟩ := Report.exists_notes_of_bind h
  obtain ⟨merged, first, _, hmerge, hprocessing, rfl⟩ := Report.exists_notes_of_bind hmerging
  obtain ⟨⟨left, recorded⟩, later, _, hprocess, hlooking, rfl⟩ :=
    Report.exists_notes_of_bind hprocessing
  obtain ⟨_, told, _, htold, hend, rfl⟩ := Report.exists_notes_of_bind hlooking
  rw [Report.forM_warn] at htold
  cases hstarted
  cases htold
  cases hend
  have hkeys' : (Table.keys merged).Nodup := by
    rw [Table.keys_of_forall₂ (fun _ _ ⟨_, hentry⟩ => (mergeEntry_eq_ok hentry).1)
      (Report.mapM_eq_ok hmerge)]
    exact hkeys
  obtain ⟨hskipped, hremains⟩ := told_processAll hkeys' hprocess
  have hcomplaints : Report.Told (Merge.Complains tags) table.filings _ :=
    .filterMap fun f _ => (Merge.complains_iff hreg).mpr rfl
  have hlacking : Report.Told (fun entry : String × ClassDoc => Lacks entry.2) final _ :=
    .filterMap fun entry _ => lacks_undocumented entry.2
  refine ⟨merged, first, hmerge, hkeys', hremains, _, _, _, hcomplaints, hskipped, hlacking, ?_⟩
  have hvalues : (Table.values final).filterMap undocumented =
      final.filterMap fun entry => undocumented entry.2 := List.filterMap_map
  rw [Merge.notes_table hmerge, Merge.notesOn, List.append_nil, List.filterMap_append,
    List.filterMap_append, List.filterMap_append, Report.filterMap_map_warning,
    Report.filterMap_map_warning, hvalues, List.append_assoc]
  rfl

omit hreg in
/-- A run with nothing disabled logs all that its stages warn of. -/
theorem exists_stages_of_run {r r' : Run} (hlog : r.log.disabled = [])
    (h : r.run table = .ok (final, r')) :
    ∃ notes, stages r.registry table r.external = .ok (final, r'.external) notes ∧
      r'.log.warnings = r.log.warnings ++ notes.filterMap Note.warning? := by
  have hadd : ∀ (log : Log) (notes : List Note), log.disabled = [] →
      (log.add notes).warnings = log.warnings ++ notes.filterMap Note.warning? := by
    intro log notes hnone
    rw [Log.warnings_add, List.filter_eq_self.mpr fun w _ => by simp [Log.enabled, hnone]]
  rw [run, record] at h
  cases hstages : stages r.registry table r.external with
  | fail fault =>
      rw [hstages] at h
      cases h
  | ok result notes =>
      rw [hstages] at h
      cases h
      refine ⟨notes, rfl, ?_⟩
      change ((r.log.add notes).add [_]).warnings = _
      rw [hadd (r.log.add notes) _ hlog, hadd r.log notes hlog]
      exact List.append_nil _

end Warnings

/-- A class with a tag too often and one that nobody handles, and a method with a tag for
classes. -/
def untidyTable : ClassTable :=
  let since (version : String) : Record :=
    [("tagname", .text "since"), ("version", .text version)]
  [("Btn", {
      name := "Btn"
      files := [some { file := "src/btn.js", line := 3 }]
      members := [{
        id := "hide"
        owner := "Btn"
        name := "hide"
        raw.code := [(.text "mixins", [Tag.mixinRecord "Hidden"])] }]
      raw.doc := [(.text "since", [since "1", since "2"]),
        (.text "colour", [[("tagname", .text "colour")]])] })]

theorem ready_untidyTable : untidyTable.Ready := by
  have hcolour : Record.Sound "colour" _ := Tag.sound_bare rfl
  have hclass : Groups.Sound _ :=
    ((Groups.sound_nil.add (Tag.sound_since "1")).add (Tag.sound_since "2")).add hcolour
  have hmember : Groups.Sound _ := Groups.sound_nil.add (Tag.sound_mixinRecord "Hidden")
  exact List.forall_mem_singleton.mpr {
    attributes := .nil
    raw := ⟨hclass, Groups.sound_nil⟩
    members := List.forall_mem_singleton.mpr {
      attributes := .nil
      raw := ⟨Groups.sound_nil, hmember⟩ }
    target := Or.inl rfl
    files := by decide }

theorem told_untidyTable : Report.Told (Merge.Complains Tag.standard) untidyTable.filings [
    { category := .tagRepeated
      message := "Only one @since allowed per doc-comment of Btn"
      position := some { file := "src/btn.js", line := 3 } },
    { category := .tag
      message := "No tag handles 'colour' on Btn"
      position := some { file := "src/btn.js", line := 3 } },
    { category := .tag
      message := "@mixins is not allowed on a method" }] := by
  refine .warned (.repeated (t := Tag.since) ?_ ⟨?_, rfl⟩ rfl rfl (Nat.le_refl 2)) ?_
  · simp [Tag.standard]
  · decide
  refine .warned (.unknown ?_) ?_
  · have hnone : "colour" ∉ Tag.standard.map Tag.key := by decide
    rintro t ht ⟨-, hname⟩
    rw [Name.text.inj hname] at hnone
    exact hnone (List.mem_map_of_mem ht)
  refine .warned (.misplaced (t := Tag.mixins) ?_ ⟨?_, rfl⟩ rfl) .nil
  · simp [Tag.standard]
  · decide

end ApiPages.Run
