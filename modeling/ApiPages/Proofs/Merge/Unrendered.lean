import ApiPages.Proofs.Merge.Again

/-!
# What merging leaves for the page

Merging makes values, and no HTML of them. So attributes that have not been rendered before merging
have not been rendered behind it.
-/

namespace ApiPages

/-- A class that has not been on a page yet, nor has any member of it. -/
structure ClassDoc.Unrendered (c : ClassDoc) : Prop where
  attributes : c.attributes.Unrendered
  members : ∀ m ∈ c.members, m.attributes.Unrendered

theorem Tag.unrendered_of_merge {t : Tag} (ht : t ∈ standard) (hkey : t.key = "deprecated")
    {s : Subject} {docs code : List Record} {v : Value} (h : t.merge s docs code = .ok v) :
    v.Unrendered := by
  obtain rfl : t = deprecated :=
    List.inj_on_of_nodup_map nodup_keys_standard ht (by simp [standard]) hkey
  cases docs with
  | nil =>
      obtain rfl := Except.ok.inj h
      intro r hr
      cases hr
  | cons r docs =>
      obtain rfl := Except.ok.inj h
      rintro _ ⟨⟩
      rfl

section Merging

variable {reg : Registry} (hreg : Registry.ofTags Tag.standard = .ok reg)
include hreg

namespace Merge

theorem unrendered_mergeTagname {s : Subject} {raw : Occurrences} {state state' : MergeState}
    {name : Name} (h : mergeTagname reg s raw state name = .ok state')
    (hstate : ∀ v, Table.get? state.attributes "deprecated" = some v → v.Unrendered) :
    ∀ v, Table.get? state'.attributes "deprecated" = some v → v.Unrendered := by
  cases htag : tagFor reg s.kind name with
  | none =>
      rw [mergeTagname, htag] at h
      obtain rfl := Except.ok.inj h
      exact hstate
  | some t =>
      rw [mergeTagname, htag] at h
      obtain ⟨v, hmerge, h⟩ := Except.bind_eq_ok_iff.mp h
      obtain rfl := Except.ok.inj h
      have hmem := (mem_of_tagFor (Registry.indexed_ofTags hreg) htag).1
      rw [Registry.tags_ofTags hreg] at hmem
      dsimp only
      by_cases hkey : t.key = "deprecated"
      · have hv := Tag.unrendered_of_merge hmem hkey hmerge
        rw [hkey]
        rcases get?_store state.attributes "deprecated" v with rfl | hget
        · exact hstate
        · rw [hget]
          rintro _ ⟨⟩
          exact hv
      · rw [get?_store_of_ne state.attributes hkey v]
        exact hstate

omit hreg in
theorem not_mem_derivedKeys_deprecated (key : String) :
    "deprecated" ∉ Record.derivedKeys key := by
  rw [Record.derivedKeys]
  split
  · decide
  · split
    case isTrue hkey =>
      intro hmem
      rw [← List.mem_singleton.mp hmem] at hkey
      revert hkey
      decide
    case isFalse => exact List.not_mem_nil

theorem unrendered_run {s : Subject} {raw : Occurrences} {outcome : Outcome} {notes : List Note}
    (hs : s.attributes.Unrendered) (hraw : raw.Sound) (h : run reg s raw = .ok outcome notes) :
    outcome.attributes.Unrendered where
  formed := by
    obtain ⟨_, _, hrun, hformed⟩ := run_ends (Registry.sturdy_standard hreg) hs.formed hraw
    cases h.symm.trans hrun
    exact hformed.attributes
  notice := by
    obtain ⟨state, hmerge, hprocess⟩ := run_eq_ok h
    have hstate : ∀ v, Table.get? state.attributes "deprecated" = some v → v.Unrendered :=
      Except.foldlM_invariant hmerge (fun _ _ _ => unrendered_mergeTagname hreg) hs.notice
    have hsettles := Registry.settles_standard hreg
    have hframe : Table.get? outcome.attributes "deprecated" =
        Table.get? state.attributes "deprecated" := by
      refine foldlM_processTag_frame (fun t ht => ?_) hprocess fun t _ => ?_
      · exact hsettles.tags t (Registry.mem_of_mem_pluginsFor ht)
      · exact not_mem_derivedKeys_deprecated t.key
    rwa [hframe]

end Merge

theorem Member.unrendered_merge {m m' : Member} {notes : List Note} (hm : m.attributes.Unrendered)
    (hraw : m.raw.Sound) (h : m.merge reg = .ok m' notes) : m'.attributes.Unrendered := by
  obtain ⟨outcome, _, _, hrun, h⟩ := Report.bind_eq_ok h
  cases h
  exact Merge.unrendered_run hreg hm hraw hrun

/-- **Merged classes are ready for their page.** Whatever comments and declarations say, merging
makes values of it that can be shown, and none of them has HTML in it already. -/
theorem ClassDoc.unrendered_merge {c c' : ClassDoc} {notes : List Note} (hc : c.Unrendered)
    (hraw : c.raw.Sound) (hmembers : ∀ m ∈ c.members, m.raw.Sound)
    (h : c.merge reg = .ok c' notes) : c'.Unrendered := by
  obtain ⟨outcome, _, _, hrun, h⟩ := Report.bind_eq_ok h
  obtain ⟨members, _, _, hmerged, h⟩ := Report.bind_eq_ok h
  cases h
  constructor
  · have hown := Merge.unrendered_run hreg hc.attributes hraw hrun
    rw [absorb]
    cases outcome.target <;> exact hown
  · intro m' hm'
    obtain ⟨m, hm, _, hmerge⟩ :=
      Except.exists_of_mem_right (Report.mapM_eq_ok hmerged) m' hm'
    exact Member.unrendered_merge hreg (hc.members m hm) (hmembers m hm) hmerge

end Merging

end ApiPages
