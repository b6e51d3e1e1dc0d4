import ApiPages.Merge
import ApiPages.Proofs.Sources

/-!
# Merging sound records

Merging sound records into formed attributes always ends well, and with formed attributes. A class
that is ready for a stage of a run, its members with it, is ready for the next one after merging.
-/

namespace ApiPages

/-- A member whose attributes and raw records can be merged and shown. -/
structure Member.Ready (m : Member) : Prop where
  attributes : m.attributes.Formed
  raw : m.raw.Sound

/-- A class of which every stage of a run can be made, as an override or as the target of one. -/
structure ClassDoc.Ready (c : ClassDoc) : Prop where
  attributes : c.attributes.Formed
  raw : c.raw.Sound
  members : ∀ m ∈ c.members, m.Ready
  target : c.overrideTarget.Textual
  files : none ∉ c.files

theorem ClassDoc.ready_absorb {c : ClassDoc} (h : c.Ready) {outcome : Outcome}
    (houtcome : outcome.Formed) : (c.absorb outcome).Ready := by
  rw [absorb]
  cases htarget : outcome.target with
  | none => exact { h with attributes := houtcome.attributes }
  | some target =>
      exact { h with attributes := houtcome.attributes
                     target := Or.inr (houtcome.target target htarget) }

section Merging

variable {reg : Registry} (hreg : reg.Sturdy)

namespace Merge

theorem mem_of_mem_select {t : Tag} {docs : List Record} {r : Record} (h : r ∈ select t docs) :
    r ∈ docs := by
  rw [select] at h
  split at h
  · exact h
  · split at h
    · exact List.mem_of_getLast? (Option.mem_toList.mp h)
    · exact List.mem_of_head? (Option.mem_toList.mp h)

theorem formed_store {attributes : Record} (h : attributes.Formed) {key : String} {v : Value}
    (hv : v = .null ∨ v.Fits key) : (store attributes key v).Formed := by
  cases v with
  | null => exact h
  | _ => exact h.set (hv.resolve_left (by simp))

theorem processTag_ok {s : Subject} {selected : Groups} {outcome : Outcome} {t : Tag}
    (ht : t.Sturdy) (houtcome : outcome.Formed) :
    ∃ next, processTag s selected outcome t = .ok next ∧ next.Formed := by
  obtain ⟨next, hnext, hformed⟩ := ht.process { s with attributes := outcome.attributes }
    (selected.of (.text t.key)) houtcome.attributes
  rw [processTag, hnext]
  refine ⟨_, rfl, hformed.attributes, fun target htarget => ?_⟩
  dsimp only at htarget
  cases hname : next.target with
  | none =>
      rw [hname] at htarget
      exact houtcome.target target htarget
  | some name =>
      rw [hname] at htarget
      exact hformed.target target (hname.trans htarget)

theorem mem_of_tagFor {reg : Registry} (hindexed : reg.Indexed) {kind : Kind} {name : Name}
    {t : Tag} (h : tagFor reg kind name = some t) : t ∈ reg.tags ∧ name = .text t.key := by
  obtain ⟨hfind, -⟩ := Option.filter_eq_some_iff.mp h
  obtain ⟨key, hname, hfind⟩ := Option.bind_eq_some_iff.mp hfind
  obtain ⟨hmem, hkey⟩ := hindexed.byTagname key t (Table.mem_of_get? hfind)
  rw [Name.text?_eq_some_iff] at hname
  exact ⟨hmem, by rw [hname, hkey]⟩

include hreg

theorem mergeTagname_ok {s : Subject} {raw : Occurrences} (hraw : raw.Sound) {state : MergeState}
    (hstate : state.attributes.Formed) (name : Name) :
    ∃ state', mergeTagname reg s raw state name = .ok state' ∧ state'.attributes.Formed := by
  rw [mergeTagname]
  cases htag : tagFor reg s.kind name with
  | none => exact ⟨state, rfl, hstate⟩
  | some t =>
      obtain ⟨hmem, rfl⟩ := mem_of_tagFor hreg.indexed htag
      have hrecords : ∀ r ∈ select t (raw.doc.of (.text t.key)) ++ raw.code.of (.text t.key),
          Record.Sound t.key r := by
        intro r hr
        rcases List.mem_append.mp hr with hr | hr
        · exact hraw.doc t.key r (mem_of_mem_select hr)
        · exact hraw.code t.key r hr
      obtain ⟨v, hmerge, hv⟩ :=
        (hreg.tags t hmem).merge { s with attributes := state.attributes } _ _ hrecords
      dsimp only
      rw [hmerge]
      exact ⟨_, rfl, formed_store hstate hv⟩

theorem run_ends {s : Subject} {raw : Occurrences} (hs : s.attributes.Formed) (hraw : raw.Sound) :
    (run reg s raw).Ends Outcome.Formed := by
  have hmerge : ∃ state, raw.tagnames.foldlM (mergeTagname reg s raw)
      { attributes := s.attributes } = .ok state ∧ state.attributes.Formed :=
    Except.foldlM_ok (fun state name _ hstate => mergeTagname_ok hreg hraw hstate name) hs
  refine .seq (.forM_warn _) (.bind (.ofExcept hmerge) fun state hstate => .ofExcept ?_)
  refine Except.foldlM_ok (fun outcome t ht houtcome => ?_) (.of_attributes hstate)
  have hmem := Registry.mem_of_mem_pluginsFor ht
  exact processTag_ok (hreg.tags t hmem) houtcome

end Merge

include hreg

theorem Member.merge_ends {m : Member} (h : m.Ready) : (m.merge reg).Ends Member.Ready :=
  (Merge.run_ends hreg h.attributes h.raw).bind fun _ houtcome =>
    .pure { attributes := houtcome.attributes, raw := h.raw }

theorem ClassDoc.merge_ends {c : ClassDoc} (h : c.Ready) : (c.merge reg).Ends ClassDoc.Ready := by
  refine (Merge.run_ends hreg h.attributes h.raw).bind fun outcome houtcome => ?_
  have hmembers : ∀ m ∈ c.members, (m.merge reg).Ends Member.Ready := fun m hm =>
    Member.merge_ends hreg (h.members m hm)
  exact (Report.Ends.mapM hmembers).bind fun members hready =>
    .pure { ready_absorb h houtcome with members := hready }

end Merging

end ApiPages
