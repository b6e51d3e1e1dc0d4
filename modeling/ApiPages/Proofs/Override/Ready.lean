import ApiPages.Proofs.Merge
import ApiPages.Proofs.Override.Lasting

/-!
# Overrides of ready classes

Overrides move members from class to class, but the members stay what they were. So patching keeps
classes ready, and no ready override stops a run.
-/

namespace ApiPages

theorem Member.Ready.lasts : Member.Lasts Member.Ready :=
  fun _ _ _ _ h => { attributes := h.attributes, raw := h.raw }

namespace ClassDoc

theorem Ready.patch {o c : ClassDoc} (ho : o.Ready) (hc : c.Ready) (name : String) :
    (o.patch name c).Ready where
  attributes := hc.attributes
  raw := hc.raw
  members := forall_mem_members_patch Member.Ready.lasts ho.members hc.members name
  target := hc.target
  files := by
    intro hnone
    rcases List.mem_append.mp hnone with hnone | hnone
    · exact hc.files hnone
    · exact ho.files hnone

theorem Ready.refresh {c : ClassDoc} (h : c.Ready) {current : List Member}
    (hcurrent : ∀ m ∈ current, m.Ready) : (c.refresh current).Ready where
  attributes := h.attributes
  raw := h.raw
  members := forall_mem_members_refresh h.members hcurrent
  target := h.target
  files := h.files

theorem Ready.lasts : Lasts Ready where
  patch _ _ name ho hc := ho.patch hc name
  refresh _ _ hc hd := hd.refresh hc.members

end ClassDoc

namespace ClassTable

/-- A table all of whose classes are ready. -/
def Ready (table : ClassTable) : Prop :=
  ∀ entry ∈ table, entry.2.Ready

variable {table : ClassTable}

theorem Ready.get? (h : table.Ready) {key : String} {c : ClassDoc}
    (hget : Table.get? table key = some c) : c.Ready :=
  h (key, c) (Table.mem_of_get? hget)

theorem Ready.replace (h : table.Ready) (key : String) {c : ClassDoc} (hc : c.Ready) :
    (ClassTable.replace table key c).Ready :=
  forall_mem_replace ClassDoc.Ready.lasts h key hc

theorem keys_replace (table : ClassTable) (key : String) (c : ClassDoc) :
    Table.keys (replace table key c) = Table.keys table := by
  rw [Table.keys, replace, List.map_map]
  refine List.map_congr_left fun entry _ => ?_
  dsimp only [Function.comp]
  split <;> rfl

theorem Ready.process (h : table.Ready) {o : ClassDoc} (ho : o.Ready) :
    (ClassTable.process table o).Ends fun result =>
      Ready result.1 ∧ Table.keys result.1 = Table.keys table := by
  have happlicable := applicable_of_known table ho.target ho.files
  rcases process_cases table o with ⟨-, key, c, name, -, hget, -, -, hrun⟩ |
      ⟨-, -, w, hrun⟩ | ⟨hnot, -⟩
  · exact ⟨_, _, hrun, h.replace key (ho.patch (h.get? hget) name), keys_replace table key _⟩
  · exact ⟨_, _, hrun, h, rfl⟩
  · exact absurd happlicable hnot

theorem Ready.processAll (h : table.Ready) (external : List String) :
    (ClassTable.processAll table external).Ends fun result => Ready result.1 := by
  have happly : (applyAll table).report.Ends fun current =>
      Ready current ∧ Table.keys current = Table.keys table := by
    rw [applyAll, report_applyKeys]
    refine .foldlM (fun current key hkey hcurrent => ?_) ⟨h, rfl⟩
    have hmem : key ∈ Table.keys current := by
      rw [hcurrent.2]
      obtain ⟨entry, hentry, rfl⟩ := List.mem_map.mp hkey
      exact List.mem_map_of_mem (List.mem_filter.mp hentry).1
    rw [← Table.contains_iff_mem_keys, Table.contains, Option.isSome_iff_exists] at hmem
    obtain ⟨o, hget⟩ := hmem
    rw [processKey, hget]
    refine (hcurrent.1.process (hcurrent.1.get? hget)).map fun result hresult => ?_
    exact ⟨hresult.1, hresult.2.trans hcurrent.2⟩
  refine happly.bind fun current hcurrent => .seq (.progress _ _ _) (.pure ?_)
  exact fun entry hentry => hcurrent.1 entry (List.mem_filter.mp hentry).1

end ClassTable

end ApiPages
