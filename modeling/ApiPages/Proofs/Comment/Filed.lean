import ApiPages.Occurrences
import ApiPages.Proofs.Except
import Mathlib.Data.List.Nodup

/-!
# The order of filed records

Records are filed under their names, each name at the place where it first came up. Filing records
behind others is filing them alone, but for the names that have a place already.
-/

namespace ApiPages

theorem Groups.keys_add (groups : Groups) (name : Name) (r : Record) :
    Table.keys (groups.add name r) =
      if name ∈ Table.keys groups then Table.keys groups else Table.keys groups ++ [name] := by
  induction groups with
  | nil => rfl
  | cons group groups ih =>
      obtain ⟨key, rs⟩ := group
      simp only [Table.keys] at ih
      by_cases hkey : key = name
      · simp [add, Table.keys, hkey]
      · simp only [add, Table.keys, hkey, if_false, List.map_cons, ih, List.mem_cons, Ne.symm hkey,
          false_or]
        split <;> simp [*]

theorem Groups.nodup_keys_add {groups : Groups} (h : (Table.keys groups).Nodup) (name : Name)
    (r : Record) : (Table.keys (groups.add name r)).Nodup := by
  rw [keys_add]
  split
  · exact h
  · rename_i hnew
    refine List.nodup_append.mpr ⟨h, List.nodup_singleton name, fun other hother key hkey => ?_⟩
    rw [List.mem_singleton.mp hkey]
    exact fun heq => hnew (heq ▸ hother)

theorem Groups.of_eq_nil {groups : Groups} {name : Name} (h : name ∉ Table.keys groups) :
    groups.of name = [] := by
  rw [of, Table.get?_eq_none_iff.mpr h]
  rfl

namespace Occurrences

theorem addDoc_eq_ok {raw raw' : Occurrences} {r : Record} (h : addDoc raw r = .ok raw') :
    ∃ name, Record.tagname r = .ok name ∧ raw' = { raw with doc := raw.doc.add name r } := by
  obtain ⟨name, hname, h⟩ := Except.bind_eq_ok_iff.mp h
  exact ⟨name, hname, (Except.ok.inj h).symm⟩

theorem addCode_eq_ok {raw raw' : Occurrences} {r : Record} (h : addCode raw r = .ok raw') :
    ∃ name, Record.tagname r = .ok name ∧ raw' = { raw with code := raw.code.add name r } := by
  obtain ⟨name, hname, h⟩ := Except.bind_eq_ok_iff.mp h
  exact ⟨name, hname, (Except.ok.inj h).symm⟩

theorem nodup_keys_addDocs {rs : List Record} {raw raw' : Occurrences}
    (hrun : addDocs raw rs = .ok raw') (h : (Table.keys raw.doc).Nodup) :
    (Table.keys raw'.doc).Nodup := by
  refine Except.foldlM_invariant (I := fun raw => (Table.keys raw.doc).Nodup) hrun ?_ h
  intro before r after hstep hkeys
  obtain ⟨name, -, rfl⟩ := addDoc_eq_ok hstep
  exact Groups.nodup_keys_add hkeys name r

theorem keys_addDocs {rs : List Record} {raw raw' alone alone' : Occurrences} {names : List Name}
    (hrun : addDocs raw rs = .ok raw') (halone : addDocs alone rs = .ok alone')
    (h : Table.keys raw.doc = names ++ (Table.keys alone.doc).filter (· ∉ names)) :
    Table.keys raw'.doc = names ++ (Table.keys alone'.doc).filter (· ∉ names) := by
  induction rs generalizing raw alone with
  | nil =>
      obtain rfl := Except.ok.inj hrun
      obtain rfl := Except.ok.inj halone
      exact h
  | cons r rs ih =>
      rw [addDocs, List.foldlM_cons] at hrun halone
      obtain ⟨next, hstep, hrun⟩ := Except.bind_eq_ok_iff.mp hrun
      obtain ⟨nextAlone, hstepAlone, halone⟩ := Except.bind_eq_ok_iff.mp halone
      obtain ⟨name, hname, rfl⟩ := addDoc_eq_ok hstep
      obtain ⟨name', hname', rfl⟩ := addDoc_eq_ok hstepAlone
      obtain rfl : name = name' := Except.ok.inj (hname.symm.trans hname')
      refine ih hrun halone ?_
      rw [Groups.keys_add, Groups.keys_add, h]
      by_cases hold : name ∈ names
      · rw [if_pos (List.mem_append_left _ hold)]
        split
        · rfl
        · simp [List.filter_append, hold]
      · by_cases hknown : name ∈ Table.keys alone.doc
        · have hmem : name ∈ (Table.keys alone.doc).filter (· ∉ names) :=
            List.mem_filter.mpr ⟨hknown, by simpa using hold⟩
          rw [if_pos (List.mem_append_right _ hmem), if_pos hknown]
        · have hnot : name ∉ names ++ (Table.keys alone.doc).filter (· ∉ names) := by
            simp [hold, hknown]
          rw [if_neg hnot, if_neg hknown, List.filter_append, List.append_assoc]
          simp [hold]

/-! ### Names with one place each -/

/-- Raw records that have all records of a name in one place. -/
structure Distinct (raw : Occurrences) : Prop where
  doc : (Table.keys raw.doc).Nodup
  code : (Table.keys raw.code).Nodup

namespace Distinct

variable {raw raw' : Occurrences} (h : raw.Distinct) {rs : List Record}
include h

theorem nodup_tagnames : raw.tagnames.Nodup := by
  refine List.nodup_append.mpr ⟨h.doc, h.code.filter _, fun name hdoc other hcode heq => ?_⟩
  subst heq
  have hlacks := (List.mem_filter.mp hcode).2
  rw [(Table.contains_iff_mem_keys raw.doc name).mpr hdoc] at hlacks
  exact absurd hlacks Bool.false_ne_true

end Distinct

theorem mem_tagnames {raw : Occurrences} {name : Name} :
    name ∈ raw.tagnames ↔ name ∈ Table.keys raw.doc ∨ name ∈ Table.keys raw.code := by
  rw [tagnames, List.mem_append, List.mem_filter, ← Table.contains_iff_mem_keys raw.doc]
  cases Table.contains raw.doc name with
  | false => simp
  | true => simp

end Occurrences

end ApiPages
