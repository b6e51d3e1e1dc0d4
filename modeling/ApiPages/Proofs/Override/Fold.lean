import ApiPages.Proofs.Override.Worklist

/-!
# Folding all overrides

A run over the worklist leaves every ordinary class below the overrides that are for it, each read
as it was entered, and takes all overrides out of the table. It stops only at an override that is
not applicable.
-/

namespace ApiPages.ClassTable

open ClassDoc

variable {table : ClassTable}

/-- The overrides of a table under their keys, in the order in which they are applied. -/
def worklist (table : ClassTable) : ClassTable :=
  table.filter fun entry => entry.2.isOverride

/-- A table without the classes under some keys. -/
def without (gone : List String) (table : ClassTable) : ClassTable :=
  table.filter fun entry => !gone.contains entry.1

/-- The ordinary classes of a table, each below the overrides that are for it. -/
def folded (table : ClassTable) : ClassTable :=
  (table.filter fun entry => !entry.2.isOverride).map fun entry =>
    (entry.1, (overridesOf table entry.1).foldl overlaidBy entry.2)

theorem mem_worklist {entry : String × ClassDoc} :
    entry ∈ worklist table ↔ entry ∈ table ∧ entry.2.isOverride = true := by
  simp [worklist]

theorem contains_overrideKeys (hkeys : (Table.keys table).Nodup) {entry : String × ClassDoc}
    (hmem : entry ∈ table) : (overrideKeys table).contains entry.1 = entry.2.isOverride := by
  rw [Bool.eq_iff_iff, List.contains_iff_mem]
  constructor
  · intro hkey
    obtain ⟨other, hother, hsame⟩ := List.mem_map.mp hkey
    have hboth := mem_worklist.mp hother
    have hentry : (entry.1, other.2) ∈ table := hsame ▸ hboth.1
    rw [Table.eq_of_mem_of_mem hkeys (show (entry.1, entry.2) ∈ table from hmem) hentry]
    exact hboth.2
  · exact fun hflag => List.mem_map_of_mem (mem_worklist.mpr ⟨hmem, hflag⟩)

theorem overridesOf_worklist (table : ClassTable) (key : String) :
    overridesOf (worklist table) key = overridesOf table key := by
  simp only [overridesOf, worklist, Table.values, List.filter_map, List.filter_filter]
  refine congrArg _ (List.filter_congr fun entry _ => ?_)
  cases h : entry.2.isOverride <;> simp [h]

/-- Going through the rest of the worklist ends well exactly if all of it is applicable, and then
leaves every class below its overrides. -/
theorem Reached.of_applyKeys (hkeys : (Table.keys table).Nodup) (hunshared : Unshared table)
    {done current : ClassTable} (h : Reached table done current) (todo : ClassTable)
    (hsplit : done ++ todo = worklist table) :
    ((applyKeys current (Table.keys todo)).fault = none ↔
        ∀ entry ∈ todo, Applicable table entry.2) ∧
      ((applyKeys current (Table.keys todo)).fault = none →
        Reached table (worklist table) (applyKeys current (Table.keys todo)).table) := by
  induction todo generalizing done current with
  | nil =>
      rw [List.append_nil] at hsplit
      simpa [Table.keys, applyKeys] using hsplit ▸ h
  | cons entry todo ih =>
      obtain ⟨q, o⟩ := entry
      have hwork : ∀ entry ∈ done ++ (q, o) :: todo, entry ∈ table ∧ entry.2.isOverride = true :=
        fun entry hmem => mem_worklist.mp (hsplit ▸ hmem)
      obtain ⟨ho, hflag⟩ := hwork (q, o) (by simp)
      have hnext : (q, o) ∉ done := by
        have hnodup : (worklist table).Nodup := (List.Nodup.of_map _ hkeys).filter _
        rw [← hsplit] at hnodup
        exact fun hin => (List.nodup_append.mp hnodup).2.2 _ hin _ List.mem_cons_self rfl
      have hget : Table.get? current q = some o := by
        obtain ⟨now, hnow, hstands⟩ := h.get? (Table.get?_of_mem hkeys ho)
        obtain rfl : now = o := congrArg Prod.snd (hstands.waits hflag hnext)
        exact hnow
      have hkey : processKey current q = process current o := by simp [processKey, hget]
      have hhead : Table.keys ((q, o) :: todo) = q :: Table.keys todo := rfl
      cases hprocess : process current o with
      | fail fault =>
          have hnot := not_applicable_of_process_eq_fail hprocess
          rw [h.applicable_iff] at hnot
          simp [hhead, applyKeys, hkey, hprocess, hnot]
      | ok result notes =>
          have hnow := h.applicable_iff.mp (applicable_of_process_eq_ok hprocess)
          have hstep := h.of_process hkeys hunshared
            (fun entry hin => (hwork entry (List.mem_append_left _ hin)).1)
            (fun entry hin => (hwork entry (List.mem_append_left _ hin)).2)
            ho hflag hnext hprocess
          have hlater := ih hstep (by rw [List.append_assoc]; exact hsplit)
          rw [hhead, applyKeys, hkey, hprocess]
          simpa [hnow] using hlater

theorem Reached.filter_eq_folded (hkeys : (Table.keys table).Nodup) {current : ClassTable}
    (h : Reached table (worklist table) current) :
    (current.filter fun entry => !(overrideKeys table).contains entry.1) = folded table := by
  unfold folded
  simp only [← overridesOf_worklist table]
  generalize worklist table = done at h
  have hgoal : ∀ entries : ClassTable, (∀ entry ∈ entries, entry ∈ table) →
      ∀ current, List.Forall₂ (Stands done) entries current →
        (current.filter fun entry => !(overrideKeys table).contains entry.1) =
          (entries.filter fun entry => !entry.2.isOverride).map fun entry =>
            (entry.1, (overridesOf done entry.1).foldl overlaidBy entry.2) := by
    intro entries hsub current hstands
    induction hstands with
    | nil => rfl
    | @cons entry now entries current hnow _ ih =>
        have hrest := ih fun e he => hsub e (List.mem_cons_of_mem _ he)
        have hflag := contains_overrideKeys hkeys (hsub entry List.mem_cons_self)
        rw [List.filter_cons, List.filter_cons, hnow.key, hflag, hrest]
        cases hplain : entry.2.isOverride with
        | true => rfl
        | false =>
            have hclass : now = (entry.1, (overridesOf done entry.1).foldl overlaidBy entry.2) :=
              Prod.ext hnow.key (hnow.below hplain)
            simp [hclass]
  exact hgoal table (fun _ hmem => hmem) current h

theorem forall_mem_worklist {P : ClassDoc → Prop} :
    (∀ entry ∈ worklist table, P entry.2) ↔
      ∀ key o, (key, o) ∈ table → o.isOverride = true → P o := by
  constructor
  · intro hall key o hmem hflag
    exact hall (key, o) (mem_worklist.mpr ⟨hmem, hflag⟩)
  · intro hall entry hmem
    obtain ⟨hin, hflag⟩ := mem_worklist.mp hmem
    exact hall entry.1 entry.2 hin hflag

theorem exists_processAll_iff {external : List String} {result : ClassTable × List String} :
    (∃ notes, processAll table external = .ok result notes) ↔
      (applyKeys table (overrideKeys table)).fault = none ∧
        result = (without (overrideKeys table) (applyKeys table (overrideKeys table)).table,
          recordKeys external (overrideKeys table)) := by
  rw [processAll, applyAll, Progress.report]
  cases (applyKeys table (overrideKeys table)).fault with
  | some fault => simp
  | none =>
      simp only [Report.progress, Report.note, Report.pure_eq, Report.ok_bind, Report.after_ok]
      simp [without, eq_comm]

/-- What a run over all overrides comes to. -/
theorem processAll_eq_ok_iff (hkeys : (Table.keys table).Nodup) (hunshared : Unshared table)
    (external : List String) (result : ClassTable × List String) :
    (∃ notes, processAll table external = .ok result notes) ↔
      (∀ key o, (key, o) ∈ table → o.isOverride = true → Applicable table o) ∧
        result = (folded table, recordKeys external (overrideKeys table)) := by
  obtain ⟨happlicable, hreached⟩ :=
    (reached_nil table).of_applyKeys hkeys hunshared (worklist table) rfl
  rw [exists_processAll_iff, ← forall_mem_worklist, ← happlicable]
  refine and_congr_right fun hfault => ?_
  have hfolded : without (overrideKeys table) (applyKeys table (overrideKeys table)).table =
      folded table := (hreached hfault).filter_eq_folded hkeys
  rw [hfolded]

theorem exists_processAll_eq_ok_iff (hkeys : (Table.keys table).Nodup)
    (hunshared : Unshared table) (external : List String) :
    (∃ result notes, processAll table external = .ok result notes) ↔
      ∀ key o, (key, o) ∈ table → o.isOverride = true → Applicable table o := by
  constructor
  · rintro ⟨result, notes, hrun⟩
    exact ((processAll_eq_ok_iff hkeys hunshared external result).mp ⟨notes, hrun⟩).1
  · intro hall
    exact ⟨_, (processAll_eq_ok_iff hkeys hunshared external _).mpr ⟨hall, rfl⟩⟩

end ApiPages.ClassTable
