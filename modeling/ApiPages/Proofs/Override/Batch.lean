import ApiPages.Proofs.Override.Shared

/-!
# Overrides in batches

An override cannot tell whether another override is in the table: the one it finds under its target
it passes over, as it does where it finds nothing. So a table runs the same without the overrides
whose turn is over or has not come. Hence overrides may come in batches, each to what the run over
the one before has left.
-/

namespace ApiPages.ClassTable

open ClassDoc

/-- The classes of a batch, with the members that a table has as they are in the table. -/
def beside (current batch : ClassTable) : ClassTable :=
  batch.map fun entry => (entry.1, entry.2.refresh current.members)

/-! ### Leaving overrides out -/

theorem without_append (gone : List String) (s t : ClassTable) :
    without gone (s ++ t) = without gone s ++ without gone t :=
  List.filter_append ..

theorem without_without (gone later : List String) (table : ClassTable) :
    without later (without gone table) = without (gone ++ later) table := by
  rw [without, without, without, List.filter_filter]
  refine List.filter_congr fun entry _ => ?_
  simp [Bool.and_comm]

theorem without_eq_self {gone : List String} {table : ClassTable}
    (h : ∀ key ∈ Table.keys table, key ∉ gone) : without gone table = table := by
  refine List.filter_eq_self.mpr fun entry hentry => ?_
  simpa using h entry.1 (List.mem_map_of_mem hentry)

theorem without_eq_nil {gone : List String} {table : ClassTable}
    (h : ∀ key ∈ Table.keys table, key ∈ gone) : without gone table = [] := by
  refine List.filter_eq_nil_iff.mpr fun entry hentry => ?_
  simpa using h entry.1 (List.mem_map_of_mem hentry)

theorem without_replace (gone : List String) (table : ClassTable) (key : String) (c : ClassDoc) :
    without gone (replace table key c) = replace (without gone table) key c := by
  rw [without, replace, List.filter_map]
  refine congrArg _ (List.filter_congr fun entry _ => ?_)
  rw [Function.comp_apply, apply_ite Prod.fst, ite_self]

theorem get?_without (gone : List String) (table : ClassTable) (key : String) :
    Table.get? (without gone table) key = if key ∈ gone then none else Table.get? table key := by
  rw [without, Table.get?_filter_key fun k => !gone.contains k]
  by_cases h : key ∈ gone <;> simp [h]

section Flagged

variable {gone : List String} {table : ClassTable}
  (hgone : ∀ entry ∈ table, entry.1 ∈ gone → entry.2.isOverride = true)
include hgone

theorem get?_without_of_plain {key : String} {c : ClassDoc} (hplain : c.isOverride = false) :
    Table.get? (without gone table) key = some c ↔ Table.get? table key = some c := by
  rw [get?_without]
  by_cases hkey : key ∈ gone
  · rw [if_pos hkey]
    refine iff_of_false (Option.some_ne_none c).symm fun hget => ?_
    have hflag := hgone _ (Table.mem_of_get? hget) hkey
    exact Bool.noConfusion (hflag.symm.trans hplain)
  · rw [if_neg hkey]

theorem applicable_without_iff {o : ClassDoc} :
    Applicable (without gone table) o ↔ Applicable table o := by
  constructor
  · intro h
    refine ⟨h.canName, fun key c hkey hget hplain => ?_⟩
    exact h.hasName key c hkey ((get?_without_of_plain hgone hplain).mpr hget) hplain
  · intro h
    refine ⟨h.canName, fun key c hkey hget hplain => ?_⟩
    exact h.hasName key c hkey ((get?_without_of_plain hgone hplain).mp hget) hplain

/-- One override does the same where others are left out, or it cannot be applied at all. -/
theorem process_without (o : ClassDoc) :
    (∃ patched applied notes notes', process table o = .ok (patched, applied) notes ∧
        process (without gone table) o = .ok (without gone patched, applied) notes') ∨
      ∃ fault fault', process table o = .fail fault ∧
        process (without gone table) o = .fail fault' := by
  rcases process_cases table o with
    ⟨-, key, c, name, hkey, hget, hplain, hname, hrun⟩ | ⟨happlicable, hflagged, w, hrun⟩ |
      ⟨hnot, fault, hrun⟩
  · have hget' := (get?_without_of_plain hgone hplain).mpr hget
    have hrun' := process_of_class hkey hget' hplain
    rw [hname] at hrun'
    exact Or.inl ⟨_, _, _, _, hrun, by rw [hrun', without_replace]; rfl⟩
  · have happlicable' := (applicable_without_iff hgone).mpr happlicable
    rcases process_cases (without gone table) o with
      ⟨-, key, c, -, hkey, hget', hplain, -, -⟩ | ⟨-, -, w', hrun'⟩ | ⟨hnot', -, -⟩
    · have hget := (get?_without_of_plain hgone hplain).mp hget'
      exact Bool.noConfusion ((hflagged key c hkey hget).symm.trans hplain)
    · exact Or.inl ⟨_, _, _, _, hrun, hrun'⟩
    · exact absurd happlicable' hnot'
  · have hnot' : ¬ Applicable (without gone table) o :=
      fun happlicable => hnot ((applicable_without_iff hgone).mp happlicable)
    rcases process_cases (without gone table) o with
      ⟨happlicable, -⟩ | ⟨happlicable, -⟩ | ⟨-, fault', hrun'⟩
    · exact absurd happlicable hnot'
    · exact absurd happlicable hnot'
    · exact Or.inr ⟨fault, fault', hrun, hrun'⟩

end Flagged

/-- **A run does not look at the overrides that it leaves alone.** -/
theorem applyKeys_without {gone keys : List String} {table : ClassTable}
    (hkeys : (Table.keys table).Nodup)
    (hgone : ∀ entry ∈ table, entry.1 ∈ gone → entry.2.isOverride = true)
    (hturn : ∀ key ∈ keys, key ∉ gone) :
    ((applyKeys (without gone table) keys).fault = none ↔ (applyKeys table keys).fault = none) ∧
      (applyKeys (without gone table) keys).table = without gone (applyKeys table keys).table := by
  induction keys generalizing table with
  | nil => exact ⟨Iff.rfl, rfl⟩
  | cons key keys ih =>
      obtain ⟨hkey, hturn⟩ := List.forall_mem_cons.mp hturn
      rw [applyKeys, applyKeys, processKey, processKey, get?_without, if_neg hkey]
      cases hget : Table.get? table key with
      | none => exact ⟨Iff.rfl, rfl⟩
      | some o =>
          dsimp only
          rcases process_without hgone o with
            ⟨patched, applied, notes, notes', hrun, hrun'⟩ | ⟨fault, fault', hrun, hrun'⟩
          · have hunderway := underway_process hkeys hrun
            have hgone' : ∀ now ∈ patched, now.1 ∈ gone → now.2.isOverride = true := by
              intro now hnow hmem
              obtain ⟨entry, hentry, hflagged⟩ :=
                ApiPages.Except.exists_of_mem_right hunderway now hnow
              rw [hflagged.flag]
              exact hgone entry hentry (hflagged.key ▸ hmem)
            rw [hrun, hrun']
            exact ih (hunderway.keys_eq ▸ hkeys) hgone' hturn
          · rw [hrun, hrun']
            exact ⟨iff_of_false (Option.some_ne_none fault') (Option.some_ne_none fault), rfl⟩

/-! ### One batch behind the other -/

theorem applyKeys_append (table : ClassTable) (keys later : List String) :
    ((applyKeys table (keys ++ later)).fault = none ↔ (applyKeys table keys).fault = none ∧
        (applyKeys (applyKeys table keys).table later).fault = none) ∧
      ((applyKeys table keys).fault = none → (applyKeys table (keys ++ later)).table =
        (applyKeys (applyKeys table keys).table later).table) := by
  induction keys generalizing table with
  | nil => exact ⟨⟨fun h => ⟨rfl, h⟩, And.right⟩, fun _ => rfl⟩
  | cons key keys ih =>
      rw [List.cons_append, applyKeys, applyKeys]
      cases processKey table key with
      | fail fault =>
          have hstopped : some fault ≠ none := Option.some_ne_none fault
          exact ⟨iff_of_false hstopped fun h => hstopped h.1, fun h => absurd h hstopped⟩
      | ok result notes => exact ih result.1

theorem overrideKeys_append (s t : ClassTable) :
    overrideKeys (s ++ t) = overrideKeys s ++ overrideKeys t := by
  simp [overrideKeys, Table.keys]

theorem overrideKeys_of_flagged {table : ClassTable}
    (h : ∀ entry ∈ table, entry.2.isOverride = true) : overrideKeys table = Table.keys table := by
  rw [overrideKeys, List.filter_eq_self.mpr h]

theorem recordKeys_append (external keys later : List String) :
    recordKeys external (keys ++ later) = recordKeys (recordKeys external keys) later :=
  List.foldl_append ..

/-! ### A batch that waits -/

/-- What a run removes are the classes that are overrides by then. -/
theorem without_overrideKeys {table current : ClassTable} (hkeys : (Table.keys table).Nodup)
    (h : Underway table current) :
    without (overrideKeys table) current = current.filter fun entry => !entry.2.isOverride := by
  refine List.filter_congr fun now hnow => ?_
  obtain ⟨entry, hentry, hflagged⟩ := ApiPages.Except.exists_of_mem_right h now hnow
  rw [hflagged.flag, hflagged.key, contains_overrideKeys hkeys hentry]

theorem beside_eq_self {current batch : ClassTable}
    (h : ∀ n ∈ serials batch, n ∉ serials current) : beside current batch = batch := by
  have hentries : beside current batch = batch.map id := by
    refine List.map_congr_left fun entry hentry => Prod.ext rfl ?_
    refine refresh_eq_self fun n hn => ?_
    rw [map_serial_members]
    exact h n (List.mem_flatMap.mpr ⟨entry, hentry, hn⟩)
  rw [hentries, List.map_id]

theorem overrideKeys_beside {current batch : ClassTable}
    (h : ∀ entry ∈ batch, entry.2.isOverride = true) :
    overrideKeys (beside current batch) = Table.keys batch := by
  have hflagged : ∀ entry ∈ beside current batch, entry.2.isOverride = true := by
    intro entry hentry
    obtain ⟨before, hbefore, rfl⟩ := List.mem_map.mp hentry
    exact h before hbefore
  rw [overrideKeys_of_flagged hflagged, beside, Table.keys, List.map_map]
  rfl

theorem mem_serials_applyKeys {table : ClassTable} {keys : List String} {n : Nat}
    (h : n ∈ serials (applyKeys table keys).table) : n ∈ serials table := by
  have hlasts := Lasts.of_members (P := fun m => m.serial ∈ serials table) fun _ _ _ _ h => h
  have hstart : ∀ entry ∈ table, ∀ m ∈ entry.2.members, m.serial ∈ serials table :=
    fun entry hentry m hm => List.mem_flatMap.mpr ⟨entry, hentry, List.mem_map_of_mem hm⟩
  obtain ⟨entry, hentry, hn⟩ := List.mem_flatMap.mp h
  obtain ⟨m, hm, rfl⟩ := List.mem_map.mp hn
  exact forall_mem_applyKeys hlasts hstart keys entry hentry m hm

section Batch

variable {table batch : ClassTable} (hkeys : (Table.keys (table ++ batch)).Nodup)
include hkeys

theorem nodup_keys_of_append : (Table.keys table).Nodup := by
  rw [Table.keys, List.map_append] at hkeys
  exact (List.nodup_append.mp hkeys).1

theorem not_mem_keys_of_batch {key : String} (h : key ∈ Table.keys table) :
    key ∉ Table.keys batch := by
  rw [Table.keys, List.map_append] at hkeys
  exact fun h' => (List.nodup_append.mp hkeys).2.2 key h key h' rfl

theorem not_mem_overrideKeys_of_batch {key : String} (h : key ∈ overrideKeys table) :
    key ∉ Table.keys batch :=
  not_mem_keys_of_batch hkeys ((List.filter_sublist.map Prod.fst).subset h)

theorem without_batch : without (Table.keys batch) (table ++ batch) = table := by
  rw [without_append, without_eq_self fun _ => not_mem_keys_of_batch hkeys,
    without_eq_nil fun _ => id, List.append_nil]

variable (hbatch : ∀ entry ∈ batch, entry.2.isOverride = true)
include hbatch

/-- The overrides of a table are applied alike whether the batch is there or not. -/
theorem applyKeys_of_batch :
    ((applyKeys table (overrideKeys table)).fault = none ↔
        (applyKeys (table ++ batch) (overrideKeys table)).fault = none) ∧
      (applyKeys table (overrideKeys table)).table =
        without (Table.keys batch) (applyKeys (table ++ batch) (overrideKeys table)).table := by
  have hgone : ∀ entry ∈ table ++ batch, entry.1 ∈ Table.keys batch →
      entry.2.isOverride = true := by
    intro entry hentry hkey
    rcases List.mem_append.mp hentry with htable | hmem
    · exact absurd hkey (not_mem_keys_of_batch hkeys (List.mem_map_of_mem htable))
    · exact hbatch entry hmem
  have halone := applyKeys_without hkeys hgone fun _ => not_mem_overrideKeys_of_batch hkeys
  rw [without_batch hkeys] at halone
  exact halone

/-- What the ordinary classes list behind the run is what it leaves of the table. -/
theorem plainMembers_append {front back : ClassTable} (hfront : Underway table front)
    (hback : Underway batch back) :
    plainMembers (front ++ back) = members (without (overrideKeys table) front) := by
  have hdropped : back.filter (fun entry => !entry.2.isOverride) = [] := by
    refine List.filter_eq_nil_iff.mpr fun now hnow => ?_
    obtain ⟨entry, hentry, hflagged⟩ := ApiPages.Except.exists_of_mem_right hback now hnow
    simp [hflagged.flag, hbatch entry hentry]
  rw [plainMembers, List.filter_append, hdropped, List.append_nil,
    without_overrideKeys (nodup_keys_of_append hkeys) hfront]

variable (hconsistent : (table ++ batch).Consistent)
include hconsistent

/-- The table and the batch are two parts still, and the first is what the table comes to alone. -/
theorem exists_append_applyKeys : ∃ front back,
    (applyKeys (table ++ batch) (overrideKeys table)).table = front ++ back ∧
      List.Forall₂ Held table front ∧ List.Forall₂ Held batch back ∧
      (applyKeys table (overrideKeys table)).table = front := by
  have hlent := lent_applyKeys hkeys hconsistent (overrideKeys table)
  obtain ⟨front, back, hsplit, hfront, hback⟩ := Table.exists_append_of_forall₂ hlent.held
  have hfrontKeys : Table.keys front = Table.keys table :=
    Table.keys_of_forall₂ (fun _ _ hnow => hnow.key) hfront
  have hbackKeys : Table.keys back = Table.keys batch :=
    Table.keys_of_forall₂ (fun _ _ hnow => hnow.key) hback
  refine ⟨front, back, hsplit, hfront, hback, ?_⟩
  rw [(applyKeys_of_batch hkeys hbatch).2, hsplit, without_append, without_eq_self,
    without_eq_nil, List.append_nil]
  · rw [hbackKeys]
    exact fun _ => id
  · rw [hfrontKeys]
    exact fun _ => not_mem_keys_of_batch hkeys

variable {middle : ClassTable}
  (hmiddle : middle = without (overrideKeys table) (applyKeys table (overrideKeys table)).table)
include hmiddle

/-- A batch that comes behind the run finds what it would have found by waiting in the table. -/
theorem append_beside : middle ++ beside middle batch =
    without (overrideKeys table) (applyKeys (table ++ batch) (overrideKeys table)).table := by
  have hlent := lent_applyKeys hkeys hconsistent (overrideKeys table)
  obtain ⟨front, back, hsplit, hfront, hback, hfirst⟩ :=
    exists_append_applyKeys hkeys hbatch hconsistent
  have hflagged : ∀ entry now, Held entry now → Flagged entry now := fun _ _ => Held.toFlagged
  have hplain := plainMembers_append hkeys hbatch (hfront.imp hflagged) (hback.imp hflagged)
  rw [hfirst] at hmiddle
  rw [← hmiddle] at hplain
  have hbeside : beside middle batch = back := by
    have hentries := Table.forall₂_map_of_mem hback (f := id)
      (S := fun entry now => (entry.1, entry.2.refresh middle.members) = now) ?_
    · rwa [List.map_id, ← List.forall₂_map_left_iff, List.forall₂_eq_eq_eq] at hentries
    · intro entry now hentry hnow hheld
      have hread := hlent.eq_refresh hconsistent (List.mem_append_right table hentry)
        (hsplit ▸ List.mem_append_right front hnow) hheld (hbatch entry hentry)
      rw [hsplit, hplain] at hread
      exact hread.symm
  have hwaits : without (overrideKeys table) back = back := by
    have hbackKeys : Table.keys back = Table.keys batch :=
      Table.keys_of_forall₂ (fun _ _ hnow => hnow.key) hback
    refine without_eq_self fun key hkey hmem => ?_
    exact not_mem_overrideKeys_of_batch hkeys hmem (hbackKeys ▸ hkey)
  rw [hbeside, hsplit, without_append, hwaits, hmiddle]

theorem exists_processAll_beside_iff (known : List String) (result : ClassTable × List String) :
    (∃ later, processAll (middle ++ beside middle batch) known = .ok result later) ↔
      (applyKeys (applyKeys (table ++ batch) (overrideKeys table)).table
        (Table.keys batch)).fault = none ∧
      result = (without (overrideKeys table ++ Table.keys batch)
        (applyKeys (applyKeys (table ++ batch) (overrideKeys table)).table
          (Table.keys batch)).table, recordKeys known (Table.keys batch)) := by
  have hunderway : Underway (table ++ batch)
      (applyKeys (table ++ batch) (overrideKeys table)).table :=
    (lent_applyKeys hkeys hconsistent (overrideKeys table)).underway
  have hover : ∀ now ∈ (applyKeys (table ++ batch) (overrideKeys table)).table,
      now.1 ∈ overrideKeys table → now.2.isOverride = true := by
    intro now hnow hkey
    obtain ⟨entry, hentry, hflagged⟩ := ApiPages.Except.exists_of_mem_right hunderway now hnow
    rw [hflagged.flag, ← contains_overrideKeys hkeys hentry, overrideKeys_append]
    exact List.contains_iff_mem.mpr (List.mem_append_left _ (hflagged.key ▸ hkey))
  have hturn : ∀ key ∈ Table.keys batch, key ∉ overrideKeys table :=
    fun _ hkey hmem => not_mem_overrideKeys_of_batch hkeys hmem hkey
  have halone := applyKeys_without (hunderway.keys_eq ▸ hkeys) hover hturn
  have hnone : overrideKeys middle = [] := by
    have htable := nodup_keys_of_append hkeys
    have hleft := without_overrideKeys htable (underway_applyAll htable).2
    rw [applyAll] at hleft
    rw [hmiddle, hleft, overrideKeys, List.filter_filter]
    simp [Table.keys]
  rw [exists_processAll_iff, overrideKeys_append, hnone, List.nil_append,
    overrideKeys_beside hbatch, append_beside hkeys hbatch hconsistent hmiddle, halone.1, halone.2,
    without_without]

end Batch

/-- **Overrides may come in batches.** A batch of overrides that comes to what a run has left is
applied as if it had been in the table from the start: both runs end well if it would have, and
then with the same classes and the same record. They do so exactly if all overrides are applicable.
A batch that shares no member with the table comes as it is. -/
theorem processAll_in_batches {table batch : ClassTable}
    (hkeys : (Table.keys (table ++ batch)).Nodup) (hconsistent : (table ++ batch).Consistent)
    (hbatch : ∀ entry ∈ batch, entry.2.isOverride = true) (external : List String) :
    (∀ result, (∃ notes, processAll (table ++ batch) external = .ok result notes) ↔
        ∃ middle known first later, processAll table external = .ok (middle, known) first ∧
          processAll (middle ++ beside middle batch) known = .ok result later) ∧
      ((∃ result notes, processAll (table ++ batch) external = .ok result notes) ↔
        ∀ key o, (key, o) ∈ table ++ batch → o.isOverride = true →
          Applicable (table ++ batch) o) ∧
      ((∀ n ∈ serials batch, n ∉ serials table) → ∀ middle known notes,
        processAll table external = .ok (middle, known) notes → beside middle batch = batch) := by
  refine ⟨fun result => ?_, ?_, ?_⟩
  · have hbeside := exists_processAll_beside_iff hkeys hbatch hconsistent rfl
      (recordKeys external (overrideKeys table)) result
    have halone := (applyKeys_of_batch hkeys hbatch).1
    obtain ⟨hends, htable⟩ :=
      applyKeys_append (table ++ batch) (overrideKeys table) (Table.keys batch)
    rw [exists_processAll_iff, overrideKeys_append, overrideKeys_of_flagged hbatch,
      recordKeys_append]
    constructor
    · rintro ⟨hfault, hresult⟩
      obtain ⟨hfirst, hrest⟩ := hends.mp hfault
      rw [htable hfirst] at hresult
      obtain ⟨first, hrun⟩ := exists_processAll_iff.mpr ⟨halone.mpr hfirst, rfl⟩
      obtain ⟨later, hlater⟩ := hbeside.mpr ⟨hrest, hresult⟩
      exact ⟨_, _, first, later, hrun, hlater⟩
    · rintro ⟨middle, known, first, later, hrun, hlater⟩
      obtain ⟨hfirst, hsame⟩ := exists_processAll_iff.mp ⟨first, hrun⟩
      obtain ⟨rfl, rfl⟩ := Prod.mk.inj hsame
      obtain ⟨hrest, hresult⟩ := hbeside.mp ⟨later, hlater⟩
      have hfirst := halone.mp hfirst
      rw [htable hfirst]
      exact ⟨hends.mpr ⟨hfirst, hrest⟩, hresult⟩
  · rw [← (underway_applyAll hkeys).1]
    constructor
    · rintro ⟨result, notes, hrun⟩
      exact (exists_processAll_iff.mp ⟨notes, hrun⟩).1
    · intro hfault
      obtain ⟨notes, hrun⟩ := exists_processAll_iff.mpr ⟨hfault, rfl⟩
      exact ⟨_, notes, hrun⟩
  · intro happart middle known notes hrun
    obtain ⟨-, rfl, -⟩ := processAll_eq_ok hrun
    refine beside_eq_self fun n hn hmem => happart n hn ?_
    exact mem_serials_applyKeys ((List.filter_sublist.flatMap _).subset hmem)

/-- An override with a member of the class it is for and with a new one, and an override that an
override of the mixed table is for, and that is for one of them itself. -/
def mixedBatch : ClassTable :=
  let click : Member := { id := "click", owner := "Base", name := "click", serial := 1 }
  let hover : Member := { id := "hover", owner := "Late", name := "hover", serial := 2 }
  [("Late", {
      name := "Late"
      members := [hover, click]
      isOverride := true
      overrideTarget := .text "Base" }),
    ("Nowhere", { name := "Nowhere", isOverride := true, overrideTarget := .text "First" })]

theorem mixed_batches_agree :
    (Table.keys (mixedTable ++ mixedBatch)).Nodup ∧ (mixedTable ++ mixedBatch).Consistent ∧
      (∀ entry ∈ mixedBatch, entry.2.isOverride = true) ∧
      ∃ result notes middle known first later,
        processAll (mixedTable ++ mixedBatch) ["Nowhere"] = .ok result notes ∧
          processAll mixedTable ["Nowhere"] = .ok (middle, known) first ∧
          processAll (middle ++ beside middle mixedBatch) known = .ok result later ∧
          result.1.map (fun entry => (entry.1, entry.2.memberIds)) =
            [("Base", ["click", "hover"])] ∧
          result.2 = ["Nowhere", "Lost", "First", "Second", "Self", "Late"] := by
  have hkeys : (Table.keys (mixedTable ++ mixedBatch)).Nodup := by decide
  have hconsistent : (mixedTable ++ mixedBatch).Consistent := by
    constructor
    · let click : Member := { id := "click", owner := "Base", name := "click", serial := 1 }
      let hover : Member := { id := "hover", owner := "Late", name := "hover", serial := 2 }
      have hread : ∀ m ∈ [click, click, hover, click],
          m = if m.serial = 1 then click else hover := by
        simp only [List.forall_mem_cons]
        exact ⟨rfl, rfl, rfl, rfl, fun _ h => absurd h List.not_mem_nil⟩
      intro m hm n hn hserial
      rw [hread m hm, hread n hn, hserial]
    · decide
  have hbatch : ∀ entry ∈ mixedBatch, entry.2.isOverride = true := by decide
  obtain ⟨result, notes, hrun, hids, hknown⟩ : ∃ result notes,
      processAll (mixedTable ++ mixedBatch) ["Nowhere"] = .ok result notes ∧
        result.1.map (fun entry => (entry.1, entry.2.memberIds)) =
          [("Base", ["click", "hover"])] ∧
        result.2 = ["Nowhere", "Lost", "First", "Second", "Self", "Late"] := ⟨_, _, rfl, rfl, rfl⟩
  obtain ⟨hsame, -, -⟩ := processAll_in_batches hkeys hconsistent hbatch ["Nowhere"]
  obtain ⟨middle, known, first, later, hfirst, hlater⟩ := (hsame result).mp ⟨notes, hrun⟩
  exact ⟨hkeys, hconsistent, hbatch, result, notes, middle, known, first, later, hrun, hfirst,
    hlater, hids, hknown⟩

end ApiPages.ClassTable
