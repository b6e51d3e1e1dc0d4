import ApiPages.Proofs.Override.Fold

/-!
# Target by target

The overrides of a table act on each ordinary class by itself, whatever stands between them and
whatever else they are for.
-/

namespace ApiPages.ClassTable

open ClassDoc

variable {table : ClassTable}

theorem keys_folded (table : ClassTable) :
    Table.keys (folded table) = Table.keys (table.filter fun entry => !entry.2.isOverride) := by
  simp [folded, Table.keys]

theorem nodup_keys_folded (hkeys : (Table.keys table).Nodup) :
    (Table.keys (folded table)).Nodup := by
  rw [keys_folded]
  exact Table.nodup_keys_filter hkeys _

theorem get?_folded (hkeys : (Table.keys table).Nodup) {key : String} {c : ClassDoc}
    (hget : Table.get? table key = some c) (hplain : c.isOverride = false) :
    Table.get? (folded table) key = some ((overridesOf table key).foldl overlaidBy c) := by
  refine Table.get?_of_mem (nodup_keys_folded hkeys) (List.mem_map.mpr ⟨(key, c), ?_, rfl⟩)
  exact List.mem_filter.mpr ⟨Table.mem_of_get? hget, by simp [hplain]⟩

theorem foldl_annotate (os : List ClassDoc) (doc : String) :
    os.foldl annotate doc = (os.filter (·.doc ≠ "")).foldl
      (fun doc o => addDoc doc s!"**From override {o.shownName}:** {o.doc}") doc := by
  rw [List.foldl_filter]
  simp only [decide_eq_true_eq]
  rfl

theorem displayName_of_mem_overridesOf
    (hall : ∀ key o, (key, o) ∈ table → o.isOverride = true → Applicable table o)
    {key : String} {c : ClassDoc} (hget : Table.get? table key = some c)
    (hplain : c.isOverride = false) {o : ClassDoc} (ho : o ∈ overridesOf table key) :
    o.displayName = .ok o.shownName := by
  obtain ⟨⟨k, hk⟩, hflag, hfor⟩ := mem_overridesOf.mp ho
  obtain ⟨name, hname⟩ := (hall k o hk hflag).hasName key c hfor hget hplain
  rw [shownName, hname]
  rfl

/-! ### Overrides for no class -/

/-- An override whose target is missing, empty, or itself an override. -/
def Idle (table : ClassTable) (o : ClassDoc) : Prop :=
  ∀ key c, o.isFor key = true → Table.get? table key = some c → c.isOverride = true

section Idle

variable (hkeys : (Table.keys table).Nodup) {q : String}
include hkeys

theorem get?_erase {key : String} {c : ClassDoc}
    (h : Table.get? (Table.erase table q) key = some c) : Table.get? table key = some c :=
  Table.get?_of_mem hkeys (List.mem_filter.mp (Table.mem_of_get? h)).1

theorem folded_erase {o : ClassDoc} (ho : (q, o) ∈ table) (hflag : o.isOverride = true)
    (hidle : Idle table o) :
    folded (Table.erase table q) = folded table := by
  have hsame : ∀ entry ∈ table, entry.1 = q → entry.2 = o := by
    rintro ⟨k, c⟩ hmem rfl
    exact Table.eq_of_mem_of_mem hkeys hmem ho
  have hclasses : (Table.erase table q).filter (fun entry => !entry.2.isOverride) =
      table.filter fun entry => !entry.2.isOverride := by
    rw [Table.erase, List.filter_filter]
    refine List.filter_congr fun entry hmem => ?_
    by_cases hq : entry.1 = q
    · simp [hsame entry hmem hq, hflag]
    · simp [hq]
  rw [folded, folded, hclasses]
  refine List.map_congr_left fun entry hmem => ?_
  obtain ⟨hin, hplain⟩ := List.mem_filter.mp hmem
  have hget := Table.get?_of_mem hkeys (show (entry.1, entry.2) ∈ table from hin)
  have hnot : o.isFor entry.1 ≠ true := by
    intro hfor
    simp [hidle _ _ hfor hget] at hplain
  have hoverrides : overridesOf (Table.erase table q) entry.1 = overridesOf table entry.1 := by
    rw [overridesOf, overridesOf, Table.values, Table.values, Table.erase, List.filter_map,
      List.filter_map, List.filter_filter]
    refine congrArg _ (List.filter_congr fun other hother => ?_)
    by_cases hq : other.1 = q
    · simp [hsame other hother hq, hnot]
    · simp [hq]
  rw [hoverrides]

end Idle

/-- **Target by target.** A run over all overrides ends well exactly if they are all applicable.
Then each ordinary class lies below the overrides that are for it, in the order of the table and
each as it was before the run, and an override for no ordinary class might as well not be there. -/
theorem processAll_target_by_target {table : ClassTable} (hkeys : (Table.keys table).Nodup)
    (hunshared : Unshared table) (external : List String) :
    ((∃ result notes, processAll table external = .ok result notes) ↔
        ∀ key o, (key, o) ∈ table → o.isOverride = true → Applicable table o) ∧
      ∀ final known notes, processAll table external = .ok (final, known) notes →
        (∀ key c, Table.get? table key = some c → c.isOverride = false →
          ∃ c', Table.get? final key = some c' ∧
            c' = (overridesOf table key).foldl overlaidBy c ∧
            (∀ o ∈ overridesOf table key, o.displayName = .ok o.shownName) ∧
            c'.files = c.files ++ (overridesOf table key).flatMap ClassDoc.files ∧
            c'.doc = ((overridesOf table key).filter (·.doc ≠ "")).foldl
              (fun doc o => addDoc doc s!"**From override {o.shownName}:** {o.doc}") c.doc ∧
            c' = { c with doc := c'.doc, files := c'.files, members := c'.members } ∧
            (overridesOf table key = [] → c' = c)) ∧
        ∀ key o, (key, o) ∈ table → o.isOverride = true → Idle table o →
          ∃ known' notes',
            processAll (Table.erase table key) external = .ok (final, known') notes' := by
  refine ⟨exists_processAll_eq_ok_iff hkeys hunshared external, fun final known notes hrun => ?_⟩
  obtain ⟨hall, hresult⟩ :=
    (processAll_eq_ok_iff hkeys hunshared external (final, known)).mp ⟨notes, hrun⟩
  obtain rfl : final = folded table := congrArg Prod.fst hresult
  constructor
  · intro key c hget hplain
    refine ⟨_, get?_folded hkeys hget hplain, rfl, ?_, foldl_overlaidBy_files _ _, ?_,
      foldl_overlaidBy_frame _ _, ?_⟩
    · exact fun o ho => displayName_of_mem_overridesOf hall hget hplain ho
    · rw [foldl_overlaidBy_doc, foldl_annotate]
    · intro hnone
      rw [hnone, List.foldl_nil]
  · intro key o hmem hflag hidle
    have herase : Table.erase table key ⊆ table := List.filter_subset_self _
    have hkeys' : (Table.keys (Table.erase table key)).Nodup := Table.nodup_keys_filter hkeys _
    have hunshared' : Unshared (Table.erase table key) := hunshared.filter _
    have hall' : ∀ k o', (k, o') ∈ Table.erase table key → o'.isOverride = true →
        Applicable (Table.erase table key) o' := by
      intro k o' hin hflag'
      obtain ⟨hcan, hname⟩ := hall k o' (herase hin) hflag'
      exact ⟨hcan, fun k c hfor hget => hname k c hfor (get?_erase hkeys hget)⟩
    obtain ⟨notes', hrun'⟩ := (processAll_eq_ok_iff hkeys' hunshared' external _).mpr ⟨hall', rfl⟩
    rw [folded_erase hkeys hmem hflag hidle] at hrun'
    exact ⟨_, notes', hrun'⟩

/-- A button between the override that patches it and one for a class that is not there. -/
def buttonTable : ClassTable :=
  let override : ClassDoc := {
    name := ""
    files := [some { file := "ext/btn-override.js", line := 1 }]
    members := [{ id := "click", owner := "", name := "click" },
      { id := "focus", owner := "", name := "focus", doc := "fires on focus" }]
    doc := "More."
    isOverride := true
    overrideTarget := .text "Btn" }
  let button : ClassDoc := {
    name := "Btn"
    files := [some { file := "btn.js", line := 7 }]
    members := [{ id := "click", owner := "Btn", name := "click", doc := "fires on click" }]
    doc := "A button." }
  let lost : ClassDoc :=
    { name := "Lost", doc := "Gone.", isOverride := true, overrideTarget := .text "Nowhere" }
  insert (insert (insert [] "BtnOverride" override) "Btn" button) "Lost" lost

theorem nodup_keys_buttonTable : (Table.keys buttonTable).Nodup := by decide

theorem unshared_buttonTable : Unshared buttonTable :=
  unshared_insert (unshared_insert (unshared_insert unshared_nil _ _) _ _) _ _

theorem applicable_buttonTable {key : String} {o : ClassDoc} (h : (key, o) ∈ buttonTable) :
    Applicable buttonTable o := by
  have hknown : ∀ entry ∈ buttonTable,
      (entry.2.overrideTarget = .null ∨ ∃ key, entry.2.overrideTarget = .text key) ∧
        none ∉ entry.2.files := by
    refine List.forall_mem_cons.mpr ⟨⟨Or.inr ⟨"Btn", rfl⟩, by decide⟩, ?_⟩
    refine List.forall_mem_cons.mpr ⟨⟨Or.inl rfl, by decide⟩, ?_⟩
    exact List.forall_mem_singleton.mpr ⟨Or.inr ⟨"Nowhere", rfl⟩, by decide⟩
  obtain ⟨htarget, hplaces⟩ := hknown (key, o) h
  exact applicable_of_known _ htarget hplaces

theorem button_below_override :
    (Table.keys buttonTable).Nodup ∧ Unshared buttonTable ∧
      ∃ final known notes c, processAll buttonTable ["Lost"] = .ok (final, known) notes ∧
        Table.get? final "Btn" = some c ∧
        c.files = [some { file := "btn.js", line := 7 },
          some { file := "ext/btn-override.js", line := 1 }] ∧
        c.doc = "A button.\n\n**From override btn-override.js:** More." := by
  refine ⟨nodup_keys_buttonTable, unshared_buttonTable, ?_⟩
  obtain ⟨hends, hfinal⟩ :=
    processAll_target_by_target nodup_keys_buttonTable unshared_buttonTable ["Lost"]
  obtain ⟨⟨final, known⟩, notes, hrun⟩ := hends.mpr fun key o h _ => applicable_buttonTable h
  obtain ⟨c, hget, -, -, hfiles, hdoc, -⟩ := (hfinal final known notes hrun).1 "Btn" _ rfl rfl
  exact ⟨final, known, notes, c, hrun, hget, hfiles, hdoc.trans (by decide)⟩

end ApiPages.ClassTable
