import ApiPages.Proofs.Except
import ApiPages.Proofs.Override.Target

/-!
# What a run removes

Whatever an override writes, it writes to ordinary classes and to members. So all keys and flags
stay as they are until the overrides are taken out, even where classes share members, and an
override says the same when its turn comes as before the run. Behind a run there is no override
left, and nothing for a second run to do.
-/

namespace ApiPages.ClassTable

open ClassDoc

/-- Where an entry may have got to while overrides are applied: it has its key and its flag, and of
an override only the members can have changed. -/
structure Flagged (entry now : String × ClassDoc) : Prop where
  key : now.1 = entry.1
  flag : now.2.isOverride = entry.2.isOverride
  frame : entry.2.isOverride = true → now.2 = { entry.2 with members := now.2.members }

namespace Flagged

theorem refl (entry : String × ClassDoc) : Flagged entry entry :=
  ⟨rfl, rfl, fun _ => rfl⟩

theorem trans {first second third : String × ClassDoc} (h : Flagged first second)
    (h' : Flagged second third) : Flagged first third := by
  refine ⟨h'.key.trans h.key, h'.flag.trans h.flag, fun hflag => ?_⟩
  have hsecond := h.frame hflag
  have hthird := h'.frame (h.flag.trans hflag)
  rw [hsecond] at hthird
  exact hthird

end Flagged

/-- Every entry of a table has got where overrides can take it. -/
abbrev Underway (table current : ClassTable) : Prop :=
  List.Forall₂ Flagged table current

section Underway

variable {table current patched : ClassTable}

theorem underway_refl (table : ClassTable) : Underway table table :=
  List.forall₂_same.mpr fun entry _ => .refl entry

theorem Underway.trans (h : Underway table current) (h' : Underway current patched) :
    Underway table patched := by
  induction h generalizing patched with
  | nil => exact h'
  | @cons entry now _ _ hnow _ ih =>
      obtain ⟨later, patched, hlater, hrest, rfl⟩ := List.forall₂_cons_left_iff.mp h'
      exact .cons (hnow.trans hlater) (ih hrest)

theorem Underway.keys_eq (h : Underway table current) : Table.keys current = Table.keys table :=
  Table.keys_of_forall₂ (fun _ _ hnow => hnow.key) h

theorem Underway.get? (h : Underway table current) (key : String) :
    Table.get? table key = none ∧ Table.get? current key = none ∨
      ∃ c d, Table.get? table key = some c ∧ Table.get? current key = some d ∧
        Flagged (key, c) (key, d) :=
  Table.get?_of_forall₂ (fun _ _ hnow => hnow.key) h key

/-- Patching an ordinary class changes no key and no flag, and of an override only members. -/
theorem underway_replace (hkeys : (Table.keys current).Nodup) {key name : String}
    {o now : ClassDoc} (hget : Table.get? current key = some now)
    (hplain : now.isOverride = false) :
    Underway current (replace current key (o.patch name now)) := by
  refine List.forall₂_map_right_iff.mpr (List.forall₂_same.mpr fun entry hmem => ?_)
  obtain ⟨k, c⟩ := entry
  by_cases hk : k = key
  · subst hk
    have hc := Table.get?_of_mem hkeys hmem
    obtain rfl : c = now := Option.some.inj (hc.symm.trans hget)
    simp only [if_true]
    exact ⟨rfl, rfl, fun hflag => Bool.noConfusion (hflag.symm.trans hplain)⟩
  · simp only [hk, if_false]
    exact ⟨rfl, rfl, fun _ => rfl⟩

theorem underway_process (hkeys : (Table.keys current).Nodup) {o : ClassDoc} {applied : Bool}
    {notes : List Note} (h : process current o = .ok (patched, applied) notes) :
    Underway current patched := by
  rcases process_cases current o with
    ⟨-, key, now, name, -, hget, hplain, -, hrun⟩ | ⟨-, -, w, hrun⟩ | ⟨-, fault, hrun⟩
  · rw [hrun] at h
    cases h
    exact underway_replace hkeys hget hplain
  · rw [hrun] at h
    cases h
    exact underway_refl current
  · simp [hrun] at h

/-- Whether an override is applicable is not for the other overrides to change. -/
theorem Underway.applicable_iff (h : Underway table current) {key : String} {o now : ClassDoc}
    (hnow : Flagged (key, o) (key, now)) (hflag : o.isOverride = true) :
    Applicable current now ↔ Applicable table o := by
  have hframe : now = { o with members := now.members } := hnow.frame hflag
  have htarget : now.overrideTarget = o.overrideTarget := by rw [hframe]
  have hfor : ∀ key, now.isFor key = o.isFor key := fun key => by rw [isFor, isFor, htarget]
  have hname : now.displayName = o.displayName := by rw [hframe]; rfl
  constructor
  · intro happlicable
    refine ⟨htarget ▸ happlicable.canName, fun key c hkey hget hplain => ?_⟩
    rcases h.get? key with ⟨hnone, -⟩ | ⟨c', d, hc', hd, hflagged⟩
    · simp [hnone] at hget
    · obtain rfl : c' = c := Option.some.inj (hc'.symm.trans hget)
      have hplain' := hflagged.flag.trans hplain
      obtain ⟨name, hdisplay⟩ := happlicable.hasName key d ((hfor key).trans hkey) hd hplain'
      exact ⟨name, hname.symm.trans hdisplay⟩
  · intro happlicable
    refine ⟨htarget ▸ happlicable.canName, fun key d hkey hget hplain => ?_⟩
    rcases h.get? key with ⟨-, hnone⟩ | ⟨c, d', hc, hd', hflagged⟩
    · simp [hnone] at hget
    · obtain rfl : d' = d := Option.some.inj (hd'.symm.trans hget)
      have hplain' := hflagged.flag.symm.trans hplain
      obtain ⟨name, hdisplay⟩ := happlicable.hasName key c ((hfor key).symm.trans hkey) hc hplain'
      exact ⟨name, hname.trans hdisplay⟩

end Underway

/-! ### The whole worklist -/

section Worklist

variable {table : ClassTable} (hkeys : (Table.keys table).Nodup)
include hkeys

/-- Going through keys of overrides leaves every entry underway, and stops only at an override that
was not applicable from the start. -/
theorem underway_applyKeys {current : ClassTable} (h : Underway table current) (keys : List String)
    (hflags : ∀ key ∈ keys, ∃ o, Table.get? table key = some o ∧ o.isOverride = true) :
    ((applyKeys current keys).fault = none ↔
        ∀ key ∈ keys, ∀ o, Table.get? table key = some o → Applicable table o) ∧
      Underway table (applyKeys current keys).table := by
  induction keys generalizing current with
  | nil => simpa [applyKeys] using h
  | cons key keys ih =>
      obtain ⟨⟨o, ho, hflag⟩, hflags⟩ := List.forall_mem_cons.mp hflags
      obtain ⟨now, hget, hnow⟩ : ∃ now, Table.get? current key = some now ∧
          Flagged (key, o) (key, now) := by
        rcases h.get? key with ⟨hnone, -⟩ | ⟨o', now, ho', hget, hnow⟩
        · simp [hnone] at ho
        · obtain rfl : o' = o := Option.some.inj (ho'.symm.trans ho)
          exact ⟨now, hget, hnow⟩
      have hsame := h.applicable_iff hnow hflag
      have hkey : processKey current key = process current now := by simp [processKey, hget]
      cases hprocess : process current now with
      | fail fault =>
          have hnot := not_applicable_of_process_eq_fail hprocess
          rw [hsame] at hnot
          simp [applyKeys, hkey, hprocess, ho, hnot, h]
      | ok result notes =>
          have happlicable := hsame.mp (applicable_of_process_eq_ok hprocess)
          have hkeys' : (Table.keys current).Nodup := h.keys_eq ▸ hkeys
          have hlater := ih (h.trans (underway_process hkeys' hprocess)) hflags
          simpa [applyKeys, hkey, hprocess, ho, happlicable] using hlater

theorem exists_get?_of_mem_overrideKeys {key : String} (h : key ∈ overrideKeys table) :
    ∃ o, Table.get? table key = some o ∧ o.isOverride = true := by
  obtain ⟨⟨k, o⟩, hentry, rfl⟩ := List.mem_map.mp h
  obtain ⟨hmem, hflag⟩ := mem_worklist.mp hentry
  exact ⟨o, Table.get?_of_mem hkeys hmem, hflag⟩

theorem underway_applyAll :
    ((applyAll table).fault = none ↔
        ∀ key o, (key, o) ∈ table → o.isOverride = true → Applicable table o) ∧
      Underway table (applyAll table).table := by
  have hrun := underway_applyKeys hkeys (underway_refl table) (overrideKeys table)
    fun key hkey => exists_get?_of_mem_overrideKeys hkeys hkey
  refine ⟨hrun.1.trans ⟨fun hall key o hmem hflag => ?_, fun hall key hkey o ho => ?_⟩, hrun.2⟩
  · have hkey : key ∈ overrideKeys table :=
      List.mem_map_of_mem (f := Prod.fst) (mem_worklist.mpr ⟨hmem, hflag⟩)
    exact hall key hkey o (Table.get?_of_mem hkeys hmem)
  · obtain ⟨o', ho', hflag⟩ := exists_get?_of_mem_overrideKeys hkeys hkey
    obtain rfl : o' = o := Option.some.inj (ho'.symm.trans ho)
    exact hall key o' (Table.mem_of_get? ho) hflag

end Worklist

theorem processAll_eq_ok {table final : ClassTable} {external known : List String}
    {notes : List Note} (h : processAll table external = .ok (final, known) notes) :
    (applyAll table).fault = none ∧
      final = (applyAll table).table.filter (fun entry => !(overrideKeys table).contains entry.1) ∧
      known = recordKeys external (overrideKeys table) := by
  obtain ⟨hfault, hresult⟩ := exists_processAll_iff.mp ⟨notes, h⟩
  obtain ⟨hfinal, hknown⟩ := Prod.mk.inj hresult
  exact ⟨hfault, hfinal, hknown⟩

theorem forall₂_filter_plain {table current : ClassTable}
    {R : String × ClassDoc → String × ClassDoc → Prop}
    (hkey : ∀ entry now, R entry now → now.1 = entry.1) (hkeys : (Table.keys table).Nodup)
    (h : List.Forall₂ R table current) :
    List.Forall₂ R (table.filter fun entry => !entry.2.isOverride)
      (current.filter fun entry => !(overrideKeys table).contains entry.1) := by
  have hgoal : ∀ entries : ClassTable, entries ⊆ table → ∀ current,
      List.Forall₂ R entries current →
      List.Forall₂ R (entries.filter fun entry => !entry.2.isOverride)
        (current.filter fun entry => !(overrideKeys table).contains entry.1) := by
    intro entries hsub current h
    induction h with
    | nil => exact .nil
    | @cons entry now entries current hnow _ ih =>
        obtain ⟨hentry, hsub⟩ := List.cons_subset.mp hsub
        have hflag := contains_overrideKeys hkeys hentry
        rw [List.filter_cons, List.filter_cons, hkey entry now hnow, hflag]
        cases entry.2.isOverride with
        | true => exact ih hsub
        | false => exact .cons hnow (ih hsub)
  exact hgoal table (List.Subset.refl table) current h

theorem Underway.filter {table current : ClassTable} (hkeys : (Table.keys table).Nodup)
    (h : Underway table current) :
    Underway (table.filter fun entry => !entry.2.isOverride)
      (current.filter fun entry => !(overrideKeys table).contains entry.1) :=
  forall₂_filter_plain (fun _ _ hnow => hnow.key) hkeys h

theorem plain_of_processAll {table final : ClassTable} {external known : List String}
    {notes : List Note} (hkeys : (Table.keys table).Nodup)
    (h : processAll table external = .ok (final, known) notes) :
    ∀ entry ∈ final, entry.2.isOverride = false := by
  obtain ⟨-, rfl, -⟩ := processAll_eq_ok h
  have hleft := (underway_applyAll hkeys).2.filter hkeys
  intro now hnow
  obtain ⟨entry, hentry, hflagged⟩ := ApiPages.Except.exists_of_mem_right hleft now hnow
  have hflag := (List.mem_filter.mp hentry).2
  rw [hflagged.flag]
  simpa using hflag

/-! ### What is recorded -/

theorem recordKeys_eq_append {keys : List String} (h : keys.Nodup) (external : List String) :
    recordKeys external keys = external ++ keys.filter (· ∉ external) := by
  induction keys generalizing external with
  | nil => simp [recordKeys]
  | cons key keys ih =>
      obtain ⟨hnew, hkeys⟩ := List.nodup_cons.mp h
      rw [recordKeys, List.foldl_cons]
      by_cases hknown : key ∈ external
      · rw [if_pos (by simpa using hknown), List.filter_cons_of_neg (by simpa using hknown)]
        exact ih hkeys external
      · have hlater : keys.filter (· ∉ external ++ [key]) = keys.filter (· ∉ external) := by
          refine List.filter_congr fun other hother => ?_
          have hne : other ≠ key := fun heq => hnew (heq ▸ hother)
          simp [hne]
        rw [if_neg (by simpa using hknown), List.filter_cons_of_pos (by simpa using hknown),
          ← recordKeys, ih hkeys, hlater, List.append_assoc, List.singleton_append]

theorem nodup_overrideKeys {table : ClassTable} (hkeys : (Table.keys table).Nodup) :
    (overrideKeys table).Nodup :=
  Table.nodup_keys_filter hkeys _

/-! ### Nothing left to do -/

theorem processAll_of_plain {table : ClassTable} (h : ∀ entry ∈ table, entry.2.isOverride = false)
    (external : List String) :
    ∃ notes, processAll table external = .ok (table, external) notes ∧
      notes.filterMap Note.warning? = [] := by
  have hnone : worklist table = [] := by
    rw [worklist, List.filter_eq_nil_iff]
    intro entry hentry
    simp [h entry hentry]
  have hkeys : overrideKeys table = [] := congrArg Table.keys hnone
  refine ⟨[.progress .debug "overrides" s!"Applied {(overrideKeys table).length} override classes"],
    ?_, rfl⟩
  simp only [processAll, applyAll, hkeys, applyKeys, Progress.report, Report.progress, Report.note,
    Report.pure_eq, Report.ok_bind, Report.after_ok, recordKeys, List.foldl_nil, List.contains_nil,
    Bool.not_false, List.filter_true]
  rfl

/-- **No override is left.** A run over all overrides ends well exactly if they are all applicable.
Then the ordinary classes are left under their keys, whatever became of the overrides, whose keys
are recorded where they were not known, each once. A second run finds nothing to do. -/
theorem processAll_removes_overrides {table : ClassTable} (hkeys : (Table.keys table).Nodup)
    (external : List String) :
    ((∃ result notes, processAll table external = .ok result notes) ↔
        ∀ key o, (key, o) ∈ table → o.isOverride = true → Applicable table o) ∧
      ∀ final known notes, processAll table external = .ok (final, known) notes →
        Table.keys final = Table.keys (table.filter fun entry => !entry.2.isOverride) ∧
          (∀ key c, (key, c) ∈ final → c.isOverride = false) ∧
          known = external ++ (overrideKeys table).filter (· ∉ external) ∧
          ((overrideKeys table).filter (· ∉ external)).Nodup ∧
          ∃ notes', processAll final known = .ok (final, known) notes' ∧
            notes'.filterMap Note.warning? = [] := by
  obtain ⟨hends, hunderway⟩ := underway_applyAll hkeys
  constructor
  · rw [← hends]
    constructor
    · rintro ⟨⟨final, known⟩, notes, hrun⟩
      exact (processAll_eq_ok hrun).1
    · intro hfault
      rw [processAll, Progress.report, hfault]
      exact ⟨_, _, rfl⟩
  · intro final known notes hrun
    have hplain := plain_of_processAll hkeys hrun
    obtain ⟨-, rfl, rfl⟩ := processAll_eq_ok hrun
    refine ⟨(hunderway.filter hkeys).keys_eq, fun key c hmem => hplain (key, c) hmem, ?_, ?_, ?_⟩
    · exact recordKeys_eq_append (nodup_overrideKeys hkeys) external
    · exact (nodup_overrideKeys hkeys).filter _
    · exact processAll_of_plain hplain _

/-- A class with overrides of every sort: one that can be applied and has a member of the class, one
for a class that is not there, one for an override and one for itself. -/
def mixedTable : ClassTable :=
  let click : Member := { id := "click", owner := "Base", name := "click", serial := 1 }
  [("Lost", { name := "Lost", isOverride := true, overrideTarget := .text "Nowhere" }),
    ("Base", { name := "Base", members := [click] }),
    ("First", {
      name := "First"
      members := [click]
      doc := "one"
      isOverride := true
      overrideTarget := .text "Base" }),
    ("Second", { name := "Second", isOverride := true, overrideTarget := .text "First" }),
    ("Self", { name := "Self", isOverride := true, overrideTarget := .text "Self" })]

theorem mixed_overrides_removed :
    (Table.keys mixedTable).Nodup ∧
      ∃ final known notes notes',
        processAll mixedTable ["Lost", "Lost", "Other"] = .ok (final, known) notes ∧
          Table.keys final = ["Base"] ∧
          known = ["Lost", "Lost", "Other", "First", "Second", "Self"] ∧
          processAll final known = .ok (final, known) notes' := by
  have hkeys : (Table.keys mixedTable).Nodup := by decide
  have hknown : ∀ entry ∈ mixedTable, (entry.2.overrideTarget = .null ∨
      ∃ key, entry.2.overrideTarget = .text key) ∧ none ∉ entry.2.files := by
    refine List.forall_mem_cons.mpr ⟨⟨Or.inr ⟨"Nowhere", rfl⟩, by decide⟩, ?_⟩
    refine List.forall_mem_cons.mpr ⟨⟨Or.inl rfl, by decide⟩, ?_⟩
    refine List.forall_mem_cons.mpr ⟨⟨Or.inr ⟨"Base", rfl⟩, by decide⟩, ?_⟩
    refine List.forall_mem_cons.mpr ⟨⟨Or.inr ⟨"First", rfl⟩, by decide⟩, ?_⟩
    exact List.forall_mem_singleton.mpr ⟨Or.inr ⟨"Self", rfl⟩, by decide⟩
  obtain ⟨hends, hfinal⟩ := processAll_removes_overrides hkeys ["Lost", "Lost", "Other"]
  obtain ⟨⟨final, known⟩, notes, hrun⟩ := hends.mpr fun key o hmem _ =>
    applicable_of_known _ (hknown (key, o) hmem).1 (hknown (key, o) hmem).2
  obtain ⟨hleft, -, hrecorded, -, notes', hagain, -⟩ := hfinal final known notes hrun
  exact ⟨hkeys, final, known, notes, notes', hrun, hleft.trans (by decide),
    hrecorded.trans (by decide), hagain⟩

end ApiPages.ClassTable
