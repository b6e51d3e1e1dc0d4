import ApiPages.Proofs.Override.Step
import ApiPages.Proofs.Override.Unshared
import Mathlib.Data.List.Forall2

/-!
# The worklist of overrides

Overrides are applied one after the other to one table, and the members of an applied override
move into the class it patches. The invariant `Stands` says where each class is meanwhile: an
ordinary class lies below the overrides for it that were applied so far, and an override whose
turn has not come is still as it was entered. Since no member is shared at the start, whatever
moved came from the class itself or from an override for it, and no two classes ever meet.
-/

namespace ApiPages.ClassTable

open ClassDoc

/-- The overrides of a table that are for the class under a key, in the order of the table. -/
def overridesOf (table : ClassTable) (key : String) : List ClassDoc :=
  (Table.values table).filter fun o => o.isOverride && o.isFor key

theorem mem_overridesOf {table : ClassTable} {key : String} {o : ClassDoc} :
    o ∈ overridesOf table key ↔
      (∃ k, (k, o) ∈ table) ∧ o.isOverride = true ∧ o.isFor key = true := by
  simp [overridesOf, Table.values]

theorem overridesOf_concat_of_isFor {table : ClassTable} {key k : String} {o : ClassDoc}
    (hflag : o.isOverride = true) (ho : o.isFor key = true) :
    overridesOf (table ++ [(k, o)]) key = overridesOf table key ++ [o] := by
  simp [overridesOf, Table.values, hflag, ho]

theorem overridesOf_concat_of_not_isFor {table : ClassTable} {key k : String} {o : ClassDoc}
    (ho : o.isFor key ≠ true) : overridesOf (table ++ [(k, o)]) key = overridesOf table key := by
  simp [overridesOf, Table.values, ho]

/-- Where an entry of the table stands once the overrides `done` have been applied. -/
structure Stands (done : ClassTable) (entry current : String × ClassDoc) : Prop where
  key : current.1 = entry.1
  flag : current.2.isOverride = entry.2.isOverride
  below : entry.2.isOverride = false →
    current.2 = (overridesOf done entry.1).foldl overlaidBy entry.2
  waits : entry.2.isOverride = true → entry ∉ done → current = entry

/-- Every entry of a table stands where the overrides `done` have left it. -/
abbrev Reached (table done current : ClassTable) : Prop :=
  List.Forall₂ (Stands done) table current

section Reached

variable {table done current : ClassTable}

theorem reached_nil (table : ClassTable) : Reached table [] table := by
  refine List.forall₂_same.mpr fun entry _ => ⟨rfl, rfl, ?_, fun _ _ => rfl⟩
  intro _
  simp [overridesOf, Table.values]

theorem Reached.get? (h : Reached table done current) {key : String} {c : ClassDoc}
    (hget : Table.get? table key = some c) :
    ∃ c', Table.get? current key = some c' ∧ Stands done (key, c) (key, c') := by
  rcases Table.get?_of_forall₂ (fun _ _ hstands => hstands.key) h key with
    ⟨hnone, -⟩ | ⟨d, c', hd, hget', hstands⟩
  · simp [hnone] at hget
  · obtain rfl : d = c := Option.some.inj (hd.symm.trans hget)
    exact ⟨c', hget', hstands⟩

theorem Reached.get?_none (h : Reached table done current) {key : String}
    (hget : Table.get? table key = none) : Table.get? current key = none := by
  rcases Table.get?_of_forall₂ (fun _ _ hstands => hstands.key) h key with
    ⟨-, hnone⟩ | ⟨d, c', hd, -, -⟩
  · exact hnone
  · simp [hd] at hget

theorem Reached.ordinary (h : Reached table done current) {key : String} {now : ClassDoc}
    (hget : Table.get? current key = some now) (hplain : now.isOverride = false) :
    ∃ c, (key, c) ∈ table ∧ c.isOverride = false ∧
      now = (overridesOf done key).foldl overlaidBy c := by
  cases hgetc : Table.get? table key with
  | none => simp [h.get?_none hgetc] at hget
  | some c =>
      obtain ⟨c', hget', hstands⟩ := h.get? hgetc
      obtain rfl : c' = now := Option.some.inj (hget'.symm.trans hget)
      have hplain' := hstands.flag.symm.trans hplain
      exact ⟨c, Table.mem_of_get? hgetc, hplain', hstands.below hplain'⟩

/-- Which overrides are applicable does not change while they are applied. -/
theorem Reached.applicable_iff (h : Reached table done current) {o : ClassDoc} :
    Applicable current o ↔ Applicable table o := by
  constructor
  · intro ho
    refine ⟨ho.canName, fun key c hkey hget hplain => ?_⟩
    obtain ⟨c', hget', hstands⟩ := h.get? hget
    exact ho.hasName key c' hkey hget' (hstands.flag.trans hplain)
  · intro ho
    refine ⟨ho.canName, fun key c' hkey hget' hplain => ?_⟩
    cases hget : Table.get? table key with
    | none => simp [h.get?_none hget] at hget'
    | some c =>
        obtain ⟨c'', hget'', hstands⟩ := h.get? hget
        obtain rfl : c'' = c' := Option.some.inj (hget''.symm.trans hget')
        exact ho.hasName key c hkey hget (hstands.flag.symm.trans hplain)

end Reached

/-! ### Where the members of a class come from -/

/-- The entries whose members may stand at the class under a key: the class itself, and the applied
overrides for it. -/
def Feeds (done : ClassTable) (key : String) (entry : String × ClassDoc) : Prop :=
  entry.1 = key ∨ entry ∈ done ∧ entry.2.isFor key = true

variable {table done : ClassTable}

theorem exists_feeds_of_mem_serials (hdone : done ⊆ table) {key : String} {c : ClassDoc}
    (hc : (key, c) ∈ table) {n : Nat}
    (hn : n ∈ ((overridesOf done key).foldl overlaidBy c).members.map Member.serial) :
    ∃ entry ∈ table, Feeds done key entry ∧ n ∈ entry.2.members.map Member.serial := by
  rcases mem_serials_foldl_overlaidBy hn with hown | ⟨o, ho, hmem⟩
  · exact ⟨(key, c), hc, Or.inl rfl, hown⟩
  · obtain ⟨⟨k, hk⟩, -, hfor⟩ := mem_overridesOf.mp ho
    exact ⟨(k, o), hdone hk, Or.inr ⟨hk, hfor⟩, hmem⟩

section Apart

variable (hkeys : (Table.keys table).Nodup) (hunshared : Unshared table)
include hkeys hunshared

theorem serial_ne_of_ne {entry entry' : String × ClassDoc} (hmem : entry ∈ table)
    (hmem' : entry' ∈ table) (hne : entry ≠ entry') {n : Nat}
    (hn : n ∈ entry.2.members.map Member.serial) : n ∉ entry'.2.members.map Member.serial := by
  intro hn'
  obtain ⟨m, hm, rfl⟩ := List.mem_map.mp hn
  obtain ⟨m', hm', hserial⟩ := List.mem_map.mp hn'
  have hk : entry.1 ≠ entry'.1 := by
    intro hk
    have hmem'' : (entry.1, entry'.2) ∈ table := hk ▸ hmem'
    exact hne (Prod.ext hk (Table.eq_of_mem_of_mem hkeys hmem hmem''))
  exact hunshared.serial_ne hmem hmem' hk hm hm' hserial.symm

/-- What feeds one ordinary class shares no member with what feeds another. -/
theorem feeds_apart (hflags : ∀ entry ∈ done, entry.2.isOverride = true) {key other : String}
    (hne : key ≠ other) {c d : ClassDoc} (hc : (key, c) ∈ table) (hplain : c.isOverride = false)
    (hd : (other, d) ∈ table) (hplain' : d.isOverride = false)
    {entry entry' : String × ClassDoc} (hmem : entry ∈ table) (hmem' : entry' ∈ table)
    (hfeeds : Feeds done key entry) (hfeeds' : Feeds done other entry') {n : Nat}
    (hn : n ∈ entry.2.members.map Member.serial) : n ∉ entry'.2.members.map Member.serial := by
  refine serial_ne_of_ne hkeys hunshared hmem hmem' ?_ hn
  rintro rfl
  obtain ⟨k, e⟩ := entry
  rcases hfeeds with hk | ⟨hdone, hfor⟩ <;> rcases hfeeds' with hk' | ⟨hdone', hfor'⟩
  · exact hne (hk.symm.trans hk')
  · obtain rfl : k = key := hk
    obtain rfl := Table.eq_of_mem_of_mem hkeys hmem hc
    exact Bool.noConfusion ((hflags _ hdone').symm.trans hplain)
  · obtain rfl : k = other := hk'
    obtain rfl := Table.eq_of_mem_of_mem hkeys hmem hd
    exact Bool.noConfusion ((hflags _ hdone).symm.trans hplain')
  · exact hne (isFor_unique hfor hfor')

/-- What feeds an ordinary class shares no member with an override that was not applied. -/
theorem feeds_apart_waiting {key : String} {c : ClassDoc} (hc : (key, c) ∈ table)
    (hplain : c.isOverride = false) {entry waiting : String × ClassDoc} (hmem : entry ∈ table)
    (hfeeds : Feeds done key entry) (hwaiting : waiting ∈ table)
    (hflag : waiting.2.isOverride = true) (hdone : waiting ∉ done) {n : Nat}
    (hn : n ∈ entry.2.members.map Member.serial) : n ∉ waiting.2.members.map Member.serial := by
  refine serial_ne_of_ne hkeys hunshared hmem hwaiting ?_ hn
  rintro rfl
  obtain ⟨k, e⟩ := entry
  rcases hfeeds with hk | ⟨hin, -⟩
  · obtain rfl : k = key := hk
    obtain rfl := Table.eq_of_mem_of_mem hkeys hmem hc
    exact Bool.noConfusion (hflag.symm.trans hplain)
  · exact hdone hin

end Apart

/-! ### One step and the whole run -/

theorem refresh_eq_self {current : List Member} {c : ClassDoc}
    (h : ∀ n ∈ c.members.map Member.serial, n ∉ current.map Member.serial) :
    c.refresh current = c := by
  have hmembers : (c.members.map fun m => (current.find? (·.serial == m.serial)).getD m) =
      c.members := by
    conv_rhs => rw [← List.map_id c.members]
    refine List.map_congr_left fun m hm => ?_
    rw [find?_serial_eq_none_iff.mpr (h m.serial (List.mem_map_of_mem hm))]
    rfl
  rw [refresh, hmembers]

theorem Reached.imp {current : ClassTable} {done' : ClassTable} (h : Reached table done current)
    {f : String × ClassDoc → String × ClassDoc}
    (hf : ∀ entry now, entry ∈ table → Stands done entry now → Stands done' entry (f now)) :
    Reached table done' (current.map f) :=
  Table.forall₂_map_of_mem h fun entry now hentry _ hstands => hf entry now hentry hstands

section Step

variable {current patched : ClassTable} {q : String} {o : ClassDoc}

theorem Reached.of_skip (hkeys : (Table.keys table).Nodup) (h : Reached table done current)
    (hnone : ∀ key c, o.isFor key = true → Table.get? current key = some c → c.isOverride = true) :
    Reached table (done ++ [(q, o)]) current := by
  rw [← List.map_id current]
  refine h.imp fun entry now hmem hstands => ⟨hstands.key, hstands.flag, fun hplain => ?_, ?_⟩
  · have hnot : o.isFor entry.1 ≠ true := by
      intro hfor
      have hentry : (entry.1, entry.2) ∈ table := hmem
      obtain ⟨c', hget', hstands'⟩ := h.get? (Table.get?_of_mem hkeys hentry)
      have hflag := hnone _ c' hfor hget'
      exact Bool.noConfusion (hplain.symm.trans (hstands'.flag.symm.trans hflag))
    rw [overridesOf_concat_of_not_isFor hnot]
    exact hstands.below hplain
  · intro hflag hwaits
    exact hstands.waits hflag fun hin => hwaits (List.mem_append_left _ hin)

variable (hkeys : (Table.keys table).Nodup) (hunshared : Unshared table) (hdone : done ⊆ table)
  (hflags : ∀ entry ∈ done, entry.2.isOverride = true)
include hkeys hunshared hdone hflags

omit hflags in
theorem patch_eq_foldl_overlaidBy (ho : (q, o) ∈ table) (hflag : o.isOverride = true)
    (hnext : (q, o) ∉ done) {key name : String} {c now : ClassDoc} (hc : (key, c) ∈ table)
    (hplain : c.isOverride = false) (hnow : now = (overridesOf done key).foldl overlaidBy c)
    (hfor : o.isFor key = true) (hname : o.displayName = .ok name) :
    o.patch name now = (overridesOf (done ++ [(q, o)]) key).foldl overlaidBy c := by
  rw [overridesOf_concat_of_isFor hflag hfor, List.foldl_append, ← hnow]
  apply patch_eq_overlaidBy hname (hunshared.nodup_serials ho)
  intro n hn hmem
  rw [hnow] at hmem
  obtain ⟨entry, hentry, hfeeds, hn'⟩ := exists_feeds_of_mem_serials hdone hc hmem
  exact feeds_apart_waiting hkeys hunshared hc hplain hentry hfeeds ho hflag hnext hn' hn

theorem Reached.of_patch (h : Reached table done current) (ho : (q, o) ∈ table)
    (hflag : o.isOverride = true) (hnext : (q, o) ∉ done) {key name : String} {now : ClassDoc}
    (hfor : o.isFor key = true) (hget : Table.get? current key = some now)
    (hplain : now.isOverride = false) (hname : o.displayName = .ok name) :
    Reached table (done ++ [(q, o)]) (replace current key (o.patch name now)) := by
  have hdone' : done ++ [(q, o)] ⊆ table := List.append_subset.mpr ⟨hdone, by simpa using ho⟩
  have hflags' : ∀ entry ∈ done ++ [(q, o)], entry.2.isOverride = true := by
    simpa [or_imp, forall_and, hflag] using hflags
  obtain ⟨c, hc, hplain', hnow⟩ := h.ordinary hget hplain
  have hpatch := patch_eq_foldl_overlaidBy hkeys hunshared hdone ho hflag hnext hc hplain' hnow
    hfor hname
  have horigin : ∀ n ∈ (o.patch name now).members.map Member.serial, ∃ entry ∈ table,
      Feeds (done ++ [(q, o)]) key entry ∧ n ∈ entry.2.members.map Member.serial := by
    intro n hn
    rw [hpatch] at hn
    exact exists_feeds_of_mem_serials hdone' hc hn
  refine h.imp fun entry now' hmem hstands => ?_
  obtain ⟨k, d⟩ := entry
  obtain ⟨k', d'⟩ := now'
  obtain rfl : k' = k := hstands.key
  by_cases hk : k' = key
  · subst hk
    obtain rfl := Table.eq_of_mem_of_mem hkeys hc hmem
    simp only [if_true]
    exact ⟨rfl, hplain.trans hplain'.symm, fun _ => hpatch,
      fun hflagged => Bool.noConfusion (hflagged.symm.trans hplain')⟩
  · simp only [hk, if_false]
    refine ⟨rfl, hstands.flag, fun hordinary => ?_, fun hflagged hwaits => ?_⟩
    · have hnot : o.isFor k' ≠ true := fun hfor' => hk (isFor_unique hfor' hfor)
      have hbelow : d' = _ := hstands.below hordinary
      rw [← overridesOf_concat_of_not_isFor (k := q) hnot] at hbelow
      rw [← hbelow]
      refine refresh_eq_self fun n hn hin => ?_
      rw [hbelow] at hn
      obtain ⟨entry, hentry, hfeeds, hn'⟩ := exists_feeds_of_mem_serials hdone' hmem hn
      obtain ⟨entry', hentry', hfeeds', hn''⟩ := horigin n hin
      exact feeds_apart hkeys hunshared hflags' hk hmem hordinary hc hplain' hentry hentry' hfeeds
        hfeeds' hn' hn''
    · have hnow' := hstands.waits hflagged fun hin => hwaits (List.mem_append_left _ hin)
      obtain rfl : d' = d := congrArg Prod.snd hnow'
      refine Prod.ext rfl (refresh_eq_self fun n hn hin => ?_)
      obtain ⟨entry, hentry, hfeeds, hn'⟩ := horigin n hin
      exact feeds_apart_waiting hkeys hunshared hc hplain' hentry hfeeds hmem hflagged hwaits hn' hn

/-- Applying the next override of the worklist takes the table one step further. -/
theorem Reached.of_process (h : Reached table done current) (ho : (q, o) ∈ table)
    (hflag : o.isOverride = true) (hnext : (q, o) ∉ done) {applied : Bool} {notes : List Note}
    (hprocess : process current o = .ok (patched, applied) notes) :
    Reached table (done ++ [(q, o)]) patched := by
  rcases process_cases current o with
    ⟨-, key, now, name, hfor, hget, hplain, hname, heq⟩ | ⟨-, hnone, w, heq⟩ | ⟨-, fault, heq⟩
  · rw [heq] at hprocess
    cases hprocess
    exact h.of_patch hkeys hunshared hdone hflags ho hflag hnext hfor hget hplain hname
  · rw [heq] at hprocess
    cases hprocess
    exact h.of_skip hkeys hnone
  · simp [heq] at hprocess

end Step

end ApiPages.ClassTable
