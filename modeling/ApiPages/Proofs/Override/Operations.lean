import ApiPages.Proofs.Override.Ids
import ApiPages.Proofs.Override.Removal

/-!
# Ids whatever is done to a table

A class takes in a member under a new id only, whether it is added to the class or brought by an
override. So ids that are distinct in every class stay distinct through all operations on a table,
in whatever order they come, also where one of them fails half-way.
-/

namespace ApiPages

namespace ClassDoc

/-- A class whose members have an id each. A member is one member wherever it is listed, so its id
can be read off its serial. -/
structure Identified (idOf : Nat → String) (c : ClassDoc) : Prop where
  distinct : c.memberIds.Nodup
  ids : ∀ m ∈ c.members, idOf m.serial = m.id

theorem Identified.lasts (idOf : Nat → String) : Lasts (Identified idOf) := by
  have hids := Lasts.of_members (P := fun m => idOf m.serial = m.id) fun _ _ _ _ h => h
  constructor
  · intro o c name ho hc
    exact ⟨ClassTable.nodup_ids_patch hc.distinct o name, hids.patch o c name ho.ids hc.ids⟩
  · intro c d hc hd
    have hsame : ∀ now ∈ c.members, ∀ m ∈ d.members, now.serial = m.serial → now.id = m.id := by
      intro now hnow m hm hserial
      rw [← hc.ids now hnow, ← hd.ids m hm, hserial]
    refine ⟨?_, hids.refresh c d hc.ids hd.ids⟩
    rw [ClassTable.memberIds_refresh hsame]
    exact hd.distinct

theorem addMember_of_mem {c : ClassDoc} {m : Member} (h : m.id ∈ c.memberIds) :
    c.addMember m = .error (.duplicateMember c.name m.id) := by
  obtain ⟨own, hown, hid⟩ := List.mem_map.mp h
  have hfound : (c.member? m.id).isSome = true :=
    List.find?_isSome.mpr ⟨own, hown, beq_iff_eq.mpr hid⟩
  obtain ⟨found, hfound⟩ := Option.isSome_iff_exists.mp hfound
  rw [addMember, hfound]

theorem addMember_of_not_mem {c : ClassDoc} {m : Member} (h : m.id ∉ c.memberIds) :
    c.addMember m = .ok { c with members := c.members ++ [m] } := by
  have hnone : c.member? m.id = none := by
    rw [member?, List.find?_eq_none]
    intro own hown hid
    exact h (List.mem_map.mpr ⟨own, hown, beq_iff_eq.mp hid⟩)
  rw [addMember, hnone]

theorem Identified.concat {idOf : Nat → String} {c : ClassDoc} (hc : c.Identified idOf)
    {m : Member} (hm : idOf m.serial = m.id) (hnew : m.id ∉ c.memberIds) :
    Identified idOf { c with members := c.members ++ [m] } where
  distinct := by
    rw [memberIds, List.map_append, List.nodup_append]
    refine ⟨hc.distinct, List.nodup_singleton m.id, ?_⟩
    rintro id hid _ hown rfl
    exact hnew (List.mem_singleton.mp hown ▸ hid)
  ids := List.forall_mem_append.mpr ⟨hc.ids, List.forall_mem_singleton.mpr hm⟩

end ClassDoc

namespace ClassTable

/-- What can be done to a table: to add a member to one of its classes, to enter a class, to apply
one of its classes as an override, and to apply all overrides. -/
inductive Operation where
  | addMember (key : String) (m : Member)
  | enter (key : String) (c : ClassDoc)
  | process (key : String)
  | processAll (external : List String)

/-- How far an operation takes a table, and why not further. -/
def perform (table : ClassTable) : Operation → Progress
  | .addMember key m =>
    match Table.get? table key with
    | none => { table, fault := some (.missingKey key) }
    | some c =>
      match c.addMember m with
      | .ok c => { table := Table.set table key c }
      | .error fault => { table, fault := some fault }
  | .enter key c => { table := Table.set table key c }
  | .process key => applyKeys table [key]
  | .processAll external =>
    match processAll table external with
    | .ok (final, _) notes => { table := final, notes }
    | .fail fault => { applyAll table with fault := some fault }

/-- The table behind some operations, each of which goes on from where the one before has got. -/
def performAll (table : ClassTable) (ops : List Operation) : ClassTable :=
  ops.foldl (fun table op => (perform table op).table) table

/-- What an operation brings to a table has an id each. -/
def Operation.Identified (idOf : Nat → String) : Operation → Prop
  | .addMember _ m => idOf m.serial = m.id
  | .enter _ c => c.Identified idOf
  | .process _ => True
  | .processAll _ => True

section Identified

variable {idOf : Nat → String} {table : ClassTable}
  (h : ∀ entry ∈ table, entry.2.Identified idOf)
include h

theorem identified_set {key : String} {c : ClassDoc} (hc : c.Identified idOf) :
    ∀ entry ∈ Table.set table key c, entry.2.Identified idOf :=
  Table.forall_mem_set (P := fun entry : String × ClassDoc => entry.2.Identified idOf) hc h

theorem identified_applyKeys (keys : List String) :
    ∀ entry ∈ (applyKeys table keys).table, entry.2.Identified idOf :=
  forall_mem_applyKeys (ClassDoc.Identified.lasts idOf) h keys

theorem identified_perform {op : Operation} (hop : op.Identified idOf) :
    ∀ entry ∈ (perform table op).table, entry.2.Identified idOf := by
  cases op with
  | addMember key m =>
      rw [perform]
      cases hget : Table.get? table key with
      | none => exact h
      | some c =>
          have hc := h (key, c) (Table.mem_of_get? hget)
          dsimp only
          by_cases hid : m.id ∈ c.memberIds
          · rw [ClassDoc.addMember_of_mem hid]
            exact h
          · rw [ClassDoc.addMember_of_not_mem hid]
            exact identified_set h (hc.concat hop hid)
  | enter key c => exact identified_set h hop
  | process key => exact identified_applyKeys h [key]
  | processAll external =>
      have hall := identified_applyKeys h (overrideKeys table)
      rw [perform]
      cases hrun : processAll table external with
      | fail fault => exact hall
      | ok result notes =>
          obtain ⟨final, known⟩ := result
          obtain ⟨-, rfl, -⟩ := processAll_eq_ok hrun
          exact fun entry hentry => hall entry (List.mem_filter.mp hentry).1

theorem identified_performAll {ops : List Operation} (hops : ∀ op ∈ ops, op.Identified idOf) :
    ∀ entry ∈ performAll table ops, entry.2.Identified idOf := by
  induction ops generalizing table with
  | nil => exact h
  | cons op ops ih =>
      obtain ⟨hop, hops⟩ := List.forall_mem_cons.mp hops
      exact ih (identified_perform h hop) hops

end Identified

/-- **Ids stay distinct.** Where the members of every class have an id each, they have so behind any
operations that bring such members. A member whose id the class has by then is refused and leaves
the table as it is; any other is taken in. -/
theorem ids_stay_distinct {idOf : Nat → String} {table : ClassTable}
    (htable : ∀ entry ∈ table, entry.2.Identified idOf) {ops : List Operation}
    (hops : ∀ op ∈ ops, op.Identified idOf) :
    (∀ entry ∈ performAll table ops, entry.2.memberIds.Nodup) ∧
      ∀ (key : String) (c : ClassDoc) (m : Member),
        Table.get? (performAll table ops) key = some c →
          (m.id ∈ c.memberIds → perform (performAll table ops) (.addMember key m) = {
            table := performAll table ops
            fault := some (.duplicateMember c.name m.id) }) ∧
          (m.id ∉ c.memberIds → perform (performAll table ops) (.addMember key m) = {
            table := Table.set (performAll table ops) key
              { c with members := c.members ++ [m] } }) := by
  refine ⟨fun entry hentry => (identified_performAll htable hops entry hentry).distinct, ?_⟩
  intro key c m hget
  constructor
  · intro hid
    simp only [perform, hget, ClassDoc.addMember_of_mem hid]
  · intro hid
    simp only [perform, hget, ClassDoc.addMember_of_not_mem hid]

/-- An override applied twice over, a class applied that is none, a member that is new, an override
that has it as well, and in the end all overrides. -/
def mixedOperations : List Operation :=
  let hover : Member := { id := "hover", owner := "Base", name := "hover", serial := 2 }
  [.process "First", .process "First", .process "Base", .addMember "Base" hover,
    .enter "Late" {
      name := "Late"
      members := [hover, { id := "focus", owner := "Late", name := "focus", serial := 3 }]
      isOverride := true
      overrideTarget := .text "Base" },
    .processAll []]

theorem mixed_ids_stay_distinct :
    ∃ idOf : Nat → String, (∀ entry ∈ mixedTable, entry.2.Identified idOf) ∧
      (∀ op ∈ mixedOperations, op.Identified idOf) ∧
      (∀ entry ∈ performAll mixedTable mixedOperations, entry.2.memberIds.Nodup) ∧
      ∃ c, Table.get? (performAll mixedTable mixedOperations) "Base" = some c ∧
        c.memberIds = ["click", "hover", "focus"] ∧
        ∀ m : Member, m.id = "focus" →
          perform (performAll mixedTable mixedOperations) (.addMember "Base" m) = {
            table := performAll mixedTable mixedOperations
            fault := some (.duplicateMember "Base" "focus") } := by
  let idOf : Nat → String := fun n => ["", "click", "hover"].getD n "focus"
  have htable : ∀ entry ∈ mixedTable, entry.2.Identified idOf := by
    simp only [mixedTable, List.forall_mem_cons]
    refine ⟨⟨?_, ?_⟩, ⟨?_, ?_⟩, ⟨?_, ?_⟩, ⟨?_, ?_⟩, ⟨?_, ?_⟩, fun _ h => absurd h List.not_mem_nil⟩
    all_goals decide
  have hops : ∀ op ∈ mixedOperations, op.Identified idOf := by
    simp only [mixedOperations, List.forall_mem_cons]
    refine ⟨trivial, trivial, trivial, rfl, ⟨?_, ?_⟩, trivial, fun _ h => absurd h List.not_mem_nil⟩
    all_goals decide
  obtain ⟨hdistinct, hadd⟩ := ids_stay_distinct htable hops
  obtain ⟨c, hget, hids, hname⟩ :
      ∃ c, Table.get? (performAll mixedTable mixedOperations) "Base" = some c ∧
        c.memberIds = ["click", "hover", "focus"] ∧ c.name = "Base" := ⟨_, rfl, rfl, rfl⟩
  refine ⟨idOf, htable, hops, hdistinct, c, hget, hids, fun m hm => ?_⟩
  have hmem : m.id ∈ c.memberIds := by
    rw [hids, hm]
    decide
  have hrefused := (hadd "Base" c m hget).1 hmem
  rw [hrefused, hm, hname]

end ClassTable

end ApiPages
