import ApiPages.Proofs.Override.Step

/-!
# What lasts while overrides are applied

Overrides move members from class to class and write to their texts, places and owners. What does
not look at those lasts: where it holds of the members and classes of a table, it still holds when
overrides have been applied to it.
-/

namespace ApiPages

/-- A property of members that does not look at their texts, places and owners. -/
def Member.Lasts (P : Member → Prop) : Prop :=
  ∀ m doc files owner, P m → P { m with doc, files, owner }

namespace ClassDoc

theorem forall_mem_modifyLast {P : Member → Prop} {p : Member → Bool} {f : Member → Member}
    (hf : ∀ m, P m → P (f m)) {ms : List Member} (h : ∀ m ∈ ms, P m) :
    ∀ m ∈ modifyLast p f ms, P m := by
  induction ms with
  | nil => exact h
  | cons m ms ih =>
      obtain ⟨hm, hms⟩ := List.forall_mem_cons.mp h
      rw [modifyLast]
      split
      · exact List.forall_mem_cons.mpr ⟨hf m hm, hms⟩
      · exact List.forall_mem_cons.mpr ⟨hm, ih hms⟩

/-- What taking in one member keeps of a list of members, a patch keeps. -/
theorem members_patch {P : List Member → Prop} {o c : ClassDoc} {name : String} (h : P c.members)
    (htake : ∀ entry ∈ o.members, ∀ ms, P ms → P (takeMember name c.name ms entry)) :
    P (o.patch name c).members :=
  List.foldlRecOn o.members (takeMember name c.name) h
    fun ms hms entry hentry => htake entry hentry ms hms

section Members

variable {P : Member → Prop} (hP : Member.Lasts P) {override owner : String}
include hP

theorem forall_mem_enterMember {ms : List Member} {theirs : Member} (hms : ∀ m ∈ ms, P m)
    (htheirs : P theirs) : ∀ m ∈ enterMember override owner ms theirs, P m := by
  rw [enterMember]
  split
  · exact forall_mem_modifyLast (fun m hm => hP m _ _ m.owner hm) hms
  · refine List.forall_mem_append.mpr ⟨hms, List.forall_mem_singleton.mpr ?_⟩
    exact hP theirs _ theirs.files owner htheirs

theorem forall_mem_takeMember {ms : List Member} {entry : Member} (hms : ∀ m ∈ ms, P m)
    (hentry : P entry) : ∀ m ∈ takeMember override owner ms entry, P m := by
  refine forall_mem_enterMember hP hms ?_
  cases hfind : ms.find? (·.serial == entry.serial) with
  | none => exact hentry
  | some m => exact hms m (List.mem_of_find?_eq_some hfind)

theorem forall_mem_members_patch {o c : ClassDoc} (ho : ∀ m ∈ o.members, P m)
    (hc : ∀ m ∈ c.members, P m) (name : String) : ∀ m ∈ (o.patch name c).members, P m :=
  members_patch (P := fun ms => ∀ m ∈ ms, P m) hc fun _ hentry _ hms =>
    forall_mem_takeMember hP hms (ho _ hentry)

end Members

theorem forall_mem_members_refresh {P : Member → Prop} {c : ClassDoc} (hc : ∀ m ∈ c.members, P m)
    {current : List Member} (hcurrent : ∀ m ∈ current, P m) :
    ∀ m ∈ (c.refresh current).members, P m := by
  intro m hm
  obtain ⟨n, hn, rfl⟩ := List.mem_map.mp hm
  cases hfind : current.find? (·.serial == n.serial) with
  | none => exact hc n hn
  | some now => exact hcurrent now (List.mem_of_find?_eq_some hfind)

/-- A property of classes that patching and refreshing keep. -/
structure Lasts (P : ClassDoc → Prop) : Prop where
  patch : ∀ o c name, P o → P c → P (o.patch name c)
  refresh : ∀ c d, P c → P d → P (d.refresh c.members)

theorem Lasts.of_members {P : Member → Prop} (hP : Member.Lasts P) :
    Lasts fun c => ∀ m ∈ c.members, P m where
  patch _ _ name ho hc := forall_mem_members_patch hP ho hc name
  refresh _ _ hc hd := forall_mem_members_refresh hd hc

end ClassDoc

namespace ClassTable

theorem applyKeys_keeps {I : ClassTable → Prop}
    (hpatch : ∀ table other o key c name, I table → Table.get? table other = some o →
      Table.get? table key = some c → c.isOverride = false →
      I (replace table key (o.patch name c)))
    {table : ClassTable} (h : I table) (keys : List String) : I (applyKeys table keys).table := by
  induction keys generalizing table with
  | nil => exact h
  | cons key keys ih =>
      rw [applyKeys, processKey]
      cases hget : Table.get? table key with
      | none => exact h
      | some o =>
          dsimp only
          rcases process_cases table o with
            ⟨-, other, c, name, -, hc, hplain, -, hrun⟩ | ⟨-, -, w, hrun⟩ | ⟨-, fault, hrun⟩
          · rw [hrun]
            exact ih (hpatch table key o other c name h hget hc hplain)
          · rw [hrun]
            exact ih h
          · rw [hrun]
            exact h

variable {P : ClassDoc → Prop} (hP : ClassDoc.Lasts P)
include hP

theorem forall_mem_replace {table : ClassTable} (h : ∀ entry ∈ table, P entry.2) (key : String)
    {c : ClassDoc} (hc : P c) : ∀ entry ∈ replace table key c, P entry.2 := by
  intro entry hentry
  obtain ⟨⟨k, other⟩, hmem, rfl⟩ := List.mem_map.mp hentry
  dsimp only
  split
  · exact hc
  · exact hP.refresh c other hc (h (k, other) hmem)

theorem forall_mem_applyKeys {table : ClassTable} (h : ∀ entry ∈ table, P entry.2)
    (keys : List String) : ∀ entry ∈ (applyKeys table keys).table, P entry.2 := by
  refine applyKeys_keeps (I := fun table => ∀ entry ∈ table, P entry.2) ?_ h keys
  intro table other o key c name htable ho hc _
  have hpatched := hP.patch o c name (htable _ (Table.mem_of_get? ho))
    (htable _ (Table.mem_of_get? hc))
  exact forall_mem_replace hP htable key hpatched

end ClassTable

end ApiPages
