import ApiPages.Proofs.Override.Lasting
import ApiPages.Proofs.Override.Member
import ApiPages.Proofs.Override.Unshared

/-!
# Ids while overrides are applied

An override brings a member to its target only under an id that the target lacks, and what it writes
to members are not their ids. So a class whose members have an id each keeps it that way, also where
classes share members.
-/

namespace ApiPages.ClassTable

open ClassDoc

def members (table : ClassTable) : List Member :=
  table.flatMap fun entry => entry.2.members

theorem mem_members {table : ClassTable} {m : Member} :
    m ∈ table.members ↔ ∃ entry ∈ table, m ∈ entry.2.members :=
  List.mem_flatMap

/-- Entries with one serial are one member, and so have one id. -/
def Coherent (table : ClassTable) : Prop :=
  ∀ m ∈ table.members, ∀ n ∈ table.members, m.serial = n.serial → m.id = n.id

theorem map_serial_members (table : ClassTable) :
    table.members.map Member.serial = serials table :=
  List.map_flatMap

theorem Unshared.nodup_serials_members {table : ClassTable} (h : table.Unshared) :
    (table.members.map Member.serial).Nodup :=
  (map_serial_members table).symm ▸ h

theorem Unshared.coherent {table : ClassTable} (h : table.Unshared) : table.Coherent := by
  intro m hm n hn heq
  rw [List.inj_on_of_nodup_map h.nodup_serials_members hm hn heq]

/-- A member that is one of a table, with its texts and places as they may be by now. -/
def Stems (table : ClassTable) (m : Member) : Prop :=
  ∃ n ∈ table.members, n.serial = m.serial ∧ n.id = m.id

theorem Stems.lasts (table : ClassTable) : Member.Lasts (Stems table) :=
  fun _ _ _ _ h => h

theorem Coherent.id_eq {table : ClassTable} (h : table.Coherent) {m n : Member}
    (hm : table.Stems m) (hn : table.Stems n) (hserial : m.serial = n.serial) : m.id = n.id := by
  obtain ⟨m', hm', hserial', hid⟩ := hm
  obtain ⟨n', hn', hserial'', hid'⟩ := hn
  calc
    m.id = m'.id := hid.symm
    _ = n'.id := h m' hm' n' hn' (hserial'.trans (hserial.trans hserial''.symm))
    _ = n.id := hid'

/-! ### Classes -/

theorem nodup_ids_patch {c : ClassDoc} (h : c.memberIds.Nodup) (o : ClassDoc) (name : String) :
    (o.patch name c).memberIds.Nodup :=
  members_patch (P := fun ms => (ms.map Member.id).Nodup) h fun _ _ _ => nodup_ids_enterMember

theorem memberIds_refresh {c : ClassDoc} {current : List Member}
    (h : ∀ now ∈ current, ∀ m ∈ c.members, now.serial = m.serial → now.id = m.id) :
    (c.refresh current).memberIds = c.memberIds := by
  rw [memberIds, memberIds, refresh, List.map_map]
  apply List.map_congr_left
  intro m hm
  rw [Function.comp_apply]
  cases hfind : current.find? (·.serial == m.serial) with
  | none => rfl
  | some now =>
      have hserial : now.serial = m.serial := by simpa using List.find?_some hfind
      exact h now (List.mem_of_find?_eq_some hfind) m hm hserial

/-! ### Tables -/

/-- What overrides leave of a table: members that stem from it, and distinct ids in the classes
under the keys where they have been distinct. -/
structure Keeps (table : ClassTable) (distinct : String → Prop) (current : ClassTable) : Prop where
  members : ∀ entry ∈ current, ∀ m ∈ entry.2.members, table.Stems m
  ids : ∀ entry ∈ current, distinct entry.1 → entry.2.memberIds.Nodup

variable {table current : ClassTable} (hcoherent : table.Coherent) {distinct : String → Prop}
include hcoherent

theorem keeps_replace (h : table.Keeps distinct current) {key : String} {c : ClassDoc}
    (hget : Table.get? current key = some c) {o : ClassDoc} (ho : ∀ m ∈ o.members, table.Stems m)
    (name : String) : table.Keeps distinct (replace current key (o.patch name c)) := by
  have hc := Table.mem_of_get? hget
  have hpatched := forall_mem_members_patch (.lasts table) ho (h.members _ hc) name
  constructor
  · intro entry hentry
    obtain ⟨⟨k, other⟩, hother, rfl⟩ := List.mem_map.mp hentry
    dsimp only
    split
    · exact hpatched
    · exact forall_mem_members_refresh (h.members _ hother) hpatched
  · intro entry hentry hdistinct
    obtain ⟨⟨k, other⟩, hother, rfl⟩ := List.mem_map.mp hentry
    dsimp only at hdistinct ⊢
    split
    · rename_i hk
      rw [if_pos hk, hk] at hdistinct
      exact nodup_ids_patch (h.ids _ hc hdistinct) o name
    · rename_i hk
      rw [if_neg hk] at hdistinct
      dsimp only
      rw [memberIds_refresh fun now hnow m hm =>
        hcoherent.id_eq (hpatched now hnow) (h.members _ hother m hm)]
      exact h.ids _ hother hdistinct

theorem keeps_applyKeys (h : table.Keeps distinct current) (keys : List String) :
    table.Keeps distinct (applyKeys current keys).table := by
  refine applyKeys_keeps (fun current other o key c name hcurrent ho hc _ => ?_) h keys
  exact keeps_replace hcoherent hcurrent hc (hcurrent.members _ (Table.mem_of_get? ho)) name

end ApiPages.ClassTable
