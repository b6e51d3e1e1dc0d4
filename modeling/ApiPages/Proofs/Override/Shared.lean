import ApiPages.Proofs.Override.Ids
import ApiPages.Proofs.Override.Removal

/-!
# Members that classes share

A member that several classes list is one member, and what is written to it shows in all of them.
Overrides write to members of ordinary classes, and to those that such a class takes in. So at any
time an override lists the members that it listed at the start, each as the ordinary classes have
it by now, and as it was where none of them lists it.
-/

namespace ApiPages

namespace ClassDoc

variable {override owner : String} {ms : List Member}

theorem mem_serials_takeMember {n : Nat} (h : n ∈ ms.map Member.serial) (entry : Member) :
    n ∈ (takeMember override owner ms entry).map Member.serial := by
  rw [takeMember, map_serial_enterMember]
  exact List.mem_append_left _ h

theorem nodup_serials_takeMember (h : (ms.map Member.serial).Nodup) (entry : Member) :
    ((takeMember override owner ms entry).map Member.serial).Nodup := by
  rw [takeMember, map_serial_enterMember]
  cases hfind : ms.find? (·.serial == entry.serial) with
  | some own =>
      have hown := List.mem_of_find?_eq_some hfind
      have hany : ms.any (·.id == own.id) = true :=
        List.any_eq_true.mpr ⟨own, hown, beq_self_eq_true own.id⟩
      rw [Option.getD_some, if_pos hany, List.append_nil]
      exact h
  | none =>
      have hnew := find?_serial_eq_none_iff.mp hfind
      rw [Option.getD_none]
      split
      · rw [List.append_nil]
        exact h
      · refine List.nodup_append.mpr ⟨h, List.nodup_singleton entry.serial, ?_⟩
        rintro n hn _ hentry rfl
        exact hnew (List.mem_singleton.mp hentry ▸ hn)

theorem mem_serials_patch {c : ClassDoc} {n : Nat} (h : n ∈ c.members.map Member.serial)
    (o : ClassDoc) (name : String) : n ∈ (o.patch name c).members.map Member.serial :=
  members_patch (P := fun ms => n ∈ ms.map Member.serial) h
    fun entry _ _ hms => mem_serials_takeMember hms entry

theorem nodup_serials_patch {c : ClassDoc} (h : (c.members.map Member.serial).Nodup)
    (o : ClassDoc) (name : String) : ((o.patch name c).members.map Member.serial).Nodup :=
  members_patch (P := fun ms => (ms.map Member.serial).Nodup) h
    fun entry _ _ hms => nodup_serials_takeMember hms entry

theorem map_serial_refresh (current : List Member) (c : ClassDoc) :
    (c.refresh current).members.map Member.serial = c.members.map Member.serial := by
  rw [refresh, List.map_map]
  apply List.map_congr_left
  intro m _
  rw [Function.comp_apply]
  cases hfind : current.find? (·.serial == m.serial) with
  | none => rfl
  | some now =>
      have hserial := List.find?_some hfind
      exact beq_iff_eq.mp hserial

theorem mem_members_refresh {c : ClassDoc} {current : List Member} {m : Member}
    (h : m ∈ (c.refresh current).members) :
    m ∈ current ∨ m ∈ c.members ∧ m.serial ∉ current.map Member.serial := by
  obtain ⟨n, hn, rfl⟩ := List.mem_map.mp h
  cases hfind : current.find? (·.serial == n.serial) with
  | some now => exact Or.inl (List.mem_of_find?_eq_some hfind)
  | none => exact Or.inr ⟨hn, find?_serial_eq_none_iff.mp hfind⟩

theorem eq_of_map_serial_eq {ns : List Member}
    (hserials : ns.map Member.serial = ms.map Member.serial)
    (h : ∀ n ∈ ns, ∀ m ∈ ms, n.serial = m.serial → n = m) : ns = ms := by
  induction ns generalizing ms with
  | nil => exact (List.map_eq_nil_iff.mp hserials.symm).symm
  | cons n ns ih =>
      cases ms with
      | nil => cases hserials
      | cons m ms =>
          obtain ⟨hhead, htail⟩ := List.cons_eq_cons.mp hserials
          have hn := h n List.mem_cons_self m List.mem_cons_self hhead
          have hns := ih htail fun n hn m hm =>
            h n (List.mem_cons_of_mem _ hn) m (List.mem_cons_of_mem _ hm)
          rw [hn, hns]

theorem mem_members_refresh_of_unlisted {c : ClassDoc} {current : List Member} {m : Member}
    (h : m ∈ c.members) (hnew : m.serial ∉ current.map Member.serial) :
    m ∈ (c.refresh current).members := by
  refine List.mem_map.mpr ⟨m, h, ?_⟩
  rw [find?_serial_eq_none_iff.mpr hnew, Option.getD_none]

end ClassDoc

namespace ClassTable

open ClassDoc

/-- Entries with one serial are one member throughout, and no class lists a member twice. -/
structure Consistent (table : ClassTable) : Prop where
  same : ∀ m ∈ table.members, ∀ n ∈ table.members, m.serial = n.serial → m = n
  once : ∀ entry ∈ table, (entry.2.members.map Member.serial).Nodup

theorem Unshared.consistent {table : ClassTable} (h : table.Unshared) : table.Consistent where
  same _ hm _ hn hserial := List.inj_on_of_nodup_map h.nodup_serials_members hm hn hserial
  once _ hentry := h.nodup_serials hentry

/-- The members that the ordinary classes of a table list. -/
def plainMembers (table : ClassTable) : List Member :=
  members (table.filter fun entry => !entry.2.isOverride)

theorem mem_plainMembers {table : ClassTable} {m : Member} :
    m ∈ table.plainMembers ↔
      ∃ entry ∈ table, entry.2.isOverride = false ∧ m ∈ entry.2.members := by
  simp [plainMembers, mem_members, and_assoc]

theorem members_of_plainMembers {table : ClassTable} {m : Member} (h : m ∈ table.plainMembers) :
    m ∈ table.members := by
  obtain ⟨entry, hentry, -, hm⟩ := mem_plainMembers.mp h
  exact mem_members.mpr ⟨entry, hentry, hm⟩

/-! ### One patch -/

section Replace

variable {current : ClassTable} {key : String} {c : ClassDoc}

theorem mem_members_replace {m : Member} (h : m ∈ (replace current key c).members) :
    m ∈ c.members ∨ m ∈ current.members ∧ m.serial ∉ c.members.map Member.serial := by
  obtain ⟨entry, hentry, hm⟩ := mem_members.mp h
  obtain ⟨⟨k, other⟩, hother, rfl⟩ := List.mem_map.mp hentry
  dsimp only at hm
  split at hm
  · exact Or.inl hm
  · exact (mem_members_refresh hm).imp_right
      (And.imp_left fun hm => mem_members.mpr ⟨(k, other), hother, hm⟩)

theorem Consistent.replace (h : current.Consistent) (hc : (c.members.map Member.serial).Nodup)
    (key : String) : (replace current key c).Consistent where
  same m hm n hn hserial := by
    rcases mem_members_replace hm with hm | ⟨hm, hm'⟩ <;>
      rcases mem_members_replace hn with hn | ⟨hn, hn'⟩
    · exact List.inj_on_of_nodup_map hc hm hn hserial
    · exact absurd (hserial ▸ List.mem_map_of_mem hm) hn'
    · exact absurd (hserial ▸ List.mem_map_of_mem hn) hm'
    · exact h.same m hm n hn hserial
  once entry hentry := by
    obtain ⟨⟨k, other⟩, hother, rfl⟩ := List.mem_map.mp hentry
    dsimp only
    split
    · exact hc
    · rw [map_serial_refresh]
      exact h.once _ hother

end Replace

/-! ### Many patches -/

/-- Where an entry may have got to while overrides are applied: an override still lists the members
that it listed. -/
structure Held (entry now : String × ClassDoc) : Prop extends Flagged entry now where
  serials : entry.2.isOverride = true →
    now.2.members.map Member.serial = entry.2.members.map Member.serial

/-- Where a table may have got to while overrides are applied: a member is as it was, or an ordinary
class lists it. -/
structure Lent (table current : ClassTable) : Prop where
  held : List.Forall₂ Held table current
  consistent : current.Consistent
  traced : ∀ m ∈ current.members, m ∈ table.members ∨ m ∈ current.plainMembers

variable {table current : ClassTable}

theorem Lent.refl (h : table.Consistent) : Lent table table where
  held := List.forall₂_same.mpr fun entry _ => { Flagged.refl entry with serials := fun _ => rfl }
  consistent := h
  traced _ hm := Or.inl hm

theorem Lent.underway (h : Lent table current) : Underway table current :=
  h.held.imp fun _ _ hnow => hnow.toFlagged

theorem Lent.replace (hkeys : (Table.keys table).Nodup) (h : Lent table current) {key : String}
    {c : ClassDoc} (hget : Table.get? current key = some c) (hplain : c.isOverride = false)
    (o : ClassDoc) (name : String) : Lent table (replace current key (o.patch name c)) := by
  have hkeys' : (Table.keys current).Nodup := h.underway.keys_eq ▸ hkeys
  have hc := Table.mem_of_get? hget
  have hunder : ∀ d, (key, d) ∈ current → d = c := fun d hd =>
    Table.eq_of_mem_of_mem hkeys' hd hc
  constructor
  · refine Table.forall₂_map_of_mem h.held fun entry now _ hnow hheld => ?_
    obtain ⟨k, d⟩ := now
    dsimp only
    split
    · rename_i hk
      obtain rfl := hunder d (hk ▸ hnow)
      have hflag := hheld.flag
      have hordinary : ¬ entry.2.isOverride = true := by
        rw [← hflag, hplain]
        exact Bool.false_ne_true
      exact {
        key := hheld.key
        flag := hflag
        frame := fun h => absurd h hordinary
        serials := fun h => absurd h hordinary }
    · refine { key := hheld.key, flag := hheld.flag, frame := ?_, serials := ?_ }
      · intro hflag
        have hframe := hheld.frame hflag
        dsimp only at hframe ⊢
        rw [hframe]
        rfl
      · intro hflag
        rw [map_serial_refresh]
        exact hheld.serials hflag
  · exact h.consistent.replace (nodup_serials_patch (h.consistent.once _ hc) o name) key
  · intro m hm
    rcases mem_members_replace hm with hm | ⟨hm, hnew⟩
    · refine Or.inr (mem_plainMembers.mpr ⟨(key, o.patch name c), ?_, hplain, hm⟩)
      exact List.mem_map.mpr ⟨(key, c), hc, if_pos rfl⟩
    · refine (h.traced m hm).imp_right fun hm => ?_
      obtain ⟨⟨k, d⟩, hd, hordinary, hown⟩ := mem_plainMembers.mp hm
      have hk : k ≠ key := by
        rintro rfl
        obtain rfl := hunder d hd
        exact hnew (mem_serials_patch (List.mem_map_of_mem hown) o name)
      refine mem_plainMembers.mpr ⟨(k, d.refresh (o.patch name c).members), ?_, hordinary, ?_⟩
      · exact List.mem_map.mpr ⟨(k, d), hd, if_neg hk⟩
      · exact mem_members_refresh_of_unlisted hown hnew

theorem lent_applyKeys (hkeys : (Table.keys table).Nodup) (h : table.Consistent)
    (keys : List String) : Lent table (applyKeys table keys).table := by
  refine applyKeys_keeps (I := Lent table) ?_ (Lent.refl h) keys
  intro current _ o key c name hcurrent _ hget hplain
  exact hcurrent.replace hkeys hget hplain o name

/-- **An override reads its members as the ordinary classes have them.** -/
theorem Lent.eq_refresh (h : Lent table current) (htable : table.Consistent)
    {entry now : String × ClassDoc} (hentry : entry ∈ table) (hnow : now ∈ current)
    (hheld : Held entry now) (hflag : entry.2.isOverride = true) :
    now = (entry.1, entry.2.refresh current.plainMembers) := by
  have hmembers : now.2.members = (entry.2.refresh current.plainMembers).members := by
    refine eq_of_map_serial_eq ?_ fun n hn m hm hserial => ?_
    · rw [map_serial_refresh]
      exact hheld.serials hflag
    · have hn' : n ∈ current.members := mem_members.mpr ⟨now, hnow, hn⟩
      rcases mem_members_refresh hm with hm | ⟨hm, hnew⟩
      · exact h.consistent.same n hn' m (members_of_plainMembers hm) hserial
      · rcases h.traced n hn' with hstart | hplain
        · exact htable.same n hstart m (mem_members.mpr ⟨entry, hentry, hm⟩) hserial
        · exact absurd (hserial ▸ List.mem_map_of_mem hplain) hnew
  refine Prod.ext hheld.key ?_
  rw [hheld.frame hflag, hmembers]
  rfl

end ClassTable

end ApiPages
