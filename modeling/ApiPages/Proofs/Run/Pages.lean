import ApiPages.Proofs.Merge.Stored
import ApiPages.Proofs.Override.Ids
import ApiPages.Proofs.Page.Block
import ApiPages.Proofs.Run.Again

/-!
# The pages behind a run

A page looks members up by their ids, so each member has its own block where these are distinct.
Merging writes to no id, and overrides keep the ids of a class distinct. So the pages of all classes
that a run leaves have one block for each member, with what was made of that very member.
-/

namespace ApiPages

theorem ClassDoc.members_merge {reg : Registry} {c c' : ClassDoc} {notes : List Note}
    (h : c.merge reg = .ok c' notes) :
    List.Forall₂ (fun m m' => m' = { m with attributes := m'.attributes }) c.members c'.members := by
  obtain ⟨outcome, _, _, -, h⟩ := Report.bind_eq_ok h
  obtain ⟨members, _, _, hmembers, h⟩ := Report.bind_eq_ok h
  cases h
  refine (Report.mapM_eq_ok hmembers).imp fun m m' hmerge => ?_
  obtain ⟨_, hmerge⟩ := hmerge
  obtain ⟨_, _, _, -, hend⟩ := Report.bind_eq_ok hmerge
  cases hend
  rfl

theorem ClassDoc.memberIds_merge {reg : Registry} {c c' : ClassDoc} {notes : List Note}
    (h : c.merge reg = .ok c' notes) : c.memberIds = c'.memberIds := by
  apply Except.map_eq_of_forall₂
  refine (members_merge h).imp fun m m' hm => ?_
  rw [hm]

theorem ClassDoc.isOverride_of_merge {reg : Registry} {c c' : ClassDoc} {notes : List Note}
    (h : c.merge reg = .ok c' notes) (hplain : c'.isOverride = false) : c.isOverride = false := by
  obtain ⟨outcome, _, -, -, hflag, -⟩ := Merge.exists_run_of_merge h
  rw [hplain] at hflag
  exact (Bool.or_eq_false_iff.mp hflag.symm).1

namespace Run

variable {reg : Registry} {table : ClassTable}

theorem mergeTable_eq_ok {merged : ClassTable} {notes : List Note}
    (h : mergeTable reg table = .ok merged notes) :
    List.Forall₂ (fun entry now => now.1 = entry.1 ∧ ∃ notes, entry.2.merge reg = .ok now.2 notes)
      table merged :=
  (Report.mapM_eq_ok h).imp fun _ _ ⟨_, hentry⟩ => mergeEntry_eq_ok hentry

theorem keeps_mergeTable {merged : ClassTable} {notes : List Note}
    (h : mergeTable reg table = .ok merged notes) {distinct : String → Prop}
    (hids : ∀ entry ∈ table, distinct entry.1 → entry.2.memberIds.Nodup) :
    table.Keeps distinct merged := by
  constructor
  · intro now hnow m' hm'
    obtain ⟨entry, hentry, -, _, hmerge⟩ :=
      Except.exists_of_mem_right (mergeTable_eq_ok h) now hnow
    obtain ⟨m, hm, heq⟩ := Except.exists_of_mem_right (ClassDoc.members_merge hmerge) m' hm'
    exact ⟨m, ClassTable.mem_members.mpr ⟨entry, hentry, hm⟩, by rw [heq], by rw [heq]⟩
  · intro now hnow hdistinct
    obtain ⟨entry, hentry, hkey, _, hmerge⟩ :=
      Except.exists_of_mem_right (mergeTable_eq_ok h) now hnow
    rw [← ClassDoc.memberIds_merge hmerge]
    exact hids entry hentry (hkey ▸ hdistinct)

/-- The ids of the classes that are left are distinct if they were so before. -/
theorem nodup_ids_stages (hcoherent : table.Coherent) {final : ClassTable}
    {external known : List String} {notes : List Note}
    (h : stages reg table external = .ok (final, known) notes)
    (hids : ∀ entry ∈ table, entry.2.isOverride = false → entry.1 ∈ Table.keys final →
      entry.2.memberIds.Nodup) :
    ∀ entry ∈ final, entry.2.memberIds.Nodup := by
  obtain ⟨merged, first, later, hmerge, hprocess⟩ := stages_eq_ok h
  obtain ⟨-, hfinal, -⟩ := ClassTable.processAll_eq_ok hprocess
  have hplain : ∀ entry ∈ table, entry.1 ∈ Table.keys final → entry.2.isOverride = false := by
    intro entry hentry hkey
    obtain ⟨now, hnow, hsame, _, hclass⟩ :=
      Except.exists_of_mem_right (mergeTable_eq_ok hmerge).flip entry hentry
    refine ClassDoc.isOverride_of_merge hclass ?_
    by_contra hflag
    have hlisted : entry.1 ∈ ClassTable.overrideKeys merged := by
      refine List.mem_map.mpr ⟨now, List.mem_filter.mpr ⟨hnow, ?_⟩, hsame⟩
      simpa using hflag
    obtain ⟨left, hleft, hleftKey⟩ := List.mem_map.mp hkey
    rw [hfinal] at hleft
    have hkept := (List.mem_filter.mp hleft).2
    rw [hleftKey] at hkept
    simp [hlisted] at hkept
  have hmerged : table.Keeps (· ∈ Table.keys final) merged := by
    refine keeps_mergeTable hmerge fun entry hentry hkey => ?_
    exact hids entry hentry (hplain entry hentry hkey) hkey
  have hpatched := ClassTable.keeps_applyKeys hcoherent hmerged (ClassTable.overrideKeys merged)
  intro entry hentry
  have hkey : entry.1 ∈ Table.keys final := List.mem_map_of_mem hentry
  rw [hfinal] at hentry
  exact hpatched.ids entry (List.mem_filter.mp hentry).1 hkey

/-- **Every member has a block of its own.** Take a run with the standard tags that ends well, over
a table in which entries with one serial are one member and, but for overrides, the ids of the
members of each class are distinct, and take the page of a class that the run leaves. That page is
put together of pieces, among them one block for each member that the class has by then, those that
overrides have added included. The block of a member has its kind, id and name, and below them its
documentation and what its own tags are rendered to. The blocks stand kind by kind, and within a
kind in the order of its subsections and of the class. -/
theorem pages_composed (hreg : Registry.ofTags Tag.standard = .ok reg) (f : Formatter)
    {r r' : Run} (hr : r.registry = reg) (hcoherent : table.Coherent) {final : ClassTable}
    (hrun : r.run table = .ok (final, r'))
    (hids : ∀ entry ∈ table, entry.2.isOverride = false → entry.1 ∈ Table.keys final →
      entry.2.memberIds.Nodup) :
    ∀ key c shown page, (key, c) ∈ final → Page.ofClass reg f c = (shown, .ok page) →
      ∃ es pieces, Page.Composed reg f c page es pieces := by
  obtain ⟨-, notes, hstages⟩ := run_eq_ok hrun
  rw [hr] at hstages
  intro key c shown page hc hpage
  have hnodup := nodup_ids_stages hcoherent hstages hids (key, c) hc
  exact Page.ofClass_composed hreg hnodup hpage

/-- A class that names no class to patch and was no override is left behind a run. -/
theorem exists_final (hreg : Registry.ofTags Tag.standard = .ok reg)
    (hkeys : (Table.keys table).Nodup) {final : ClassTable} {external known : List String}
    {notes : List Note} (h : stages reg table external = .ok (final, known) notes) {key : String}
    {c : ClassDoc} (hc : (key, c) ∈ table) (hplain : c.isOverride = false)
    (hname : .text "override" ∉ c.raw.tagnames)
    (hnone : Table.get? c.attributes "override" = none) : ∃ d, (key, d) ∈ final := by
  obtain ⟨merged, first, later, hmerge, hprocess⟩ := stages_eq_ok h
  have hentries := mergeTable_eq_ok hmerge
  have hkeys' : (Table.keys merged).Nodup := by
    rw [Table.keys_of_forall₂ (fun _ _ hentry => hentry.1) hentries]
    exact hkeys
  obtain ⟨⟨k, c'⟩, hc', hk, _, hclass⟩ := Except.exists_of_mem_right hentries.flip (key, c) hc
  have hflag := (Merge.isOverride_merge hreg hclass hname hnone).trans hplain
  have hleft := (ClassTable.underway_applyAll hkeys').2.filter hkeys'
  obtain ⟨-, rfl, -⟩ := ClassTable.processAll_eq_ok hprocess
  obtain ⟨⟨k', d⟩, hd, hflagged⟩ := Except.exists_of_mem_right hleft.flip (k, c')
    (List.mem_filter.mpr ⟨hc', by simpa using hflag⟩)
  have hkey : k' = key := hflagged.key.trans hk
  exact ⟨d, hkey ▸ hd⟩

/-- A class with two methods, and an override that has one of them as well and brings another. -/
def fixedTable : ClassTable :=
  [("Btn", {
      name := "Btn"
      members := [{ id := "show", owner := "Btn", name := "show", serial := 1 },
        { id := "hide", owner := "Btn", name := "hide", serial := 2 }] }),
    ("BtnFix", {
      name := "BtnFix"
      isOverride := true
      overrideTarget := .text "Btn"
      members := [{ id := "hide", owner := "BtnFix", name := "hide", serial := 3 },
        { id := "blink", owner := "BtnFix", name := "blink", serial := 4 }] })]

theorem ready_fixedTable : fixedTable.Ready := by
  have hmember : ∀ ms : List Member, (∀ m ∈ ms, m.attributes = [] ∧ m.raw = {}) →
      ∀ m ∈ ms, m.Ready := by
    intro ms h m hm
    obtain ⟨hattributes, hraw⟩ := h m hm
    exact { attributes := hattributes ▸ .nil, raw := hraw ▸ Occurrences.sound_empty }
  refine List.forall_mem_cons.mpr ⟨?_, List.forall_mem_singleton.mpr ?_⟩
  · exact {
      attributes := .nil
      raw := Occurrences.sound_empty
      members := hmember _ (by simp)
      target := Or.inl rfl
      files := List.not_mem_nil }
  · exact {
      attributes := .nil
      raw := Occurrences.sound_empty
      members := hmember _ (by simp)
      target := .text "Btn"
      files := List.not_mem_nil }

theorem fixed_pages_composed : ∃ reg, Registry.ofTags Tag.standard = .ok reg ∧
    fixedTable.Coherent ∧ (∀ entry ∈ fixedTable, entry.2.memberIds.Nodup) ∧
      ∀ f : Formatter, ∃ (r r' : Run) (final : ClassTable) (c shown : ClassDoc) (page : String),
        r.registry = reg ∧ r.run fixedTable = .ok (final, r') ∧ ("Btn", c) ∈ final ∧
          Page.ofClass reg f c = (shown, .ok page) ∧
            ∃ es pieces, Page.Composed reg f c page es pieces := by
  obtain ⟨reg, hreg⟩ : ∃ reg, Registry.ofTags Tag.standard = .ok reg := ⟨_, rfl⟩
  have hcoherent : fixedTable.Coherent := ClassTable.Unshared.coherent (by
    unfold ClassTable.Unshared
    decide)
  have hids : ∀ entry ∈ fixedTable, entry.2.memberIds.Nodup := by
    refine List.forall_mem_cons.mpr ⟨by decide, List.forall_mem_singleton.mpr (by decide)⟩
  refine ⟨reg, hreg, hcoherent, hids, fun f => ?_⟩
  let r : Run := { settings := {}, registry := reg, log := {}, external := [], sink := {} }
  have hsturdy := Registry.sturdy_standard hreg
  obtain ⟨final, r', hrun, hready⟩ := run_ok (r := r) hsturdy ready_fixedTable
  obtain ⟨-, _, hstages⟩ := run_eq_ok hrun
  obtain ⟨c, hc⟩ : ∃ c, ("Btn", c) ∈ final :=
    exists_final hreg (by decide) hstages List.mem_cons_self rfl (by decide) rfl
  obtain ⟨shown, page, hpage, -⟩ := Page.ofClass_ok hsturdy f (hready _ hc)
  have hcomposed := pages_composed hreg f (r := r) rfl hcoherent hrun
    (fun entry hentry _ _ => hids entry hentry) "Btn" c shown page hc hpage
  exact ⟨r, r', final, c, shown, page, rfl, hrun, hc, hpage, hcomposed⟩

end Run

end ApiPages
