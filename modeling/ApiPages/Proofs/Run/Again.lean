import ApiPages.Proofs.Merge.Again
import ApiPages.Proofs.Override.Lasting
import ApiPages.Proofs.Override.Removal
import ApiPages.Proofs.Run

/-!
# A run over the result of a run

Behind a run all classes are ordinary, and they and their members are settled: applying overrides
does not touch what merging looks at. So a second run has no value to find, no attribute to derive
and no override to apply, and the table and the classes known from outside stay as they are.
-/

namespace ApiPages

variable {reg : Registry}

theorem Member.Settled.lasts : Member.Lasts (Member.Settled reg) :=
  fun _ _ _ _ h => h

theorem ClassDoc.Settled.lasts : ClassDoc.Lasts (ClassDoc.Settled reg) where
  patch _ _ name ho hc :=
    { own := hc.own, members := forall_mem_members_patch .lasts ho.members hc.members name }
  refresh _ _ hc hd :=
    { own := hd.own, members := forall_mem_members_refresh hd.members hc.members }

namespace Run

theorem mergeEntry_eq_ok {entry now : String × ClassDoc} {notes : List Note}
    (h : mergeEntry reg entry = .ok now notes) :
    now.1 = entry.1 ∧ ∃ notes, entry.2.merge reg = .ok now.2 notes := by
  obtain ⟨c, first, later, hmerge, h⟩ := Report.bind_eq_ok h
  cases h
  exact ⟨rfl, first, hmerge⟩

theorem stages_eq_ok {table final : ClassTable} {external known : List String} {notes : List Note}
    (h : stages reg table external = .ok (final, known) notes) :
    ∃ merged first later, mergeTable reg table = .ok merged first ∧
      ClassTable.processAll merged external = .ok (final, known) later := by
  obtain ⟨_, _, _, -, h⟩ := Report.bind_eq_ok h
  obtain ⟨merged, first, _, hmerge, h⟩ := Report.bind_eq_ok h
  obtain ⟨result, later, _, hprocess, h⟩ := Report.bind_eq_ok h
  obtain ⟨_, _, _, -, h⟩ := Report.bind_eq_ok h
  cases h
  exact ⟨merged, first, later, hmerge, hprocess⟩

theorem run_eq_ok {r r' : Run} {table final : ClassTable} (h : r.run table = .ok (final, r')) :
    r'.registry = r.registry ∧
      ∃ notes, stages r.registry table r.external = .ok (final, r'.external) notes := by
  rw [run, record] at h
  cases hstages : stages r.registry table r.external with
  | fail fault =>
      rw [hstages] at h
      cases h
  | ok result notes =>
      rw [hstages] at h
      cases h
      exact ⟨rfl, notes, rfl⟩

/-- What is left behind the stages: ordinary classes that are settled. -/
theorem settled_stages (hreg : reg.Settles) {table final : ClassTable}
    (hkeys : (Table.keys table).Nodup) {external known : List String} {notes : List Note}
    (h : stages reg table external = .ok (final, known) notes) :
    ∀ entry ∈ final, entry.2.isOverride = false ∧ entry.2.Settled reg := by
  obtain ⟨merged, first, later, hmerge, hprocess⟩ := stages_eq_ok h
  have hentries := Report.mapM_eq_ok hmerge
  have hkeys' : Table.keys merged = Table.keys table :=
    Table.keys_of_forall₂ (fun _ _ ⟨_, hentry⟩ => (mergeEntry_eq_ok hentry).1) hentries
  have hmerged : ∀ entry ∈ merged, entry.2.Settled reg := by
    intro now hnow
    obtain ⟨entry, -, _, hentry⟩ := Except.exists_of_mem_right hentries now hnow
    obtain ⟨-, _, hclass⟩ := mergeEntry_eq_ok hentry
    exact ClassDoc.settled_merge hreg hclass
  have hplain := ClassTable.plain_of_processAll (hkeys' ▸ hkeys) hprocess
  obtain ⟨-, rfl, -⟩ := ClassTable.processAll_eq_ok hprocess
  intro entry hentry
  refine ⟨hplain entry hentry, ?_⟩
  exact ClassTable.forall_mem_applyKeys ClassDoc.Settled.lasts hmerged _ entry
    (List.mem_filter.mp hentry).1

theorem stages_of_settled {table : ClassTable}
    (h : ∀ entry ∈ table, entry.2.isOverride = false ∧ entry.2.Settled reg)
    (external : List String) : (stages reg table external).Ends (· = (table, external)) := by
  have hmerge : (mergeTable reg table).Ends (· = table) := by
    refine .mapM_self fun entry hentry => ?_
    obtain ⟨hplain, hsettled⟩ := h entry hentry
    refine (hsettled.merge_ends hplain).bind fun c hc => .pure ?_
    rw [hc]
  obtain ⟨notes, hprocess, -⟩ := ClassTable.processAll_of_plain (fun entry hentry =>
    (h entry hentry).1) external
  refine .seq (.progress _ _ _) (hmerge.bind fun merged hmerged => ?_)
  rw [hmerged]
  refine .bind (P := (· = (table, external))) ⟨_, notes, hprocess, rfl⟩ ?_
  rintro _ rfl
  exact .seq (.forM_warn _) (.pure rfl)

/-- **A run has nothing left to do after a run.** With the standard tags, whatever a table holds and
however a run is set up: if it ends well, another run over the table that it leaves ends well too,
and changes neither that table nor the classes known from outside. -/
theorem run_idempotent (hreg : Registry.ofTags Tag.standard = .ok reg) {r r' : Run}
    (hr : r.registry = reg) {table final : ClassTable} (hkeys : (Table.keys table).Nodup)
    (hrun : r.run table = .ok (final, r')) :
    ∃ r'', r'.run final = .ok (final, r'') ∧ r''.external = r'.external := by
  obtain ⟨hregistry, notes, hstages⟩ := run_eq_ok hrun
  rw [hr] at hregistry hstages
  have hsettled := settled_stages (Registry.settles_standard hreg) hkeys hstages
  obtain ⟨result, later, hagain, rfl⟩ := stages_of_settled hsettled r'.external
  rw [← hregistry] at hagain
  rw [run, record, hagain]
  exact ⟨_, rfl, rfl⟩

/-- A class with a method, and a class that its comment makes an override of the first. -/
def flaggedTable (ofMember ofClass : Groups) : ClassTable :=
  [("Btn", {
      name := "Btn"
      members := [{ id := "hide", owner := "Btn", name := "hide", raw.doc := ofMember }] }),
    ("BtnFix", { name := "BtnFix", raw.doc := ofClass })]

theorem ready_flaggedTable {ofMember ofClass : Groups} (hmember : ofMember.Sound)
    (hclass : ofClass.Sound) : (flaggedTable ofMember ofClass).Ready := by
  refine List.forall_mem_cons.mpr ⟨?_, List.forall_mem_singleton.mpr ?_⟩
  · exact {
      attributes := .nil
      raw := Occurrences.sound_empty
      members := List.forall_mem_singleton.mpr
        { attributes := .nil, raw := ⟨hmember, Groups.sound_nil⟩ }
      target := Or.inl rfl
      files := List.not_mem_nil }
  · exact {
      attributes := .nil
      raw := ⟨hclass, Groups.sound_nil⟩
      members := fun _ h => absurd h List.not_mem_nil
      target := Or.inl rfl
      files := List.not_mem_nil }

theorem flagged_run_again :
    ∃ reg, Registry.ofTags Tag.standard = .ok reg ∧
      ∃ ofMember notes ofClass notes',
        Comment.parse reg "/** @return \x7bthis\x7d the button */" none = .ok ofMember notes ∧
        Comment.parse reg "/** @override Btn */" none = .ok ofClass notes' ∧
        (Table.keys (flaggedTable ofMember.occurrences ofClass.occurrences)).Nodup ∧
        ∃ (r : Run) (final : ClassTable) (r' : Run), r.registry = reg ∧
          r.run (flaggedTable ofMember.occurrences ofClass.occurrences) = .ok (final, r') ∧
          ∃ r'', r'.run final = .ok (final, r'') ∧ r''.external = r'.external := by
  obtain ⟨reg, hreg⟩ : ∃ reg, Registry.ofTags Tag.standard = .ok reg := ⟨_, rfl⟩
  have hsturdy := Registry.sturdy_standard hreg
  obtain ⟨ofMember, notes, hmember, hmemberSound⟩ :=
    Comment.parse_ok hsturdy "/** @return \x7bthis\x7d the button */" none
  obtain ⟨ofClass, notes', hclass, hclassSound⟩ :=
    Comment.parse_ok hsturdy "/** @override Btn */" none
  have hready := ready_flaggedTable hmemberSound hclassSound
  have hkeys : (Table.keys (flaggedTable ofMember.occurrences ofClass.occurrences)).Nodup := by
    change ["Btn", "BtnFix"].Nodup
    decide
  let r : Run := { settings := {}, registry := reg, log := {}, external := [], sink := {} }
  obtain ⟨final, r', hrun, -⟩ := run_ok (r := r) hsturdy hready
  exact ⟨reg, hreg, ofMember, notes, ofClass, notes', hmember, hclass, hkeys, r, final, r', rfl,
    hrun, run_idempotent hreg rfl hkeys hrun⟩

end Run

end ApiPages
