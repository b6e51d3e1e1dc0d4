import ApiPages.Proofs.Override.Member
import ApiPages.Proofs.Override.Target

/-!
# The members of a class after a run

Each member of a class that overrides were folded into is read off its definers: the member of the
class itself, if it has one, and all members that the overrides bring under its id.
-/

namespace ApiPages.ClassDoc

/-- What is true of a member of a class with the members `ms` after `entries` were brought to it. -/
structure Gathered (owner : String) (ms : List Member) (entries : List (String × Member))
    (m : Member) : Prop where
  /-- All places of its definers, in their order. -/
  files : m.files = ((ms ++ entries.map Prod.snd).filter (·.id == m.id)).flatMap Member.files
  /-- All else but documentation and owner is as the first definer has it. -/
  first : ∃ first, (ms ++ entries.map Prod.snd).find? (·.id == m.id) = some first ∧
    m = { first with doc := m.doc, files := m.files, owner := m.owner }
  /-- A member of the class is noted on by all that is brought under its id. -/
  own : ∀ own ∈ ms, own.id = m.id →
    m.owner = own.owner ∧ m.doc = (under m.id entries).foldl noteOn own.doc
  /-- A new member says who defined it, and is noted on by what is brought later. -/
  added : m.id ∉ ms.map Member.id →
    m.owner = owner ∧ ∃ name first later, under m.id entries = (name, first) :: later ∧
      m.doc = later.foldl noteOn (addDoc first.doc s!"**Defined in override {name}.**")

variable {owner : String} {ms : List Member} {entries : List (String × Member)} {m : Member}

theorem gathered_of_find?_eq_some (hids : (ms.map Member.id).Nodup) {own : Member}
    (hfind : ms.find? (·.id == m.id) = some own) (hm : m = amended own (under m.id entries)) :
    Gathered owner ms entries m := by
  rw [amended_frame] at hm
  have hmem := List.mem_of_find?_eq_some hfind
  have hid : own.id = m.id := by simpa using List.find?_some hfind
  refine ⟨?_, ⟨own, ?_, ?_⟩, ?_, ?_⟩
  · rw [List.filter_append, List.flatMap_append, filter_id_eq_toList hids, hfind,
      ← flatMap_files_under, hm]
    simp [hid]
  · rw [List.find?_append, hfind]
    rfl
  · rw [hm]
  · intro own' hmem' hid'
    have hsame : ms.find? (·.id == m.id) = some own' := hid' ▸ find?_id_of_mem hids hmem'
    obtain rfl : own = own' := Option.some.inj (hfind.symm.trans hsame)
    exact ⟨(congrArg Member.owner hm :), (congrArg Member.doc hm :)⟩
  · intro hnot
    exact absurd (hid ▸ List.mem_map_of_mem hmem) hnot

theorem gathered_of_find?_eq_none (hfind : ms.find? (·.id == m.id) = none)
    {first : String × Member} {later : List (String × Member)}
    (hunder : under m.id entries = first :: later)
    (hm : m = amended (adoptMember first.1 owner first.2) later) : Gathered owner ms entries m := by
  rw [amended_frame] at hm
  have hnone : ms.filter (·.id == m.id) = [] := by
    rw [List.filter_eq_nil_iff]
    exact List.find?_eq_none.mp hfind
  refine ⟨?_, ⟨first.2, ?_, ?_⟩, ?_, ?_⟩
  · rw [List.filter_append, List.flatMap_append, hnone, ← flatMap_files_under, hunder]
    exact congrArg Member.files hm
  · rw [List.find?_append, hfind, find?_id_map_snd, hunder]
    rfl
  · rw [hm]
    rfl
  · intro own hmem hid
    exact absurd (by simpa using hid) (List.find?_eq_none.mp hfind own hmem)
  · intro _
    exact ⟨congrArg Member.owner hm, first.1, first.2, later, hunder, congrArg Member.doc hm⟩

theorem gathered_of_mem_foldl_receive (hids : (ms.map Member.id).Nodup)
    (hm : m ∈ entries.foldl (receive owner) ms) : Gathered owner ms entries m := by
  have htold := told_of_mem_foldl_receive hids entries m hm
  rw [told] at htold
  split at htold
  · rename_i own later hfind
    exact gathered_of_find?_eq_some hids hfind (Option.some.inj htold).symm
  · rename_i first later hfind hunder
    exact gathered_of_find?_eq_none hfind hunder (Option.some.inj htold).symm
  · cases htold

end ApiPages.ClassDoc

namespace ApiPages.ClassTable

open ClassDoc

/-- **Members.** A run over all overrides ends well exactly if they are all applicable. Then a class
whose ids were distinct has its own ids first and behind them each new one, where an override of the
class first brought it, and every member is gathered from all who define it. -/
theorem members_processAll {table : ClassTable} (hkeys : (Table.keys table).Nodup)
    (hunshared : Unshared table) (external : List String) :
    ((∃ result notes, processAll table external = .ok result notes) ↔
        ∀ key o, (key, o) ∈ table → o.isOverride = true → Applicable table o) ∧
      ∀ final known notes, processAll table external = .ok (final, known) notes →
        ∀ key c, Table.get? table key = some c → c.isOverride = false → c.memberIds.Nodup →
          (∀ o ∈ overridesOf table key, o.displayName = .ok o.shownName) ∧
          ∃ c', Table.get? final key = some c' ∧
            c'.memberIds = c.memberIds ++
              ((((overridesOf table key).flatMap ClassDoc.members).map Member.id).filter
                (· ∉ c.memberIds)).eraseDups ∧
            ∀ m ∈ c'.members,
              Gathered c.name c.members (contributions (overridesOf table key)) m := by
  refine ⟨exists_processAll_eq_ok_iff hkeys hunshared external, fun final known notes hrun => ?_⟩
  obtain ⟨hall, hresult⟩ :=
    (processAll_eq_ok_iff hkeys hunshared external (final, known)).mp ⟨notes, hrun⟩
  obtain rfl : final = folded table := congrArg Prod.fst hresult
  intro key c hget hplain hids
  refine ⟨fun o ho => displayName_of_mem_overridesOf hall hget hplain ho, _,
    get?_folded hkeys hget hplain, ?_, fun m hm => ?_⟩
  · rw [memberIds, foldl_overlaidBy_members, map_id_foldl_receive, ← map_snd_contributions,
      List.map_map]
    rfl
  · rw [foldl_overlaidBy_members] at hm
    exact gathered_of_mem_foldl_receive hids hm

theorem button_gathers_members :
    (Table.keys buttonTable).Nodup ∧ Unshared buttonTable ∧
      ∃ final known notes c click focus, processAll buttonTable [] = .ok (final, known) notes ∧
        Table.get? final "Btn" = some c ∧ c.memberIds.Nodup ∧ c.members = [click, focus] ∧
        click.doc = "fires on click\n\n**Overridden in btn-override.js.**" ∧
        focus.doc = "fires on focus\n\n**Defined in override btn-override.js.**" ∧
        focus.owner = "Btn" := by
  refine ⟨nodup_keys_buttonTable, unshared_buttonTable, ?_⟩
  obtain ⟨hends, hmembers⟩ := members_processAll nodup_keys_buttonTable unshared_buttonTable []
  obtain ⟨⟨final, known⟩, notes, hrun⟩ := hends.mpr fun key o h _ => applicable_buttonTable h
  obtain ⟨-, c, hget, hids, hgathered⟩ :=
    hmembers final known notes hrun "Btn" _ rfl rfl (by decide)
  have hids' : c.members.map Member.id = ["click", "focus"] := hids
  obtain ⟨click, focus, hlist⟩ : ∃ click focus, c.members = [click, focus] :=
    List.length_eq_two.mp (by simpa using congrArg List.length hids')
  obtain ⟨hclick, hfocus⟩ : click.id = "click" ∧ focus.id = "focus" := by
    simpa [hlist] using hids'
  have hown := (hgathered click (by simp [hlist])).own
  have hadded := (hgathered focus (by simp [hlist])).added
  rw [hclick] at hown
  rw [hfocus] at hadded
  refine ⟨final, known, notes, c, click, focus, hrun, hget, ?_, hlist, ?_, ?_, ?_⟩
  · rw [memberIds, hids']
    decide
  · exact (hown _ List.mem_cons_self rfl).2.trans (by decide)
  · obtain ⟨-, name, first, later, hunder, hdoc⟩ := hadded (by decide)
    cases hunder
    exact hdoc.trans (by decide)
  · exact (hadded (by decide)).1

end ApiPages.ClassTable
