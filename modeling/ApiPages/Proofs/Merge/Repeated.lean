import ApiPages.Proofs.Merge.Again
import ApiPages.Proofs.Merge.Reordered

/-!
# Merging once more

What merging complains of does not depend on the attributes, and merging over the attributes that it
has led to leads there again. So merging a class or a member once more leaves it as it is, and tells
the same.
-/

namespace ApiPages

theorem ClassDoc.absorb_absorb (c : ClassDoc) (outcome : Outcome) (members : List Member) :
    { c.absorb outcome with members }.absorb outcome = { c.absorb outcome with members } := by
  rw [absorb, absorb]
  cases outcome.target <;> rfl

section Again

variable {reg : Registry} (hreg : reg.Settles) {notes : List Note}
include hreg

theorem Merge.run_repeats {s : Subject} {raw : Occurrences} {outcome : Outcome}
    (h : run reg s raw = .ok outcome notes) :
    run reg { s with attributes := outcome.attributes } raw = .ok outcome notes := by
  obtain ⟨again, later, hagain, rfl⟩ := run_again hreg h s.position
  have hsame : notesOn reg (raw.filings { s with attributes := again.attributes }) =
      notesOn reg (raw.filings s) := by
    rw [notesOn, notesOn, Occurrences.filings, Occurrences.filings, List.filterMap_map,
      List.filterMap_map]
    rfl
  have hnotes : later = notes := (notes_run hagain).trans (hsame.trans (notes_run h).symm)
  rw [← hnotes]
  exact hagain

theorem Member.merge_repeats {m m' : Member} (h : m.merge reg = .ok m' notes) :
    m'.merge reg = .ok m' notes := by
  obtain ⟨outcome, first, _, hrun, hend, rfl⟩ := Report.exists_notes_of_bind h
  cases hend
  have hagain : Merge.run reg { m with attributes := outcome.attributes }.subject m.raw =
      .ok outcome first := Merge.run_repeats hreg hrun
  rw [merge, hagain]
  rfl

theorem ClassDoc.merge_repeats {c c' : ClassDoc} (h : c.merge reg = .ok c' notes) :
    c'.merge reg = .ok c' notes := by
  obtain ⟨outcome, first, _, hrun, hbehind, rfl⟩ := Report.exists_notes_of_bind h
  obtain ⟨members, later, _, hmembers, hend, rfl⟩ := Report.exists_notes_of_bind hbehind
  cases hend
  have hsubject : { c.absorb outcome with members }.subject =
      { c.subject with attributes := outcome.attributes } := by
    rw [absorb]
    cases outcome.target <;> rfl
  have hraw : (c.absorb outcome).raw = c.raw := by
    rw [absorb]
    cases outcome.target <;> rfl
  have hown := Merge.run_repeats hreg hrun
  have hrest := Report.mapM_again (fun _ _ _ => Member.merge_repeats hreg) hmembers
  rw [merge, hsubject, hraw, hown, Report.ok_bind, hrest, Report.ok_bind, absorb_absorb]
  rfl

end Again

namespace Merge

/-- **Merging is settled after once.** With the standard tags, whatever a member or a class and its
members hold: if merging it ends well, merging the result ends well too, gives it back in all its
parts, and notes exactly what was noted before, in the same order. -/
theorem merge_once_more {reg : Registry} (hreg : Registry.ofTags Tag.standard = .ok reg) :
    (∀ (m m' : Member) (notes : List Note), m.merge reg = .ok m' notes →
        m'.merge reg = .ok m' notes) ∧
      ∀ (c c' : ClassDoc) (notes : List Note), c.merge reg = .ok c' notes →
        c'.merge reg = .ok c' notes := by
  have hsettles := Registry.settles_standard hreg
  exact ⟨fun _ _ _ => Member.merge_repeats hsettles, fun _ _ _ => ClassDoc.merge_repeats hsettles⟩

theorem notes_chainedClass {reg : Registry} (hreg : Registry.ofTags Tag.standard = .ok reg)
    {c : ClassDoc} {notes : List Note} (h : (chainedClass id).merge reg = .ok c notes) :
    notes ≠ [] := by
  let colour : Filing := {
    subject := (chainedClass id).subject
    raw := (chainedClass id).raw
    tagname := .text "colour" }
  have hunknown : ∀ t ∈ Tag.standard, ¬ t.Owns colour.tagname := by
    have hkeys : "colour" ∉ Tag.standard.map Tag.key := by decide
    rintro t ht ⟨-, hname⟩
    exact hkeys (Name.text.inj hname ▸ List.mem_map_of_mem ht)
  have hcolour : colour ∈ (chainedClass id).filings :=
    List.mem_append_left _ (List.mem_map_of_mem List.mem_cons_self)
  have hwarned := (complains_iff hreg).mp (.unknown hunknown)
  rw [notes_class h, notesOn]
  exact List.ne_nil_of_mem
    (List.mem_map_of_mem (List.mem_filterMap.mpr ⟨colour, hcolour, hwarned.symm⟩))

theorem merge_once_more_chained : ∃ reg, Registry.ofTags Tag.standard = .ok reg ∧
    (∃ c notes, (chainedClass id).merge reg = .ok c notes ∧ notes ≠ [] ∧
      c.merge reg = .ok c notes) ∧
    ∀ m ∈ (chainedClass id).members, ∃ m' notes, m.merge reg = .ok m' notes ∧
      m'.merge reg = .ok m' notes := by
  obtain ⟨reg, hreg⟩ : ∃ reg, Registry.ofTags Tag.standard = .ok reg := ⟨_, rfl⟩
  obtain ⟨hmember, hclass⟩ := merge_once_more hreg
  have hsturdy := Registry.sturdy_standard hreg
  refine ⟨reg, hreg, ?_, fun m hm => ?_⟩
  · obtain ⟨c, notes, hmerge, -⟩ := ClassDoc.merge_ends hsturdy ready_chainedClass
    exact ⟨c, notes, hmerge, notes_chainedClass hreg hmerge, hclass _ c notes hmerge⟩
  · obtain ⟨m', notes, hmerge, -⟩ := Member.merge_ends hsturdy (ready_chainedClass.members m hm)
    exact ⟨m', notes, hmerge, hmember m m' notes hmerge⟩

end Merge

end ApiPages
