import ApiPages.Proofs.Override.Ready
import ApiPages.Proofs.Page
import ApiPages.Run

/-!
# Runs over whatever is documented

Classes whose raw records were read from comments and declarations are ready for the first stage of
a run, every stage keeps them ready for the next one, and so no stage fails.
-/

namespace ApiPages

/-- A member of which nothing is known but what a comment says. -/
structure Member.Fresh (reg : Registry) (m : Member) : Prop where
  attributes : m.attributes = []
  raw : Sourced reg m.raw

/-- A class of which nothing is known but what comments and declarations say. The target of an
override is a text if there is one, and the places of a class are known. -/
structure ClassDoc.Fresh (reg : Registry) (c : ClassDoc) : Prop where
  attributes : c.attributes = []
  raw : Sourced reg c.raw
  members : ∀ m ∈ c.members, m.Fresh reg
  target : c.overrideTarget.Textual
  files : none ∉ c.files

section Stages

variable {reg : Registry} (hreg : reg.Sturdy)
include hreg

theorem Member.Fresh.ready {m : Member} (h : m.Fresh reg) : m.Ready where
  attributes := by
    rw [h.attributes]
    exact .nil
  raw := h.raw.sound hreg

theorem ClassDoc.Fresh.ready {c : ClassDoc} (h : c.Fresh reg) : c.Ready where
  attributes := by
    rw [h.attributes]
    exact .nil
  raw := h.raw.sound hreg
  members m hm := (h.members m hm).ready hreg
  target := h.target
  files := h.files

namespace Run

theorem mergeTable_ends {table : ClassTable} (h : table.Ready) :
    (mergeTable reg table).Ends ClassTable.Ready := by
  refine .mapM fun entry hentry => ?_
  exact (ClassDoc.merge_ends hreg (h entry hentry)).bind fun _ hc => .pure hc

theorem stages_ends {table : ClassTable} (h : table.Ready) (external : List String) :
    (stages reg table external).Ends fun result => ClassTable.Ready result.1 := by
  refine .seq (.progress _ _ _) ((mergeTable_ends hreg h).bind fun merged hmerged => ?_)
  refine (hmerged.processAll external).bind fun result hresult => ?_
  exact .seq (.forM_warn _) (.pure hresult)

end Run

end Stages

namespace Run

theorem run_ok {r : Run} (hreg : r.registry.Sturdy) {table : ClassTable} (h : table.Ready) :
    ∃ final r', r.run table = .ok (final, r') ∧ final.Ready := by
  obtain ⟨⟨final, external⟩, notes, hstages, hready⟩ := stages_ends hreg h r.external
  rw [run_eq, hstages]
  exact ⟨_, _, rfl, hready⟩

/-- **Documentation never stops a run.** With the standard tags every comment and every declaration
can be read, and a run over classes that were documented so, however that may be, ends well. Then
the page of each class that is left can be made. -/
theorem documented_run_ends {reg : Registry} (hreg : Registry.ofTags Tag.standard = .ok reg) :
    (∀ comment position, ∃ parsed notes,
        Comment.parse reg comment position = .ok parsed notes) ∧
      (∀ c declaration, Sourced reg c.raw →
        ∃ c' notes, Declaration.apply reg c declaration = .ok c' notes) ∧
      ∀ (r : Run) (table : ClassTable), r.registry = reg →
        (∀ key c, (key, c) ∈ table → c.Fresh reg) →
        ∃ final r', r.run table = .ok (final, r') ∧
          ∀ f key c, (key, c) ∈ final →
            ∃ shown html, Page.ofClass reg f c = (shown, .ok html) := by
  have hsturdy := Registry.sturdy_standard hreg
  refine ⟨fun comment position => ?_, fun c declaration hraw => ?_, ?_⟩
  · obtain ⟨parsed, notes, hparse, -⟩ := Comment.parse_ok hsturdy comment position
    exact ⟨parsed, notes, hparse⟩
  · obtain ⟨c', notes, happly, -⟩ := Declaration.apply_ok hsturdy c declaration (hraw.sound hsturdy)
    exact ⟨c', notes, happly⟩
  · rintro r table rfl hfresh
    have hready : table.Ready := fun entry hentry =>
      (hfresh entry.1 entry.2 hentry).ready hsturdy
    obtain ⟨final, r', hrun, hfinal⟩ := run_ok hsturdy hready
    refine ⟨final, r', hrun, fun f key c hc => ?_⟩
    obtain ⟨shown, html, hpage, -⟩ := Page.ofClass_ok hsturdy f (hfinal (key, c) hc)
    exact ⟨shown, html, hpage⟩

/-- A class, and an override of it that nobody has given a name, under broken comments. -/
def brokenTable (ofClass ofMember : Occurrences) : ClassTable :=
  [("Btn", {
      name := "Btn"
      members := [{ id := "click", owner := "Btn", name := "click", raw := ofMember }]
      raw := ofClass }),
    ("", {
      name := ""
      files := [some { file := "ext/btn-override.js", line := 1 }]
      isOverride := true
      overrideTarget := .text "Btn" })]

theorem fresh_brokenTable {reg : Registry} {ofClass ofMember : Occurrences}
    (hclass : Sourced reg ofClass) (hmember : Sourced reg ofMember) :
    ∀ key c, (key, c) ∈ brokenTable ofClass ofMember → c.Fresh reg := by
  have hentries : ∀ entry ∈ brokenTable ofClass ofMember, entry.2.Fresh reg := by
    refine List.forall_mem_cons.mpr ⟨?_, List.forall_mem_singleton.mpr ?_⟩
    · exact {
        attributes := rfl
        raw := hclass
        members := List.forall_mem_singleton.mpr { attributes := rfl, raw := hmember }
        target := Or.inl rfl
        files := List.not_mem_nil }
    · exact {
        attributes := rfl
        raw := .empty
        members := fun _ h => absurd h List.not_mem_nil
        target := .text "Btn"
        files := by decide }
  exact fun key c h => hentries (key, c) h

theorem broken_run_ends :
    ∃ reg, Registry.ofTags Tag.standard = .ok reg ∧
      ∃ ofClass ofMember, Sourced reg ofClass ∧ Sourced reg ofMember ∧
        (∀ key c, (key, c) ∈ brokenTable ofClass ofMember → c.Fresh reg) ∧
        ∃ r final r', r.registry = reg ∧
          run r (brokenTable ofClass ofMember) = .ok (final, r') := by
  obtain ⟨reg, hreg⟩ : ∃ reg, Registry.ofTags Tag.standard = .ok reg := ⟨_, rfl⟩
  obtain ⟨hparse, happly, hrun⟩ := documented_run_ends hreg
  obtain ⟨parsed, notes, hmember⟩ := hparse "/** @throws \x7bError @param [x @deprecated */" none
  obtain ⟨c', notes', hclass⟩ := happly { name := "Btn" } [("mixins", .list [.null])] .empty
  have hsourced := Sourced.comment .empty hmember
  have hdeclared := Sourced.declaration .empty hclass
  have hfresh := fresh_brokenTable hdeclared hsourced
  let r : Run := { settings := {}, registry := reg, log := {}, external := [], sink := {} }
  obtain ⟨final, r', hfinal, -⟩ := hrun r _ rfl hfresh
  exact ⟨reg, hreg, c'.raw, _, hdeclared, hsourced, hfresh, r, final, r', rfl, hfinal⟩

end Run

end ApiPages
