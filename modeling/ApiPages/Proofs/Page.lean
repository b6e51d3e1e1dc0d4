import ApiPages.Page
import ApiPages.Proofs.Merge

/-!
# Pages of ready classes

Formed attributes can be formatted and shown, tag by tag, and stay formed. So the page of a ready
class can always be made, and the class is still ready behind it.
-/

namespace ApiPages

theorem Tag.fits_of_own {t : Tag} {attributes : Record} (h : attributes.Formed) {v : Value}
    (hown : t.own attributes = some v) : v.Fits t.key := by
  obtain ⟨name, hname, hget⟩ := Option.bind_eq_some_iff.mp hown
  have hkey : t.key = name := by rw [key, hname, Option.getD_some]
  rw [hkey]
  exact h name v hget

namespace Page

theorem formatTags_ok (f : Formatter) {ts : List Tag} (hts : ∀ t ∈ ts, t.Sturdy)
    {attributes : Record} (h : attributes.Formed) :
    ∃ formatted, formatTags f ts attributes = (formatted, none) ∧ formatted.Formed := by
  induction ts generalizing attributes with
  | nil => exact ⟨attributes, rfl, h⟩
  | cons t ts ih =>
      obtain ⟨ht, hts⟩ := List.forall_mem_cons.mp hts
      rw [formatTags]
      cases hown : t.own attributes with
      | none => exact ih hts h
      | some v =>
          obtain ⟨v', hformat, hv'⟩ := ht.format f v (Tag.fits_of_own h hown)
          simp only [hformat]
          exact ih hts (h.set hv')

theorem fragment_ok {t : Tag} (ht : t.Sturdy) (kind : Kind) {attributes : Record}
    (h : attributes.Formed) : ∃ html, fragment kind attributes t = .ok html := by
  have hown : (t.own attributes).getD .null = .null ∨
      ((t.own attributes).getD .null).Fits t.key := by
    cases hown : t.own attributes with
    | none => exact Or.inl rfl
    | some v => exact Or.inr (Tag.fits_of_own h hown)
  obtain ⟨html, hhtml⟩ := ht.html kind _ hown
  exact Except.bind_ok hhtml ⟨_, rfl⟩

theorem ofClass_eq_ok {reg : Registry} {f : Formatter} {c : ClassDoc} {members : List Member}
    {attributes : Record} {known : Descriptions} {tags : String}
    (hdescribe : describe reg f c.members [] = (members, .ok known))
    (hrender : render reg f .cls c.attributes = (attributes, .ok tags)) :
    ofClass reg f c = ({ c with members, attributes }, .ok (layout c.name (f.format c.doc) tags known
      (sections reg { c with members, attributes }))) := by
  rw [ofClass, hdescribe]
  dsimp only
  rw [hrender]

theorem describe_frame {reg : Registry} (f : Formatter) {ms shown : List Member}
    {known described : Descriptions} (h : describe reg f ms known = (shown, .ok described))
    {id : String} (hid : id ∉ ms.map Member.id) :
    Table.get? described id = Table.get? known id := by
  induction ms generalizing known shown with
  | nil =>
      cases h
      rfl
  | cons m ms ih =>
      obtain ⟨hne, hid⟩ := List.ne_and_not_mem_of_not_mem_cons hid
      rw [describe] at h
      split at h
      · cases h
      · obtain ⟨hlater, hresult⟩ := Prod.mk.inj h
        rw [ih (Prod.ext rfl hresult) hid, Table.get?_set, if_neg (Ne.symm hne)]

section Rendering

variable {reg : Registry} (hreg : reg.Sturdy)
include hreg

theorem render_ok (f : Formatter) (kind : Kind) {attributes : Record} (h : attributes.Formed) :
    ∃ formatted html, render reg f kind attributes = (formatted, .ok html) ∧
      formatted.Formed := by
  have htags : ∀ t ∈ reg.renderOrder kind, t.Sturdy :=
    fun t ht => hreg.tags t (Registry.mem_of_mem_renderOrder ht)
  obtain ⟨formatted, hformat, hformed⟩ := formatTags_ok f htags h
  have hfragments : ∀ t ∈ reg.renderOrder kind,
      ∃ html, fragment kind formatted t = .ok html ∧ True := by
    intro t ht
    obtain ⟨html, hhtml⟩ := fragment_ok (htags t ht) kind hformed
    exact ⟨html, hhtml, trivial⟩
  obtain ⟨fragments, hfragments, -⟩ := Except.mapM_ok_forall hfragments
  refine ⟨formatted, joinFragments fragments, ?_, hformed⟩
  rw [render, hformat]
  dsimp only
  rw [hfragments]
  rfl

theorem describe_ok (f : Formatter) {ms : List Member} (h : ∀ m ∈ ms, m.Ready)
    (known : Descriptions) :
    ∃ shown described, describe reg f ms known = (shown, .ok described) ∧
      ∀ m ∈ shown, m.Ready := by
  induction ms generalizing known with
  | nil => exact ⟨[], known, rfl, h⟩
  | cons m ms ih =>
      obtain ⟨hm, hms⟩ := List.forall_mem_cons.mp h
      obtain ⟨attributes, html, hrender, hformed⟩ := render_ok hreg f (.member m.kind) hm.attributes
      obtain ⟨shown, described, hlater, hshown⟩ :=
        ih hms (Table.set known m.id (f.format m.doc ++ html))
      refine ⟨{ m with attributes } :: shown, described, ?_, ?_⟩
      · rw [describe, hrender]
        dsimp only
        rw [hlater]
      · exact List.forall_mem_cons.mpr ⟨{ attributes := hformed, raw := hm.raw }, hshown⟩

/-- The page of a ready class can be made, again and again. -/
theorem ofClass_ok (f : Formatter) {c : ClassDoc} (h : c.Ready) :
    ∃ shown html, ofClass reg f c = (shown, .ok html) ∧ shown.Ready := by
  obtain ⟨members, known, hdescribe, hmembers⟩ := describe_ok hreg f h.members []
  obtain ⟨attributes, tags, hrender, hformed⟩ := render_ok hreg f .cls h.attributes
  exact ⟨_, _, ofClass_eq_ok hdescribe hrender,
    { h with attributes := hformed, members := hmembers }⟩

end Rendering

end Page

end ApiPages
