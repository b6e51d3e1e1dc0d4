import ApiPages.Proofs.Page.Independent
import ApiPages.Proofs.Tag.Noted
import Mathlib.Logic.Function.Iterate

/-!
# Pages that are made again

Rendering a class or member leaves the HTML of its texts in its attributes, next to the texts.
Rendering it once more finds the same texts, so it writes the same HTML and makes the same page.
-/

namespace ApiPages

/-- Attributes before and after they are rendered: none comes or goes, and each is changed by no
more than the HTML of its texts. -/
structure Record.Touched (f : Formatter) (a a' : Record) : Prop where
  keys : Table.keys a' = Table.keys a
  values : ∀ key v', Table.get? a' key = some v' →
    ∃ v, Table.get? a key = some v ∧ Value.Touched f key v v'

structure Member.Touched (f : Formatter) (m m' : Member) : Prop where
  attributes : m.attributes.Touched f m'.attributes
  same : m' = { m with attributes := m'.attributes }

structure ClassDoc.Touched (f : Formatter) (c c' : ClassDoc) : Prop where
  attributes : c.attributes.Touched f c'.attributes
  members : List.Forall₂ (Member.Touched f) c.members c'.members
  same : c' = { c with attributes := c'.attributes, members := c'.members }

/-- Tags that have names of their own and write nothing but HTML next to texts. -/
structure Registry.Annotates (reg : Registry) : Prop where
  named : reg.Named
  tags : ∀ t ∈ reg.tags, t.Annotates

theorem Registry.annotates_standard {reg : Registry} (h : ofTags Tag.standard = .ok reg) :
    reg.Annotates where
  named := named_of_subperm (List.Subperm.refl _) h
  tags := by
    rw [tags_ofTags h]
    exact Tag.annotates_standard

namespace Page

theorem formatTags_self {f : Formatter} {ts : List Tag} (hnamed : ∀ t ∈ ts, t.tagname = some t.key)
    {a : Record} (h : ∀ t ∈ ts, t.formatted f (Table.get? a t.key) = .ok (Table.get? a t.key)) :
    formatTags f ts a = (a, none) := by
  induction ts with
  | nil => rfl
  | cons t ts ih =>
      obtain ⟨ht, hnamed⟩ := List.forall_mem_cons.mp hnamed
      obtain ⟨hown, hlater⟩ := List.forall_mem_cons.mp h
      rw [formatTags, Tag.own_of_named ht]
      cases hget : Table.get? a t.key with
      | none => exact ih hnamed hlater
      | some v =>
          rw [hget] at hown
          obtain ⟨v', hformat, hv⟩ := Tag.formatted_some_eq_ok_iff.mp hown
          obtain rfl := Option.some.inj hv
          simp only [hformat, Table.set_eq_self hget]
          exact ih hnamed hlater

section Formatted

variable {f : Formatter} {ts : List Tag} (hts : ∀ t ∈ ts, t.Annotates) {a a' : Record}
  (h : Formatted f ts a a')
include hts h

theorem Formatted.touched : a.Touched f a' where
  keys := h.keys
  values := by
    intro key v' hv'
    by_cases hlisted : key ∈ ts.map Tag.key
    · obtain ⟨t, ht, rfl⟩ := List.mem_map.mp hlisted
      have hown := h.own t ht
      rw [hv'] at hown
      cases hv : Table.get? a t.key with
      | none => rw [hv] at hown; cases hown
      | some v =>
          rw [hv] at hown
          obtain ⟨shown, hformat, hshown⟩ := Tag.formatted_some_eq_ok_iff.mp hown
          obtain rfl := Option.some.inj hshown
          exact ⟨v, rfl, (hts t ht).touched f v v' hformat⟩
    · rw [h.frame key hlisted] at hv'
      exact ⟨v', hv', .same key v'⟩

theorem Formatted.again : ∀ t ∈ ts, t.formatted f (Table.get? a' t.key) =
    .ok (Table.get? a' t.key) := by
  intro t ht
  have hown := h.own t ht
  cases hv' : Table.get? a' t.key with
  | none => rfl
  | some v' =>
      obtain ⟨v, hv, -⟩ := (h.touched hts).values t.key v' hv'
      rw [hv, hv'] at hown
      obtain ⟨shown, hformat, hshown⟩ := Tag.formatted_some_eq_ok_iff.mp hown
      obtain rfl := Option.some.inj hshown
      exact Tag.formatted_some_eq_ok_iff.mpr ⟨v', (hts t ht).again f v v' hformat, rfl⟩

end Formatted

/-! ### One more rendering -/

section Again

variable {reg : Registry} (hreg : reg.Annotates) {f : Formatter}
include hreg

theorem render_once_more {kind : Kind} {a a' : Record} {html : String}
    (h : render reg f kind a = (a', .ok html)) :
    render reg f kind a' = (a', .ok html) ∧ a.Touched f a' := by
  have htags : ∀ t ∈ reg.renderOrder kind, t.Annotates :=
    fun t ht => hreg.tags t (Registry.mem_of_mem_renderOrder ht)
  have hformatted := formatted_of_render hreg.named h
  have hself := formatTags_self (hreg.named.named_renderOrder kind) (hformatted.again htags)
  obtain ⟨-, hfragments⟩ := render_eq_ok_iff.mp h
  exact ⟨render_eq_ok_iff.mpr ⟨hself, hfragments⟩, hformatted.touched htags⟩

theorem describe_once_more {ms shown : List Member} {known described : Descriptions}
    (h : describe reg f ms known = (shown, .ok described)) :
    describe reg f shown known = (shown, .ok described) ∧
      List.Forall₂ (Member.Touched f) ms shown := by
  induction ms generalizing known shown with
  | nil =>
      cases h
      exact ⟨rfl, .nil⟩
  | cons m ms ih =>
      rw [describe] at h
      split at h
      · cases h
      · rename_i attributes html hrender
        obtain ⟨hagain, htouched⟩ := render_once_more hreg hrender
        generalize hlater : describe reg f ms (Table.set known m.id (f.format m.doc ++ html)) =
          later at h
        obtain ⟨rest, result⟩ := later
        cases h
        obtain ⟨hrest, hall⟩ := ih hlater
        refine ⟨?_, .cons ⟨htouched, rfl⟩ hall⟩
        rw [describe, hagain]
        dsimp only
        rw [hrest]

theorem ofClass_once_more {c c' : ClassDoc} {page : String}
    (h : ofClass reg f c = (c', .ok page)) :
    ofClass reg f c' = (c', .ok page) ∧ c.Touched f c' := by
  rw [ofClass] at h
  split at h
  · cases h
  · rename_i members known hdescribe
    split at h
    · cases h
    · rename_i attributes tags hrender
      cases h
      obtain ⟨hmembers, hall⟩ := describe_once_more hreg hdescribe
      obtain ⟨hattributes, htouched⟩ := render_once_more hreg hrender
      exact ⟨ofClass_eq_ok hmembers hattributes, htouched, hall, rfl⟩

end Again

/-- **Pages can be made again.** Where the attributes of a class or member can be rendered, and
likewise where the page of a class can be made, doing so writes nothing but the HTML of texts, each
time the formatter's own of the text itself. Doing so again, any number of times, comes to the same
HTML and changes nothing any more. -/
theorem render_repeatable {reg : Registry} (hreg : Registry.ofTags Tag.standard = .ok reg)
    (f : Formatter) :
    (∀ kind a a' html, render reg f kind a = (a', .ok html) →
      a.Touched f a' ∧
        ∀ n : Nat, render reg f kind ((fun b => (render reg f kind b).1)^[n] a') =
          (a', .ok html)) ∧
    ∀ c c' page, ofClass reg f c = (c', .ok page) →
      c.Touched f c' ∧
        ∀ n : Nat, ofClass reg f ((fun d => (ofClass reg f d).1)^[n] c') = (c', .ok page) := by
  have hannotates := Registry.annotates_standard hreg
  constructor
  · intro kind a a' html h
    obtain ⟨hagain, htouched⟩ := render_once_more hannotates h
    refine ⟨htouched, fun n => ?_⟩
    rw [Function.iterate_fixed (congrArg Prod.fst hagain) n, hagain]
  · intro c c' page h
    obtain ⟨hagain, htouched⟩ := ofClass_once_more hannotates h
    refine ⟨htouched, fun n => ?_⟩
    rw [Function.iterate_fixed (congrArg Prod.fst hagain) n, hagain]

/-- A deprecated class whose one method says what it gives back. -/
def agedClass : ClassDoc :=
  { name := "Panel"
    attributes := agedAttributes
    members := [{
      id := "method-show"
      owner := "Panel"
      name := "show"
      attributes :=
        [("return", .record [("type", .text "Boolean"), ("doc", .text "Whether it shows.")])] }] }

theorem ready_agedClass : agedClass.Ready where
  attributes := formed_agedAttributes
  raw := Occurrences.sound_empty
  members m hm := by
    obtain rfl := List.mem_singleton.mp hm
    refine ⟨fun key v hv => ?_, Occurrences.sound_empty⟩
    cases List.mem_singleton.mp (Table.mem_of_get? hv)
    refine ⟨_, rfl, List.forall_mem_singleton.mpr ⟨_, rfl⟩, _, rfl⟩
  target := Or.inl rfl
  files := List.not_mem_nil

theorem aged_page_repeatable : ∃ reg, Registry.ofTags Tag.standard = .ok reg ∧
    ∀ f, ∃ c' page, ofClass reg f agedClass = (c', .ok page) ∧ agedClass.Touched f c' ∧
      ∀ n : Nat, ofClass reg f ((fun d => (ofClass reg f d).1)^[n] c') = (c', .ok page) := by
  obtain ⟨reg, hreg⟩ : ∃ reg, Registry.ofTags Tag.standard = .ok reg := ⟨_, rfl⟩
  refine ⟨reg, hreg, fun f => ?_⟩
  obtain ⟨c', page, hpage, -⟩ := ofClass_ok (Registry.sturdy_standard hreg) f ready_agedClass
  exact ⟨c', page, hpage, (render_repeatable hreg f).2 agedClass c' page hpage⟩

end Page

end ApiPages
