import ApiPages.Proofs.Page
import ApiPages.Proofs.Page.Own
import ApiPages.Proofs.Registry.Order
import ApiPages.Proofs.Tag.Alike
import ApiPages.Proofs.Tag.Settled
import Mathlib.Data.List.Flatten

/-!
# Tags that do not depend on each other

Any choice of the standard tags, in any order, makes a registry. A page made with it shows what the
chosen tags show with all of them in use, in the order of its own: a tag that is switched on or off
adds or takes away no more than its own HTML.
-/

namespace ApiPages

theorem Tag.Consistent.of_subperm {tags all : List Tag} (h : Consistent all)
    (hsub : tags.Subperm all) : Consistent tags := by
  obtain ⟨chosen, hperm, hsublist⟩ := hsub
  have hnodup : ∀ claims : Tag → List String, (all.flatMap claims).Nodup →
      (tags.flatMap claims).Nodup := by
    intro claims hall
    rw [← (hperm.flatMap_right claims).nodup_iff]
    exact hall.sublist (hsublist.flatMap claims)
  exact {
    patterns := hnodup _ h.patterns
    tagnames := hnodup _ h.tagnames
    declarationKeys := hnodup _ h.declarationKeys
    scopes := fun t ht => h.scopes t (hsublist.subset (hperm.mem_iff.mpr ht)) }

namespace Registry

theorem named_of_subperm {tags : List Tag} (hsub : tags.Subperm Tag.standard) {reg : Registry}
    (hreg : ofTags tags = .ok reg) : reg.Named := by
  obtain ⟨chosen, hperm, hsublist⟩ := hsub
  have hkeys : (chosen.map Tag.key).Nodup := Tag.nodup_keys_standard.sublist (hsublist.map Tag.key)
  rw [← tags_ofTags hreg] at hperm
  exact {
    tags := fun t ht =>
      (Tag.discreet_standard t (hsublist.subset (hperm.mem_iff.mpr ht))).named
    keys := (hperm.map Tag.key).nodup_iff.mp hkeys }

end Registry

namespace Page

/-- What the standard tags show of a class or member on a page, each by itself. A tag's HTML is made
of its own value; a page with some of the tags in use consists of what these show, in the order of
their registry; and one tag more adds its own HTML at one place. -/
structure ShownBy (f : Formatter) (kind : Kind) (a : Record) (shown : Tag → String) : Prop where
  own : ∀ t ∈ Tag.standard, t.covers kind = true → t.position.isSome = true →
    t.contribution f kind (t.own a) = .ok (shown t)
  chosen : ∀ tags : List Tag, tags.Subperm Tag.standard →
    ∃ reg b, Registry.ofTags tags = .ok reg ∧
      render reg f kind a = (b, .ok (joinFragments ((reg.renderOrder kind).map shown))) ∧
      ∀ t ∈ reg.renderOrder kind, fragment kind b t = .ok (shown t)
  switched : ∀ (front back : List Tag) (t : Tag), (front ++ t :: back).Subperm Tag.standard →
    ∃ reg reg' b b' before after,
      Registry.ofTags (front ++ t :: back) = .ok reg ∧
      Registry.ofTags (front ++ back) = .ok reg' ∧
      render reg f kind a = (b, .ok (joinFragments
        (before ++ (if t.covers kind && t.position.isSome then [shown t] else []) ++ after))) ∧
      render reg' f kind a = (b', .ok (joinFragments (before ++ after)))

theorem subperm_without {tags front back : List Tag} {t : Tag}
    (h : (front ++ t :: back).Subperm tags) : (front ++ back).Subperm tags :=
  ((List.sublist_cons_self t back).append_left front).subperm.trans h

section Shown

variable {f : Formatter} {kind : Kind} {a : Record} {shown : Tag → String}
  (hshown : ∀ t ∈ Tag.standard, t.covers kind = true → t.position.isSome = true →
    t.contribution f kind (t.own a) = .ok (shown t))
include hshown

/-- Where every standard tag can show its own value, a page with some of them can be made. -/
theorem render_chosen {tags : List Tag} (hsub : tags.Subperm Tag.standard) {reg : Registry}
    (hreg : Registry.ofTags tags = .ok reg) :
    ∃ b, render reg f kind a = (b, .ok (joinFragments ((reg.renderOrder kind).map shown))) ∧
      ∀ t ∈ reg.renderOrder kind, fragment kind b t = .ok (shown t) := by
  refine render_of_contributions (Registry.named_of_subperm hsub hreg) fun t ht => ?_
  obtain ⟨hmem, hcovers, hposition⟩ := Registry.mem_renderOrder_iff.mp ht
  rw [Registry.tags_ofTags hreg] at hmem
  exact hshown t (hsub.subset hmem) hcovers hposition

/-- One tag more adds what it shows at one place, if it is shown at all. -/
theorem render_switched {front back : List Tag} {t : Tag}
    (hsub : (front ++ t :: back).Subperm Tag.standard)
    {reg reg' : Registry} (hreg : Registry.ofTags (front ++ t :: back) = .ok reg)
    (hreg' : Registry.ofTags (front ++ back) = .ok reg') :
    ∃ b b' before after,
      render reg f kind a = (b, .ok (joinFragments
        (before ++ (if t.covers kind && t.position.isSome then [shown t] else []) ++ after))) ∧
      render reg' f kind a = (b', .ok (joinFragments (before ++ after))) := by
  obtain ⟨b, hrender, -⟩ := render_chosen hshown hsub hreg
  obtain ⟨b', hrender', -⟩ := render_chosen hshown (subperm_without hsub) hreg'
  obtain ⟨before, after, horder, horder'⟩ := Registry.exists_renderOrder_eq_append
    (Registry.tags_ofTags hreg) (Registry.tags_ofTags hreg')
    (Registry.named_of_subperm hsub hreg).keys kind
  refine ⟨b, b', before.map shown, after.map shown, ?_, ?_⟩
  · rw [hrender, horder, List.map_append, List.map_append]
    split <;> rfl
  · rw [hrender', horder', List.map_append]

end Shown

/-- **Tags show their values in order and independently.** The tags of a kind are sorted, and a page
shows those that have a position. If all positions can be compared, the tags stand by ascending
position, those without one as if at infinity, and tags of one place as they were registered. So
tags without a position come last unless another one is at infinity. Wherever a page can be made
with all standard tags, each tag shows a text of its own, whichever of the others are in use and in
whatever order. -/
theorem render_tag_by_tag {full : Registry} (hfull : Registry.ofTags Tag.standard = .ok full) :
    (∀ (reg : Registry) (kind : Kind),
      (reg.pluginsFor kind).Perm (reg.tags.filter (·.covers kind)) ∧
        reg.renderOrder kind = (reg.pluginsFor kind).filter (·.position.isSome) ∧
        ((∀ t ∈ reg.tags, t.position ≠ some (.double .nan)) →
          Tag.Arranged (reg.tags.filter (·.covers kind)) (reg.pluginsFor kind)) ∧
        ((∀ t ∈ reg.tags, ∀ p, t.position = some p → Number.infinity.le p = false) →
          (reg.pluginsFor kind).Pairwise fun a b => a.position = none → b.position = none)) ∧
      ∀ (f : Formatter) (kind : Kind) (a a' : Record) (html : String),
        render full f kind a = (a', .ok html) → ∃ shown, ShownBy f kind a shown := by
  have harranged : ∀ (reg : Registry) (kind : Kind),
      Tag.Arranged (reg.tags.filter (·.covers kind)) (reg.pluginsFor kind) :=
    Registry.arranged_pluginsFor
  constructor
  · intro reg kind
    refine ⟨(harranged reg kind).perm, rfl, fun _ => harranged reg kind, fun hfinite => ?_⟩
    exact (harranged reg kind).unpositioned_last fun t ht => hfinite t (List.mem_of_mem_filter ht)
  intro f kind a a' html h
  have hnamed := Registry.named_of_subperm (List.Subperm.refl _) hfull
  choose! shown hshown using contributions_of_render hnamed h
  have hown : ∀ t ∈ Tag.standard, t.covers kind = true → t.position.isSome = true →
      t.contribution f kind (t.own a) = .ok (shown t) := by
    intro t ht hcovers hposition
    rw [← Registry.tags_ofTags hfull] at ht
    exact hshown t (Registry.mem_renderOrder_iff.mpr ⟨ht, hcovers, hposition⟩)
  have hregistry : ∀ tags : List Tag, tags.Subperm Tag.standard →
      ∃ reg, Registry.ofTags tags = .ok reg := fun tags hsub =>
    ⟨_, Registry.ofTags_eq_ok_iff.mpr ⟨(Registry.ofTags_eq_ok_iff.mp hfull).1.of_subperm hsub, rfl⟩⟩
  refine ⟨shown, hown, fun tags hsub => ?_, fun front back t hsub => ?_⟩
  · obtain ⟨reg, hreg⟩ := hregistry tags hsub
    obtain ⟨b, hrender, hfragments⟩ := render_chosen hown hsub hreg
    exact ⟨reg, b, hreg, hrender, hfragments⟩
  · obtain ⟨reg, hreg⟩ := hregistry _ hsub
    obtain ⟨reg', hreg'⟩ := hregistry _ (subperm_without hsub)
    obtain ⟨b, b', before, after, hrender, hrender'⟩ := render_switched hown hsub hreg hreg'
    exact ⟨reg, reg', b, b', before, after, hreg, hreg', hrender, hrender'⟩

/-- A deprecated class, with the version that it has been there since. -/
def agedAttributes : Record :=
  [("since", .text "2.0"),
    ("deprecated", .record [("version", .null), ("text", .text "Use another.")])]

theorem formed_agedAttributes : agedAttributes.Formed := by
  intro key v hv
  rcases List.mem_cons.mp (Table.mem_of_get? hv) with hsince | hdeprecated
  · cases hsince
    trivial
  · cases List.mem_singleton.mp hdeprecated
    exact ⟨_, rfl, by simp, _, rfl⟩

theorem aged_tag_by_tag : ∃ full, Registry.ofTags Tag.standard = .ok full ∧
    (∀ t ∈ full.tags, t.position ≠ some (.double .nan)) ∧
    Tag.Arranged (full.tags.filter (·.covers .cls)) (full.pluginsFor .cls) ∧
    (full.pluginsFor .cls).Pairwise (fun a b => a.position = none → b.position = none) ∧
    ∀ f, ∃ a' html, render full f .cls agedAttributes = (a', .ok html) ∧
      ∃ shown, ShownBy f .cls agedAttributes shown := by
  obtain ⟨full, hfull⟩ : ∃ full, Registry.ofTags Tag.standard = .ok full := ⟨_, rfl⟩
  have hfinite : ∀ t ∈ full.tags, ∀ p, t.position = some p → Number.infinity.le p = false := by
    have hall : ∀ p ∈ Tag.standard.filterMap Tag.position, Number.infinity.le p = false := by decide
    rw [Registry.tags_ofTags hfull]
    exact fun t ht p hp => hall p (List.mem_filterMap.mpr ⟨t, ht, hp⟩)
  have hcomparable : ∀ t ∈ full.tags, t.position ≠ some (.double .nan) := fun t ht hnan =>
    Bool.noConfusion (hfinite t ht _ hnan)
  obtain ⟨horder, hshown⟩ := render_tag_by_tag hfull
  obtain ⟨-, -, harranged, hlast⟩ := horder full .cls
  refine ⟨full, hfull, hcomparable, harranged hcomparable, hlast hfinite, fun f => ?_⟩
  obtain ⟨a', html, hrender, -⟩ :=
    render_ok (Registry.sturdy_standard hfull) f .cls formed_agedAttributes
  exact ⟨a', html, hrender, hshown f .cls _ a' html hrender⟩

end Page

end ApiPages
