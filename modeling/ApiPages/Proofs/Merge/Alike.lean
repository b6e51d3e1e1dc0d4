import ApiPages.Proofs.Merge
import ApiPages.Proofs.Merge.Derived
import ApiPages.Proofs.Merge.Unrendered
import ApiPages.Proofs.Tag.Alike

/-!
# Methods with comments that look alike

Merging the comment of a method gives it the values of its tags, and what is derived of them. So if
each tag makes values that look alike of two comments, the methods look alike.
-/

namespace ApiPages

/-- Attributes that are present together, and look alike on a page. -/
def Record.Alike (a b : Record) : Prop :=
  ∀ key, Option.Rel (Value.AlikeWith [] key) (Table.get? a key) (Table.get? b key)

namespace Merge

/-- Two comments of which a tag makes values that look alike, from records that both have or both
lack. -/
structure TagAlike (s s' : Subject) (docs docs' : Groups) (t : Tag) : Prop where
  given : docs.of (.text t.key) = [] ↔ docs'.of (.text t.key) = []
  values : ∃ v w, valueOf s { doc := docs } t = .ok v ∧ valueOf s' { doc := docs' } t = .ok w ∧
    (v = .null ↔ w = .null) ∧ (v ≠ .null → Value.AlikeWith [] t.key v w)

theorem TagAlike.of_unused {s s' : Subject} {docs docs' : Groups} {t : Tag}
    (ht : t ∈ Tag.standard) (h : docs.of (.text t.key) = []) (h' : docs'.of (.text t.key) = []) :
    TagAlike s s' docs docs' t := by
  have hnull : ∀ s (docs : Groups), docs.of (.text t.key) = [] →
      valueOf s { doc := docs } t = .ok .null := by
    intro s docs hdocs
    rw [valueOf, hdocs, select_nil]
    exact Tag.merge_nil t ht s
  refine ⟨iff_of_true h h', _, _, hnull s docs h, hnull s' docs' h', Iff.rfl, ?_⟩
  exact fun hne => absurd rfl hne

theorem TagAlike.of_used {s s' : Subject} {docs docs' : Groups} {t : Tag} {v w : Value}
    (hdocs : docs.of (.text t.key) ≠ []) (hdocs' : docs'.of (.text t.key) ≠ [])
    (hv : valueOf s { doc := docs } t = .ok v) (hw : valueOf s' { doc := docs' } t = .ok w)
    (hne : v ≠ .null) (hne' : w ≠ .null) (h : Value.AlikeWith [] t.key v w) :
    TagAlike s s' docs docs' t :=
  ⟨iff_of_false hdocs hdocs', v, w, hv, hw, iff_of_false hne hne', fun _ => h⟩

/-- The first result that a comment tells of is the object itself. -/
def ReturnsThis (docs : Groups) : Prop :=
  ∃ r, (docs.of (.text "return")).head? = some r ∧ Table.get? r "type" = some (.text "this")

section Alike

variable {s s' : Subject} {docs docs' : Groups} {a b : Record}
  (ha : FromComment s .method docs a) (hb : FromComment s' .method docs' b)
  (hsame : ∀ t ∈ Tag.standard, t.covers (.member .method) = true → TagAlike s s' docs docs' t)
include ha hb hsame

theorem FromComment.rel_of_not_derived {key : String} (hstatic : key ≠ "static")
    (hchainable : key ≠ "chainable") :
    Option.Rel (Value.AlikeWith [] key) (Table.get? a key) (Table.get? b key) := by
  have hown : ∀ {s docs} {attributes : Record}, FromComment s .method docs attributes →
      (key ∈ Table.keys attributes ↔ ∃ t ∈ Tag.standard, t.key = key ∧
        t.covers (.member .method) = true ∧ docs.of (.text key) ≠ [] ∧
        ∃ v, valueOf s { doc := docs } t = .ok v ∧ v ≠ .null) := by
    intro s docs attributes h
    rw [h.keys, or_iff_left (by simp [hstatic, hchainable])]
  have hkeys : key ∈ Table.keys a ↔ key ∈ Table.keys b := by
    rw [hown ha, hown hb]
    refine exists_congr fun t => and_congr_right fun ht => and_congr_right fun hkey =>
      and_congr_right fun hcovers => ?_
    obtain ⟨hgiven, v, w, hv, hw, hnull, -⟩ := hsame t ht hcovers
    rw [hkey] at hgiven
    simp [hgiven, hv, hw, hnull]
  by_cases hmem : key ∈ Table.keys a
  · obtain ⟨t, ht, rfl, hcovers, -, v, hv, hne⟩ := (hown ha).mp hmem
    obtain ⟨-, v', w, hv', hw, hnull, halike⟩ := hsame t ht hcovers
    obtain rfl := Except.ok.inj (hv.symm.trans hv')
    obtain ⟨u, hu, hget⟩ := ha.values t ht hcovers
    obtain rfl := Except.ok.inj (hv.symm.trans hu)
    obtain ⟨u', hu', hget'⟩ := hb.values t ht hcovers
    obtain rfl := Except.ok.inj (hw.symm.trans hu')
    rw [hget hne, hget' (mt hnull.mpr hne)]
    exact .some (halike hne)
  · rw [Table.get?_eq_none_iff.mpr hmem, Table.get?_eq_none_iff.mpr (mt hkeys.mpr hmem)]
    exact .none

theorem FromComment.alike (hthis : ReturnsThis docs ↔ ReturnsThis docs') : a.Alike b := by
  have hgiven : ∀ t ∈ Tag.standard, t.covers (.member .method) = true →
      (docs.of (.text t.key) ≠ [] ↔ docs'.of (.text t.key) ≠ []) := fun t ht hcovers =>
    not_congr (hsame t ht hcovers).given
  intro key
  by_cases hstatic : key = "static"
  · subst hstatic
    obtain ⟨x, hx, hxiff⟩ := ha.static
    obtain ⟨y, hy, hyiff⟩ := hb.static
    have hxy : x = y := Bool.eq_iff_iff.mpr
      (hxiff.trans ((hgiven .staticFlag (by simp [Tag.standard]) rfl).trans hyiff.symm))
    rw [hx, hy, hxy]
    exact .some rfl
  by_cases hchainable : key = "chainable"
  · subst hchainable
    obtain ⟨x, hx, hxiff⟩ := ha.chainable rfl
    obtain ⟨y, hy, hyiff⟩ := hb.chainable rfl
    have hxy : x = y := Bool.eq_iff_iff.mpr (hxiff.trans
      ((or_congr (hgiven .chainable (by simp [Tag.standard]) rfl) hthis).trans hyiff.symm))
    rw [hx, hy, hxy]
    exact .some rfl
  exact ha.rel_of_not_derived hb hsame hstatic hchainable

end Alike

theorem get?_run_undocumented {reg : Registry} (hreg : Registry.ofTags Tag.standard = .ok reg)
    {s : Subject} (hkind : s.kind = .cls) (hempty : s.attributes = []) {outcome : Outcome}
    {notes : List Note} (h : run reg s {} = .ok outcome notes) (key : String) :
    Table.get? outcome.attributes key = none := by
  obtain ⟨state, hmerge, hprocess⟩ := run_eq_ok h
  rw [hempty] at hmerge
  obtain rfl := Except.ok.inj hmerge
  have hderived : ∀ t ∈ Tag.standard, t.covers .cls = true → Record.derivedKeys t.key = [] := by
    decide
  have hsettles := Registry.settles_standard hreg
  have hframe : Table.get? outcome.attributes key = Table.get? [] key := by
    refine foldlM_processTag_frame
      (fun t ht => hsettles.tags t (Registry.mem_of_mem_pluginsFor ht)) hprocess fun t ht => ?_
    obtain ⟨hstandard, hcovers⟩ := standard_of_mem_pluginsFor hreg ht
    rw [hderived t hstandard (hkind ▸ hcovers)]
    exact List.not_mem_nil
  exact hframe

end Merge

end ApiPages
