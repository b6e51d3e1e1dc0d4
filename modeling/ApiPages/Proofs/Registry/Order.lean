import ApiPages.Proofs.Registry
import Mathlib.Data.List.Perm.Subperm

/-!
# The order of the tags on a page

Tags are sorted by position, and a sort that is stable commutes with leaving elements out. So tags
of one position keep their order of registration, and a tag that is taken out of a registry leaves
the order of all others as it was.
-/

namespace ApiPages

/-! ### Stable sorting -/

section Sorting

variable {α : Type} {le : α → α → Bool} (htrans : ∀ a b c, le a b → le b c → le a c)
  (htotal : ∀ a b, le a b || le b a)

/-- A list falls in only one way into elements with a property and elements without it. -/
theorem append_inj_of_filter {q : α → Bool} {front back front' back' : List α}
    (h : front ++ back = front' ++ back') (hfront : ∀ a ∈ front, q a = true)
    (hback : ∀ a ∈ back, q a = false) (hfront' : ∀ a ∈ front', q a = true)
    (hback' : ∀ a ∈ back', q a = false) : front = front' ∧ back = back' := by
  have hsplit : ∀ {xs ys : List α}, (∀ a ∈ xs, q a = true) → (∀ a ∈ ys, q a = false) →
      (xs ++ ys).filter q = xs := by
    intro xs ys hxs hys
    have hnone : ys.filter q = [] := List.filter_eq_nil_iff.mpr fun a ha => by simp [hys a ha]
    rw [List.filter_append, List.filter_eq_self.mpr hxs, hnone, List.append_nil]
  have heq : front = front' := by rw [← hsplit hfront hback, h, hsplit hfront' hback']
  subst heq
  exact ⟨rfl, List.append_cancel_left h⟩

include htrans htotal

/-- Elements can be left out before or after a list is sorted. -/
theorem mergeSort_filter (p : α → Bool) (l : List α) :
    (l.filter p).mergeSort le = (l.mergeSort le).filter p := by
  induction l with
  | nil => simp
  | cons a l ih =>
      obtain ⟨front, back, hcons, hsorted, hfront⟩ := List.mergeSort_cons htrans htotal a l
      rw [hcons, List.filter_append]
      cases hp : p a with
      | false =>
          rw [List.filter_cons_of_neg (by simp [hp]), List.filter_cons_of_neg (by simp [hp]), ih,
            hsorted, List.filter_append]
      | true =>
          rw [List.filter_cons_of_pos hp, List.filter_cons_of_pos hp]
          obtain ⟨front', back', hcons', hsorted', hfront'⟩ :=
            List.mergeSort_cons htrans htotal a (l.filter p)
          have hback : ∀ b ∈ back, le a b = true := by
            have hall := hcons ▸ List.pairwise_mergeSort htrans htotal (a :: l)
            exact (List.pairwise_cons.mp (List.pairwise_append.mp hall).2.1).1
          have hback' : ∀ b ∈ back', le a b = true := by
            have hall := hcons' ▸ List.pairwise_mergeSort htrans htotal (a :: l.filter p)
            exact (List.pairwise_cons.mp (List.pairwise_append.mp hall).2.1).1
          have hparts : front' ++ back' = front.filter p ++ back.filter p := by
            rw [← hsorted', ih, hsorted, List.filter_append]
          obtain ⟨rfl, rfl⟩ := append_inj_of_filter (q := fun b => !le a b) hparts hfront'
            (fun b hb => by simp [hback' b hb]) (fun b hb => hfront b (List.mem_of_mem_filter hb))
            (fun b hb => by simp [hback b (List.mem_of_mem_filter hb)])
          exact hcons'

/-- Elements that may stand either way round keep their order. -/
theorem filter_mergeSort_of_same {p : α → Bool} (hsame : ∀ a b, p a → p b → le a b) (l : List α) :
    (l.mergeSort le).filter p = l.filter p := by
  rw [← mergeSort_filter htrans htotal]
  apply List.mergeSort_of_pairwise
  rw [List.pairwise_iff_forall_sublist]
  intro a b hsub
  have hp : ∀ c ∈ [a, b], p c = true := fun c hc => (List.mem_filter.mp (hsub.subset hc)).2
  exact hsame a b (hp a (by simp)) (hp b (by simp))

end Sorting

/-! ### Arrangements -/

/-- The number that a tag is sorted by: no position counts as infinity. -/
def Tag.place (t : Tag) : Number.Size :=
  (t.position.getD .infinity).size

/-- Some tags in the order of a page: ascending positions, tags without one behind all finite
positions, and tags of one place in the order in which they were given. -/
structure Tag.Arranged (tags arranged : List Tag) : Prop where
  perm : arranged.Perm tags
  ascending : arranged.Pairwise fun a b =>
    ∀ p q, a.position = some p → b.position = some q → p.le q
  unpositioned : arranged.Pairwise fun a b =>
    a.position = none → ∀ q, b.position = some q → Number.infinity.le q
  stable : ∀ place : Number.Size,
    arranged.filter (·.place = place) = tags.filter (·.place = place)

/-- Where no position is infinite, all tags without one come last. -/
theorem Tag.Arranged.unpositioned_last {tags arranged : List Tag} (h : Arranged tags arranged)
    (hfinite : ∀ t ∈ tags, ∀ p, t.position = some p → Number.infinity.le p = false) :
    arranged.Pairwise fun a b => a.position = none → b.position = none := by
  refine h.unpositioned.imp_of_mem fun {a b} _ hb hinfinite hnone => ?_
  cases hposition : b.position with
  | none => rfl
  | some q =>
      have hle := hinfinite hnone q hposition
      rw [hfinite b (h.perm.mem_iff.mp hb) q hposition] at hle
      cases hle

namespace Registry

theorem positionLe_trans (a b c : Tag) (hab : positionLe a.position b.position)
    (hbc : positionLe b.position c.position) : positionLe a.position c.position :=
  Number.le_trans hab hbc

theorem positionLe_total (a b : Tag) :
    positionLe a.position b.position || positionLe b.position a.position :=
  Number.le_total _ _

theorem positionLe_of_place {a b : Tag} (h : a.place = b.place) :
    positionLe a.position b.position := by
  simp only [Tag.place] at h
  simp [positionLe, Number.le, h]

theorem arranged_pluginsFor (reg : Registry) (kind : Kind) :
    Tag.Arranged (reg.tags.filter (·.covers kind)) (reg.pluginsFor kind) := by
  have hsorted := List.pairwise_mergeSort positionLe_trans positionLe_total
    (reg.tags.filter (·.covers kind))
  constructor
  · exact List.mergeSort_perm _ _
  · refine hsorted.imp fun {a b} hle p q hp hq => ?_
    simpa [positionLe, hp, hq] using hle
  · refine hsorted.imp fun {a b} hle hnone q hq => ?_
    simpa [positionLe, hnone, hq] using hle
  · intro place
    refine filter_mergeSort_of_same positionLe_trans positionLe_total (fun a b ha hb => ?_) _
    exact positionLe_of_place ((of_decide_eq_true ha).trans (of_decide_eq_true hb).symm)

/-- A tag without a position, and behind it one at infinity. -/
def outlyingTags : List Tag :=
  [{ patterns := ["n"], tagname := some "n", scope := ["all"] },
    { patterns := ["i"], tagname := some "i", scope := ["all"], position := some .infinity }]

/-- A tag without a position does not always come last: it keeps its place ahead of one whose
position is infinite. -/
theorem unpositioned_ahead_of_infinite : ∃ reg, ofTags outlyingTags = .ok reg ∧
    (reg.pluginsFor .cls).map Tag.key = ["n", "i"] ∧
    ¬ (reg.pluginsFor .cls).Pairwise fun a b => a.position = none → b.position = none := by
  obtain ⟨reg, hreg⟩ : ∃ reg, ofTags outlyingTags = .ok reg := ⟨_, rfl⟩
  have hcovered : outlyingTags.filter (·.covers .cls) = outlyingTags := rfl
  have horder : reg.pluginsFor .cls = outlyingTags := by
    rw [pluginsFor, tags_ofTags hreg, hcovered]
    apply List.mergeSort_of_pairwise
    simp [outlyingTags, positionLe, Number.le]
  refine ⟨reg, hreg, by rw [horder]; rfl, ?_⟩
  rw [horder]
  simp [outlyingTags]

/-! ### Leaving tags out -/

section Without

variable {reg reg' : Registry} {p : Tag → Bool} (h : reg'.tags = reg.tags.filter p) (kind : Kind)
include h

theorem pluginsFor_filter : reg'.pluginsFor kind = (reg.pluginsFor kind).filter p := by
  have hcomm : (reg.tags.filter p).filter (·.covers kind) =
      (reg.tags.filter (·.covers kind)).filter p := by
    rw [List.filter_filter, List.filter_filter]
    exact List.filter_congr fun t _ => Bool.and_comm _ _
  rw [pluginsFor, h, hcomm, pluginsFor]
  exact mergeSort_filter positionLe_trans positionLe_total p _

theorem renderOrder_filter : reg'.renderOrder kind = (reg.renderOrder kind).filter p := by
  rw [renderOrder, pluginsFor_filter h, renderOrder, List.filter_filter, List.filter_filter]
  exact List.filter_congr fun t _ => Bool.and_comm _ _

end Without

theorem mem_renderOrder_iff {reg : Registry} {kind : Kind} {t : Tag} :
    t ∈ reg.renderOrder kind ↔
      t ∈ reg.tags ∧ t.covers kind = true ∧ t.position.isSome = true := by
  rw [renderOrder, List.mem_filter, mem_pluginsFor_iff, and_assoc]

/-- A registry with one tag more has it at one place of its order, if it is shown at all, and is
the same ahead of it and behind it. -/
theorem exists_renderOrder_eq_append {reg reg' : Registry} {front back : List Tag} {t : Tag}
    (hreg : reg.tags = front ++ t :: back) (hreg' : reg'.tags = front ++ back)
    (hkeys : (reg.tags.map Tag.key).Nodup) (kind : Kind) :
    ∃ before after,
      reg.renderOrder kind =
        before ++ (if t.covers kind && t.position.isSome then [t] else []) ++ after ∧
      reg'.renderOrder kind = before ++ after := by
  have hkeep : ∀ {xs : List Tag}, t.key ∉ xs.map Tag.key →
      xs.filter (fun u => u.key ≠ t.key) = xs := by
    intro xs hxs
    rw [List.filter_eq_self]
    exact fun u hu => decide_eq_true fun heq => hxs (heq ▸ List.mem_map_of_mem hu)
  have hdrop : ∀ {xs ys : List Tag}, ((xs ++ t :: ys).map Tag.key).Nodup →
      (xs ++ t :: ys).filter (fun u => u.key ≠ t.key) = xs ++ ys := by
    intro xs ys hnodup
    rw [List.map_append, List.map_cons] at hnodup
    have hxs : t.key ∉ xs.map Tag.key := fun hmem =>
      (List.nodup_append.mp hnodup).2.2 _ hmem _ List.mem_cons_self rfl
    have hys := (List.nodup_cons.mp (List.nodup_append.mp hnodup).2.1).1
    rw [List.filter_append, List.filter_cons_of_neg (by simp), hkeep hxs, hkeep hys]
  have hwithout : reg'.tags = reg.tags.filter fun u => u.key ≠ t.key := by
    rw [hreg', hreg, hdrop (hreg ▸ hkeys)]
  rw [renderOrder_filter hwithout kind]
  by_cases hmem : t ∈ reg.renderOrder kind
  · obtain ⟨before, after, hsplit⟩ := List.append_of_mem hmem
    obtain ⟨-, hcovers, hposition⟩ := mem_renderOrder_iff.mp hmem
    refine ⟨before, after, by simp [hsplit, hcovers, hposition], ?_⟩
    rw [hsplit, hdrop (hsplit ▸ nodup_keys_renderOrder hkeys kind)]
  · have hshown : ¬ (t.covers kind = true ∧ t.position.isSome = true) := fun hshown =>
      hmem (mem_renderOrder_iff.mpr ⟨by simp [hreg], hshown⟩)
    have hother : t.key ∉ (reg.renderOrder kind).map Tag.key := by
      intro hkey
      obtain ⟨u, hu, hukey⟩ := List.mem_map.mp hkey
      have heq : u = t := List.inj_on_of_nodup_map hkeys (mem_of_mem_renderOrder hu)
        (by simp [hreg]) hukey
      exact hmem (heq ▸ hu)
    refine ⟨reg.renderOrder kind, [], by simpa using hshown, ?_⟩
    rw [hkeep hother, List.append_nil]

end Registry

end ApiPages
