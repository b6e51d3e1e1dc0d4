import ApiPages.Page.Fragment
import ApiPages.Proofs.Except
import ApiPages.Proofs.Registry

/-!
# What a tag adds to a page

Tags with distinct names format nothing but the values under their own names, so each of them finds
its value as it was before any formatting. What a tag adds to a page is a function of that value,
the kind of the class or member and the formatter.
-/

namespace ApiPages

namespace Tag

theorem own_of_named {t : Tag} (h : t.tagname = some t.key) (attributes : Record) :
    t.own attributes = Table.get? attributes t.key := by
  rw [own, h, Option.bind_some]

/-- The tag's own value once it is formatted. -/
def formatted (t : Tag) (f : Formatter) : Option Value → Except Fault (Option Value)
  | none => .ok none
  | some v =>
    match t.format f v with
    | (v, none) => .ok (some v)
    | (_, some fault) => .error fault

/-- The HTML that the tag makes of its own value, empty if it has nothing to show. -/
def contribution (t : Tag) (f : Formatter) (kind : Kind) (own : Option Value) :
    Except Fault String := do
  let shown ← t.formatted f own
  let html ← t.html kind (shown.getD .null)
  return html.getD ""

theorem formatted_some_eq_ok_iff {t : Tag} {f : Formatter} {v : Value} {shown : Option Value} :
    t.formatted f (some v) = .ok shown ↔ ∃ v', t.format f v = (v', none) ∧ shown = some v' := by
  rw [formatted]
  split
  · rename_i v' hformat
    simp [hformat, eq_comm]
  · rename_i v' fault hformat
    simp [hformat]

end Tag

/-- The tags of a registry have names, no two of them the same. -/
structure Registry.Named (reg : Registry) : Prop where
  tags : ∀ t ∈ reg.tags, t.tagname = some t.key
  keys : (reg.tags.map Tag.key).Nodup

namespace Registry.Named

variable {reg : Registry} (h : reg.Named) (kind : Kind)
include h

theorem named_renderOrder : ∀ t ∈ reg.renderOrder kind, t.tagname = some t.key :=
  fun t ht => h.tags t (mem_of_mem_renderOrder ht)

theorem nodup_renderOrder : ((reg.renderOrder kind).map Tag.key).Nodup :=
  nodup_keys_renderOrder h.keys kind

end Registry.Named

namespace Page

/-- Attributes before and after the tags have formatted their own values. -/
structure Formatted (f : Formatter) (ts : List Tag) (a a' : Record) : Prop where
  own : ∀ t ∈ ts, t.formatted f (Table.get? a t.key) = .ok (Table.get? a' t.key)
  frame : ∀ key ∉ ts.map Tag.key, Table.get? a' key = Table.get? a key
  keys : Table.keys a' = Table.keys a

section Formatting

variable {f : Formatter} {ts : List Tag} (hnamed : ∀ t ∈ ts, t.tagname = some t.key)
include hnamed

theorem fragment_of_formatted {kind : Kind} {a a' : Record} (h : Formatted f ts a a') {t : Tag}
    (ht : t ∈ ts) : fragment kind a' t = t.contribution f kind (t.own a) := by
  rw [fragment, Tag.contribution, Tag.own_of_named (hnamed t ht), Tag.own_of_named (hnamed t ht),
    h.own t ht]
  rfl

variable (hkeys : (ts.map Tag.key).Nodup)
include hkeys

theorem formatted_of_formatTags {a a' : Record} (h : formatTags f ts a = (a', none)) :
    Formatted f ts a a' := by
  induction ts generalizing a with
  | nil =>
      cases h
      exact ⟨fun _ ht => absurd ht List.not_mem_nil, fun _ _ => rfl, rfl⟩
  | cons t ts ih =>
      obtain ⟨ht, hnamed⟩ := List.forall_mem_cons.mp hnamed
      obtain ⟨hnew, hkeys⟩ := List.nodup_cons.mp hkeys
      have hne : ∀ u ∈ ts, t.key ≠ u.key := fun u hu heq => hnew (heq ▸ List.mem_map_of_mem hu)
      rw [formatTags, Tag.own_of_named ht] at h
      cases hown : Table.get? a t.key with
      | none =>
          simp only [hown] at h
          have hlater := ih hnamed hkeys h
          refine ⟨List.forall_mem_cons.mpr ⟨?_, hlater.own⟩, fun key hkey => ?_, hlater.keys⟩
          · rw [hlater.frame t.key hnew, hown, Tag.formatted]
          · exact hlater.frame key fun hmem => hkey (List.mem_cons_of_mem t.key hmem)
      | some v =>
          simp only [hown] at h
          cases hformat : t.format f v with
          | mk v' fault =>
              cases fault with
              | some fault => simp [hformat] at h
              | none =>
                  simp only [hformat] at h
                  have hlater := ih hnamed hkeys h
                  refine ⟨List.forall_mem_cons.mpr ⟨?_, fun u hu => ?_⟩, fun key hkey => ?_, ?_⟩
                  · rw [hlater.frame t.key hnew, Table.get?_set, if_pos rfl, hown]
                    exact Tag.formatted_some_eq_ok_iff.mpr ⟨v', hformat, rfl⟩
                  · have hlaterOwn := hlater.own u hu
                    rwa [Table.get?_set, if_neg (hne u hu)] at hlaterOwn
                  · obtain ⟨hother, hkey⟩ := List.ne_and_not_mem_of_not_mem_cons hkey
                    rw [hlater.frame key hkey, Table.get?_set, if_neg (Ne.symm hother)]
                  · have hpresent : t.key ∈ Table.keys a := by
                      rw [← Table.contains_iff_mem_keys, Table.contains, hown, Option.isSome_some]
                    rw [hlater.keys, Table.keys_set, if_pos hpresent]

theorem exists_formatTags {a : Record}
    (h : ∀ t ∈ ts, ∃ shown, t.formatted f (Table.get? a t.key) = .ok shown) :
    ∃ a', formatTags f ts a = (a', none) := by
  induction ts generalizing a with
  | nil => exact ⟨a, rfl⟩
  | cons t ts ih =>
      obtain ⟨ht, hnamed⟩ := List.forall_mem_cons.mp hnamed
      obtain ⟨hnew, hkeys⟩ := List.nodup_cons.mp hkeys
      obtain ⟨⟨shown, hshown⟩, hlater⟩ := List.forall_mem_cons.mp h
      rw [formatTags, Tag.own_of_named ht]
      cases hown : Table.get? a t.key with
      | none => exact ih hnamed hkeys hlater
      | some v =>
          rw [hown] at hshown
          obtain ⟨v', hformat, -⟩ := Tag.formatted_some_eq_ok_iff.mp hshown
          simp only [hformat]
          refine ih hnamed hkeys fun u hu => ?_
          have hne : t.key ≠ u.key := fun heq => hnew (heq ▸ List.mem_map_of_mem hu)
          rw [Table.get?_set, if_neg hne]
          exact hlater u hu

end Formatting

/-! ### Rendering -/

theorem render_eq_ok_iff {reg : Registry} {f : Formatter} {kind : Kind} {a a' : Record}
    {html : String} :
    render reg f kind a = (a', .ok html) ↔
      formatTags f (reg.renderOrder kind) a = (a', none) ∧
        ∃ fragments, (reg.renderOrder kind).mapM (fragment kind a') = .ok fragments ∧
          joinFragments fragments = html := by
  rw [render]
  cases hformat : formatTags f (reg.renderOrder kind) a with
  | mk shown fault =>
      cases fault with
      | some fault => simp
      | none =>
          simp only [Prod.mk.injEq, and_true]
          constructor
          · rintro ⟨rfl, h⟩
            cases hfragments : (reg.renderOrder kind).mapM (fragment kind shown) with
            | error fault => simp [hfragments] at h
            | ok fragments =>
                rw [hfragments] at h
                exact ⟨rfl, fragments, rfl, Except.ok.inj h⟩
          · rintro ⟨rfl, fragments, hfragments, rfl⟩
            exact ⟨rfl, by rw [hfragments]; rfl⟩

section Rendering

variable {reg : Registry} (hreg : reg.Named) {f : Formatter} {kind : Kind} {a : Record}
include hreg

theorem formatted_of_render {a' : Record} {html : String}
    (h : render reg f kind a = (a', .ok html)) : Formatted f (reg.renderOrder kind) a a' :=
  formatted_of_formatTags (hreg.named_renderOrder kind) (hreg.nodup_renderOrder kind)
    (render_eq_ok_iff.mp h).1

theorem contributions_of_render {a' : Record} {html : String}
    (h : render reg f kind a = (a', .ok html)) :
    ∀ t ∈ reg.renderOrder kind, ∃ shown, t.contribution f kind (t.own a) = .ok shown := by
  intro t ht
  obtain ⟨-, fragments, hfragments, -⟩ := render_eq_ok_iff.mp h
  rw [← fragment_of_formatted (hreg.named_renderOrder kind) (formatted_of_render hreg h) ht]
  exact Except.mapM_eq_ok_iff.mp ⟨fragments, hfragments⟩ t ht

/-- Where each tag can show its own value, a page shows what the tags make of them. -/
theorem render_of_contributions {shown : Tag → String}
    (h : ∀ t ∈ reg.renderOrder kind, t.contribution f kind (t.own a) = .ok (shown t)) :
    ∃ a', render reg f kind a = (a', .ok (joinFragments ((reg.renderOrder kind).map shown))) ∧
      ∀ t ∈ reg.renderOrder kind, fragment kind a' t = .ok (shown t) := by
  have hnamed := hreg.named_renderOrder kind
  have hkeys := hreg.nodup_renderOrder kind
  have hformats : ∀ t ∈ reg.renderOrder kind,
      ∃ v, t.formatted f (Table.get? a t.key) = .ok v := by
    intro t ht
    obtain ⟨v, hv, -⟩ := Except.bind_eq_ok_iff.mp (h t ht)
    exact ⟨v, Tag.own_of_named (hnamed t ht) a ▸ hv⟩
  obtain ⟨a', ha'⟩ := exists_formatTags hnamed hkeys hformats
  have hfragment : ∀ t ∈ reg.renderOrder kind, fragment kind a' t = .ok (shown t) := by
    intro t ht
    rw [fragment_of_formatted hnamed (formatted_of_formatTags hnamed hkeys ha') ht]
    exact h t ht
  exact ⟨a', render_eq_ok_iff.mpr ⟨ha', _, Except.mapM_eq_ok_map hfragment, rfl⟩, hfragment⟩

end Rendering

end Page

end ApiPages
