import ApiPages.Proofs.Except
import ApiPages.Proofs.Table
import ApiPages.Proofs.Tag.Shape
import ApiPages.Tag.Standard

/-!
# Formatting what has been formatted

Formatting writes the HTML of a text next to the text and leaves the text as it is. So what has been
formatted is what formatting it once more comes to, and nothing but HTML has been written.
-/

namespace ApiPages

/-- The HTML of what stands in place of a documentation text. -/
inductive Formatter.Converts (f : Formatter) : Value → String → Prop
  | text (s : String) : Converts f (.text s) (f.format s)
  | nothing {v : Value} (h : v.truthy = false) : Converts f v ""
  | other {v : Value} {html : String} (htext : ∀ s, v ≠ .text s) (h : v.truthy = true)
      (hconvert : f.convertOther v = .ok html) : Converts f v html

theorem Formatter.formatValue_of_ne_text (f : Formatter) {v : Value} (htext : ∀ s, v ≠ .text s) :
    f.formatValue v = if v.truthy then f.convertOther v else .ok "" := by
  cases v with
  | text s => exact absurd rfl (htext s)
  | _ => rfl

theorem Formatter.formatValue_eq_ok_iff {f : Formatter} {v : Value} {html : String} :
    f.formatValue v = .ok html ↔ f.Converts v html := by
  by_cases htext : ∃ s, v = .text s
  · obtain ⟨s, rfl⟩ := htext
    constructor
    · intro h
      obtain rfl := Except.ok.inj h
      exact .text s
    · intro h
      cases h with
      | text => rfl
      | nothing hfalsy =>
          have hempty : s = "" := by simpa using hfalsy
          rw [hempty]
          rfl
      | other hne _ _ => exact absurd rfl (hne s)
  · have hne : ∀ s, v ≠ .text s := fun s hs => htext ⟨s, hs⟩
    rw [formatValue_of_ne_text f hne]
    split
    · rename_i htruthy
      refine ⟨fun h => .other hne htruthy h, fun h => ?_⟩
      cases h with
      | text s => exact absurd rfl (hne s)
      | nothing hfalsy => rw [htruthy] at hfalsy; cases hfalsy
      | other _ _ hconvert => exact hconvert
    · rename_i hfalsy
      constructor
      · intro h
        obtain rfl := Except.ok.inj h
        exact .nothing (by simpa using hfalsy)
      · intro h
        cases h with
        | text s => exact absurd rfl (hne s)
        | nothing _ => rfl
        | other _ htruthy _ => exact absurd htruthy hfalsy

namespace Value

/-- A record before and after the HTML of one of its fields is written to it. -/
def Noted (f : Formatter) (field : String) (v v' : Value) : Prop :=
  ∃ r text html, v = .record r ∧ Table.get? r field = some text ∧ f.Converts text html ∧
    v' = .record (Table.set r "html" (.text html))

/-- The value of an attribute before and after it is formatted: either nothing changes, or records
are given their HTML, which is made of their own text. -/
inductive Touched (f : Formatter) : String → Value → Value → Prop
  | same (key : String) (v : Value) : Touched f key v v
  | each {key : String} (hkey : key = "params" ∨ key = "throws") {items items' : List Value}
      (h : List.Forall₂ (Noted f "doc") items items') : Touched f key (.list items) (.list items')
  | returned {v v' : Value} (h : Noted f "doc" v v') : Touched f "return" v v'
  | deprecated {v v' : Value} (h : Noted f "text" v v') : Touched f "deprecated" v v'

theorem formatField_eq_none_iff {f : Formatter} {field : String} {v v' : Value} :
    f.formatField field v = (v', none) ↔ Noted f field v v' := by
  constructor
  · intro h
    unfold Formatter.formatField at h
    split at h
    · rename_i r
      split at h
      · cases h
      · rename_i text htext
        split at h
        · rename_i html hhtml
          cases h
          exact ⟨r, text, html, rfl, htext, Formatter.formatValue_eq_ok_iff.mp hhtml, rfl⟩
        · cases h
    · cases h
  · rintro ⟨r, text, html, rfl, htext, hhtml, rfl⟩
    simp only [Formatter.formatField, htext, Formatter.formatValue_eq_ok_iff.mpr hhtml]

theorem formatItems_eq_none_iff {f : Formatter} {field : String} {items items' : List Value} :
    f.formatItems field items = (items', none) ↔ List.Forall₂ (Noted f field) items items' := by
  induction items generalizing items' with
  | nil => simp [Formatter.formatItems, eq_comm]
  | cons item items ih =>
      rw [Formatter.formatItems]
      split
      · rename_i done fault hitem
        constructor
        · intro h
          cases h
        · intro h
          obtain ⟨_, _, hnoted, -, -⟩ := List.forall₂_cons_left_iff.mp h
          rw [formatField_eq_none_iff.mpr hnoted] at hitem
          cases hitem
      · rename_i done hitem
        generalize hlater : f.formatItems field items = later
        obtain ⟨rest, fault⟩ := later
        rw [hlater] at ih
        have hdone := formatField_eq_none_iff.mp hitem
        constructor
        · intro h
          cases h
          exact .cons hdone (ih.mp rfl)
        · intro h
          obtain ⟨item', rest', hnoted, hrest, rfl⟩ := List.forall₂_cons_left_iff.mp h
          have hsame := (formatField_eq_none_iff.mpr hnoted).symm.trans hitem
          cases ih.mpr hrest
          cases hsame
          rfl

/-- The text that HTML is made of is still there, and comes to the same. -/
theorem Noted.again {f : Formatter} {field : String} (hfield : field ≠ "html") {v v' : Value}
    (h : Noted f field v v') : Noted f field v' v' := by
  obtain ⟨r, text, html, rfl, htext, hhtml, rfl⟩ := h
  have hstill : Table.get? (Table.set r "html" (.text html)) field = some text := by
    rw [Table.get?_set, if_neg (Ne.symm hfield), htext]
  have hset : Table.get? (Table.set r "html" (.text html)) "html" = some (.text html) := by
    rw [Table.get?_set, if_pos rfl]
  exact ⟨_, text, html, rfl, hstill, hhtml, by rw [Table.set_eq_self hset]⟩

theorem Noted.truthy {f : Formatter} {field : String} {v v' : Value} (h : Noted f field v v') :
    v'.truthy = true := by
  obtain ⟨r, text, html, -, -, -, rfl⟩ := h
  exact truthy_of_get? (by rw [Table.get?_set, if_pos rfl])

end Value

open Value (Noted formatField_eq_none_iff formatItems_eq_none_iff)

namespace Tag

/-- A tag that writes HTML next to texts and nothing else, so that formatting its value once more
changes nothing. -/
structure Annotates (t : Tag) : Prop where
  again : ∀ f v v', t.format f v = (v', none) → t.format f v' = (v', none)
  touched : ∀ f v v', t.format f v = (v', none) → Value.Touched f t.key v v'

theorem annotates_plain {t : Tag} (hformat : t.format = fun _ v => (v, none)) : t.Annotates where
  again f v v' _ := by rw [hformat]
  touched f v v' h := by
    rw [hformat] at h
    cases h
    exact .same _ _

/-- Lists of documented records, such as parameters. -/
theorem annotates_formatAll {t : Tag} (hkey : t.key = "params" ∨ t.key = "throws")
    (hformat : t.format = formatAll) : t.Annotates := by
  have hcases : ∀ {f : Formatter} {v v' : Value}, formatAll f v = (v', none) →
      (∃ items items', v = .list items ∧ v' = .list items' ∧
        List.Forall₂ (Noted f "doc") items items') ∨ v = v' := by
    intro f v v' h
    unfold formatAll at h
    split at h
    · rename_i items
      generalize hitems : f.formatItems "doc" items = later at h
      obtain ⟨items', fault⟩ := later
      cases h
      exact Or.inl ⟨items, items', rfl, rfl, formatItems_eq_none_iff.mp hitems⟩
    · exact Or.inr (Prod.mk.inj h).1
  constructor
  · intro f v v' h
    rw [hformat] at h ⊢
    rcases hcases h with ⟨items, items', rfl, rfl, hitems⟩ | rfl
    · have hagain : List.Forall₂ (Noted f "doc") items' items' := by
        rw [List.forall₂_same]
        intro item' hitem'
        obtain ⟨item, -, hnoted⟩ := Except.exists_of_mem_right hitems item' hitem'
        exact hnoted.again (by decide)
      rw [formatAll, formatItems_eq_none_iff.mpr hagain]
    · exact h
  · intro f v v' h
    rw [hformat] at h
    rcases hcases h with ⟨items, items', rfl, rfl, hitems⟩ | rfl
    · exact .each hkey hitems
    · exact .same _ _

theorem annotates_returned : returned.Annotates where
  again f v v' h := by
    simp only [returned] at h ⊢
    split at h
    · have hnoted := formatField_eq_none_iff.mp h
      rw [if_pos hnoted.truthy]
      exact formatField_eq_none_iff.mpr (hnoted.again (by decide))
    · rename_i hfalsy
      cases h
      rw [if_neg hfalsy]
  touched f v v' h := by
    simp only [returned] at h
    split at h
    · exact .returned (formatField_eq_none_iff.mp h)
    · cases h
      exact .same _ _

/-- A notice is left alone if it has no text. -/
theorem deprecatedFormat_eq_none {f : Formatter} {v v' : Value}
    (h : deprecatedFormat f v = (v', none)) :
    v = v' ∨ ∃ text, v.required "text" = .ok text ∧ text.truthy = true ∧ Noted f "text" v v' := by
  unfold deprecatedFormat at h
  split at h
  · split at h
    · cases h
    · rename_i text htext
      split at h
      · rename_i htruthy
        exact Or.inr ⟨text, htext, htruthy, formatField_eq_none_iff.mp h⟩
      · exact Or.inl (Prod.mk.inj h).1
  · exact Or.inl (Prod.mk.inj h).1

theorem annotates_deprecated : deprecated.Annotates where
  again f v v' h := by
    rcases deprecatedFormat_eq_none h with rfl | ⟨text, htext, htruthy, hnoted⟩
    · exact h
    · have hstill : v'.required "text" = .ok text := by
        obtain ⟨r, _, html, rfl, -, -, rfl⟩ := hnoted
        simpa [Value.required, Record.required, Table.get?_set] using htext
      change deprecatedFormat f v' = (v', none)
      rw [deprecatedFormat, if_pos hnoted.truthy, hstill]
      simp only [htruthy, if_true]
      exact formatField_eq_none_iff.mpr (hnoted.again (by decide))
  touched f v v' h := by
    rcases deprecatedFormat_eq_none h with rfl | ⟨_, -, -, hnoted⟩
    · exact .same _ _
    · exact .deprecated hnoted

theorem annotates_standard : ∀ t ∈ standard, t.Annotates := by
  have hparams := annotates_formatAll (t := param) (Or.inl rfl) rfl
  have hthrows := annotates_formatAll (t := thrown) (Or.inr rfl) rfl
  simp only [standard, List.forall_mem_cons]
  refine ⟨?_, ?_, ?_, ?_, ?_, ?_, ?_, ?_, ?_, ?_, annotates_deprecated, hparams,
    annotates_returned, hthrows, ?_, ?_, ?_, ?_, fun _ ht => absurd ht List.not_mem_nil⟩
  all_goals exact annotates_plain rfl

end Tag

end ApiPages
