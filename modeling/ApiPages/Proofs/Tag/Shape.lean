import ApiPages.Tag

/-!
# The shape of records and attributes

What the stages of a run rely on when they read the fields of a record or of an attribute: which
fields are there, and which of them are texts. The shapes go by the name of the tag.
-/

namespace ApiPages

theorem Value.text_or (s t : String) :
    (Value.text s).or (.text t) = .text (if s = "" then t else s) := by
  by_cases hempty : s = ""
  · rw [hempty]
    rfl
  · rw [if_neg hempty, Value.or, if_pos (by simpa [Value.truthy] using hempty)]

/-- A field that may be missing, and is a text where it is not. -/
def Value.Textual (v : Value) : Prop :=
  v = .null ∨ ∃ s, v = .text s

namespace Value.Textual

theorem text (s : String) : Textual (.text s) :=
  Or.inr ⟨s, rfl⟩

theorem ofText? (s : Option String) : Textual (.ofText? s) := by
  cases s with
  | none => exact Or.inl rfl
  | some s => exact text s

theorem or_text {v : Value} (h : v.Textual) (s : String) : ∃ t, v.or (.text s) = .text t := by
  rcases h with rfl | ⟨t, rfl⟩
  · exact ⟨s, rfl⟩
  · exact ⟨_, Value.text_or t s⟩

theorem canName {v : Value} (h : v.Textual) : v.canName = true := by
  rcases h with rfl | ⟨s, rfl⟩ <;> rfl

end Value.Textual

/-! ### Records -/

namespace Record

/-- The fields that every record of a tag has. -/
def neededFields (key : String) : List String :=
  if key = "since" then ["version"]
  else if key = "throws" then ["type"]
  else if key = "extends" ∨ key = "mixins" ∨ key = "override" then ["name"]
  else []

/-- A record that the tag `key` can merge, whether it comes from a comment or a declaration. -/
structure Sound (key : String) (r : Record) : Prop where
  tagname : Table.get? r "tagname" = some (.text key)
  needed : ∀ field ∈ neededFields key, ∃ v, required r field = .ok v
  name : (optional r "name").Textual
  doc : (optional r "doc").Textual

theorem get?_of_required {r : Record} {key : String} {v : Value} (h : required r key = .ok v) :
    Table.get? r key = some v := by
  rw [required] at h
  cases hget : Table.get? r key with
  | none => simp [hget] at h
  | some w => simpa [hget] using h

theorem required_set {r : Record} {field key : String} {v w : Value}
    (h : required r field = .ok v) : ∃ v', required (Table.set r key w) field = .ok v' := by
  rw [required, Table.get?_set]
  by_cases heq : key = field
  · exact ⟨w, by rw [if_pos heq]⟩
  · exact ⟨v, by rw [if_neg heq]; exact h⟩

theorem optional_set {r : Record} {field key : String} {w : Value} (hne : key ≠ field) :
    optional (Table.set r key w) field = optional r field := by
  rw [optional, optional, Table.get?_set, if_neg hne]

namespace Sound

variable {key : String} {r : Record}

theorem tagname_eq (h : Sound key r) : Record.tagname r = .ok (.text key) := by
  rw [Record.tagname, h.tagname]
  exact Name.ofValue_text key

theorem set_doc (h : Sound key r) (s : String) : Sound key (Table.set r "doc" (.text s)) where
  tagname := by rw [Table.get?_set, if_neg (by decide), h.tagname]
  needed := by
    intro field hfield
    obtain ⟨v, hv⟩ := h.needed field hfield
    exact required_set hv
  name := by
    rw [optional_set (by decide)]
    exact h.name
  doc := by
    rw [optional, Table.get?_set, if_pos rfl]
    exact .text s

end Sound

end Record

/-! ### Attributes -/

namespace Value

/-- A record with some fields, and with a text under `key`. -/
def Documented (fields : List String) (key : String) (v : Value) : Prop :=
  ∃ r, v = .record r ∧ (∀ field ∈ fields, ∃ w, Record.required r field = .ok w) ∧
    ∃ s, Table.get? r key = some (.text s)

def AllDocumented (fields : List String) (key : String) (v : Value) : Prop :=
  ∃ items, v = .list items ∧ ∀ item ∈ items, item.Documented fields key

/-- A value that the tag `key` can format and show once it is the tag's attribute. -/
def Fits (key : String) (v : Value) : Prop :=
  if key = "params" then v.AllDocumented ["optional", "name", "type"] "doc"
  else if key = "throws" then v.AllDocumented ["type"] "doc"
  else if key = "return" then v.Documented ["type"] "doc"
  else if key = "deprecated" then v.Documented [] "text"
  else if key = "cfg" ∨ key = "property" ∨ key = "css_var" then ∃ r, v = .record r
  else if key = "override" then ∃ s, v = .text s
  else True

theorem truthy_of_get? {r : Record} {key : String} {v : Value} (h : Table.get? r key = some v) :
    (Value.record r).truthy = true := by
  cases r with
  | nil => cases h
  | cons entry r => rfl

theorem optionalIn_ok {v : Value} (h : v = .null ∨ ∃ r, v = .record r) (key : String) :
    ∃ w, v.optionalIn key = .ok w := by
  rcases h with rfl | ⟨r, rfl⟩
  · exact ⟨.null, rfl⟩
  · rw [optionalIn]
    split
    · exact ⟨_, rfl⟩
    · exact ⟨_, rfl⟩

namespace Documented

variable {fields : List String} {key : String} {v : Value}

theorem of_or {r : Record} {written : Value} (hwritten : written.Textual)
    (hneeded : ∀ field ∈ fields, ∃ w, Record.required r field = .ok w)
    (hget : Table.get? r key = some (written.or (.text ""))) : Documented fields key (.record r) := by
  obtain ⟨s, hs⟩ := hwritten.or_text ""
  rw [hs] at hget
  exact ⟨r, rfl, hneeded, s, hget⟩

theorem isRecord (h : v.Documented fields key) : ∃ r, v = .record r := by
  obtain ⟨r, rfl, -⟩ := h
  exact ⟨r, rfl⟩

theorem truthy (h : v.Documented fields key) : v.truthy = true := by
  obtain ⟨r, rfl, -, s, hs⟩ := h
  exact truthy_of_get? hs

theorem required (h : v.Documented fields key) (field : String) (hfield : field ∈ fields) :
    ∃ w, v.required field = .ok w := by
  obtain ⟨r, rfl, hneeded, -⟩ := h
  exact hneeded field hfield

theorem required_key (h : v.Documented fields key) : ∃ s, v.required key = .ok (.text s) := by
  obtain ⟨r, rfl, -, s, hs⟩ := h
  exact ⟨s, by rw [Value.required, Record.required, hs]⟩

theorem optional (h : v.Documented fields key) (field : String) :
    ∃ w, v.optional field = .ok w := by
  obtain ⟨r, rfl, -⟩ := h
  exact ⟨_, rfl⟩

theorem htmlOf (h : v.Documented fields key) : ∃ html, v.htmlOf = .ok html := by
  obtain ⟨r, rfl, -⟩ := h
  exact ⟨_, rfl⟩

theorem formatField (h : v.Documented fields key) (hkey : key ≠ "html") (f : Formatter) :
    ∃ v', f.formatField key v = (v', none) ∧ v'.Documented fields key := by
  obtain ⟨r, rfl, hneeded, s, hs⟩ := h
  refine ⟨.record (Table.set r "html" (.text (f.format s))), ?_, _, rfl, ?_, s, ?_⟩
  · rw [Formatter.formatField]
    simp only [hs]
    rfl
  · intro field hfield
    obtain ⟨w, hw⟩ := hneeded field hfield
    exact Record.required_set hw
  · rw [Table.get?_set, if_neg (Ne.symm hkey)]
    exact hs

end Documented

theorem formatItems_ok {fields : List String} {key : String} (hkey : key ≠ "html") (f : Formatter)
    {items : List Value} (h : ∀ item ∈ items, item.Documented fields key) :
    ∃ done, f.formatItems key items = (done, none) ∧
      ∀ item ∈ done, item.Documented fields key := by
  induction items with
  | nil => exact ⟨[], rfl, fun _ h => absurd h List.not_mem_nil⟩
  | cons item items ih =>
      obtain ⟨hitem, hitems⟩ := List.forall_mem_cons.mp h
      obtain ⟨item', hformat, hitem'⟩ := hitem.formatField hkey f
      obtain ⟨done, hdone, hall⟩ := ih hitems
      refine ⟨item' :: done, ?_, List.forall_mem_cons.mpr ⟨hitem', hall⟩⟩
      rw [Formatter.formatItems, hformat]
      simp only [hdone]

end Value

/-- Attributes each of which its tag can format and show. -/
def Record.Formed (attributes : Record) : Prop :=
  ∀ key v, Table.get? attributes key = some v → v.Fits key

namespace Record.Formed

theorem nil : Formed [] := by
  intro key v h
  cases h

theorem set {attributes : Record} {key : String} {v : Value} (h : Formed attributes)
    (hv : v.Fits key) : Formed (Table.set attributes key v) := by
  intro other w hw
  rw [Table.get?_set] at hw
  by_cases heq : key = other
  · rw [if_pos heq] at hw
    cases hw
    exact heq ▸ hv
  · rw [if_neg heq] at hw
    exact h other w hw

theorem optional {attributes : Record} (h : Formed attributes) (key : String) :
    Record.optional attributes key = .null ∨ (Record.optional attributes key).Fits key := by
  rw [Record.optional]
  cases hget : Table.get? attributes key with
  | none => exact Or.inl rfl
  | some v => exact Or.inr (h key v hget)

end Record.Formed

/-- Formed attributes, and the key of the patched class if there is one. -/
structure Outcome.Formed (o : Outcome) : Prop where
  attributes : o.attributes.Formed
  target : ∀ target, o.target = some target → ∃ key, target = .text key

theorem Outcome.Formed.of_attributes {attributes : Record} (h : attributes.Formed) :
    Outcome.Formed { attributes } where
  attributes := h
  target _ htarget := absurd htarget (Option.some_ne_none _).symm

/-! ### Attributes without HTML -/

/-- A value that has not been given any HTML. -/
def Value.Unrendered (v : Value) : Prop :=
  ∀ r, v = .record r → Table.get? r "html" = none

/-- Attributes as merging leaves them: formed, and their notice without HTML. All other documented
values get theirs whenever they are formatted, a notice only if it has a text. -/
structure Record.Unrendered (attributes : Record) : Prop where
  formed : attributes.Formed
  notice : ∀ v, Table.get? attributes "deprecated" = some v → v.Unrendered

theorem Record.Unrendered.nil : Unrendered [] where
  formed := .nil
  notice _ h := nomatch h

end ApiPages
