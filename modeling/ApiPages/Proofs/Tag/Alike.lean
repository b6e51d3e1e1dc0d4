import ApiPages.Proofs.Tag.Sturdy
import ApiPages.Proofs.Text.Mark
import Mathlib.Data.Option.Basic

/-!
# Values that look alike

What a page shows of a value is its texts that become HTML, and some facts that decide which marks
stand around the rest of it. Values that agree on those look alike, whatever names, types, defaults
and versions they hold. Every standard tag keeps them alike when it formats them, and makes HTML
with the same marks of them.
-/

namespace ApiPages

open Page (SameMarkup)
open Text (marks)

/-! ### Agreement on fields -/

/-- Fields that two records have to agree on, each with what that means. -/
abbrev Agreement := List (String × (Option Value → Option Value → Prop))

namespace Agreement

/-- Both values count as true, or neither does. -/
def sameTruth (v w : Option Value) : Prop :=
  (v.getD .null).truthy = (w.getD .null).truthy

/-- Both values are something, or neither is. -/
def bothGiven (v w : Option Value) : Prop :=
  v.getD .null = .null ↔ w.getD .null = .null

/-- Both types are the one of no value, or neither is. -/
def bothUndefined (v w : Option Value) : Prop :=
  (v.getD .null).isText "undefined" = (w.getD .null).isText "undefined"

/-- Both records have the field, or neither has it. -/
def bothPresent (v w : Option Value) : Prop :=
  v.isSome = w.isSome

/-- What a page tells about the records of a tag. -/
def told (key : String) : Agreement :=
  if key = "params" then [("doc", Eq), ("optional", sameTruth), ("default", bothGiven)]
  else if key = "throws" then [("doc", Eq)]
  else if key = "return" then [("doc", Eq), ("type", bothUndefined)]
  else if key = "deprecated" then [("text", Eq), ("version", sameTruth)]
  else if key = "cfg" ∨ key = "property" ∨ key = "css_var" then [("default", bothPresent)]
  else []

end Agreement

namespace Record

/-- The keys of values that are given HTML when they are formatted. -/
def documentedKeys : List String :=
  ["params", "throws", "return", "deprecated"]

/-- The keys of values that only count as true or false, or whose marks depend on no more. -/
def switchKeys : List String :=
  ["private", "protected", "static", "chainable", "required", "since"]

def Agree (fields : Agreement) (r s : Record) : Prop :=
  ∀ field ∈ fields, field.2 (Table.get? r field.1) (Table.get? s field.1)

end Record

open Record (documentedKeys switchKeys)

namespace Value

def AgreeOn (fields : Agreement) (v w : Value) : Prop :=
  ∃ r s, v = .record r ∧ w = .record s ∧ Record.Agree fields r s

def EachAgree (fields : Agreement) (v w : Value) : Prop :=
  ∃ items others, v = .list items ∧ w = .list others ∧ List.Forall₂ (AgreeOn fields) items others

/-- Values of a tag that look alike on a page. Of documented values, `more` fields may have to
agree. -/
def AlikeWith (more : Agreement) (key : String) (v w : Value) : Prop :=
  if key = "params" ∨ key = "throws" then EachAgree (more ++ .told key) v w
  else if key = "return" ∨ key = "deprecated" then AgreeOn (more ++ .told key) v w
  else if key = "cfg" ∨ key = "property" ∨ key = "css_var" then AgreeOn (.told key) v w
  else if key ∈ switchKeys then v.truthy = w.truthy
  else True

/-- Values of a tag that can be formatted, and look alike. Formatting gives HTML to all documented
values but notices without a text, so those must not have any yet. -/
structure AlikeUnrendered (key : String) (v w : Value) : Prop where
  left : v.Fits key
  right : w.Fits key
  alike : AlikeWith [] key v w
  unrendered : key = "deprecated" → v.Unrendered ∧ w.Unrendered

/-- Values of a tag that have been formatted, and look alike. -/
structure AlikeRendered (key : String) (v w : Value) : Prop where
  left : v.Fits key
  right : w.Fits key
  alike : AlikeWith [("html", Eq)] key v w

end Value

/-! ### Formatting -/

theorem Record.Agree.set_html {fields : Agreement} {r s : Record} (h : Agree fields r s)
    (hhtml : ∀ field ∈ fields, field.1 ≠ "html") (html : Value) :
    Agree (("html", Eq) :: fields) (Table.set r "html" html) (Table.set s "html" html) := by
  refine List.forall_mem_cons.mpr ⟨by simp [Table.get?_set], fun field hfield => ?_⟩
  have hne := Ne.symm (hhtml field hfield)
  rw [Table.get?_set, Table.get?_set, if_neg hne, if_neg hne]
  exact h field hfield

namespace Value

section Formatting

variable {fields : Agreement} {needed : List String} {key : String} (f : Formatter)
  (hkey : (key, Eq) ∈ fields) (hhtml : ∀ field ∈ fields, field.1 ≠ "html")
include hkey hhtml

theorem formatField_alike {v w : Value} (hv : v.Documented needed key)
    (hw : w.Documented needed key) (h : AgreeOn fields v w) :
    ∃ v' w', f.formatField key v = (v', none) ∧ f.formatField key w = (w', none) ∧
      v'.Documented needed key ∧ w'.Documented needed key ∧
      AgreeOn (("html", Eq) :: fields) v' w' := by
  obtain ⟨v', hv', hvdoc⟩ := hv.formatField (hhtml _ hkey) f
  obtain ⟨w', hw', hwdoc⟩ := hw.formatField (hhtml _ hkey) f
  refine ⟨v', w', hv', hw', hvdoc, hwdoc, ?_⟩
  obtain ⟨r, s, rfl, rfl, hagree⟩ := h
  obtain ⟨_, hr, -, text, htext⟩ := hv
  cases hr
  have hsame : Table.get? s key = some (.text text) := (hagree _ hkey).symm.trans htext
  rw [Formatter.formatField, htext] at hv'
  rw [Formatter.formatField, hsame] at hw'
  cases hv'
  cases hw'
  exact ⟨_, _, rfl, rfl, hagree.set_html hhtml _⟩

theorem formatItems_alike {items others : List Value}
    (hitems : ∀ item ∈ items, item.Documented needed key)
    (hothers : ∀ item ∈ others, item.Documented needed key)
    (h : List.Forall₂ (AgreeOn fields) items others) :
    ∃ done made, f.formatItems key items = (done, none) ∧ f.formatItems key others = (made, none) ∧
      (∀ item ∈ done, item.Documented needed key) ∧ (∀ item ∈ made, item.Documented needed key) ∧
      List.Forall₂ (AgreeOn (("html", Eq) :: fields)) done made := by
  induction h with
  | nil => exact ⟨[], [], rfl, rfl, hitems, hothers, .nil⟩
  | @cons item other items others h _ ih =>
      obtain ⟨hitem, hitems⟩ := List.forall_mem_cons.mp hitems
      obtain ⟨hother, hothers⟩ := List.forall_mem_cons.mp hothers
      obtain ⟨item', other', hdone, hmade, hitem', hother', hagree⟩ :=
        formatField_alike f hkey hhtml hitem hother h
      obtain ⟨done, made, hrest, hrest', hall, hall', hagrees⟩ := ih hitems hothers
      refine ⟨item' :: done, other' :: made, ?_, ?_, List.forall_mem_cons.mpr ⟨hitem', hall⟩,
        List.forall_mem_cons.mpr ⟨hother', hall'⟩, .cons hagree hagrees⟩
      · rw [Formatter.formatItems, hdone]
        simp only [hrest]
      · rw [Formatter.formatItems, hmade]
        simp only [hrest']

end Formatting

end Value

theorem Value.alikeWith_switch {key : String} (hkey : key ∈ switchKeys) {more : Agreement}
    {v w : Value} : AlikeWith more key v w ↔ v.truthy = w.truthy := by
  simp only [switchKeys, List.mem_cons, List.not_mem_nil, or_false] at hkey
  rcases hkey with rfl | rfl | rfl | rfl | rfl | rfl <;> exact Iff.rfl

theorem Value.alikeWith_plain {key : String}
    (hkey : key ∉ documentedKeys) (more : Agreement) {v w : Value}
    (h : AlikeWith [] key v w) : AlikeWith more key v w := by
  simp only [documentedKeys, List.mem_cons, List.not_mem_nil, or_false, not_or] at hkey
  obtain ⟨hparams, hthrows, hreturn, hdeprecated⟩ := hkey
  simpa [AlikeWith, hparams, hthrows, hreturn, hdeprecated] using h

namespace Tag

/-- A tag that shows no more of a value than it may: it keeps values alike, and makes HTML with the
same marks of them. -/
structure Discreet (t : Tag) : Prop where
  named : t.tagname = some t.key
  format : ∀ f v w, Value.AlikeUnrendered t.key v w →
    ∃ v' w', t.format f v = (v', none) ∧ t.format f w = (w', none) ∧ Value.AlikeRendered t.key v' w'
  html : ∀ kind v w, Value.AlikeRendered t.key v w →
    ∃ a b, t.html kind v = .ok a ∧ t.html kind w = .ok b ∧ SameMarkup (a.getD "") (b.getD "")
  null : ∀ kind, t.html kind .null = .ok none

/-! ### Flags and versions -/

theorem format_plain {t : Tag} (hformat : t.format = fun _ v => (v, none))
    (hkey : t.key ∉ documentedKeys) (f : Formatter) (v w : Value)
    (h : Value.AlikeUnrendered t.key v w) :
    ∃ v' w', t.format f v = (v', none) ∧ t.format f w = (w', none) ∧
      Value.AlikeRendered t.key v' w' := by
  rw [hformat]
  exact ⟨v, w, rfl, rfl, h.left, h.right, Value.alikeWith_plain hkey _ h.alike⟩

theorem discreet_hidden {t : Tag} (hnamed : t.tagname = some t.key)
    (hformat : t.format = fun _ v => (v, none))
    (hkey : t.key ∉ documentedKeys)
    (hhtml : ∀ kind v, t.html kind v = .ok none) : t.Discreet where
  named := hnamed
  format := format_plain hformat hkey
  html kind v w _ := ⟨none, none, hhtml kind v, hhtml kind w, .empty⟩
  null kind := hhtml kind .null

theorem discreet_plainFlag {name : String} (scope : List String)
    (hname : name ∈ switchKeys) :
    (plainFlag name scope).Discreet where
  named := rfl
  format := by
    have hplain : ∀ name ∈ switchKeys, name ∉ documentedKeys := by decide
    exact format_plain rfl (hplain name hname)
  html _ v w h := by
    have htruthy : v.truthy = w.truthy := (Value.alikeWith_switch hname).mp h.alike
    refine ⟨_, _, rfl, rfl, ?_⟩
    rw [htruthy]
    split
    · refine .of_ne_nil rfl ?_
      iterate 4 apply Text.marks_append_ne_nil
      decide
    · exact .empty
  null _ := rfl

theorem discreet_since : since.Discreet where
  named := rfl
  format := format_plain rfl (by decide)
  html _ v w h := by
    have htruthy : v.truthy = w.truthy := h.alike
    refine ⟨_, _, rfl, rfl, ?_⟩
    rw [htruthy]
    split
    · refine .of_ne_nil (by simp) ?_
      iterate 2 apply Text.marks_append_ne_nil
      decide
    · exact .empty
  null _ := rfl

/-! ### Notices -/

theorem deprecatedFormat_eq (f : Formatter) {v : Value} (h : v.Documented [] "text") {text : String}
    (htext : v.required "text" = .ok (.text text)) :
    deprecatedFormat f v = if text = "" then (v, none) else f.formatField "text" v := by
  rw [deprecatedFormat, if_pos h.truthy, htext]
  by_cases hempty : text = "" <;> simp [hempty]

theorem deprecatedFormat_alike (f : Formatter) {v w : Value}
    (h : Value.AlikeUnrendered "deprecated" v w) :
    ∃ v' w', deprecatedFormat f v = (v', none) ∧ deprecatedFormat f w = (w', none) ∧
      Value.AlikeRendered "deprecated" v' w' := by
  have hv : v.Documented [] "text" := h.left
  have hw : w.Documented [] "text" := h.right
  have hagree : Value.AgreeOn (Agreement.told "deprecated") v w := h.alike
  obtain ⟨v', w', hv', hw', hvdoc, hwdoc, hshown⟩ :=
    Value.formatField_alike f (by simp [Agreement.told]) (by simp [Agreement.told]) hv hw hagree
  obtain ⟨text, hvtext⟩ := hv.required_key
  have hwtext : w.required "text" = .ok (.text text) := by
    obtain ⟨r, s, rfl, rfl, hfields⟩ := hagree
    have hsame : Table.get? r "text" = Table.get? s "text" := hfields _ List.mem_cons_self
    rw [Value.required, Record.required] at hvtext ⊢
    rwa [← hsame]
  rw [deprecatedFormat_eq f hv hvtext, deprecatedFormat_eq f hw hwtext]
  by_cases hempty : text = ""
  · obtain ⟨hvbare, hwbare⟩ := h.unrendered rfl
    obtain ⟨r, s, rfl, rfl, hfields⟩ := hagree
    have hhtml : Table.get? r "html" = Table.get? s "html" :=
      (hvbare r rfl).trans (hwbare s rfl).symm
    rw [if_pos hempty, if_pos hempty]
    exact ⟨_, _, rfl, rfl, hv, hw, _, _, rfl, rfl, List.forall_mem_cons.mpr ⟨hhtml, hfields⟩⟩
  · rw [if_neg hempty, if_neg hempty]
    exact ⟨v', w', hv', hw', hvdoc, hwdoc, hshown⟩

theorem deprecatedHtml_alike (kind : Kind) {v w : Value}
    (h : Value.AlikeRendered "deprecated" v w) : ∃ a b, deprecatedHtml kind v = .ok a ∧
      deprecatedHtml kind w = .ok b ∧ SameMarkup (a.getD "") (b.getD "") := by
  have hv : v.Documented [] "text" := h.left
  have hw : w.Documented [] "text" := h.right
  have hvtruthy := hv.truthy
  have hwtruthy := hw.truthy
  obtain ⟨r, s, rfl, rfl, hfields⟩ :
      Value.AgreeOn (("html", Eq) :: Agreement.told "deprecated") v w := h.alike
  have hhtml : Table.get? r "html" = Table.get? s "html" := hfields _ List.mem_cons_self
  have hversion : (Record.optional r "version").truthy = (Record.optional s "version").truthy :=
    hfields ("version", Agreement.sameTruth) (by simp [Agreement.told])
  rw [deprecatedHtml, deprecatedHtml, if_pos hvtruthy, if_pos hwtruthy]
  refine ⟨_, _, rfl, rfl, .of_ne_nil ?_ ?_⟩
  · have hsince : ∀ d e : Value, d.truthy = e.truthy →
        marks (if d.truthy then s!" since {d.escaped}" else "") =
          marks (if e.truthy then s!" since {e.escaped}" else "") := by
      intro d e htruthy
      rw [htruthy]
      split <;> simp
    rw [hhtml]
    simp only [Option.getD_some, Text.marks_append, Text.marks_toString, hsince _ _ hversion]
  · iterate 2 apply Text.marks_append_ne_nil
    decide

theorem discreet_deprecated : deprecated.Discreet where
  named := rfl
  format f _ _ h := deprecatedFormat_alike f h
  html kind _ _ h := deprecatedHtml_alike kind h
  null _ := rfl

/-! ### Signatures -/

theorem marks_defaultNote : ∀ d : Value, d ≠ .null →
    marks (match d with
      | .null => ""
      | d => s!" Defaults to: <code>{d.escaped}</code>") =
    marks " Defaults to: <code>" ++ marks "</code>" := by
  intro d hd
  cases d with
  | null => exact absurd rfl hd
  | _ => simp

theorem paramHtml_alike {v w : Value} (hv : IsParam v) (hw : IsParam w)
    (h : Value.AgreeOn (("html", Eq) :: Agreement.told "params") v w) :
    ∃ a b, paramHtml v = .ok a ∧ paramHtml w = .ok b ∧ marks a = marks b := by
  obtain ⟨optional, hoptional⟩ := hv.required "optional" (by decide)
  obtain ⟨optional', hoptional'⟩ := hw.required "optional" (by decide)
  obtain ⟨name, hname⟩ := hv.required "name" (by decide)
  obtain ⟨name', hname'⟩ := hw.required "name" (by decide)
  obtain ⟨type, htype⟩ := hv.required "type" (by decide)
  obtain ⟨type', htype'⟩ := hw.required "type" (by decide)
  obtain ⟨r, s, rfl, rfl, hfields⟩ := h
  have hhtml : Table.get? r "html" = Table.get? s "html" := hfields _ List.mem_cons_self
  have htruth : optional.truthy = optional'.truthy := by
    have hsame : Agreement.sameTruth (Table.get? r "optional") (Table.get? s "optional") :=
      hfields ("optional", Agreement.sameTruth) (by simp [Agreement.told])
    rwa [Record.get?_of_required hoptional, Record.get?_of_required hoptional'] at hsame
  have hdefault : Record.optional r "default" = .null ↔ Record.optional s "default" = .null :=
    hfields ("default", Agreement.bothGiven) (by simp [Agreement.told])
  rw [paramHtml, paramHtml, hoptional, hname, htype, hoptional', hname', htype']
  refine ⟨_, _, rfl, rfl, ?_⟩
  rw [hhtml, htruth]
  simp only [Text.marks_append, Text.marks_toString, Value.marks_escaped]
  congr 3
  by_cases hnull : Record.optional r "default" = .null
  · rw [hnull, hdefault.mp hnull]
  · exact (marks_defaultNote _ hnull).trans (marks_defaultNote _ (mt hdefault.mpr hnull)).symm

/-- Lists that agree item by item make HTML with the same marks, if the items do. -/
theorem itemsHtml_alike {fields : Agreement} {needed : List String} {key : String}
    {f : Value → Except Fault String}
    (hf : ∀ v w : Value, v.Documented needed key → w.Documented needed key → v.AgreeOn fields w →
      ∃ a b, f v = .ok a ∧ f w = .ok b ∧ marks a = marks b)
    {items others : List Value} (hitems : ∀ item ∈ items, item.Documented needed key)
    (hothers : ∀ item ∈ others, item.Documented needed key)
    (h : List.Forall₂ (Value.AgreeOn fields) items others) :
    ∃ htmls htmls', items.mapM f = .ok htmls ∧ others.mapM f = .ok htmls' ∧
      List.Forall₂ (marks · = marks ·) htmls htmls' := by
  have hall : List.Forall₂ (fun v w : Value =>
      v.Documented needed key ∧ w.Documented needed key ∧ v.AgreeOn fields w) items others := by
    rw [List.forall₂_iff_zip] at h ⊢
    refine ⟨h.1, fun hmem => ?_⟩
    obtain ⟨hv, hw⟩ := List.of_mem_zip hmem
    exact ⟨hitems _ hv, hothers _ hw, h.2 hmem⟩
  exact Except.mapM_ok₂ hall fun v w ⟨hv, hw, hagree⟩ => hf v w hv hw hagree

/-- A list under a title, which only stands there if the list is not empty. -/
theorem sameMarkup_list {front back : String} (hfront : marks front ≠ [])
    {htmls htmls' : List String} (h : List.Forall₂ (marks · = marks ·) htmls htmls') :
    SameMarkup ((if htmls.isEmpty then none else some (front ++ String.join htmls ++ back)).getD "")
      ((if htmls'.isEmpty then none else some (front ++ String.join htmls' ++ back)).getD "") := by
  cases h with
  | nil => exact .empty
  | cons hitem hitems =>
      have hmarks := Text.marks_join_congr (.cons hitem hitems)
      refine .of_ne_nil ?_ ?_
      · simp only [List.isEmpty_cons, Bool.false_eq_true, if_false, Option.getD_some,
          Text.marks_append, hmarks]
      · exact Text.marks_append_ne_nil (Text.marks_append_ne_nil hfront _) _

theorem formatAll_alike (f : Formatter) {fields : Agreement} {needed : List String}
    (hdoc : ("doc", Eq) ∈ fields) (hhtml : ∀ field ∈ fields, field.1 ≠ "html") {v w : Value}
    (hv : v.AllDocumented needed "doc") (hw : w.AllDocumented needed "doc")
    (h : v.EachAgree fields w) :
    ∃ v' w', formatAll f v = (v', none) ∧ formatAll f w = (w', none) ∧
      v'.AllDocumented needed "doc" ∧ w'.AllDocumented needed "doc" ∧
      v'.EachAgree (("html", Eq) :: fields) w' := by
  obtain ⟨items, others, rfl, rfl, hagree⟩ := h
  obtain ⟨_, hitems, hall⟩ := hv
  obtain ⟨_, hothers, hall'⟩ := hw
  cases hitems
  cases hothers
  obtain ⟨done, made, hdone, hmade, hdoneAll, hmadeAll, hshown⟩ :=
    Value.formatItems_alike f hdoc hhtml hall hall' hagree
  refine ⟨.list done, .list made, ?_, ?_, ⟨_, rfl, hdoneAll⟩, ⟨_, rfl, hmadeAll⟩,
    _, _, rfl, rfl, hshown⟩
  · rw [formatAll, hdone]
  · rw [formatAll, hmade]

/-- A tag whose value is a list of documented records. -/
theorem discreet_items {t : Tag} {needed : List String} {f : Value → Except Fault String}
    {front back : String} (hnamed : t.tagname = some t.key) (hformat : t.format = formatAll)
    (hhtml : t.html = fun _ v => do
      let items ← (← itemsOf v).mapM f
      return if items.isEmpty then none else some (front ++ String.join items ++ back))
    (hfits : ∀ v : Value, v.Fits t.key ↔ v.AllDocumented needed "doc")
    (halike : ∀ (more : Agreement) (v w : Value),
      v.AlikeWith more t.key w ↔ v.EachAgree (more ++ .told t.key) w)
    (hdoc : ("doc", Eq) ∈ Agreement.told t.key)
    (hfields : ∀ field ∈ Agreement.told t.key, field.1 ≠ "html") (hfront : marks front ≠ [])
    (hf : ∀ v w : Value, v.Documented needed "doc" → w.Documented needed "doc" →
      v.AgreeOn (("html", Eq) :: Agreement.told t.key) w →
      ∃ a b, f v = .ok a ∧ f w = .ok b ∧ marks a = marks b) : t.Discreet where
  named := hnamed
  format g v w h := by
    obtain ⟨v', w', hv', hw', hvall, hwall, hshown⟩ := formatAll_alike g hdoc hfields
      ((hfits v).mp h.left) ((hfits w).mp h.right) ((halike [] v w).mp h.alike)
    rw [hformat]
    exact ⟨v', w', hv', hw', (hfits v').mpr hvall, (hfits w').mpr hwall,
      (halike _ v' w').mpr hshown⟩
  html _ v w h := by
    obtain ⟨items, others, rfl, rfl, hagree⟩ := (halike _ v w).mp h.alike
    obtain ⟨_, hitems, hall⟩ := (hfits _).mp h.left
    obtain ⟨_, hothers, hall'⟩ := (hfits _).mp h.right
    cases hitems
    cases hothers
    obtain ⟨htmls, htmls', hhtmls, hhtmls', hmarks⟩ := itemsHtml_alike hf hall hall' hagree
    rw [hhtml]
    exact ⟨_, _, Except.bind_eq_ok_iff.mpr ⟨items, rfl, Except.bind_eq_ok_iff.mpr ⟨_, hhtmls, rfl⟩⟩,
      Except.bind_eq_ok_iff.mpr ⟨others, rfl, Except.bind_eq_ok_iff.mpr ⟨_, hhtmls', rfl⟩⟩,
      sameMarkup_list hfront hmarks⟩
  null kind := by
    rw [hhtml]
    rfl

theorem discreet_param : param.Discreet :=
  discreet_items rfl rfl rfl (fun _ => Iff.rfl) (fun _ _ _ => Iff.rfl) List.mem_cons_self
    (by decide) (by decide) fun _ _ => paramHtml_alike

theorem thrownHtml_alike {v w : Value} (hv : v.Documented ["type"] "doc")
    (hw : w.Documented ["type"] "doc")
    (h : v.AgreeOn (("html", Eq) :: Agreement.told "throws") w) :
    ∃ a b, thrownHtml v = .ok a ∧ thrownHtml w = .ok b ∧ marks a = marks b := by
  obtain ⟨type, htype⟩ := hv.required "type" (by decide)
  obtain ⟨type', htype'⟩ := hw.required "type" (by decide)
  obtain ⟨r, s, rfl, rfl, hfields⟩ := h
  have hhtml : Table.get? r "html" = Table.get? s "html" := hfields _ List.mem_cons_self
  rw [thrownHtml, thrownHtml, htype, htype']
  refine ⟨_, _, rfl, rfl, ?_⟩
  rw [hhtml]
  simp

theorem discreet_thrown : thrown.Discreet :=
  discreet_items rfl rfl rfl (fun _ => Iff.rfl) (fun _ _ _ => Iff.rfl) List.mem_cons_self
    (by decide) (by decide) fun _ _ => thrownHtml_alike

theorem discreet_returned : returned.Discreet where
  named := rfl
  format f v w h := by
    have hv : v.Documented ["type"] "doc" := h.left
    have hw : w.Documented ["type"] "doc" := h.right
    have hagree : v.AgreeOn (Agreement.told "return") w := h.alike
    obtain ⟨v', w', hv', hw', hvdoc, hwdoc, hshown⟩ :=
      Value.formatField_alike f (by simp [Agreement.told]) (by simp [Agreement.told]) hv hw hagree
    simp only [returned, if_pos hv.truthy, if_pos hw.truthy]
    exact ⟨v', w', hv', hw', hvdoc, hwdoc, hshown⟩
  html _ v w h := by
    have hv : v.Documented ["type"] "doc" := h.left
    have hw : w.Documented ["type"] "doc" := h.right
    obtain ⟨type, htype⟩ := hv.required "type" (by decide)
    obtain ⟨type', htype'⟩ := hw.required "type" (by decide)
    have hvtruthy := hv.truthy
    have hwtruthy := hw.truthy
    obtain ⟨r, s, rfl, rfl, hfields⟩ :
        v.AgreeOn (("html", Eq) :: Agreement.told "return") w := h.alike
    have hhtml : Table.get? r "html" = Table.get? s "html" := hfields _ List.mem_cons_self
    have hundefined : type.isText "undefined" = type'.isText "undefined" := by
      have hsame : Agreement.bothUndefined (Table.get? r "type") (Table.get? s "type") :=
        hfields ("type", Agreement.bothUndefined) (by simp [Agreement.told])
      rwa [Record.get?_of_required htype, Record.get?_of_required htype'] at hsame
    simp only [returned, returnHtml, if_pos hvtruthy, if_pos hwtruthy, htype, htype']
    refine ⟨_, _, rfl, rfl, ?_⟩
    rw [hhtml, hundefined]
    split
    · exact .empty
    · refine .of_ne_nil (by simp) ?_
      iterate 2 apply Text.marks_append_ne_nil
      decide
  null _ := rfl

/-! ### Members -/

theorem defaultHtml_record (r : Record) : defaultHtml (.record r) =
    .ok ((Table.get? r "default").map fun d =>
      s!"<p>Defaults to: <code>{d.escaped}</code></p>") := by
  cases r <;> rfl

theorem discreet_declares (kind : MemberKind) (pattern : String) (hasDefault : Bool)
    (type : MemberType)
    (hagree : hasDefault = true → ∀ v w, Value.AlikeRendered kind.word v w →
      v.AgreeOn [("default", Agreement.bothPresent)] w) :
    (declares kind pattern hasDefault type).Discreet where
  named := rfl
  format := by
    have hplain : ∀ kind : MemberKind, kind.word ∉ documentedKeys := by
      intro kind
      cases kind <;> decide
    exact format_plain rfl (hplain kind)
  html _ v w h := by
    cases hasDefault with
    | false => exact ⟨none, none, rfl, rfl, .empty⟩
    | true =>
        obtain ⟨r, s, rfl, rfl, hfields⟩ := hagree rfl v w h
        have hpresent : (Table.get? r "default").isSome = (Table.get? s "default").isSome :=
          hfields _ List.mem_cons_self
        refine ⟨_, _, defaultHtml_record r, defaultHtml_record s, ?_⟩
        cases hr : Table.get? r "default" with
        | none =>
            rw [hr] at hpresent
            have hs := Option.isSome_eq_false_iff.mp hpresent.symm
            rw [Option.isNone_iff_eq_none.mp hs]
            exact .empty
        | some d =>
            rw [hr] at hpresent
            obtain ⟨e, hs⟩ := Option.isSome_iff_exists.mp hpresent.symm
            rw [hs]
            refine .of_ne_nil (by simp) ?_
            iterate 2 apply Text.marks_append_ne_nil
            decide
  null _ := by cases hasDefault <;> rfl

theorem Discreet.withProcess {t : Tag} (h : t.Discreet) (position : Option Number)
    (process : Subject → List Record → Except Fault Outcome) :
    Discreet { t with position, process } where
  named := h.named
  format := h.format
  html := h.html
  null := h.null

/-- **All standard tags are discreet.** What they show of a value does not depend on the names,
types, defaults and versions in it, as far as marks go. -/
theorem discreet_standard : ∀ t ∈ standard, t.Discreet := by
  simp only [standard, List.forall_mem_cons]
  refine ⟨(discreet_declares .cfg "cfg" true _ fun _ _ _ h => h.alike).withProcess _ _,
    discreet_declares .property "property" true _ fun _ _ _ h => h.alike,
    discreet_declares .method "method" false _ (absurd · Bool.false_ne_true),
    discreet_declares .event "event" false _ (absurd · Bool.false_ne_true),
    discreet_declares .cssVar "var" true _ fun _ _ _ h => h.alike,
    discreet_declares .cssMixin "mixin" false _ (absurd · Bool.false_ne_true),
    discreet_plainFlag _ (by decide), discreet_plainFlag _ (by decide),
    (discreet_plainFlag _ (by decide)).withProcess _ _, discreet_since, discreet_deprecated,
    discreet_param, discreet_returned, discreet_thrown,
    (discreet_plainFlag _ (by decide)).withProcess _ _,
    discreet_hidden rfl rfl (by decide) fun _ _ => rfl,
    discreet_hidden rfl rfl (by decide) fun _ _ => rfl,
    discreet_hidden rfl rfl (by decide) fun _ _ => rfl, ?_⟩
  exact fun _ h => absurd h List.not_mem_nil

end Tag

end ApiPages
