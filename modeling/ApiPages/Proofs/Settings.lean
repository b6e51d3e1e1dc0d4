import ApiPages.Proofs.Written
import ApiPages.Settings
import ApiPages.Yaml

/-!
# What settings files say

A settings file holds a mapping, and whatever in it is not of the kind that is asked for counts as
missing, so that a mapping gives settings unless something in it is too long to be written out. What
is no mapping is refused, unless it counts as false: then the file is read as an empty one.
-/

namespace ApiPages

namespace Value

/-- A mapping, whatever its keys. -/
inductive Maps : Value → Prop
  | record (r : Record) : Maps (.record r)
  | mapping (entries : List (Value × Value)) : Maps (.mapping entries)

/-- Something that is neither null nor a mapping, and counts as false all the same. -/
inductive Hollow : Value → Prop
  | no : Hollow (.bool false)
  | zero {n : Number} (h : n.isZero = true) : Hollow (.number n)
  | emptyText : Hollow (.text "")
  | emptyList : Hollow (.list [])
  | emptyBytes : Hollow (.bytes [])
  | emptySet : Hollow (.set [])

inductive Scalar : Value → Prop
  | bool (b : Bool) : Scalar (.bool b)
  | number (n : Number) : Scalar (.number n)
  | text (s : String) : Scalar (.text s)

/-- A value and what stands in a row in it; bytes stand there as numbers. -/
inductive Row : Value → List Value → Prop
  | list (items : List Value) : Row (.list items) items
  | pair (a b : Value) : Row (.pair a b) [a, b]
  | bytes (codes : List UInt8) : Row (.bytes codes) (codes.map fun code => .int code.toNat)

def isEmptyList : Value → Bool
  | .list items => items.isEmpty
  | _ => false

/-- What a mapping has under a key that is text. -/
def field? (v : Value) (key : String) : Option Value :=
  match v with
  | .record r => Table.get? r key
  | .mapping entries => (entries.find? fun entry => entry.1.isText key).map Prod.snd
  | _ => none

/-- What is found along some keys, and null where nothing is. -/
def under (v : Value) (keys : List String) : Value :=
  keys.foldl (fun v key => (v.field? key).getD .null) v

theorem isEmptyList_iff {v : Value} : v.isEmptyList = true ↔ v = .list [] := by
  cases v <;> simp [isEmptyList]

theorem Hollow.not_maps {v : Value} (h : v.Hollow) : ¬ v.Maps := by
  cases h <;> exact nofun

theorem Hollow.ne_null {v : Value} (h : v.Hollow) : v ≠ .null := by
  cases h <;> exact nofun

/-- Apart from null, the values that count as false are the hollow ones and the empty mappings. -/
theorem hollow_iff {v : Value} (hnull : v ≠ .null) (hmaps : ¬ v.Maps) :
    v.Hollow ↔ v.truthy = false := by
  constructor
  · rintro (_ | h | _ | _ | _ | _)
    · rfl
    · simpa [truthy] using h
    all_goals rfl
  · intro h
    cases v with
    | null => exact absurd rfl hnull
    | bool b =>
        obtain rfl : b = false := h
        exact .no
    | number n => exact .zero (by simpa [truthy] using h)
    | text s =>
        obtain rfl : s = "" := by simpa using h
        exact .emptyText
    | list items =>
        obtain rfl : items = [] := by simpa [truthy] using h
        exact .emptyList
    | record r => exact absurd (.record r) hmaps
    | mapping entries => exact absurd (.mapping entries) hmaps
    | bytes codes =>
        obtain rfl : codes = [] := by simpa [truthy] using h
        exact .emptyBytes
    | pair a b => cases h
    | set items =>
        obtain rfl : items = [] := by simpa [truthy] using h
        exact .emptySet
    | shown alone inside => cases h

end Value

namespace Settings

open Value (TooLong)

/-! ### What is read of a mapping -/

/-- What stands in a row, and its truth values, numbers and texts as they are written. -/
inductive Texts : List Value → List String → Prop
  | nil : Texts [] []
  | no {vs : List Value} {ss : List String} (h : Texts vs ss) :
    Texts (.bool false :: vs) ("False" :: ss)
  | yes {vs : List Value} {ss : List String} (h : Texts vs ss) :
    Texts (.bool true :: vs) ("True" :: ss)
  | number (n : Number) {vs : List Value} {ss : List String} (h : Texts vs ss) :
    Texts (.number n :: vs) (n.display :: ss)
  | text (s : String) {vs : List Value} {ss : List String} (h : Texts vs ss) :
    Texts (.text s :: vs) (s :: ss)
  | other {v : Value} {vs : List Value} {ss : List String} (hv : ¬ v.Scalar) (h : Texts vs ss) :
    Texts (v :: vs) ss

/-- One text, or what stands in a row, as it is written. Anything else says nothing. -/
inductive Lists : Value → List String → Prop
  | text (s : String) : Lists (.text s) [s]
  | row {v : Value} {items : List Value} {ss : List String} (hrow : v.Row items)
    (h : Texts items ss) : Lists v ss
  | other {v : Value} (htext : ∀ s, v ≠ .text s) (hrow : ∀ items, ¬ v.Row items) : Lists v []

/-- A list that may be left out. -/
inductive MayList : Value → Option (List String) → Prop
  | absent : MayList .null none
  | given {v : Value} {ss : List String} (hv : v ≠ .null) (hlists : Lists v ss) :
    MayList v (some ss)

/-- How a run is logged, if there is a mapping that says so. -/
inductive Logs : Value → Option LoggingSettings → Prop
  | absent {v : Value} (hv : ¬ v.Maps) : Logs v none
  | given {v : Value} (hv : v.Maps) : Logs v (some {
      verbose := (v.under ["verbose"]).truthy
      quiet := (v.under ["quiet"]).truthy
      file :=
        if (v.under ["file"]).truthy then some (PathName.normalize (v.under ["file"]).display)
        else none })

/-- The settings that a mapping stands for, section by section. -/
structure StandsFor (v : Value) (s : Settings) : Prop where
  external : Lists (v.under ["external"]) s.external
  disabled : Lists (v.under ["warnings", "disabled"]) s.disabled
  enabled : MayList (v.under ["tags", "enabled"]) s.enabled
  extensions : ∃ given, MayList (v.under ["markdown", "extensions"]) given ∧
    s.extensions = given.getD ["extra"]
  logging : Logs (v.under ["logging"]) s.logging

/-- Where lists are asked for. -/
def listKeys : List (List String) :=
  [["external"], ["warnings", "disabled"], ["tags", "enabled"], ["markdown", "extensions"]]

/-- What has to be written out for the settings of a mapping: what stands in a row where a list is
asked for, if it is scalar, and the path of the log file, if there is one. -/
inductive WritesOut (v : Value) : Value → Prop
  | listed {keys : List String} {items : List Value} {w : Value} (hkeys : keys ∈ listKeys)
    (hrow : (v.under keys).Row items) (hmem : w ∈ items) (hscalar : w.Scalar) : WritesOut v w
  | file (hmaps : (v.under ["logging"]).Maps)
    (htrue : (v.under ["logging", "file"]).truthy = true) :
    WritesOut v (v.under ["logging", "file"])

/-! ### Reading without writing out -/

/-- What one comes to unless something is too long to be written out. -/
def unlessStuck {α : Type} (stuck : Bool) (a : α) : Except Fault α :=
  if stuck then .error .tooManyDigits else .ok a

theorem unlessStuck_bind {α β : Type} {stuck later : Bool} {a : α} {b : β}
    {f : α → Except Fault β} (h : f a = unlessStuck later b) :
    (unlessStuck stuck a >>= f) = unlessStuck (stuck || later) b := by
  cases stuck with
  | true => rfl
  | false => exact h

def scalarsIn (v : Value) : List Value :=
  (itemsOf v).filter isScalar

def stuckList (v : Value) : Bool :=
  (scalarsIn v).any Value.hasTooLong

def listed (v : Value) : List String :=
  match v with
  | .text s => [s]
  | v => (scalarsIn v).map Value.display

def mayListed (v : Value) : Option (List String) :=
  match v with
  | .null => none
  | v => some (listed v)

def stuckLog (v : Value) : Bool :=
  (fields? v).any fun r =>
    (Record.optional r "file").truthy && (Record.optional r "file").hasTooLong

def logged (v : Value) : Option LoggingSettings :=
  (fields? v).map fun r => {
    verbose := (Record.optional r "verbose").truthy
    quiet := (Record.optional r "quiet").truthy
    file :=
      if (Record.optional r "file").truthy then
        some (PathName.normalize (Record.optional r "file").display)
      else none }

def stuckAt (r : Record) : Bool :=
  stuckList (entry r "warnings" "disabled") || (stuckList (entry r "tags" "enabled") ||
    (stuckList (entry r "markdown" "extensions") || (stuckLog (Record.optional r "logging") ||
      stuckList (Record.optional r "external"))))

def plain (r : Record) : Settings where
  external := listed (Record.optional r "external")
  disabled := listed (entry r "warnings" "disabled")
  enabled := mayListed (entry r "tags" "enabled")
  extensions := (mayListed (entry r "markdown" "extensions")).getD ["extra"]
  logging := logged (Record.optional r "logging")

theorem texts_eq (v : Value) : texts v = unlessStuck (stuckList v) (listed v) := by
  cases v with
  | text s => rfl
  | _ => exact Value.mapM_written _

theorem texts?_eq (v : Value) : texts? v = unlessStuck (stuckList v) (mayListed v) := by
  cases v with
  | null => rfl
  | _ =>
      change some <$> texts _ = _
      rw [texts_eq, unlessStuck, unlessStuck]
      split <;> rfl

theorem loggingOf_eq (v : Value) : loggingOf v = unlessStuck (stuckLog v) (logged v) := by
  rw [loggingOf, stuckLog, logged]
  cases fields? v with
  | none => rfl
  | some r =>
      dsimp only [Option.any_some, Option.map_some]
      rw [Value.written]
      cases (Record.optional r "file").truthy <;> cases (Record.optional r "file").hasTooLong <;> rfl

theorem ofRecord_eq (r : Record) : ofRecord r = unlessStuck (stuckAt r) (plain r) := by
  rw [ofRecord, texts_eq, texts?_eq, texts?_eq, loggingOf_eq, texts_eq]
  refine unlessStuck_bind (unlessStuck_bind (unlessStuck_bind (unlessStuck_bind ?_)))
  rw [unlessStuck, unlessStuck]
  split <;> rfl

/-! ### The two sides -/

theorem isScalar_iff {v : Value} : isScalar v = true ↔ v.Scalar := by
  cases v with
  | bool b => exact iff_of_true rfl (.bool b)
  | number n => exact iff_of_true rfl (.number n)
  | text s => exact iff_of_true rfl (.text s)
  | _ => exact iff_of_false Bool.false_ne_true nofun

theorem itemsOf_of_row {v : Value} {items : List Value} (h : v.Row items) : itemsOf v = items := by
  cases h <;> rfl

theorem itemsOf_of_not_row {v : Value} (h : ∀ items, ¬ v.Row items) : itemsOf v = [] := by
  cases v with
  | list items => exact absurd (.list items) (h _)
  | pair a b => exact absurd (.pair a b) (h _)
  | bytes codes => exact absurd (.bytes codes) (h _)
  | _ => rfl

theorem row_itemsOf {v w : Value} (h : w ∈ itemsOf v) : v.Row (itemsOf v) := by
  cases v with
  | list items => exact .list items
  | pair a b => exact .pair a b
  | bytes codes => exact .bytes codes
  | _ => cases h

theorem texts_iff {vs : List Value} {ss : List String} :
    Texts vs ss ↔ (vs.filter isScalar).map Value.display = ss := by
  constructor
  · intro h
    induction h with
    | nil => rfl
    | no h ih => exact congrArg _ ih
    | yes h ih => exact congrArg _ ih
    | number n h ih => exact congrArg _ ih
    | text s h ih => exact congrArg _ ih
    | other hv h ih => rwa [List.filter_cons_of_neg (mt isScalar_iff.mp hv)]
  · rintro rfl
    induction vs with
    | nil => exact .nil
    | cons v vs ih =>
        cases v with
        | bool b =>
            cases b with
            | false => exact .no ih
            | true => exact .yes ih
        | number n => exact .number n ih
        | text s => exact .text s ih
        | _ => exact .other nofun ih

theorem lists_iff {v : Value} {ss : List String} : Lists v ss ↔ listed v = ss := by
  constructor
  · rintro (s | ⟨hrow, h⟩ | ⟨htext, hrow⟩)
    · rfl
    · have hlisted : listed v = (scalarsIn v).map Value.display := by
        cases hrow <;> rfl
      rw [hlisted, scalarsIn, itemsOf_of_row hrow, texts_iff.mp h]
    · have hlisted : listed v = (scalarsIn v).map Value.display := by
        cases v with
        | text s => exact absurd rfl (htext s)
        | _ => rfl
      rw [hlisted, scalarsIn, itemsOf_of_not_row hrow]
      rfl
  · rintro rfl
    cases v with
    | text s => exact .text s
    | list items => exact .row (.list items) (texts_iff.mpr rfl)
    | pair a b => exact .row (.pair a b) (texts_iff.mpr rfl)
    | bytes codes => exact .row (.bytes codes) (texts_iff.mpr rfl)
    | _ => exact .other nofun nofun

theorem mayList_iff {v : Value} {given : Option (List String)} :
    MayList v given ↔ mayListed v = given := by
  constructor
  · rintro (_ | ⟨hv, hlists⟩)
    · rfl
    · rw [← lists_iff.mp hlists]
      cases v with
      | null => exact absurd rfl hv
      | _ => rfl
  · rintro rfl
    cases v with
    | null => exact .absent
    | _ => exact .given nofun (lists_iff.mpr rfl)

theorem optional_sectionOf (v : Value) (key : String) :
    Record.optional (sectionOf v) key = (v.field? key).getD .null := by
  cases v with
  | mapping entries =>
      simp only [Record.optional, sectionOf, fields?, Option.getD_some, Value.field?]
      induction entries with
      | nil => rfl
      | cons entry entries ih =>
          obtain ⟨k, w⟩ := entry
          cases k with
          | text s =>
              by_cases hs : s = key
              · simp [Value.isText, Table.get?, hs]
              · simpa [Value.isText, Table.get?, hs] using ih
          | _ => exact ih
  | _ => rfl

theorem exists_fields?_iff {v : Value} : (∃ r, fields? v = some r) ↔ v.Maps := by
  cases v with
  | record r => exact iff_of_true ⟨r, rfl⟩ (.record r)
  | mapping entries => exact iff_of_true ⟨_, rfl⟩ (.mapping entries)
  | _ => exact iff_of_false nofun nofun

theorem fields?_eq_none_iff {v : Value} : fields? v = none ↔ ¬ v.Maps := by
  rw [← exists_fields?_iff, Option.eq_none_iff_forall_ne_some, not_exists]

theorem optional_of_fields? {v : Value} {r : Record} (h : fields? v = some r) (key : String) :
    Record.optional r key = v.under [key] := by
  have hsection := optional_sectionOf v key
  rwa [sectionOf, h, Option.getD_some] at hsection

theorem entry_of_fields? {v : Value} {r : Record} (h : fields? v = some r) (name key : String) :
    entry r name key = v.under [name, key] := by
  rw [entry, optional_sectionOf, optional_of_fields? h]
  rfl

theorem logs_iff {v : Value} {logging : Option LoggingSettings} :
    Logs v logging ↔ logged v = logging := by
  rw [logged]
  cases hfields : fields? v with
  | none =>
      have hv := fields?_eq_none_iff.mp hfields
      constructor
      · rintro (_ | hmaps)
        · rfl
        · exact absurd hmaps hv
      · rintro rfl
        exact .absent hv
  | some r =>
      have hv := exists_fields?_iff.mp ⟨r, hfields⟩
      simp only [Option.map_some, optional_of_fields? hfields]
      constructor
      · rintro (hnone | _)
        · exact absurd hv hnone
        · rfl
      · rintro rfl
        exact .given hv

/-- A mapping stands for the settings that are read of its fields, and for no others. -/
theorem standsFor_iff {v : Value} {r : Record} (h : fields? v = some r) {s : Settings} :
    StandsFor v s ↔ s = plain r := by
  constructor
  · rintro ⟨hexternal, hdisabled, henabled, ⟨given, hgiven, hextensions⟩, hlogging⟩
    obtain ⟨external, disabled, enabled, extensions, logging⟩ := s
    rw [lists_iff] at hexternal hdisabled
    rw [mayList_iff] at henabled hgiven
    rw [logs_iff] at hlogging
    subst hexternal hdisabled henabled hgiven hlogging
    rw [plain, optional_of_fields? h, optional_of_fields? h, entry_of_fields? h,
      entry_of_fields? h, entry_of_fields? h]
    obtain rfl : extensions = _ := hextensions
    rfl
  · rintro rfl
    refine ⟨lists_iff.mpr ?_, lists_iff.mpr ?_, mayList_iff.mpr ?_, ⟨_, mayList_iff.mpr rfl, ?_⟩,
      logs_iff.mpr ?_⟩
    all_goals simp only [plain, optional_of_fields? h, entry_of_fields? h]

theorem stuckList_iff {v : Value} : stuckList v = true ↔
    ∃ items w, v.Row items ∧ w ∈ items ∧ w.Scalar ∧ w.TooLong := by
  rw [stuckList, List.any_eq_true]
  constructor
  · rintro ⟨w, hmem, hlong⟩
    obtain ⟨hmem, hscalar⟩ := List.mem_filter.mp hmem
    exact ⟨itemsOf v, w, row_itemsOf hmem, hmem, isScalar_iff.mp hscalar,
      (Value.hasTooLong_iff w).mp hlong⟩
  · rintro ⟨items, w, hrow, hmem, hscalar, hlong⟩
    rw [← itemsOf_of_row hrow] at hmem
    exact ⟨w, List.mem_filter.mpr ⟨hmem, isScalar_iff.mpr hscalar⟩,
      (Value.hasTooLong_iff w).mpr hlong⟩

theorem stuckLog_iff {v : Value} : stuckLog v = true ↔
    v.Maps ∧ (v.under ["file"]).truthy = true ∧ (v.under ["file"]).TooLong := by
  rw [stuckLog, ← exists_fields?_iff]
  cases hfields : fields? v with
  | none => exact iff_of_false Bool.false_ne_true nofun
  | some r =>
      rw [Option.any_some, optional_of_fields? hfields, Bool.and_eq_true, Value.hasTooLong_iff]
      exact (and_iff_right ⟨r, rfl⟩).symm

/-- The settings of a mapping are stuck at what has to be written out, and at nothing else. -/
theorem stuckAt_iff {v : Value} {r : Record} (h : fields? v = some r) :
    stuckAt r = true ↔ ∃ w, WritesOut v w ∧ w.TooLong := by
  have hlist : ∀ {keys : List String}, keys ∈ listKeys → stuckList (v.under keys) = true →
      ∃ w, WritesOut v w ∧ w.TooLong := by
    intro keys hkeys hstuck
    obtain ⟨items, w, hrow, hmem, hscalar, hlong⟩ := stuckList_iff.mp hstuck
    exact ⟨w, .listed hkeys hrow hmem hscalar, hlong⟩
  simp only [stuckAt, optional_of_fields? h, entry_of_fields? h, Bool.or_eq_true]
  constructor
  · rintro (hstuck | hstuck | hstuck | hstuck | hstuck)
    · exact hlist (by simp [listKeys]) hstuck
    · exact hlist (by simp [listKeys]) hstuck
    · exact hlist (by simp [listKeys]) hstuck
    · obtain ⟨hmaps, htrue, hlong⟩ := stuckLog_iff.mp hstuck
      exact ⟨_, .file hmaps htrue, hlong⟩
    · exact hlist (by simp [listKeys]) hstuck
  · rintro ⟨w, hwrites, hlong⟩
    cases hwrites with
    | listed hkeys hrow hmem hscalar =>
        have hstuck := stuckList_iff.mpr ⟨_, w, hrow, hmem, hscalar, hlong⟩
        simp only [listKeys, List.mem_cons, List.not_mem_nil, or_false] at hkeys
        rcases hkeys with rfl | rfl | rfl | rfl
        · exact Or.inr (Or.inr (Or.inr (Or.inr hstuck)))
        · exact Or.inl hstuck
        · exact Or.inr (Or.inl hstuck)
        · exact Or.inr (Or.inr (Or.inl hstuck))
    | file hmaps htrue =>
        exact Or.inr (Or.inr (Or.inr (Or.inl (stuckLog_iff.mpr ⟨hmaps, htrue, hlong⟩))))

/-! ### What is refused -/

theorem ofValue_of_not_maps {v : Value} (h : ¬ v.Maps) :
    ofValue v = if v.truthy then .error .settingsNotAMapping else .ok {} := by
  rw [ofValue, fields?_eq_none_iff.mpr h]
  rfl

theorem ofValue_of_fields? {v : Value} {r : Record} (h : fields? v = some r) :
    ofValue v = unlessStuck (stuckAt r) (plain r) := by
  rw [ofValue, h]
  exact ofRecord_eq r

theorem ofValue_of_hollow {v : Value} (h : v.Hollow) : ofValue v = .ok {} := by
  rw [ofValue_of_not_maps h.not_maps, (Value.hollow_iff h.ne_null h.not_maps).mp h]
  rfl

theorem ofValue_of_maps {v : Value} (h : v.Maps)
    (hshort : ∀ w, WritesOut v w → ¬ w.TooLong) :
    ∃ s, ofValue v = .ok s ∧ ∀ other, StandsFor v other ↔ other = s := by
  obtain ⟨r, hfields⟩ := exists_fields?_iff.mpr h
  have hstuck : stuckAt r = false := by
    rw [← Bool.not_eq_true, stuckAt_iff hfields]
    exact fun ⟨w, hwrites, hlong⟩ => hshort w hwrites hlong
  refine ⟨plain r, ?_, fun _ => standsFor_iff hfields⟩
  rw [ofValue_of_fields? hfields, hstuck]
  rfl

/-- Either there is no mapping, or there is one with something that is too long. Null and what is
hollow pass for an empty mapping. -/
theorem ofValue_eq_error_iff {v : Value} {fault : Fault} :
    ofValue v = .error fault ↔
      (fault = .settingsNotAMapping ∧ v ≠ .null ∧ ¬ v.Maps ∧ ¬ v.Hollow) ∨
        (fault = .tooManyDigits ∧ v.Maps ∧ ∃ w, WritesOut v w ∧ w.TooLong) := by
  by_cases hmaps : v.Maps
  · obtain ⟨r, hfields⟩ := exists_fields?_iff.mpr hmaps
    rw [ofValue_of_fields? hfields, ← stuckAt_iff hfields, unlessStuck]
    cases stuckAt r with
    | false => exact iff_of_false nofun (by simp [hmaps])
    | true => simp [hmaps, eq_comm]
  rw [ofValue_of_not_maps hmaps]
  by_cases hnull : v = .null
  · rw [hnull]
    exact iff_of_false nofun (by simp [hnull ▸ hmaps])
  by_cases hhollow : v.Hollow
  · rw [(Value.hollow_iff hnull hmaps).mp hhollow]
    exact iff_of_false nofun (by simp [hmaps, hhollow])
  · have htrue : v.truthy = true := by
      simpa using mt (Value.hollow_iff hnull hmaps).mpr hhollow
    rw [if_pos htrue, Except.error.injEq]
    simp [hnull, hmaps, hhollow, eq_comm]

theorem parse_of_yaml {yaml : YamlReader} {text : String} {v : Value}
    (hblank : Text.isBlank text.toList = false) (hyaml : yaml text = .ok v) :
    parse yaml text = ofValue v := by
  rw [parse, if_neg (by simp [hblank]), hyaml]

/-- **What a settings file is refused for.** Whichever reader of YAML it is read with, what the text
of the file comes to is refused for two reasons only: that it is neither a mapping nor null nor
hollow, or that it is a mapping in which something has to be written out that is too long. Null and
the hollow values are read as empty settings. Every other mapping gives settings, and these are the
only ones that it stands for, whatever is in its sections. -/
theorem settings_refused_or_read (yaml : YamlReader) (v : Value) :
    (∀ text : String, Text.isBlank text.toList = false → yaml text = .ok v →
      parse yaml text = ofValue v) ∧
    (∀ fault, ofValue v = .error fault ↔
      (fault = .settingsNotAMapping ∧ v ≠ .null ∧ ¬ v.Maps ∧ ¬ v.Hollow) ∨
        (fault = .tooManyDigits ∧ v.Maps ∧ ∃ w, WritesOut v w ∧ w.TooLong)) ∧
    (v = .null ∨ v.Hollow → ofValue v = .ok {}) ∧
    (v.Maps → (∀ w, WritesOut v w → ¬ w.TooLong) →
      ∃ s, ofValue v = .ok s ∧ ∀ other, StandsFor v other ↔ other = s) := by
  refine ⟨fun text => parse_of_yaml, fun fault => ofValue_eq_error_iff, ?_, ofValue_of_maps⟩
  rintro (rfl | hhollow)
  · rfl
  · exact ofValue_of_hollow hhollow

theorem exists_of_any {α : Type} {m : Except Fault α} {p : α → Bool}
    (h : m.toOption.any p = true) : ∃ a, m = .ok a ∧ p a = true := by
  cases m with
  | ok a => exact ⟨a, rfl, h⟩
  | error fault => cases h

/-- Sections of other kinds than are asked for. -/
def illTyped : String :=
  "external: !!binary aGk=\nmarkdown:\n  extensions: 5\nlogging:\n  verbose: [no]\n  file: [a, 1]"

/-- Bytes are a row of numbers, a number switches no extension on, and a list of one thing counts as
true. -/
theorem ill_typed_sections_read :
    Text.isBlank illTyped.toList = false ∧
    (∃ v s, Yaml.parse illTyped = .ok v ∧ v.Maps ∧ (∀ w, WritesOut v w → ¬ w.TooLong) ∧
      parse Yaml.parse illTyped = .ok s ∧ StandsFor v s ∧ s.external = ["104", "105"] ∧
      s.extensions = [] ∧ s.logging.map LoggingSettings.verbose = some true ∧
      s.logging.bind LoggingSettings.file = some "['a', 1]") ∧
    (Value.int 0).Hollow ∧ ofValue (.int 0) = .ok {} := by
  have hblank : Text.isBlank illTyped.toList = false := by decide
  have hzero : (Value.int 0).Hollow := .zero rfl
  obtain ⟨v, hyaml, hfields⟩ : ∃ v, Yaml.parse illTyped = .ok v ∧
      ((fields? v).map stuckAt == some false) = true :=
    exists_of_any (by decide +kernel)
  obtain ⟨r, hr, hstuck⟩ := Option.map_eq_some_iff.mp (beq_iff_eq.mp hfields)
  have hmaps : v.Maps := exists_fields?_iff.mp ⟨r, hr⟩
  have hshort : ∀ w, WritesOut v w → ¬ w.TooLong := by
    intro w hwrites hlong
    have hstuck' := (stuckAt_iff hr).mpr ⟨w, hwrites, hlong⟩
    exact Bool.false_ne_true (hstuck.symm.trans hstuck')
  obtain ⟨s, hs, hshown⟩ : ∃ s, parse Yaml.parse illTyped = .ok s ∧
      ((s.external, s.extensions, s.logging.map LoggingSettings.verbose,
        s.logging.bind LoggingSettings.file) ==
          (["104", "105"], [], some true, some "['a', 1]")) = true :=
    exists_of_any (by decide +kernel)
  obtain ⟨hparse, -, -, hread⟩ := settings_refused_or_read Yaml.parse v
  obtain ⟨read, hok, hother⟩ := hread hmaps hshort
  obtain rfl : s = read := Except.ok.inj (hs.symm.trans ((hparse _ hblank hyaml).trans hok))
  obtain ⟨hexternal, hextensions, hverbose, hfile⟩ := by
    simpa only [beq_iff_eq, Prod.mk.injEq] using hshown
  exact ⟨hblank, ⟨v, s, hyaml, hmaps, hshort, hs, (hother s).mpr rfl, hexternal, hextensions,
    hverbose, hfile⟩, hzero, (settings_refused_or_read Yaml.parse (.int 0)).2.2.1 (.inr hzero)⟩

def longNumber : Value :=
  .int (Nat.pow 10 Number.digitLimit)

theorem tooLong_longNumber : longNumber.TooLong := by
  have hlong : (Number.int (Nat.pow 10 Number.digitLimit)).isTooLong = true := by
    unfold Number.isTooLong
    exact decide_eq_true (Nat.le_of_eq (Int.natAbs_natCast _).symm)
  exact .int (Number.isTooLong_int.mp hlong)

/-- An empty list passes for an empty mapping, and a mapping with a number that is too long is
refused. -/
theorem empty_list_read_long_number_refused :
    (Yaml.parse "[]" = .ok (.list []) ∧ Value.list [] ≠ .null ∧ ¬ (Value.list []).Maps ∧
      parse Yaml.parse "[]" = .ok {}) ∧
    (Value.record [("external", .list [longNumber])]).Maps ∧
      ofValue (.record [("external", .list [longNumber])]) = .error .tooManyDigits := by
  obtain ⟨v, hyaml, hempty⟩ : ∃ v, Yaml.parse "[]" = .ok v ∧ v.isEmptyList = true :=
    exists_of_any (by decide +kernel)
  obtain rfl := Value.isEmptyList_iff.mp hempty
  have hmaps : (Value.record [("external", .list [longNumber])]).Maps := .record _
  have hwrites : WritesOut (.record [("external", .list [longNumber])]) longNumber :=
    .listed List.mem_cons_self (.list [longNumber]) List.mem_cons_self (.number _)
  refine ⟨⟨hyaml, nofun, nofun, ?_⟩, hmaps,
    ofValue_eq_error_iff.mpr (Or.inr ⟨rfl, hmaps, longNumber, hwrites, tooLong_longNumber⟩)⟩
  rw [parse_of_yaml (by decide) hyaml]
  exact ofValue_of_hollow .emptyList

end Settings

end ApiPages
