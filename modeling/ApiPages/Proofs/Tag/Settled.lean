import ApiPages.Proofs.Except
import ApiPages.Proofs.Table
import ApiPages.Tag.Standard

/-!
# Tags that settle

What a tag makes of its records does not depend on the attributes that are there already, and what
it derives it derives once: a second look at the attributes, however the other tags have added to
them meanwhile, changes nothing. All standard tags settle so.
-/

namespace ApiPages

/-- The keys that a tag writes when it derives attributes. -/
def Record.derivedKeys (key : String) : List String :=
  if key = "cfg" then ["required"]
  else if key = "static" ∨ key = "chainable" then [key]
  else []

theorem Record.mem_derivedKeys_iff {key other : String} :
    other ∈ derivedKeys key ↔
      key = "cfg" ∧ other = "required" ∨ (key = "static" ∨ key = "chainable") ∧ other = key := by
  rw [derivedKeys]
  split
  · rename_i hcfg
    simp [hcfg]
  · rename_i hcfg
    split <;> simp [*]

/-- The keys that decide whether a tag has settled: its own, and those that it writes. -/
def Record.watchedKeys (key : String) : List String :=
  key :: derivedKeys key

namespace Tag

open Record (derivedKeys watchedKeys)

/-- A step of deriving attributes that settles: it writes nothing but derived keys, never over the
value of a tag, and once they are written it has nothing more to do. -/
structure Settling (key : String) (process : Subject → List Record → Except Fault Outcome) :
    Prop where
  frame : ∀ s docs o, process s docs = .ok o → ∀ other, other ∉ derivedKeys key →
    Table.get? o.attributes other = Table.get? s.attributes other
  keeps : ∀ s docs o, process s docs = .ok o → ∀ other v, other ≠ "required" →
    Table.get? s.attributes other = some v → Table.get? o.attributes other = some v
  rests : ∀ s docs o, process s docs = .ok o → ∀ s' docs',
    (∀ other ∈ watchedKeys key, Table.get? s'.attributes other = Table.get? o.attributes other) →
      process s' docs' = .ok { o with attributes := s'.attributes }

/-- A tag whose value depends on its records and on the name of what it is merged for, and whose
derived attributes settle. -/
structure Settles (t : Tag) : Prop where
  merge : ∀ s s' docs code, s.name = s'.name → t.merge s docs code = t.merge s' docs code
  process : Settling t.key t.process

/-! ### Deriving attributes -/

theorem settling_nothing (key : String) :
    Settling key fun s _ => .ok { attributes := s.attributes } where
  frame s docs o h other _ := by
    cases h
    rfl
  keeps s docs o h other v _ hv := by
    cases h
    exact hv
  rests s docs o h s' docs' _ := by
    cases h
    rfl

/-- A step that writes a key only where it is missing settles. -/
theorem settling_ifMissing {key : String} (hkey : key ∈ derivedKeys key)
    {process : Subject → List Record → Except Fault Outcome}
    (hpresent : ∀ s docs, Table.contains s.attributes key = true →
      process s docs = .ok { attributes := s.attributes })
    (hmissing : ∀ s docs o, Table.contains s.attributes key = false → process s docs = .ok o →
      ∃ v, o = { attributes := Table.set s.attributes key v }) :
    Settling key process := by
  have hcases : ∀ s docs o, process s docs = .ok o →
      (Table.contains s.attributes key = true ∧ o = { attributes := s.attributes }) ∨
        (Table.get? s.attributes key = none ∧
          ∃ v, o = { attributes := Table.set s.attributes key v }) := by
    intro s docs o h
    cases hcontains : Table.contains s.attributes key with
    | true => exact Or.inl ⟨rfl, Except.ok.inj (h.symm.trans (hpresent s docs hcontains))⟩
    | false =>
        rw [Table.contains, Option.isSome_eq_false_iff, Option.isNone_iff_eq_none] at hcontains
        exact Or.inr ⟨hcontains, hmissing s docs o (by simp [Table.contains, hcontains]) h⟩
  constructor
  · intro s docs o h other hother
    have hne : key ≠ other := fun heq => hother (heq ▸ hkey)
    rcases hcases s docs o h with ⟨-, rfl⟩ | ⟨-, v, rfl⟩
    · rfl
    · rw [Table.get?_set, if_neg hne]
  · intro s docs o h other v _ hv
    rcases hcases s docs o h with ⟨-, rfl⟩ | ⟨hnone, w, rfl⟩
    · exact hv
    · have hne : key ≠ other := by
        rintro rfl
        simp [hnone] at hv
      rw [Table.get?_set, if_neg hne]
      exact hv
  · intro s docs o h s' docs' hwatched
    have hwritten : Table.contains o.attributes key = true ∧ o.target = none := by
      rcases hcases s docs o h with ⟨hcontains, rfl⟩ | ⟨-, v, rfl⟩
      · exact ⟨hcontains, rfl⟩
      · exact ⟨by simp [Table.contains, Table.get?_set], rfl⟩
    have hcontains : Table.contains s'.attributes key = true := by
      rw [Table.contains, hwatched key List.mem_cons_self]
      exact hwritten.1
    rw [hpresent s' docs' hcontains, hwritten.2]

theorem settling_staticFlag : Settling "static" staticFlag.process := by
  refine settling_ifMissing (by decide) (fun s docs hcontains => ?_) fun s docs o hcontains h => ?_
  · simp [staticFlag, hcontains]
  · simp only [staticFlag, hcontains] at h
    exact ⟨_, (Except.ok.inj h).symm⟩

theorem settling_chainable : Settling "chainable" chainable.process := by
  refine settling_ifMissing (by decide) (fun s docs hcontains => ?_) fun s docs o hcontains h => ?_
  · simp [chainable, hcontains]
  · simp only [chainable, hcontains] at h
    obtain ⟨type, -, h⟩ := ApiPages.Except.bind_eq_ok_iff.mp h
    exact ⟨_, (Except.ok.inj h).symm⟩

theorem settling_cfg : Settling "cfg" cfg.process := by
  have hcases : ∀ s docs o, cfg.process s docs = .ok o → ∃ required : Value,
      (Record.optional s.attributes "cfg").optionalIn "required" = .ok required ∧
        o = { attributes := Table.set s.attributes "required" (.bool required.truthy) } := by
    intro s docs o h
    obtain ⟨required, hrequired, h⟩ := ApiPages.Except.bind_eq_ok_iff.mp h
    exact ⟨required, hrequired, (Except.ok.inj h).symm⟩
  refine ⟨fun s docs o h other hother => ?_, fun s docs o h other v hne hv => ?_,
    fun s docs o h s' docs' hwatched => ?_⟩
  · obtain ⟨required, -, rfl⟩ := hcases s docs o h
    have hne : "required" ≠ other := fun heq => hother (heq ▸ List.mem_singleton_self _)
    rw [Table.get?_set, if_neg hne]
  · obtain ⟨required, -, rfl⟩ := hcases s docs o h
    rw [Table.get?_set, if_neg (Ne.symm hne)]
    exact hv
  · obtain ⟨required, hrequired, rfl⟩ := hcases s docs o h
    have hcfg := hwatched "cfg" (by decide)
    have hset := hwatched "required" (by decide)
    rw [Table.get?_set, if_neg (by decide)] at hcfg
    rw [Table.get?_set, if_pos rfl] at hset
    have hsame : Record.optional s'.attributes "cfg" = Record.optional s.attributes "cfg" := by
      rw [Record.optional, Record.optional, hcfg]
    have hrun : cfg.process s' docs' =
        .ok { attributes := Table.set s'.attributes "required" (.bool required.truthy) } := by
      refine ApiPages.Except.bind_eq_ok_iff.mpr ⟨required, ?_, rfl⟩
      rw [hsame]
      exact hrequired
    rw [hrun, Table.set_eq_self hset]

theorem settling_override : Settling "override" override.process where
  frame s docs o h other _ := by
    cases h
    rfl
  keeps s docs o h other v _ hv := by
    cases h
    exact hv
  rests s docs o h s' docs' hwatched := by
    cases h
    have hown := hwatched "override" List.mem_cons_self
    have hsame : Record.optional s'.attributes "override" =
        Record.optional s.attributes "override" := by
      rw [Record.optional, Record.optional, hown]
    simp only [override, hsame]

/-! ### The standard tags -/

theorem mergeMember_congr (hasDefault canRequire : Bool) {s s' : Subject} (h : s.name = s'.name)
    (docs code : List Record) :
    mergeMember hasDefault canRequire s docs code =
      mergeMember hasDefault canRequire s' docs code := by
  rw [mergeMember, mergeMember, h]

theorem settles_declares (kind : MemberKind) (pattern : String) (hasDefault : Bool)
    (type : MemberType) : (declares kind pattern hasDefault type).Settles where
  merge _ _ docs code h := congrArg Except.ok (mergeMember_congr hasDefault _ h docs code)
  process := settling_nothing _

theorem settles_cfg : cfg.Settles where
  merge _ _ docs code h := congrArg Except.ok (mergeMember_congr true _ h docs code)
  process := settling_cfg

theorem settles_of_plain {t : Tag}
    (hmerge : ∀ s s' docs code, t.merge s docs code = t.merge s' docs code)
    (hprocess : t.process = fun s _ => .ok { attributes := s.attributes }) : t.Settles where
  merge s s' docs code _ := hmerge s s' docs code
  process := by
    rw [hprocess]
    exact settling_nothing _

theorem settles_standard : ∀ t ∈ standard, t.Settles := by
  simp only [standard, List.forall_mem_cons]
  refine ⟨settles_cfg, settles_declares .property "property" true _,
    settles_declares .method "method" false _, settles_declares .event "event" false _,
    settles_declares .cssVar "var" true _, settles_declares .cssMixin "mixin" false _,
    settles_of_plain (fun _ _ _ _ => rfl) rfl, settles_of_plain (fun _ _ _ _ => rfl) rfl,
    ⟨fun _ _ _ _ _ => rfl, settling_staticFlag⟩, settles_of_plain (fun _ _ _ _ => rfl) rfl,
    settles_of_plain (fun _ _ _ _ => rfl) rfl, settles_of_plain (fun _ _ _ _ => rfl) rfl,
    settles_of_plain (fun _ _ _ _ => rfl) rfl, settles_of_plain (fun _ _ _ _ => rfl) rfl,
    ⟨fun _ _ _ _ _ => rfl, settling_chainable⟩, settles_of_plain (fun _ _ _ _ => rfl) rfl,
    settles_of_plain (fun _ _ _ _ => rfl) rfl, ⟨fun _ _ _ _ _ => rfl, settling_override⟩, ?_⟩
  exact fun _ h => absurd h List.not_mem_nil

theorem nodup_keys_standard : (standard.map key).Nodup := by decide

theorem key_ne_required {t : Tag} (h : t ∈ standard) : t.key ≠ "required" := by
  have hall : ∀ word ∈ standard.map key, word ≠ "required" := by decide
  exact hall t.key (List.mem_map_of_mem h)

end Tag

end ApiPages
