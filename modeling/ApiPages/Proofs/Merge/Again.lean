import ApiPages.Proofs.Merge
import ApiPages.Proofs.Tag.Settled

/-!
# Merging again

Merging leaves attributes behind that hold the value of every tag that has one, next to what tags
derive. Merging the same raw records over those attributes finds each value where it is and derives
nothing new, wherever the class or member is said to be declared by then.
-/

namespace ApiPages

open Record (derivedKeys watchedKeys)

/-- A registry of tags that settle, each of which keeps to the keys of its own. -/
structure Registry.Settles (reg : Registry) : Prop where
  indexed : reg.Indexed
  tags : ∀ t ∈ reg.tags, t.Settles
  keys : (reg.tags.map Tag.key).Nodup
  required : ∀ t ∈ reg.tags, t.key ≠ "required"

theorem Registry.settles_standard {reg : Registry} (h : ofTags Tag.standard = .ok reg) :
    reg.Settles where
  indexed := indexed_ofTags h
  tags := by
    rw [tags_ofTags h]
    exact Tag.settles_standard
  keys := by
    rw [tags_ofTags h]
    exact Tag.nodup_keys_standard
  required := by
    rw [tags_ofTags h]
    exact fun _ ht => Tag.key_ne_required ht

namespace Merge

theorem run_eq_ok {reg : Registry} {s : Subject} {raw : Occurrences} {outcome : Outcome}
    {notes : List Note} (h : run reg s raw = .ok outcome notes) :
    ∃ state, raw.tagnames.foldlM (mergeTagname reg s raw) { attributes := s.attributes } =
        .ok state ∧
      (reg.pluginsFor s.kind).foldlM (processTag s state.selected)
        { attributes := state.attributes } = .ok outcome := by
  obtain ⟨_, _, _, -, h⟩ := Report.bind_eq_ok h
  obtain ⟨state, _, _, hmerge, hprocess⟩ := Report.bind_eq_ok h
  exact ⟨state, Report.ofExcept_eq_ok hmerge, Report.ofExcept_eq_ok hprocess⟩

/-! ### The values of the tags -/

/-- Attributes that hold what the records of a name come to, if they come to anything. -/
def Holds (reg : Registry) (s : Subject) (raw : Occurrences) (attributes : Record) (name : Name) :
    Prop :=
  ∀ t, tagFor reg s.kind name = some t →
    ∃ v, t.merge s (select t (raw.doc.of name)) (raw.code.of name) = .ok v ∧
      (v = .null ∨ Table.get? attributes t.key = some v)

theorem store_eq_self {attributes : Record} {key : String} {v : Value}
    (h : v = .null ∨ Table.get? attributes key = some v) : store attributes key v = attributes := by
  rcases h with rfl | h
  · rfl
  · cases v with
    | null => rfl
    | _ => exact Table.set_eq_self h

theorem get?_store (attributes : Record) (key : String) (v : Value) :
    v = .null ∨ Table.get? (store attributes key v) key = some v := by
  cases v with
  | null => exact Or.inl rfl
  | _ => exact Or.inr (by simp [store, Table.get?_set])

theorem get?_store_of_ne (attributes : Record) {key other : String} (h : key ≠ other) (v : Value) :
    Table.get? (store attributes key v) other = Table.get? attributes other := by
  cases v with
  | null => rfl
  | _ => simp [store, Table.get?_set, h]

section Values

variable {reg : Registry} (hreg : reg.Settles) {s : Subject} {raw : Occurrences}
include hreg

theorem holds_mergeTagname {state state' : MergeState} {name : Name}
    (h : mergeTagname reg s raw state name = .ok state') :
    Holds reg s raw state'.attributes name ∧
      ∀ other, Holds reg s raw state.attributes other →
        Holds reg s raw state'.attributes other := by
  cases htag : tagFor reg s.kind name with
  | none =>
      rw [mergeTagname, htag] at h
      obtain rfl := Except.ok.inj h
      refine ⟨fun t ht => ?_, fun _ hother => hother⟩
      exact absurd (htag.symm.trans ht) (Option.some_ne_none t).symm
  | some t =>
      rw [mergeTagname, htag] at h
      obtain ⟨v, hmerge, h⟩ := Except.bind_eq_ok_iff.mp h
      obtain rfl := Except.ok.inj h
      obtain ⟨hmem, hname⟩ := mem_of_tagFor hreg.indexed htag
      have hsame := ((hreg.tags t hmem).merge s { s with attributes := state.attributes }
        (select t (raw.doc.of name)) (raw.code.of name) rfl).trans hmerge
      have hown : Holds reg s raw (store state.attributes t.key v) name := by
        intro u hu
        obtain rfl := Option.some.inj (htag.symm.trans hu)
        exact ⟨v, hsame, get?_store state.attributes t.key v⟩
      refine ⟨hown, fun other hother => ?_⟩
      by_cases heq : other = name
      · exact heq ▸ hown
      · intro u hu
        obtain ⟨w, hw, hheld⟩ := hother u hu
        have hne : t.key ≠ u.key := by
          intro hkey
          exact heq (by rw [(mem_of_tagFor hreg.indexed hu).2, hname, hkey])
        refine ⟨w, hw, hheld.imp_right fun hget => ?_⟩
        exact (get?_store_of_ne state.attributes hne v).trans hget

theorem holds_foldlM {names : List Name} {state last : MergeState}
    (h : names.foldlM (mergeTagname reg s raw) state = .ok last) :
    (∀ name ∈ names, Holds reg s raw last.attributes name) ∧
      ∀ other, Holds reg s raw state.attributes other → Holds reg s raw last.attributes other := by
  induction names generalizing state with
  | nil =>
      obtain rfl := Except.ok.inj h
      exact ⟨fun _ hname => absurd hname List.not_mem_nil, fun _ hother => hother⟩
  | cons name names ih =>
      rw [List.foldlM_cons] at h
      obtain ⟨state', hstep, h⟩ := Except.bind_eq_ok_iff.mp h
      obtain ⟨hnow, hkept⟩ := holds_mergeTagname hreg hstep
      obtain ⟨hnames, hlater⟩ := ih h
      exact ⟨List.forall_mem_cons.mpr ⟨hlater name hnow, hnames⟩,
        fun other hother => hlater other (hkept other hother)⟩

theorem foldlM_of_holds (s' : Subject) (hkind : s'.kind = s.kind) (hname : s'.name = s.name)
    {attributes : Record} {names : List Name}
    (hheld : ∀ name ∈ names, Holds reg s raw attributes name) (selected : Groups) :
    ∃ last, names.foldlM (mergeTagname reg s' raw) { attributes, selected } = .ok last ∧
      last.attributes = attributes := by
  refine Except.foldlM_ok (I := fun state : MergeState => state.attributes = attributes) ?_ rfl
  intro state name hmem hstate
  rw [mergeTagname]
  cases htag : tagFor reg s'.kind name with
  | none => exact ⟨state, rfl, hstate⟩
  | some t =>
      obtain ⟨v, hmerge, hv⟩ := hheld name hmem t (hkind ▸ htag)
      have hsettles := hreg.tags t (mem_of_tagFor hreg.indexed htag).1
      have hsame : t.merge { s' with attributes := state.attributes }
          (select t (raw.doc.of name)) (raw.code.of name) = .ok v :=
        (hsettles.merge { s' with attributes := state.attributes } s _ _ hname).trans hmerge
      refine ⟨_, Except.bind_eq_ok_iff.mpr ⟨v, hsame, rfl⟩, ?_⟩
      dsimp only
      rw [hstate, store_eq_self hv]

end Values

/-! ### What the tags derive -/

theorem processTag_eq_ok {s : Subject} {selected : Groups} {outcome next : Outcome} {t : Tag}
    (h : processTag s selected outcome t = .ok next) :
    ∃ own, t.process { s with attributes := outcome.attributes } (selected.of (.text t.key)) =
        .ok own ∧
      next = { own with target := own.target <|> outcome.target } := by
  obtain ⟨own, hown, h⟩ := Except.bind_eq_ok_iff.mp h
  exact ⟨own, hown, (Except.ok.inj h).symm⟩

theorem not_mem_derivedKeys {key other : String} (hne : key ≠ other) (hkey : key ≠ "required")
    {watched : String} (h : watched ∈ watchedKeys key) (hother : other ≠ "required") :
    watched ∉ derivedKeys other := by
  have hderived : ∀ k w : String, w ∈ derivedKeys k → w = "required" ∧ k = "cfg" ∨ w = k := by
    intro k w hw
    rcases Record.mem_derivedKeys_iff.mp hw with ⟨hcfg, hrequired⟩ | ⟨-, heq⟩
    · exact Or.inl ⟨hrequired, hcfg⟩
    · exact Or.inr heq
  intro hmem
  have hfirst : watched = key ∨ watched = "required" ∧ key = "cfg" := by
    rcases List.mem_cons.mp h with rfl | hw
    · exact Or.inl rfl
    · exact (hderived key watched hw).symm
  rcases hfirst with rfl | ⟨rfl, rfl⟩ <;> rcases hderived other _ hmem with ⟨hw, rfl⟩ | hw
  · exact hkey hw
  · exact hne hw
  · exact hne rfl
  · exact hother hw.symm

section Derived

variable {tags : List Tag} {s s' : Subject} {selected selected' : Groups} {outcome last : Outcome}

theorem foldlM_processTag_frame (hsettles : ∀ t ∈ tags, t.Settles)
    (h : tags.foldlM (processTag s selected) outcome = .ok last) {other : String}
    (hother : ∀ t ∈ tags, other ∉ derivedKeys t.key) :
    Table.get? last.attributes other = Table.get? outcome.attributes other := by
  induction tags generalizing outcome with
  | nil =>
      obtain rfl := Except.ok.inj h
      rfl
  | cons t tags ih =>
      rw [List.foldlM_cons] at h
      obtain ⟨next, hstep, h⟩ := Except.bind_eq_ok_iff.mp h
      obtain ⟨hown, hsettles⟩ := List.forall_mem_cons.mp hsettles
      obtain ⟨hnot, hother⟩ := List.forall_mem_cons.mp hother
      obtain ⟨own, hprocess, rfl⟩ := processTag_eq_ok hstep
      have hlater := ih hsettles h hother
      rw [hlater]
      exact hown.process.frame _ _ own hprocess other hnot

theorem foldlM_processTag_keeps (hsettles : ∀ t ∈ tags, t.Settles)
    (h : tags.foldlM (processTag s selected) outcome = .ok last) {key : String}
    (hkey : key ≠ "required") {v : Value} (hv : Table.get? outcome.attributes key = some v) :
    Table.get? last.attributes key = some v := by
  induction tags generalizing outcome with
  | nil =>
      obtain rfl := Except.ok.inj h
      exact hv
  | cons t tags ih =>
      rw [List.foldlM_cons] at h
      obtain ⟨next, hstep, h⟩ := Except.bind_eq_ok_iff.mp h
      obtain ⟨hown, hsettles⟩ := List.forall_mem_cons.mp hsettles
      obtain ⟨own, hprocess, rfl⟩ := processTag_eq_ok hstep
      have hkept := hown.process.keeps _ _ own hprocess key v hkey hv
      exact ih hsettles h hkept

/-- Deriving attributes from where that has led before leads there again. What a tag watches is not
written by any tag behind it, so it finds what it had left. -/
theorem foldlM_processTag_again (hsettles : ∀ t ∈ tags, t.Settles)
    (hkeys : (tags.map Tag.key).Nodup) (hrequired : ∀ t ∈ tags, t.key ≠ "required")
    (h : tags.foldlM (processTag s selected) outcome = .ok last) :
    tags.foldlM (processTag s' selected') { outcome with attributes := last.attributes } =
      .ok last := by
  induction tags generalizing outcome with
  | nil =>
      obtain rfl := Except.ok.inj h
      rfl
  | cons t tags ih =>
      rw [List.foldlM_cons] at h
      obtain ⟨next, hstep, h⟩ := Except.bind_eq_ok_iff.mp h
      obtain ⟨hown, hsettles⟩ := List.forall_mem_cons.mp hsettles
      obtain ⟨hrequired, hrest⟩ := List.forall_mem_cons.mp hrequired
      obtain ⟨hnew, hkeys⟩ := List.nodup_cons.mp hkeys
      obtain ⟨own, hprocess, rfl⟩ := processTag_eq_ok hstep
      have hlater := ih hsettles hkeys hrest h
      have hwatched : ∀ other ∈ watchedKeys t.key,
          Table.get? last.attributes other = Table.get? own.attributes other := by
        intro other hother
        refine foldlM_processTag_frame hsettles h fun u hu => ?_
        have hne : t.key ≠ u.key := fun heq => hnew (heq ▸ List.mem_map_of_mem hu)
        exact not_mem_derivedKeys hne hrequired hother (hrest u hu)
      have hagain := hown.process.rests _ _ own hprocess { s' with attributes := last.attributes }
        (selected'.of (.text t.key)) hwatched
      rw [List.foldlM_cons]
      refine Except.bind_eq_ok_iff.mpr ⟨_, ?_, hlater⟩
      exact Except.bind_eq_ok_iff.mpr ⟨_, hagain, rfl⟩

end Derived

/-- Merging leaves attributes that hold the values of all names. -/
theorem holds_run {reg : Registry} (hreg : reg.Settles) {s : Subject} {raw : Occurrences}
    {outcome : Outcome} {notes : List Note} (h : run reg s raw = .ok outcome notes) :
    ∀ name ∈ raw.tagnames, Holds reg s raw outcome.attributes name := by
  obtain ⟨state, hmerge, hprocess⟩ := run_eq_ok h
  have hsettles : ∀ t ∈ reg.pluginsFor s.kind, t.Settles :=
    fun t ht => hreg.tags t (Registry.mem_of_mem_pluginsFor ht)
  intro name hname t ht
  obtain ⟨v, hv, hstored⟩ := (holds_foldlM hreg hmerge).1 name hname t ht
  have hkey := hreg.required t (mem_of_tagFor hreg.indexed ht).1
  exact ⟨v, hv, hstored.imp_right (foldlM_processTag_keeps hsettles hprocess hkey)⟩

/-- Merging over the attributes that merging has led to leads there again. -/
theorem run_again {reg : Registry} (hreg : reg.Settles) {s : Subject} {raw : Occurrences}
    {outcome : Outcome} {notes : List Note} (h : run reg s raw = .ok outcome notes)
    (position : Option SourceRef) :
    (run reg { s with position, attributes := outcome.attributes } raw).Ends (· = outcome) := by
  obtain ⟨state, hmerge, hprocess⟩ := run_eq_ok h
  have hsettles : ∀ t ∈ reg.pluginsFor s.kind, t.Settles :=
    fun t ht => hreg.tags t (Registry.mem_of_mem_pluginsFor ht)
  have hmerge' := foldlM_of_holds hreg (s := s)
    { s with position, attributes := outcome.attributes } rfl rfl (holds_run hreg h) []
  refine .seq (.forM_warn _) ?_
  refine .bind (.ofExcept hmerge') fun last hlast => .ofExcept ⟨outcome, ?_, rfl⟩
  rw [hlast]
  exact foldlM_processTag_again hsettles (Registry.nodup_keys_pluginsFor hreg.keys s.kind)
    (fun t ht => hreg.required t (Registry.mem_of_mem_pluginsFor ht)) hprocess

end Merge

/-! ### Classes and members that have been merged -/

/-- A member whose attributes are what merging its raw records over them comes to. -/
def Member.Settled (reg : Registry) (m : Member) : Prop :=
  ∀ position, (Merge.run reg { m.subject with position } m.raw).Ends
    fun outcome => outcome.attributes = m.attributes

/-- A class that merging leaves as it is, unless it is an override, and its members with it. -/
structure ClassDoc.Settled (reg : Registry) (c : ClassDoc) : Prop where
  own : c.isOverride = false → ∀ position,
    (Merge.run reg { c.subject with position } c.raw).Ends (· = { attributes := c.attributes })
  members : ∀ m ∈ c.members, m.Settled reg

section Settled

variable {reg : Registry}

theorem Member.settled_merge (hreg : reg.Settles) {m m' : Member} {notes : List Note}
    (h : m.merge reg = .ok m' notes) : m'.Settled reg := by
  obtain ⟨outcome, _, _, hrun, h⟩ := Report.bind_eq_ok h
  cases h
  intro position
  obtain ⟨again, later, hagain, rfl⟩ := Merge.run_again hreg hrun position
  exact ⟨again, later, hagain, rfl⟩

theorem ClassDoc.settled_merge (hreg : reg.Settles) {c c' : ClassDoc} {notes : List Note}
    (h : c.merge reg = .ok c' notes) : c'.Settled reg := by
  obtain ⟨outcome, _, _, hrun, h⟩ := Report.bind_eq_ok h
  obtain ⟨members, _, _, hmembers, h⟩ := Report.bind_eq_ok h
  cases h
  constructor
  · intro hplain position
    have hagain := Merge.run_again hreg hrun position
    cases htarget : outcome.target with
    | some target => simp [absorb, htarget] at hplain
    | none =>
        have houtcome : outcome = { attributes := outcome.attributes } := by
          rw [← htarget]
        rw [absorb, htarget]
        rw [houtcome] at hagain
        exact hagain
  · intro m' hm'
    obtain ⟨m, -, later, hmerge⟩ :=
      Except.exists_of_mem_right (Report.mapM_eq_ok hmembers) m' hm'
    exact Member.settled_merge hreg hmerge

theorem Member.Settled.merge_ends {m : Member} (h : m.Settled reg) :
    (m.merge reg).Ends (· = m) := by
  refine (h m.position).bind fun outcome houtcome => .pure ?_
  rw [houtcome]

theorem ClassDoc.Settled.merge_ends {c : ClassDoc} (h : c.Settled reg)
    (hplain : c.isOverride = false) : (c.merge reg).Ends (· = c) := by
  have hmembers := Report.Ends.mapM_self fun m hm => (h.members m hm).merge_ends
  refine (h.own hplain c.position).bind fun outcome houtcome => hmembers.bind fun ms hms => .pure ?_
  rw [houtcome, hms, absorb]

end Settled

end ApiPages
