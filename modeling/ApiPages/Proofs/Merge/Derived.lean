import ApiPages.Proofs.Merge.Covered
import ApiPages.Proofs.Sources

/-!
# What a member has once it is merged

A member of a kind has the values of the tags of its kind that come to something, and next to them
what some tags derive for every member of the kind: whether it is static, whether a method can be
chained and whether a config option is required. Tags of other kinds leave nothing behind.
-/

namespace ApiPages

open Record (derivedKeys mem_derivedKeys_iff)

/-! ### Values -/

theorem Tag.merge_nil : ∀ t ∈ Tag.standard, ∀ s, t.merge s [] [] = .ok .null := by
  simp only [Tag.standard, List.forall_mem_cons]
  refine ⟨?_, ?_, ?_, ?_, ?_, ?_, ?_, ?_, ?_, ?_, ?_, ?_, ?_, ?_, ?_, ?_, ?_, ?_,
    fun _ h => absurd h List.not_mem_nil⟩
  all_goals exact fun _ => rfl

/-- A record of a member that says that it is required, or nothing about that. -/
def Record.Marked (r : Record) : Prop :=
  Table.get? r "required" = none ∨ Table.get? r "required" = some (.bool true)

/-- Comments mark config options as required or do not say so. -/
theorem Comment.marked_parse {reg : Registry} (hreg : Registry.ofTags Tag.standard = .ok reg)
    (comment : String) (position : Option SourceRef) :
    (parse reg comment position).Ends fun parsed =>
      parsed.occurrences.Sound ∧ ∀ r ∈ parsed.occurrences.of (.text "cfg"), r.Marked := by
  have hset : ∀ (key : String) (r : Record) text, (key = "cfg" → r.Marked) → key = "cfg" →
      Record.Marked (Table.set r "doc" (.text text)) := by
    intro key r text h hcfg
    rw [Record.Marked, Table.get?_set, if_neg (by decide)]
    exact h hcfg
  have hread : ∀ t ∈ reg.tags, ∀ position body,
      ∀ r ∈ (t.parse position (Cursor.start body)).1.records, t.key = "cfg" → r.Marked := by
    intro t ht position body r hr hcfg
    rw [Registry.tags_ofTags hreg] at ht
    obtain rfl : t = Tag.cfg :=
      List.inj_on_of_nodup_map Tag.nodup_keys_standard ht (by simp [Tag.standard]) hcfg
    have hreads : Scan.Reads (fun y => ∀ r ∈ y.records, r.Marked) (Tag.cfg.parse position) := by
      refine Tag.reads_parseMember true _ fun type fields hfields required => ?_
      refine List.forall_mem_singleton.mpr ?_
      rw [Record.Marked, Tag.get?_required hfields]
      cases required
      · exact Or.inl rfl
      · exact Or.inr rfl
    exact (hreads (Cursor.start body)).2 r hr
  obtain ⟨parsed, notes, hparse, hsound, hmarked⟩ :=
    parse_forall (Registry.sturdy_standard hreg) (P := fun key r => key = "cfg" → r.Marked)
      hset hread comment position
  exact ⟨parsed, notes, hparse, hsound, fun r hr => hmarked "cfg" r hr rfl⟩

namespace Merge

theorem select_nil (t : Tag) : select t [] = [] := by
  rw [select]
  split
  · rfl
  · split <;> rfl

theorem head?_select {t : Tag} (h : t.keepsLast = false) (docs : List Record) :
    (select t docs).head? = docs.head? := by
  rw [select, h]
  split
  · rfl
  · cases docs <;> rfl

theorem firstOf_select {t : Tag} (h : t.keepsLast = false) (docs code : List Record) :
    Tag.firstOf (select t docs) code = (docs ++ code).head? := by
  rw [Tag.firstOf, List.head?_append, List.head?_append, head?_select h]

theorem select_eq_nil_iff (t : Tag) (docs : List Record) : select t docs = [] ↔ docs = [] := by
  constructor
  · intro h
    rw [select] at h
    split at h
    · exact h
    · split at h
      · simpa using h
      · simpa using h
  · rintro rfl
    exact select_nil t

section State

variable {reg : Registry} (hreg : Registry.ofTags Tag.standard = .ok reg) {s : Subject}
  {raw : Occurrences} {state : MergeState}
  (h : raw.tagnames.foldlM (mergeTagname reg s raw) { attributes := [] } = .ok state)
include hreg
include h

theorem get?_merged {t : Tag} (ht : t ∈ reg.pluginsFor s.kind) :
    ∃ v, valueOf s raw t = .ok v ∧ Table.get? state.attributes t.key = stored v none := by
  obtain ⟨hstandard, -⟩ := standard_of_mem_pluginsFor hreg ht
  have hsettles := Registry.settles_standard hreg
  by_cases hname : .text t.key ∈ raw.tagnames
  · have hkey : ∀ word ∈ Tag.standard.map Tag.key, word ≠ "" := by decide
    have htag := tagFor_key hreg ht (hkey _ (List.mem_map_of_mem hstandard))
    exact get?_foldlM_of_mem hsettles h hname htag
  · have hdoc := Groups.of_eq_nil fun hmem => hname (Occurrences.mem_tagnames.mpr (Or.inl hmem))
    have hcode := Groups.of_eq_nil fun hmem => hname (Occurrences.mem_tagnames.mpr (Or.inr hmem))
    refine ⟨.null, ?_, ?_⟩
    · rw [valueOf, hdoc, hcode, select_nil]
      exact Tag.merge_nil t hstandard s
    · exact get?_foldlM_of_unclaimed hsettles h fun hmem => absurd hmem hname

theorem get?_merged_of_foreign {key : String}
    (hkey : ∀ t ∈ reg.pluginsFor s.kind, t.key ≠ key) : Table.get? state.attributes key = none := by
  refine get?_foldlM_of_unclaimed (Registry.settles_standard hreg) h fun _ => ?_
  rw [Option.eq_none_iff_forall_ne_some]
  intro t htag
  have hname := (mem_of_tagFor (Registry.indexed_ofTags hreg) htag).2
  exact hkey t ((tagFor_eq_some_iff hreg).mp htag).1 (Name.text.inj hname).symm

end State

/-! ### Derived attributes -/

/-- A tag derives attributes from where the tags before it have come, and what it derives the tags
behind it leave alone. -/
theorem foldlM_processTag_of_mem {tags : List Tag} (hsettles : ∀ t ∈ tags, t.Settles)
    (hkeys : (tags.map Tag.key).Nodup) {s : Subject} {selected : Groups} {outcome last : Outcome}
    (h : tags.foldlM (processTag s selected) outcome = .ok last) {t : Tag} (ht : t ∈ tags) :
    ∃ before own,
      t.process { s with attributes := before } (selected.of (.text t.key)) = .ok own ∧
      ∀ key, (∀ u ∈ tags, key ∈ derivedKeys u.key → u.key = t.key) →
        Table.get? before key = Table.get? outcome.attributes key ∧
        Table.get? last.attributes key = Table.get? own.attributes key := by
  obtain ⟨front, back, rfl⟩ := List.append_of_mem ht
  obtain ⟨hfront, hrest⟩ := List.forall_mem_append.mp hsettles
  obtain ⟨-, hback⟩ := List.forall_mem_cons.mp hrest
  rw [List.map_append, List.map_cons] at hkeys
  obtain ⟨-, hkeysBack, hapart⟩ := List.nodup_append.mp hkeys
  rw [List.foldlM_append, Except.bind_eq_ok_iff] at h
  obtain ⟨before, hbefore, h⟩ := h
  rw [List.foldlM_cons] at h
  obtain ⟨next, hstep, h⟩ := Except.bind_eq_ok_iff.mp h
  obtain ⟨own, hown, rfl⟩ := processTag_eq_ok hstep
  refine ⟨before.attributes, own, hown, fun key hkey => ⟨?_, ?_⟩⟩
  · refine foldlM_processTag_frame hfront hbefore fun u hu hmem => ?_
    have heq := hkey u (List.mem_append_left _ hu) hmem
    exact hapart u.key (List.mem_map_of_mem hu) t.key List.mem_cons_self heq
  · refine foldlM_processTag_frame hback h fun u hu hmem => ?_
    have heq := hkey u (List.mem_append_right _ (List.mem_cons_of_mem t hu)) hmem
    exact (List.nodup_cons.mp hkeysBack).1 (heq ▸ List.mem_map_of_mem hu)

/-! ### What the tags of members derive -/

theorem stored_of_ne_null {v : Value} (hne : v ≠ .null) (before : Option Value) :
    stored v before = some v := by
  cases v with
  | null => exact absurd rfl hne
  | _ => rfl

theorem optional_of_stored {attributes : Record} {key : String} {v : Value}
    (h : Table.get? attributes key = stored v none) : Record.optional attributes key = v := by
  rw [Record.optional, h]
  cases v <;> rfl

theorem derivedKeys_of_covers (kind : MemberKind) : ∀ t ∈ Tag.standard,
    t.covers (.member kind) = true → ∀ key ∈ derivedKeys t.key,
      key = "static" ∨ (key = "chainable" ∧ kind = .method) ∨ (key = "required" ∧ kind = .cfg) := by
  cases kind <;> decide

/-- A config option is required if one of its records says so. -/
theorem required_mergeMember (hasDefault : Bool) (s : Subject) (docs code : List Record) :
    (Tag.mergeMember hasDefault true s docs code).optionalIn "required" = .ok
      (match Tag.firstOf docs code with
        | none => .null
        | some _ => .bool ((docs ++ code).any fun r => (Record.optional r "required").truthy)) := by
  rw [Tag.mergeMember]
  cases Tag.firstOf docs code with
  | none => rfl
  | some r =>
      change Except.ok (Record.optional (_ ++ _ ++ [_]) "required") = _
      rw [Record.optional, Table.get?_append, Table.get?_append]
      cases hasDefault with
      | false => rfl
      | true =>
          generalize Tag.memberDefault r (Tag.fallback docs code) = default
          cases default <;> rfl

theorem isText_or {v : Value} {s t : String} (hs : s ≠ "") (hne : t ≠ s) :
    (v.or (.text t)).isText s = true ↔ v = .text s := by
  rw [Value.or]
  split
  · cases v <;> simp [Value.isText]
  · rename_i hfalsy
    constructor
    · intro h
      exact absurd (beq_iff_eq.mp h) hne
    · rintro rfl
      exact absurd (bne_iff_ne.mpr hs) hfalsy

/-- Methods return themselves if their first record says so. -/
theorem isText_this_of_returned {s : Subject} {docs : Groups} {v type : Value}
    (hv : valueOf s { doc := docs } Tag.returned = .ok v) (htype : v.optionalIn "type" = .ok type) :
    type.isText "this" = true ↔ ∃ r, (docs.of (.text "return")).head? = some r ∧
      Table.get? r "type" = some (.text "this") := by
  have hfirst : Tag.firstOf (select Tag.returned (docs.of (.text "return"))) [] =
      (docs.of (.text "return")).head? := by
    rw [firstOf_select rfl, List.append_nil]
  replace hv : (match Tag.firstOf (select Tag.returned (docs.of (.text "return"))) [] with
      | none => Except.ok Value.null
      | some r => .ok (.record [("type", (Record.optional r "type").or (.text "Object")),
          ("doc", (Record.optional r "doc").or (.text ""))])) = .ok v := hv
  rw [hfirst] at hv
  cases hhead : (docs.of (.text "return")).head? with
  | none =>
      rw [hhead] at hv
      obtain rfl := Except.ok.inj hv
      obtain rfl := Except.ok.inj htype
      simp [Value.isText]
  | some r =>
      rw [hhead] at hv
      obtain rfl := Except.ok.inj hv
      obtain rfl : (Record.optional r "type").or (.text "Object") = type := Except.ok.inj htype
      rw [isText_or (by decide) (by decide)]
      have hoptional : Record.optional r "type" = .text "this" ↔
          Table.get? r "type" = some (.text "this") := by
        rw [Record.optional]
        cases Table.get? r "type" <;> simp
      simp [hoptional]

section Member

variable {reg : Registry} (hreg : Registry.ofTags Tag.standard = .ok reg) {s : Subject}
include hreg

theorem exists_process_of_mem {state : MergeState} {last : Outcome}
    (hprocess : (reg.pluginsFor s.kind).foldlM (processTag s state.selected)
      { attributes := state.attributes } = .ok last) {t : Tag} (ht : t ∈ reg.pluginsFor s.kind) :
    ∃ before own docs', t.process { s with attributes := before } docs' = .ok own ∧
      ∀ key, (∀ u ∈ Tag.standard, key ∈ derivedKeys u.key → u.key = t.key) →
        Table.get? before key = Table.get? state.attributes key ∧
        Table.get? last.attributes key = Table.get? own.attributes key := by
  have hsettles := Registry.settles_standard hreg
  obtain ⟨before, own, hown, hkeys⟩ := foldlM_processTag_of_mem
    (fun u hu => hsettles.tags u (Registry.mem_of_mem_pluginsFor hu))
    (Registry.nodup_keys_pluginsFor hsettles.keys s.kind) hprocess ht
  exact ⟨before, own, _, hown, fun key hkey => hkeys key fun u hu =>
    hkey u (standard_of_mem_pluginsFor hreg hu).1⟩

variable {docs : Groups} {state : MergeState}
  (hmerge : (Occurrences.tagnames { doc := docs }).foldlM (mergeTagname reg s { doc := docs })
    { attributes := [] } = .ok state)
include hmerge

theorem exists_merged_iff {kind : MemberKind} (hkind : s.kind = .member kind) {key : String} :
    (∃ w, Table.get? state.attributes key = some w) ↔
      ∃ t ∈ Tag.standard, t.key = key ∧ t.covers (.member kind) = true ∧
        docs.of (.text key) ≠ [] ∧ ∃ v, valueOf s { doc := docs } t = .ok v ∧ v ≠ .null := by
  constructor
  · rintro ⟨w, hw⟩
    have howned : ∃ t ∈ reg.pluginsFor s.kind, t.key = key := by
      by_contra hnone
      push Not at hnone
      rw [get?_merged_of_foreign hreg hmerge hnone] at hw
      cases hw
    obtain ⟨t, ht, rfl⟩ := howned
    obtain ⟨hstandard, hcovers⟩ := standard_of_mem_pluginsFor hreg ht
    obtain ⟨v, hv, hstate⟩ := get?_merged hreg hmerge ht
    have hne : v ≠ .null := by
      rintro rfl
      rw [hstate] at hw
      cases hw
    refine ⟨t, hstandard, rfl, hkind ▸ hcovers, fun hdocs => ?_, v, hv, hne⟩
    have hnil : valueOf s { doc := docs } t = .ok .null := by
      rw [valueOf, hdocs, select_nil]
      exact Tag.merge_nil t hstandard s
    exact hne (Except.ok.inj (hv.symm.trans hnil))
  · rintro ⟨t, hstandard, rfl, hcovers, -, v, hv, hne⟩
    obtain ⟨w, hw, hstate⟩ := get?_merged hreg hmerge
      (mem_pluginsFor_of_standard hreg hstandard (hkind ▸ hcovers))
    cases hv.symm.trans hw
    exact ⟨v, hstate.trans (stored_of_ne_null hne none)⟩

theorem get?_flag {t : Tag} (ht : t ∈ reg.pluginsFor s.kind)
    (hflag : t.merge = fun _ docs code =>
      .ok (if docs.isEmpty && code.isEmpty then .null else .bool true)) :
    Table.get? state.attributes t.key =
      if (docs.of (.text t.key)).isEmpty then none else some (.bool true) := by
  obtain ⟨v, hv, hget⟩ := get?_merged hreg hmerge ht
  have hvalue : v = if (select t (docs.of (.text t.key))).isEmpty then .null else .bool true := by
    rw [valueOf, hflag] at hv
    have hcode : Groups.of ([] : Groups) (.text t.key) = [] := rfl
    simpa [hcode] using (Except.ok.inj hv).symm
  rw [hget, hvalue]
  simp only [List.isEmpty_iff, select_eq_nil_iff]
  split <;> rfl

variable {last : Outcome}
  (hprocess : (reg.pluginsFor s.kind).foldlM (processTag s state.selected)
    { attributes := state.attributes } = .ok last)
include hprocess

theorem get?_static (hstatic : Tag.staticFlag ∈ reg.pluginsFor s.kind) :
    ∃ b, Table.get? last.attributes "static" = some (.bool b) ∧
      (b = true ↔ docs.of (.text "static") ≠ []) := by
  have hflag : Table.get? state.attributes "static" =
      if (docs.of (.text "static")).isEmpty then none else some (.bool true) :=
    get?_flag hreg hmerge hstatic rfl
  obtain ⟨before, own, _, hown, hkeys⟩ := exists_process_of_mem hreg hprocess hstatic
  obtain ⟨hbefore, hlast⟩ := hkeys "static" (by decide)
  obtain rfl := Except.ok.inj hown
  rw [hlast]
  dsimp only
  by_cases hdocs : docs.of (.text "static") = []
  · rw [hdocs, List.isEmpty_nil, if_pos rfl] at hflag
    rw [Table.contains, hbefore, hflag, Option.isSome_none, if_neg Bool.false_ne_true,
      Table.get?_set, if_pos rfl]
    exact ⟨false, rfl, by simp [hdocs]⟩
  · rw [if_neg (by simpa using hdocs)] at hflag
    rw [Table.contains, hbefore, hflag, Option.isSome_some, if_pos rfl, hbefore, hflag]
    exact ⟨true, rfl, by simp [hdocs]⟩

/-- A method can be chained if it says so, or if it says that it returns itself. -/
theorem get?_chainable (hchainable : Tag.chainable ∈ reg.pluginsFor s.kind)
    (hreturned : Tag.returned ∈ reg.pluginsFor s.kind) :
    ∃ b, Table.get? last.attributes "chainable" = some (.bool b) ∧
      (b = true ↔ docs.of (.text "chainable") ≠ [] ∨
        ∃ r, (docs.of (.text "return")).head? = some r ∧
          Table.get? r "type" = some (.text "this")) := by
  have hflag : Table.get? state.attributes "chainable" =
      if (docs.of (.text "chainable")).isEmpty then none else some (.bool true) :=
    get?_flag hreg hmerge hchainable rfl
  obtain ⟨before, own, _, hown, hkeys⟩ := exists_process_of_mem hreg hprocess hchainable
  obtain ⟨hbefore, hlast⟩ := hkeys "chainable" (by decide)
  obtain ⟨hbeforeReturn, -⟩ := hkeys "return" (by decide)
  rw [hlast]
  simp only [Tag.chainable] at hown
  by_cases hdocs : docs.of (.text "chainable") = []
  · rw [hdocs, List.isEmpty_nil, if_pos rfl] at hflag
    rw [Table.contains, hbefore, hflag, Option.isSome_none, if_neg Bool.false_ne_true] at hown
    obtain ⟨type, htype, hown⟩ := Except.bind_eq_ok_iff.mp hown
    obtain rfl := Except.ok.inj hown
    obtain ⟨v, hv, hstate⟩ := get?_merged hreg hmerge hreturned
    rw [optional_of_stored (hbeforeReturn.trans hstate)] at htype
    refine ⟨type.isText "this", by rw [Table.get?_set, if_pos rfl], ?_⟩
    rw [isText_this_of_returned hv htype]
    exact (or_iff_right (not_not_intro hdocs)).symm
  · rw [if_neg (by simpa using hdocs)] at hflag
    rw [Table.contains, hbefore, hflag, Option.isSome_some, if_pos rfl] at hown
    obtain rfl := Except.ok.inj hown
    exact ⟨true, hbefore.trans hflag, by simp [hdocs]⟩

/-- A config option is required if its first record says so. -/
theorem get?_cfg_required (hcfg : Tag.cfg ∈ reg.pluginsFor s.kind)
    (hmarked : ∀ r ∈ docs.of (.text "cfg"), r.Marked) :
    ∃ b, Table.get? last.attributes "required" = some (.bool b) ∧
      (b = true ↔ ∃ r, (docs.of (.text "cfg")).head? = some r ∧
        Table.get? r "required" = some (.bool true)) := by
  obtain ⟨before, own, _, hown, hkeys⟩ := exists_process_of_mem hreg hprocess hcfg
  obtain ⟨hbefore, -⟩ := hkeys "cfg" (by decide)
  obtain ⟨-, hlast⟩ := hkeys "required" (by decide)
  obtain ⟨v, hv, hstate⟩ := get?_merged hreg hmerge hcfg
  obtain ⟨required, hrequired, hown⟩ := Except.bind_eq_ok_iff.mp hown
  obtain rfl := Except.ok.inj hown
  have hvalue := optional_of_stored (hbefore.trans hstate)
  obtain rfl : Tag.mergeMember true true s (docs.of (.text "cfg")).head?.toList [] = v :=
    Except.ok.inj hv
  rw [hvalue, required_mergeMember, Tag.firstOf, List.append_nil] at hrequired
  rw [hlast, Table.get?_set, if_pos rfl]
  refine ⟨required.truthy, rfl, ?_⟩
  cases hhead : (docs.of (.text "cfg")).head? with
  | none =>
      rw [hhead] at hrequired
      obtain rfl := Except.ok.inj hrequired
      simp [Value.truthy]
  | some r =>
      rw [hhead] at hrequired
      obtain rfl := Except.ok.inj hrequired
      have hfield : (Record.optional r "required").truthy = true ↔
          Table.get? r "required" = some (.bool true) := by
        rcases hmarked r (List.mem_of_head? hhead) with hnone | hsome
        · simp [Record.optional, hnone, Value.truthy]
        · simp [Record.optional, hsome, Value.truthy]
      simpa [Value.truthy] using hfield

theorem mem_keys_iff {kind : MemberKind} (hkind : s.kind = .member kind)
    (hderived : ∀ key, key = "static" ∨ (key = "chainable" ∧ kind = .method) ∨
      (key = "required" ∧ kind = .cfg) → ∃ v, Table.get? last.attributes key = some v)
    (key : String) :
    key ∈ Table.keys last.attributes ↔
      (∃ t ∈ Tag.standard, t.key = key ∧ t.covers (.member kind) = true ∧
        docs.of (.text key) ≠ [] ∧ ∃ v, valueOf s { doc := docs } t = .ok v ∧ v ≠ .null) ∨
      key = "static" ∨ (key = "chainable" ∧ kind = .method) ∨
        (key = "required" ∧ kind = .cfg) := by
  rw [← Table.contains_iff_mem_keys, Table.contains, Option.isSome_iff_exists]
  by_cases hkey : key = "static" ∨ (key = "chainable" ∧ kind = .method) ∨
      (key = "required" ∧ kind = .cfg)
  · exact ⟨fun _ => Or.inr hkey, fun _ => hderived key hkey⟩
  · have hsettles := Registry.settles_standard hreg
    have htags : ∀ u ∈ reg.pluginsFor s.kind, u.Settles := fun u hu =>
      hsettles.tags u (Registry.mem_of_mem_pluginsFor hu)
    have hframe : Table.get? last.attributes key = Table.get? state.attributes key := by
      refine foldlM_processTag_frame htags hprocess fun u hu hmem => ?_
      obtain ⟨hstandard, hcovers⟩ := standard_of_mem_pluginsFor hreg hu
      exact hkey (derivedKeys_of_covers kind u hstandard (hkind ▸ hcovers) key hmem)
    rw [hframe, exists_merged_iff hreg hmerge hkind, or_iff_left hkey]

end Member

/-! ### Members of a comment -/

/-- The attributes of a member that had none before the records of a comment were merged: the values
of the tags of its kind, and what is said of every member of the kind. -/
structure FromComment (s : Subject) (kind : MemberKind) (docs : Groups) (attributes : Record) :
    Prop where
  keys : ∀ key, key ∈ Table.keys attributes ↔
    (∃ t ∈ Tag.standard, t.key = key ∧ t.covers (.member kind) = true ∧
      docs.of (.text key) ≠ [] ∧ ∃ v, valueOf s { doc := docs } t = .ok v ∧ v ≠ .null) ∨
    key = "static" ∨ (key = "chainable" ∧ kind = .method) ∨ (key = "required" ∧ kind = .cfg)
  values : ∀ t ∈ Tag.standard, t.covers (.member kind) = true → ∃ v,
    valueOf s { doc := docs } t = .ok v ∧
      (v ≠ .null → Table.get? attributes t.key = some v)
  static : ∃ b, Table.get? attributes "static" = some (.bool b) ∧
    (b = true ↔ docs.of (.text "static") ≠ [])
  chainable : kind = .method → ∃ b, Table.get? attributes "chainable" = some (.bool b) ∧
    (b = true ↔ docs.of (.text "chainable") ≠ [] ∨
      ∃ r, (docs.of (.text "return")).head? = some r ∧ Table.get? r "type" = some (.text "this"))
  required : kind = .cfg → ∃ b, Table.get? attributes "required" = some (.bool b) ∧
    (b = true ↔ ∃ r, (docs.of (.text "cfg")).head? = some r ∧
      Table.get? r "required" = some (.bool true))
  foreign : ∀ t ∈ Tag.standard, t.covers (.member kind) = false → t.key ∉ Table.keys attributes

theorem fromComment_of_run {reg : Registry} (hreg : Registry.ofTags Tag.standard = .ok reg)
    {s : Subject} {kind : MemberKind} (hkind : s.kind = .member kind) (hempty : s.attributes = [])
    {docs : Groups} (hmarked : ∀ r ∈ docs.of (.text "cfg"), r.Marked) {outcome : Outcome}
    {notes : List Note} (h : run reg s { doc := docs } = .ok outcome notes) :
    FromComment s kind docs outcome.attributes := by
  obtain ⟨state, hmerge, hprocess⟩ := run_eq_ok h
  rw [hempty] at hmerge
  have hplugin : ∀ {t : Tag}, t ∈ Tag.standard → t.covers (.member kind) = true →
      t ∈ reg.pluginsFor s.kind := fun ht hcovers =>
    mem_pluginsFor_of_standard hreg ht (hkind ▸ hcovers)
  have hstatic := get?_static hreg hmerge hprocess
    (hplugin (by simp [Tag.standard]) (by cases kind <;> rfl))
  have hchainable : kind = .method → _ := fun hmethod =>
    get?_chainable hreg hmerge hprocess (hplugin (by simp [Tag.standard]) (by rw [hmethod]; rfl))
      (hplugin (by simp [Tag.standard]) (by rw [hmethod]; rfl))
  have hrequired : kind = .cfg → _ := fun hcfg =>
    get?_cfg_required hreg hmerge hprocess (hplugin (by simp [Tag.standard]) (by rw [hcfg]; rfl))
      hmarked
  have hkeys := mem_keys_iff hreg hmerge hprocess hkind (by
    rintro key (rfl | ⟨rfl, hmethod⟩ | ⟨rfl, hcfg⟩)
    · exact hstatic.imp' _ fun _ hb => hb.1
    · exact (hchainable hmethod).imp' _ fun _ hb => hb.1
    · exact (hrequired hcfg).imp' _ fun _ hb => hb.1)
  refine ⟨hkeys, fun t ht hcovers => ?_, hstatic, hchainable, hrequired, fun t ht hforeign => ?_⟩
  · obtain ⟨v, hv, hstate⟩ := get?_merged hreg hmerge (hplugin ht hcovers)
    refine ⟨v, hv, fun hne => ?_⟩
    have hsettles := Registry.settles_standard hreg
    refine foldlM_processTag_keeps
      (fun u hu => hsettles.tags u (Registry.mem_of_mem_pluginsFor hu)) hprocess
      (Tag.key_ne_required ht) ?_
    exact hstate.trans (stored_of_ne_null hne none)
  · rw [hkeys]
    rintro (⟨u, hu, hkey, hcovers, -⟩ | hderived)
    · obtain rfl := List.inj_on_of_nodup_map Tag.nodup_keys_standard hu ht hkey
      rw [hforeign] at hcovers
      cases hcovers
    · have hall : ∀ u ∈ Tag.standard, u.covers (.member kind) = false →
          ¬ (u.key = "static" ∨ (u.key = "chainable" ∧ kind = .method) ∨
            (u.key = "required" ∧ kind = .cfg)) := by
        cases kind <;> decide
      exact hall t ht hforeign hderived

end Merge

/-- **What a member has once it is merged.** Every comment can be read and its records merged into a
member without attributes. The member then has the values of the tags of its kind that come to
something, next to what is derived for every member of the kind. Tags of other kinds leave no trace:
without their records merging comes to the same. -/
theorem Member.merge_comment {reg : Registry} (hreg : Registry.ofTags Tag.standard = .ok reg)
    (m : Member) (hempty : m.attributes = []) (comment : String) (position : Option SourceRef) :
    ∃ parsed told m' notes, Comment.parse reg comment position = .ok parsed told ∧
      Member.merge reg { m with raw := { doc := parsed.occurrences } } = .ok m' notes ∧
      Merge.FromComment m.subject m.kind parsed.occurrences m'.attributes ∧
      ∃ m'' notes', Member.merge reg
          { m with raw := Merge.covered reg (.member m.kind) { doc := parsed.occurrences } } =
            .ok m'' notes' ∧
        m''.attributes = m'.attributes := by
  obtain ⟨parsed, told, hparse, hsound, hmarked⟩ := Comment.marked_parse hreg comment position
  have hformed : m.subject.attributes.Formed := by
    change m.attributes.Formed
    rw [hempty]
    exact .nil
  have hraw : Occurrences.Sound { doc := parsed.occurrences } := ⟨hsound, Groups.sound_nil⟩
  obtain ⟨outcome, notes, hrun, -⟩ := Merge.run_ends (Registry.sturdy_standard hreg) hformed hraw
  obtain ⟨notes', hrun'⟩ := Merge.run_covered reg hrun
  have hmerge : ∀ {raw : Occurrences} {notes : List Note},
      Merge.run reg m.subject raw = .ok outcome notes →
      ∃ notes, Member.merge reg { m with raw := raw } =
        .ok { m with raw := raw, attributes := outcome.attributes } notes := by
    intro raw notes hrun
    have hends : (Member.merge reg { m with raw := raw }).Ends
        (· = { m with raw := raw, attributes := outcome.attributes }) :=
      .bind (P := (· = outcome)) ⟨outcome, notes, hrun, rfl⟩ fun _ h => .pure (by rw [h])
    obtain ⟨_, notes, hmerge, rfl⟩ := hends
    exact ⟨notes, hmerge⟩
  obtain ⟨notes, hm⟩ := hmerge hrun
  obtain ⟨notes', hm'⟩ := hmerge hrun'
  exact ⟨parsed, told, _, notes, hparse, hm,
    Merge.fromComment_of_run hreg rfl hempty hmarked hrun, _, notes', hm', rfl⟩

/-- A config option that nothing is known of yet. -/
def titleOption : Member :=
  { id := "cfg-title", owner := "Panel", kind := .cfg, name := "title" }

theorem title_merge_comment : ∃ reg, Registry.ofTags Tag.standard = .ok reg ∧
    titleOption.attributes = [] ∧ ∃ parsed told m' notes,
      Comment.parse reg "/** @cfg \x7bString\x7d title (required) @since 2.0 @chainable */" none =
        .ok parsed told ∧
      Member.merge reg { titleOption with raw := { doc := parsed.occurrences } } = .ok m' notes ∧
      Merge.FromComment titleOption.subject .cfg parsed.occurrences m'.attributes := by
  obtain ⟨reg, hreg⟩ : ∃ reg, Registry.ofTags Tag.standard = .ok reg := ⟨_, rfl⟩
  obtain ⟨parsed, told, m', notes, hparse, hmerge, hfrom, -⟩ := Member.merge_comment hreg
    titleOption rfl "/** @cfg \x7bString\x7d title (required) @since 2.0 @chainable */" none
  exact ⟨reg, hreg, rfl, parsed, told, m', notes, hparse, hmerge, hfrom⟩

end ApiPages
