import ApiPages.Proofs.Except
import ApiPages.Proofs.Tag.Reading

/-!
# Sturdy tags

A tag is sturdy if none of its stages fails on what the stages before it hand on: it merges sound
records, derives attributes from formed ones, and formats and shows a value that fits. All standard
tags are.
-/

namespace ApiPages.Tag

open Record (Sound Formed)

/-- A step that ends well on formed attributes. -/
def Derives (process : Subject → List Record → Except Fault Outcome) : Prop :=
  ∀ s docs, Formed s.attributes → ∃ outcome, process s docs = .ok outcome ∧ outcome.Formed

/-- A tag whose stages rely on no more than the stages before them give. -/
structure Sturdy (t : Tag) : Prop where
  parse : ∀ position, Scan.Reads (AllSound t.key) (t.parse position)
  declare : ∀ v, AllSound t.key (t.declare v)
  declarationDefault : ∀ r, t.declarationDefault = some r → Sound t.key r
  merge : ∀ s docs code, (∀ r ∈ docs ++ code, Sound t.key r) →
    ∃ v, t.merge s docs code = .ok v ∧ (v = .null ∨ v.Fits t.key)
  process : Derives t.process
  format : ∀ f v, v.Fits t.key → ∃ v', t.format f v = (v', none) ∧ v'.Fits t.key
  html : ∀ kind v, v = .null ∨ v.Fits t.key → ∃ html, t.html kind v = .ok html

theorem derives_nothing : Derives fun s _ => .ok { attributes := s.attributes } :=
  fun _ _ h => ⟨_, rfl, .of_attributes h⟩

/-- A sturdy tag stays sturdy when it is moved on the page and derives other attributes. -/
theorem Sturdy.withProcess {t : Tag} (h : t.Sturdy) (position : Option Number)
    {process : Subject → List Record → Except Fault Outcome} (hprocess : Derives process) :
    Sturdy { t with position, process } where
  parse := h.parse
  declare := h.declare
  declarationDefault := h.declarationDefault
  merge := h.merge
  process := hprocess
  format := h.format
  html := h.html

/-! ### Flags -/

theorem sturdy_plainFlag (name : String) (hneeded : Record.neededFields name = [])
    (hfits : ∀ v : Value, v.Fits name) (scope : List String) : (plainFlag name scope).Sturdy where
  parse _ := .pure (.one (sound_bare hneeded))
  declare _ := .nothing
  declarationDefault := nofun
  merge _ _ _ _ := ⟨_, rfl, Or.inr (hfits _)⟩
  process := derives_nothing
  format _ v _ := ⟨v, rfl, hfits v⟩
  html _ _ _ := ⟨_, rfl⟩

theorem derives_staticFlag : Derives staticFlag.process := by
  intro s docs h
  refine ⟨_, rfl, .of_attributes ?_⟩
  split
  · exact h
  · exact h.set trivial

theorem derives_chainable : Derives chainable.process := by
  intro s docs h
  obtain ⟨type, htype⟩ :=
    Value.optionalIn_ok ((h.optional "return").imp_right Value.Documented.isRecord) "type"
  simp only [chainable, htype]
  split
  · exact ⟨_, rfl, .of_attributes h⟩
  · exact ⟨_, rfl, .of_attributes (h.set trivial)⟩

theorem sturdy_staticFlag : staticFlag.Sturdy :=
  (sturdy_plainFlag "static" rfl (fun _ => trivial) ["member"]).withProcess _ derives_staticFlag

theorem sturdy_chainable : chainable.Sturdy :=
  (sturdy_plainFlag "chainable" rfl (fun _ => trivial) ["method"]).withProcess _ derives_chainable

/-! ### History -/

theorem sturdy_since : since.Sturdy where
  parse := reads_since
  declare _ := .nothing
  declarationDefault := nofun
  merge s docs code h := by
    cases docs with
    | nil => exact ⟨.null, rfl, Or.inl rfl⟩
    | cons r docs =>
        obtain ⟨version, hversion⟩ := (h r List.mem_cons_self).needed "version" (by decide)
        refine ⟨version.or .null, ?_, Or.inr trivial⟩
        simp only [since, hversion]
        rfl
  process := derives_nothing
  format _ v _ := ⟨v, rfl, trivial⟩
  html _ _ _ := ⟨_, rfl⟩

theorem deprecatedFormat_ok (f : Formatter) {v : Value} (h : v.Documented [] "text") :
    ∃ v', deprecatedFormat f v = (v', none) ∧ v'.Documented [] "text" := by
  obtain ⟨s, hs⟩ := h.required_key
  rw [deprecatedFormat]
  split
  · simp only [hs]
    split
    · exact h.formatField (by decide) f
    · exact ⟨v, rfl, h⟩
  · exact ⟨v, rfl, h⟩

theorem deprecatedHtml_ok (kind : Kind) {v : Value} (h : v = .null ∨ v.Documented [] "text") :
    ∃ html, deprecatedHtml kind v = .ok html := by
  rcases h with rfl | h
  · exact ⟨none, rfl⟩
  · obtain ⟨version, hversion⟩ := h.optional "version"
    obtain ⟨html, hhtml⟩ := h.htmlOf
    rw [deprecatedHtml, hversion, hhtml]
    split
    · exact ⟨_, rfl⟩
    · exact ⟨_, rfl⟩

theorem sturdy_deprecated : deprecated.Sturdy where
  parse := reads_deprecated
  declare _ := .nothing
  declarationDefault := nofun
  merge s docs code h := by
    cases docs with
    | nil => exact ⟨.null, rfl, Or.inl rfl⟩
    | cons r docs =>
        have hwritten := (h r List.mem_cons_self).doc
        refine ⟨_, rfl, Or.inr (Value.Documented.of_or hwritten ?_ rfl)⟩
        exact fun _ hfield => absurd hfield List.not_mem_nil
  process := derives_nothing
  format f _ h := deprecatedFormat_ok f h
  html kind _ h := deprecatedHtml_ok kind h

/-! ### Signatures -/

abbrev IsParam (v : Value) : Prop :=
  v.Documented ["optional", "name", "type"] "doc"

theorem isParam_cleanParam {r : Record} (h : Sound "params" r) :
    IsParam (.record (cleanParam r)) := by
  refine .of_or h.doc ?_ rfl
  simp [cleanParam, Record.required, Table.get?]

theorem isParam_documentedParam (code : List Record) {r : Record} (h : Sound "params" r) :
    IsParam (.record (documentedParam code r)) := by
  have hclean := isParam_cleanParam h
  rw [documentedParam]
  split
  · exact hclean
  · split
    · exact hclean
    · obtain ⟨clean, hr, hneeded, s, hs⟩ := hclean
      cases hr
      refine ⟨_, rfl, fun field hfield => ?_, s, ?_⟩
      · obtain ⟨w, hw⟩ := hneeded field hfield
        exact Record.required_set hw
      · rw [Table.get?_set, if_neg (by decide)]
        exact hs

theorem mergeParams_ok {docs code : List Record} (h : ∀ r ∈ docs ++ code, Sound "params" r) :
    ∃ v, mergeParams docs code = .ok v ∧ (v = .null ∨ v.Fits "params") := by
  have hall : ∀ {rs : List Record} {f : Record → Record}, (∀ r ∈ rs, IsParam (.record (f r))) →
      Value.Fits "params" (.list (rs.map fun r => .record (f r))) := by
    intro rs f hrs
    refine ⟨_, rfl, fun item hitem => ?_⟩
    obtain ⟨r, hr, rfl⟩ := List.mem_map.mp hitem
    exact hrs r hr
  rw [mergeParams]
  split
  · split
    · exact ⟨.null, rfl, Or.inl rfl⟩
    · refine ⟨_, rfl, Or.inr (hall fun r hr => ?_)⟩
      exact isParam_cleanParam (h r (List.mem_append_right _ hr))
  · have hnames : ((code ++ docs).all fun r => (Record.optional r "name").canName) = true := by
      rw [List.all_eq_true]
      intro r hr
      exact (h r (List.mem_append.mpr (List.mem_append.mp hr).symm)).name.canName
    rw [if_pos hnames]
    refine ⟨_, rfl, Or.inr (hall fun r hr => ?_)⟩
    exact isParam_documentedParam code (h r (List.mem_append_left _ hr))

theorem formatAll_ok (f : Formatter) {fields : List String} {v : Value}
    (h : v.AllDocumented fields "doc") :
    ∃ v', formatAll f v = (v', none) ∧ v'.AllDocumented fields "doc" := by
  obtain ⟨items, rfl, hitems⟩ := h
  obtain ⟨done, hdone, hall⟩ := Value.formatItems_ok (by decide) f hitems
  refine ⟨.list done, ?_, done, rfl, hall⟩
  rw [formatAll, hdone]

theorem paramHtml_ok {v : Value} (h : IsParam v) : ∃ html, paramHtml v = .ok html := by
  obtain ⟨optional, hoptional⟩ := h.required "optional" (by decide)
  obtain ⟨default, hdefault⟩ := h.optional "default"
  obtain ⟨name, hname⟩ := h.required "name" (by decide)
  obtain ⟨type, htype⟩ := h.required "type" (by decide)
  obtain ⟨html, hhtml⟩ := h.htmlOf
  rw [paramHtml, hoptional, hdefault, hname, htype, hhtml]
  exact ⟨_, rfl⟩

theorem itemsHtml_ok {fields : List String} {key : String} {v : Value}
    (h : v = .null ∨ v.AllDocumented fields key) {f : Value → Except Fault String}
    (hf : ∀ item : Value, item.Documented fields key → ∃ html, f item = .ok html) :
    ∃ items htmls, itemsOf v = .ok items ∧ items.mapM f = .ok htmls := by
  rcases h with rfl | ⟨items, rfl, hitems⟩
  · exact ⟨[], [], rfl, rfl⟩
  · have heach : ∀ item ∈ items, ∃ html, f item = .ok html ∧ True := by
      intro item hitem
      obtain ⟨html, hhtml⟩ := hf item (hitems item hitem)
      exact ⟨html, hhtml, trivial⟩
    obtain ⟨htmls, hhtmls, -⟩ := Except.mapM_ok_forall heach
    exact ⟨items, htmls, rfl, hhtmls⟩

theorem sturdy_param : param.Sturdy where
  parse _ := reads_parseParam
  declare _ := .nothing
  declarationDefault := nofun
  merge _ _ _ h := mergeParams_ok h
  process := derives_nothing
  format f _ h := formatAll_ok f h
  html _ v h := by
    obtain ⟨items, htmls, hitems, hhtmls⟩ := itemsHtml_ok h fun _ => paramHtml_ok
    exact Except.bind_ok hitems (Except.bind_ok hhtmls ⟨_, rfl⟩)

theorem returnHtml_ok {v : Value} (h : v = .null ∨ v.Documented ["type"] "doc") :
    ∃ html, returnHtml v = .ok html := by
  rcases h with rfl | h
  · exact ⟨none, rfl⟩
  · obtain ⟨type, htype⟩ := h.required "type" (by decide)
    obtain ⟨html, hhtml⟩ := h.htmlOf
    rw [returnHtml, htype, hhtml]
    split
    · exact ⟨_, rfl⟩
    · exact ⟨_, rfl⟩

theorem sturdy_returned : returned.Sturdy where
  parse _ := reads_parseReturn
  declare _ := .nothing
  declarationDefault := nofun
  merge _ docs code h := by
    simp only [returned, firstOf]
    cases hfirst : (docs ++ code).head? with
    | none => exact ⟨.null, rfl, Or.inl rfl⟩
    | some r =>
        have hwritten := (h r (List.mem_of_head? hfirst)).doc
        refine ⟨_, rfl, Or.inr (Value.Documented.of_or hwritten ?_ rfl)⟩
        exact List.forall_mem_singleton.mpr ⟨_, rfl⟩
  process := derives_nothing
  format f v h := by
    simp only [returned]
    split
    · exact Value.Documented.formatField h (by decide) f
    · exact ⟨v, rfl, h⟩
  html _ _ h := returnHtml_ok h

theorem mergeThrown_ok {r : Record} (h : Sound "throws" r) :
    ∃ v, mergeThrown r = .ok v ∧ v.Documented ["type"] "doc" := by
  obtain ⟨type, htype⟩ := h.needed "type" (by decide)
  rw [mergeThrown, htype]
  refine ⟨_, rfl, .of_or h.doc ?_ rfl⟩
  exact List.forall_mem_singleton.mpr ⟨type, rfl⟩

theorem thrownHtml_ok {v : Value} (h : v.Documented ["type"] "doc") :
    ∃ html, thrownHtml v = .ok html := by
  obtain ⟨type, htype⟩ := h.required "type" (by decide)
  obtain ⟨html, hhtml⟩ := h.htmlOf
  rw [thrownHtml, htype, hhtml]
  exact ⟨_, rfl⟩

theorem sturdy_thrown : thrown.Sturdy where
  parse := reads_thrown
  declare _ := .nothing
  declarationDefault := nofun
  merge _ docs _ h := by
    simp only [thrown]
    split
    · exact ⟨.null, rfl, Or.inl rfl⟩
    · obtain ⟨vs, hvs, hall⟩ := Except.mapM_ok_forall (f := mergeThrown) fun r hr =>
        mergeThrown_ok (h r (List.mem_append_left _ hr))
      rw [hvs]
      exact ⟨_, rfl, Or.inr ⟨vs, rfl, hall⟩⟩
  process := derives_nothing
  format f _ h := formatAll_ok f h
  html _ v h := by
    obtain ⟨items, htmls, hitems, hhtmls⟩ := itemsHtml_ok h fun _ => thrownHtml_ok
    exact Except.bind_ok hitems (Except.bind_ok hhtmls ⟨_, rfl⟩)

/-! ### Members -/

theorem mergeMember_shape (hasDefault canRequire : Bool) (s : Subject) (docs code : List Record) :
    mergeMember hasDefault canRequire s docs code = .null ∨
      ∃ r, mergeMember hasDefault canRequire s docs code = .record r := by
  rw [mergeMember]
  split
  · exact Or.inl rfl
  · exact Or.inr ⟨_, rfl⟩

theorem defaultHtml_ok {v : Value} (h : v = .null ∨ ∃ r, v = .record r) :
    ∃ html, defaultHtml v = .ok html := by
  rcases h with rfl | ⟨r, rfl⟩
  · exact ⟨none, rfl⟩
  · rw [defaultHtml]
    split
    · exact ⟨none, rfl⟩
    · exact ⟨_, rfl⟩

/-- The values of the tags that declare members are records where their defaults are shown. -/
theorem fits_record (kind : MemberKind) {v : Value} (h : ∃ r, v = .record r) : v.Fits kind.word := by
  cases kind <;> first | exact h | trivial

theorem sturdy_declares (kind : MemberKind) (pattern : String) (hasDefault : Bool)
    (hfits : hasDefault = true → ∀ v : Value, v.Fits kind.word → ∃ r, v = .record r)
    (type : MemberType) : (declares kind pattern hasDefault type).Sturdy where
  parse _ := by
    have hneeded : Record.neededFields kind.word = [] := by cases kind <;> rfl
    exact reads_parseMember hasDefault _ fun type fields hfields required =>
      .one (sound_member hneeded type hfields required)
  declare _ := .nothing
  declarationDefault := nofun
  merge s docs code _ :=
    ⟨_, rfl, (mergeMember_shape hasDefault _ s docs code).imp_right (fits_record kind)⟩
  process := derives_nothing
  format _ v h := ⟨v, rfl, h⟩
  html _ v h := by
    cases hasDefault with
    | false => exact ⟨none, rfl⟩
    | true => exact defaultHtml_ok (h.imp_right (hfits rfl v))

theorem derives_cfg : Derives cfg.process := by
  intro s docs h
  obtain ⟨required, hrequired⟩ := Value.optionalIn_ok (h.optional "cfg") "required"
  simp only [cfg, hrequired]
  exact ⟨_, rfl, .of_attributes (h.set trivial)⟩

theorem sturdy_cfg : cfg.Sturdy :=
  (sturdy_declares .cfg "cfg" true (fun _ _ h => h) _).withProcess _ derives_cfg

/-! ### Classes -/

theorem Record.Sound.requiredName {key : String} {r : Record} (h : Sound key r)
    (hneeded : Record.neededFields key = ["name"]) :
    ∃ v, Record.required r "name" = .ok v ∧ v.Textual := by
  obtain ⟨v, hv⟩ := h.needed "name" (by rw [hneeded]; exact List.mem_singleton_self _)
  refine ⟨v, hv, ?_⟩
  have htext := h.name
  rwa [Record.optional, Record.get?_of_required hv] at htext

theorem mergeClassName_ok {key : String} (hneeded : Record.neededFields key = ["name"])
    {docs code : List Record} (h : ∀ r ∈ docs ++ code, Sound key r) :
    ∃ v, mergeClassName docs code = .ok v ∧ v.Textual := by
  rw [mergeClassName, firstOf]
  cases hfirst : (docs ++ code).head? with
  | none => exact ⟨.null, rfl, Or.inl rfl⟩
  | some r =>
      have hr := h r (List.mem_of_head? hfirst)
      cases r with
      | nil => exact ⟨.null, rfl, Or.inl rfl⟩
      | cons field r => exact Record.Sound.requiredName hr hneeded

theorem sturdy_ancestor : ancestor.Sturdy where
  parse _ := reads_parseClassName .nothing (fun name _ => .one (sound_className rfl name)) _
  declare := allSound_declareClassName rfl
  declarationDefault r h := by
    cases h
    exact sound_className rfl "Ext.Base"
  merge _ _ _ h := by
    obtain ⟨v, hv, -⟩ := mergeClassName_ok rfl h
    exact ⟨v, hv, Or.inr trivial⟩
  process := derives_nothing
  format _ v _ := ⟨v, rfl, trivial⟩
  html _ _ _ := ⟨none, rfl⟩

theorem mergeMixins_ok {docs code : List Record} (h : ∀ r ∈ docs ++ code, Sound "mixins" r) :
    ∃ v, mergeMixins docs code = .ok v := by
  obtain ⟨names, hnames, -⟩ := Except.mapM_ok_forall fun r hr =>
    Record.Sound.requiredName (h r hr) rfl
  rw [mergeMixins, hnames]
  exact ⟨_, rfl⟩

theorem sturdy_mixins : mixins.Sturdy where
  parse _ := reads_parseMixins .nothing fun names _ => .many sound_mixinRecord names
  declare := allSound_declareMixins
  declarationDefault := nofun
  merge _ _ _ h := by
    obtain ⟨v, hv⟩ := mergeMixins_ok h
    exact ⟨v, hv, Or.inr trivial⟩
  process := derives_nothing
  format _ v _ := ⟨v, rfl, trivial⟩
  html _ _ _ := ⟨none, rfl⟩

theorem derives_override : Derives override.process := by
  intro s docs h
  refine ⟨_, rfl, h, fun target htarget => ?_⟩
  dsimp only at htarget
  rcases h.optional "override" with hnull | ⟨name, hname⟩
  · rw [hnull] at htarget
    cases htarget
  · rw [hname] at htarget
    split at htarget
    · cases htarget
      exact ⟨name, rfl⟩
    · cases htarget

theorem sturdy_override : override.Sturdy where
  parse _ := reads_parseClassName .nothing (fun name _ => .one (sound_className rfl name)) _
  declare := allSound_declareClassName rfl
  declarationDefault := nofun
  merge _ _ _ h := mergeClassName_ok rfl h
  process := derives_override
  format _ v h := ⟨v, rfl, h⟩
  html _ _ _ := ⟨none, rfl⟩

/-- **All standard tags are sturdy.** None of their stages fails on what the stages before it hand
on, whatever a comment or a declaration says. -/
theorem sturdy_standard : ∀ t ∈ standard, t.Sturdy := by
  simp only [standard, List.forall_mem_cons]
  refine ⟨sturdy_cfg, sturdy_declares .property "property" true (fun _ _ h => h) _,
    sturdy_declares .method "method" false nofun _, sturdy_declares .event "event" false nofun _,
    sturdy_declares .cssVar "var" true (fun _ _ h => h) _,
    sturdy_declares .cssMixin "mixin" false nofun _,
    sturdy_plainFlag "private" rfl (fun _ => trivial) _,
    sturdy_plainFlag "protected" rfl (fun _ => trivial) _, sturdy_staticFlag, sturdy_since,
    sturdy_deprecated, sturdy_param, sturdy_returned, sturdy_thrown, sturdy_chainable,
    sturdy_ancestor, sturdy_mixins, sturdy_override, ?_⟩
  exact fun _ h => absurd h List.not_mem_nil

end ApiPages.Tag
