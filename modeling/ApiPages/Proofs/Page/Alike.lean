import ApiPages.Proofs.Merge.Alike
import ApiPages.Proofs.Page
import ApiPages.Proofs.Page.Section

/-!
# Pages that look alike

Names, types, defaults and versions reach a page as escaped text only. So two classes that agree on
all the rest have pages with the same marks: what a user writes for a name cannot open a tag, close
one, or end the value of an attribute.
-/

namespace ApiPages

open Agreement (sameTruth)
open Text (marks)

/-! ### Classes that look alike -/

structure Member.Alike (m n : Member) : Prop where
  kind : m.kind = n.kind
  doc : m.doc = n.doc
  attributes : m.attributes.Alike n.attributes

/-- Classes that differ in names, types, defaults and versions at most. -/
structure ClassDoc.Alike (c d : ClassDoc) : Prop where
  doc : c.doc = d.doc
  attributes : c.attributes.Alike d.attributes
  members : List.Forall₂ Member.Alike c.members d.members

namespace Page

/-! ### The tags of a class or member -/

theorem formatTags_alike (f : Formatter) {ts : List Tag} (hts : ∀ t ∈ ts, t.Discreet)
    (hkeys : (ts.map Tag.key).Nodup) {a b : Record}
    (h : ∀ t ∈ ts,
      Option.Rel (Value.AlikeUnrendered t.key) (Table.get? a t.key) (Table.get? b t.key)) :
    ∃ a' b', formatTags f ts a = (a', none) ∧ formatTags f ts b = (b', none) ∧
      (∀ t ∈ ts,
        Option.Rel (Value.AlikeRendered t.key) (Table.get? a' t.key) (Table.get? b' t.key)) ∧
      ∀ key ∉ ts.map Tag.key,
        Table.get? a' key = Table.get? a key ∧ Table.get? b' key = Table.get? b key := by
  induction ts generalizing a b with
  | nil => exact ⟨a, b, rfl, rfl, fun _ ht => absurd ht List.not_mem_nil, fun _ _ => ⟨rfl, rfl⟩⟩
  | cons t ts ih =>
      obtain ⟨ht, hts⟩ := List.forall_mem_cons.mp hts
      obtain ⟨hnew, hkeys⟩ := List.nodup_cons.mp hkeys
      obtain ⟨hown, hrest⟩ := List.forall_mem_cons.mp h
      have hne : ∀ u ∈ ts, t.key ≠ u.key := fun u hu heq => hnew (heq ▸ List.mem_map_of_mem hu)
      rw [formatTags, formatTags, Tag.own, Tag.own, ht.named, Option.bind_some, Option.bind_some]
      generalize hv : Table.get? a t.key = v, hw : Table.get? b t.key = w at hown
      cases hown with
      | none =>
          obtain ⟨a', b', ha, hb, halike, hframe⟩ := ih hts hkeys hrest
          refine ⟨a', b', ha, hb, List.forall_mem_cons.mpr ⟨?_, halike⟩, fun key hkey => ?_⟩
          · rw [(hframe t.key hnew).1, (hframe t.key hnew).2, hv, hw]
            exact .none
          · exact hframe key fun hmem => hkey (List.mem_cons_of_mem t.key hmem)
      | @some v w hown =>
          obtain ⟨v', w', hv', hw', hshown⟩ := ht.format f v w hown
          have hset : ∀ u ∈ ts, Option.Rel (Value.AlikeUnrendered u.key)
              (Table.get? (Table.set a t.key v') u.key)
              (Table.get? (Table.set b t.key w') u.key) := by
            intro u hu
            rw [Table.get?_set, Table.get?_set, if_neg (hne u hu), if_neg (hne u hu)]
            exact hrest u hu
          obtain ⟨a', b', ha, hb, halike, hframe⟩ := ih hts hkeys hset
          simp only [hv', hw']
          refine ⟨a', b', ha, hb, List.forall_mem_cons.mpr ⟨?_, halike⟩, fun key hkey => ?_⟩
          · rw [(hframe t.key hnew).1, (hframe t.key hnew).2, Table.get?_set, Table.get?_set,
              if_pos rfl, if_pos rfl]
            exact .some hshown
          · obtain ⟨hne, hkey⟩ := List.ne_and_not_mem_of_not_mem_cons hkey
            rw [(hframe key hkey).1, (hframe key hkey).2, Table.get?_set, Table.get?_set,
              if_neg (Ne.symm hne), if_neg (Ne.symm hne)]
            exact ⟨rfl, rfl⟩

theorem fragment_alike {t : Tag} (ht : t.Discreet) (kind : Kind) {a b : Record}
    (h : Option.Rel (Value.AlikeRendered t.key) (Table.get? a t.key) (Table.get? b t.key)) :
    ∃ html html', fragment kind a t = .ok html ∧ fragment kind b t = .ok html' ∧
      SameMarkup html html' := by
  rw [fragment, fragment, Tag.own, Tag.own, ht.named, Option.bind_some, Option.bind_some]
  generalize Table.get? a t.key = v, Table.get? b t.key = w at h
  cases h with
  | none =>
      rw [Option.getD_none, ht.null]
      exact ⟨_, _, rfl, rfl, .empty⟩
  | @some v w h =>
      obtain ⟨html, html', hhtml, hhtml', hsame⟩ := ht.html kind v w h
      rw [Option.getD_some, Option.getD_some, hhtml, hhtml']
      exact ⟨_, _, rfl, rfl, hsame⟩

/-- The keys of the attributes that divide sections. -/
def dividingKeys : List String :=
  ["static", "required"]

def SameSwitches (a b : Record) : Prop :=
  ∀ key ∈ dividingKeys, sameTruth (Table.get? a key) (Table.get? b key)

theorem sameTruth_of_rel {key : String} (hkey : key ∈ dividingKeys) {more : Agreement}
    {R : Value → Value → Prop} (hR : ∀ v w, R v w → Value.AlikeWith more key v w)
    {v w : Option Value} (h : Option.Rel R v w) : sameTruth v w := by
  have hswitch : ∀ key ∈ dividingKeys, key ∈ Record.switchKeys := by decide
  cases h with
  | none => rfl
  | some h => exact (Value.alikeWith_switch (hswitch key hkey)).mp (hR _ _ h)

section Rendering

variable {reg : Registry} (hreg : Registry.ofTags Tag.standard = .ok reg) (f : Formatter)
include hreg

theorem render_alike (kind : Kind) {a b : Record} (ha : a.Unrendered) (hb : b.Unrendered)
    (h : a.Alike b) :
    ∃ a' b' html html', render reg f kind a = (a', .ok html) ∧
      render reg f kind b = (b', .ok html') ∧ SameMarkup html html' ∧ SameSwitches a' b' := by
  have hmem : ∀ t ∈ reg.renderOrder kind, t ∈ reg.tags :=
    fun t => Registry.mem_of_mem_renderOrder
  have hdiscreet : ∀ t ∈ reg.renderOrder kind, t.Discreet := by
    rw [Registry.tags_ofTags hreg] at hmem
    exact fun t ht => Tag.discreet_standard t (hmem t ht)
  have hkeys := Registry.nodup_keys_renderOrder (Registry.settles_standard hreg).keys kind
  have hbefore : ∀ key, Option.Rel (Value.AlikeUnrendered key) (Table.get? a key)
      (Table.get? b key) := by
    intro key
    have hkey := h key
    generalize hv : Table.get? a key = v, hw : Table.get? b key = w at hkey
    cases hkey with
    | none => exact .none
    | some halike =>
        refine .some ⟨ha.formed key _ hv, hb.formed key _ hw, halike, ?_⟩
        rintro rfl
        exact ⟨ha.notice _ hv, hb.notice _ hw⟩
  obtain ⟨a', b', hformat, hformat', hshown, hframe⟩ :=
    formatTags_alike f hdiscreet hkeys fun t _ => hbefore t.key
  have hself : List.Forall₂ (fun t u => t = u ∧ t ∈ reg.renderOrder kind) (reg.renderOrder kind)
      (reg.renderOrder kind) := List.forall₂_same.mpr fun t ht => ⟨rfl, ht⟩
  have hfragment : ∀ t u, t = u ∧ t ∈ reg.renderOrder kind → ∃ html html',
      fragment kind a' t = .ok html ∧ fragment kind b' u = .ok html' ∧ SameMarkup html html' := by
    rintro t _ ⟨rfl, ht⟩
    exact fragment_alike (hdiscreet t ht) kind (hshown t ht)
  obtain ⟨htmls, htmls', hhtmls, hhtmls', hsame⟩ := Except.mapM_ok₂ hself hfragment
  refine ⟨a', b', joinFragments htmls, joinFragments htmls', ?_, ?_, .joinFragments hsame, ?_⟩
  · rw [render, hformat]
    dsimp only
    rw [hhtmls]
    rfl
  · rw [render, hformat']
    dsimp only
    rw [hhtmls']
    rfl
  · intro key hkey
    by_cases hlisted : key ∈ (reg.renderOrder kind).map Tag.key
    · obtain ⟨t, ht, rfl⟩ := List.mem_map.mp hlisted
      exact sameTruth_of_rel hkey (fun _ _ h => h.alike) (hshown t ht)
    · rw [(hframe key hlisted).1, (hframe key hlisted).2]
      exact sameTruth_of_rel hkey (fun _ _ h => h) (h key)

/-! ### The members -/

/-- Members that belong to the same places of a page, and have descriptions with the same marks. -/
structure PlacedAlike (known known' : Descriptions) (m n : Member) : Prop where
  kind : m.kind = n.kind
  switches : SameSwitches m.attributes n.attributes
  description : marks ((Table.get? known m.id).getD "") = marks ((Table.get? known' n.id).getD "")

theorem describe_alike {ms ns : List Member} (h : List.Forall₂ Member.Alike ms ns)
    (hms : ∀ m ∈ ms, m.attributes.Unrendered) (hns : ∀ n ∈ ns, n.attributes.Unrendered)
    (hids : (ms.map Member.id).Nodup) (hids' : (ns.map Member.id).Nodup)
    (known known' : Descriptions) :
    ∃ shown described shown' described', describe reg f ms known = (shown, .ok described) ∧
      describe reg f ns known' = (shown', .ok described') ∧
      List.Forall₂ (PlacedAlike described described') shown shown' := by
  induction h generalizing known known' with
  | nil => exact ⟨[], known, [], known', rfl, rfl, .nil⟩
  | @cons m n ms ns hmn _ ih =>
      obtain ⟨hm, hms⟩ := List.forall_mem_cons.mp hms
      obtain ⟨hn, hns⟩ := List.forall_mem_cons.mp hns
      obtain ⟨hnew, hids⟩ := List.nodup_cons.mp hids
      obtain ⟨hnew', hids'⟩ := List.nodup_cons.mp hids'
      obtain ⟨a, b, html, html', hrender, hrender', hsame, hswitches⟩ :=
        render_alike hreg f (.member m.kind) hm hn hmn.attributes
      obtain ⟨shown, described, shown', described', hdescribe, hdescribe', hall⟩ :=
        ih hms hns hids hids' (Table.set known m.id (f.format m.doc ++ html))
          (Table.set known' n.id (f.format n.doc ++ html'))
      refine ⟨{ m with attributes := a } :: shown, described, { n with attributes := b } :: shown',
        described', ?_, ?_, .cons ⟨hmn.kind, hswitches, ?_⟩ hall⟩
      · rw [describe, hrender]
        dsimp only
        rw [hdescribe]
      · rw [describe, ← hmn.kind, hrender']
        dsimp only
        rw [hdescribe']
      · dsimp only
        rw [describe_frame f hdescribe hnew, describe_frame f hdescribe' hnew', Table.get?_set,
          Table.get?_set, if_pos rfl, if_pos rfl, Option.getD_some, Option.getD_some,
          Text.marks_append, Text.marks_append, hmn.doc, hsame.1]

end Rendering

/-! ### The sections -/

section Sections

variable {known known' : Descriptions}

structure ViewAlike (known known' : Descriptions) (v w : View) : Prop where
  title : v.title = w.title
  showTitle : v.showTitle = w.showTitle
  subsection : v.subsection = w.subsection
  members : List.Forall₂ (PlacedAlike known known') v.members w.members

structure SectionAlike (known known' : Descriptions) (s t : Section) : Prop where
  type : s.type = t.type
  views : List.Forall₂ (ViewAlike known known') s.views t.views

/-- A section that is divided by attributes that count alike. -/
def Divides (type : MemberType) : Prop :=
  ∀ s ∈ type.subsections, ∀ entry ∈ s.wanted, entry.1 ∈ dividingKeys

theorem accepts_alike {s : Subsection} (hs : ∀ entry ∈ s.wanted, entry.1 ∈ dividingKeys)
    {a b : Record} (h : SameSwitches a b) : s.accepts a = s.accepts b := by
  rw [Subsection.accepts, Subsection.accepts, Bool.eq_iff_iff, List.all_eq_true, List.all_eq_true]
  apply forall₂_congr
  rintro ⟨key, value⟩ hentry
  have htruth : sameTruth (Table.get? a key) (Table.get? b key) := h key (hs _ hentry)
  rw [sameTruth] at htruth
  dsimp only
  rw [htruth]

variable {ms ns : List Member} (h : List.Forall₂ (PlacedAlike known known') ms ns)
include h

theorem viewOf_alike {s : Subsection} (hs : ∀ entry ∈ s.wanted, entry.1 ∈ dividingKeys) :
    Option.Rel (ViewAlike known known') (viewOf ms s) (viewOf ns s) := by
  have hfilter := List.rel_filter
    (p := fun m : Member => s.accepts m.attributes) (q := fun m : Member => s.accepts m.attributes)
    (fun m n (hmn : PlacedAlike known known' m n) =>
      Bool.eq_iff_iff.mp (accepts_alike hs hmn.switches)) h
  rw [viewOf, viewOf]
  generalize (ms.filter fun m => s.accepts m.attributes) = ms',
    (ns.filter fun m => s.accepts m.attributes) = ns' at hfilter
  cases hfilter with
  | nil => exact .none
  | cons hmn hrest => exact .some ⟨rfl, rfl, rfl, .cons hmn hrest⟩

omit h in
theorem hideTitle_alike (count : Nat) {v w : View} (hvw : ViewAlike known known' v w) :
    ViewAlike known known' (hideTitle count v) (hideTitle count w) := by
  rw [hideTitle, hideTitle, hvw.subsection, hvw.members.length_eq]
  split
  · split
    · exact { hvw with showTitle := rfl, subsection := rfl }
    · exact hvw
  · exact hvw

theorem split_alike {type : MemberType} (htype : Divides type) :
    List.Forall₂ (ViewAlike known known') (split type ms) (split type ns) := by
  have hself : List.Forall₂ (fun s t => s = t ∧ s ∈ type.subsections) type.subsections
      type.subsections := List.forall₂_same.mpr fun s hs => ⟨rfl, hs⟩
  have hviews : List.Forall₂ (ViewAlike known known') (type.subsections.filterMap (viewOf ms))
      (type.subsections.filterMap (viewOf ns)) := by
    refine List.rel_filterMap ?_ hself
    rintro s _ ⟨rfl, hs⟩
    exact viewOf_alike h (htype s hs)
  by_cases hempty : type.subsections = []
  · rw [split_of_nil hempty, split_of_nil hempty]
    exact .cons ⟨rfl, rfl, rfl, h⟩ .nil
  · rw [split_of_ne_nil hempty, split_of_ne_nil hempty, h.length_eq]
    generalize type.subsections.filterMap (viewOf ms) = vs,
      type.subsections.filterMap (viewOf ns) = ws at hviews
    cases hviews with
    | nil => exact .nil
    | cons hv hrest =>
        cases hrest with
        | nil => exact .cons (hideTitle_alike _ hv) .nil
        | cons hw hrest => exact .cons hv (.cons hw hrest)

omit h in
theorem sectionOf_alike {c d : ClassDoc}
    (h : List.Forall₂ (PlacedAlike known known') c.members d.members) {type : MemberType}
    (htype : Divides type) :
    Option.Rel (SectionAlike known known') (sectionOf c type) (sectionOf d type) := by
  have hfilter := List.rel_filter (p := fun m : Member => m.kind.word == type.name)
    (q := fun m : Member => m.kind.word == type.name)
    (fun m n (hmn : PlacedAlike known known' m n) => by
      dsimp only
      rw [hmn.kind]) h
  rw [sectionOf, sectionOf]
  generalize (c.members.filter fun m => m.kind.word == type.name) = ms,
    (d.members.filter fun m => m.kind.word == type.name) = ns at hfilter
  cases hfilter with
  | nil => exact .none
  | cons hmn hrest => exact .some ⟨rfl, split_alike (.cons hmn hrest) htype⟩

omit h in
theorem divides_standard {reg : Registry} (hreg : Registry.ofTags Tag.standard = .ok reg)
    {type : MemberType} (htype : type ∈ reg.sections) : Divides type := by
  rw [sections_standard hreg] at htype
  have hall : ∀ type ∈ [Tag.cfg, .property, .method, .event, .cssVar, .cssMixin].filterMap
      Tag.memberType, ∀ s ∈ type.subsections, ∀ entry ∈ s.wanted,
        entry.1 ∈ dividingKeys := by decide
  exact hall type htype

omit h in
theorem sections_alike {reg : Registry} (hreg : Registry.ofTags Tag.standard = .ok reg)
    {c d : ClassDoc} (h : List.Forall₂ (PlacedAlike known known') c.members d.members) :
    List.Forall₂ (SectionAlike known known') (sections reg c) (sections reg d) := by
  have hself : List.Forall₂ (fun s t => s = t ∧ s ∈ reg.sections) reg.sections reg.sections :=
    List.forall₂_same.mpr fun s hs => ⟨rfl, hs⟩
  refine List.rel_filterMap ?_ hself
  rintro type _ ⟨rfl, htype⟩
  exact sectionOf_alike h (divides_standard hreg htype)

end Sections

/-! ### Classes read from comments -/

/-- A class with one method, for which a comment has been read. -/
def documented (name : String) (parsed : Comment.Parsed) : ClassDoc :=
  { name
    doc := "Says hello."
    members := [{
      id := "method-" ++ name
      owner := name
      name
      doc := parsed.doc
      raw := { doc := parsed.occurrences } }] }

def subjectOf (name : String) : Subject :=
  { kind := .member .method, name, position := none, attributes := [] }

/-- Such a class behind merging. -/
structure Merged (name : String) (parsed : Comment.Parsed) (c : ClassDoc) : Prop where
  doc : c.doc = "Says hello."
  attributes : ∀ key, Table.get? c.attributes key = none
  unrendered : c.Unrendered
  members : ∃ m, c.members = [m] ∧ m.kind = .method ∧ m.doc = parsed.doc ∧
    Merge.FromComment (subjectOf name) .method parsed.occurrences m.attributes

theorem exists_merged {reg : Registry} (hreg : Registry.ofTags Tag.standard = .ok reg)
    (name : String) {comment : String} {parsed : Comment.Parsed} {told : List Note}
    (hparse : Comment.parse reg comment none = .ok parsed told) :
    ∃ c notes, ClassDoc.merge reg (documented name parsed) = .ok c notes ∧
      Merged name parsed c := by
  obtain ⟨parsed', told', hparse', hsound, hmarked⟩ := Comment.marked_parse hreg comment none
  cases hparse.symm.trans hparse'
  have hraw : Occurrences.Sound { doc := parsed.occurrences } := ⟨hsound, Groups.sound_nil⟩
  have hmembers : ∀ m ∈ (documented name parsed).members, m.Ready :=
    List.forall_mem_singleton.mpr ⟨.nil, hraw⟩
  have hready : (documented name parsed).Ready :=
    { attributes := .nil
      raw := Occurrences.sound_empty
      members := hmembers
      target := Or.inl rfl
      files := List.not_mem_nil }
  obtain ⟨c, notes, hmerge, -⟩ := ClassDoc.merge_ends (Registry.sturdy_standard hreg) hready
  have hunrendered : c.Unrendered := ClassDoc.unrendered_merge hreg
    ⟨.nil, List.forall_mem_singleton.mpr .nil⟩ Occurrences.sound_empty
    (fun m hm => (hmembers m hm).raw) hmerge
  obtain ⟨outcome, _, _, hrun, hbehind⟩ := Report.bind_eq_ok hmerge
  obtain ⟨members, _, _, hmerged, hend⟩ := Report.bind_eq_ok hbehind
  cases hend
  have hmethod := Report.mapM_eq_ok hmerged
  cases hmethod with
  | @cons _ m _ _ hm hrest =>
      cases hrest
      obtain ⟨_, hm⟩ := hm
      obtain ⟨_, _, _, hrunMethod, hend⟩ := Report.bind_eq_ok hm
      cases hend
      have hfrom := Merge.fromComment_of_run hreg rfl rfl hmarked hrunMethod
      have hown := Merge.get?_run_undocumented hreg rfl rfl hrun
      refine ⟨_, notes, hmerge, ?_, ?_, hunrendered, _, rfl, rfl, rfl, hfrom⟩
      · rw [ClassDoc.absorb]
        cases outcome.target <;> rfl
      · rw [ClassDoc.absorb]
        cases outcome.target <;> exact hown

/-- Two comments of methods of which every tag makes values that look alike. -/
structure CommentsAlike (name name' : String) (parsed parsed' : Comment.Parsed) : Prop where
  doc : parsed.doc = parsed'.doc
  tags : ∀ t ∈ Tag.standard, t.covers (.member .method) = true →
    Merge.TagAlike (subjectOf name) (subjectOf name') parsed.occurrences parsed'.occurrences t
  this : Merge.ReturnsThis parsed.occurrences ↔ Merge.ReturnsThis parsed'.occurrences

theorem Merged.alike {name name' : String} {parsed parsed' : Comment.Parsed} {c d : ClassDoc}
    (hc : Merged name parsed c) (hd : Merged name' parsed' d)
    (h : CommentsAlike name name' parsed parsed') : c.Alike d where
  doc := hc.doc.trans hd.doc.symm
  attributes key := by
    rw [hc.attributes key, hd.attributes key]
    exact .none
  members := by
    obtain ⟨m, hms, hkind, hdoc, hfrom⟩ := hc.members
    obtain ⟨n, hns, hkind', hdoc', hfrom'⟩ := hd.members
    rw [hms, hns]
    exact .cons ⟨hkind.trans hkind'.symm, hdoc.trans (h.doc.trans hdoc'.symm),
      hfrom.alike hfrom' h.tags h.this⟩ .nil

theorem Merged.nodup {name : String} {parsed : Comment.Parsed} {c : ClassDoc}
    (h : Merged name parsed c) : c.memberIds.Nodup := by
  obtain ⟨m, hms, -⟩ := h.members
  rw [ClassDoc.memberIds, hms]
  exact List.nodup_singleton _

def plainComment : String :=
  "Greets.\n@param \x7bString\x7d [who=world] Whom.\n" ++
    "@return \x7bString\x7d A greeting.\n@since 1.0"

def crookedComment : String :=
  "Greets.\n@param \x7bArray<String>\x7d [it=<b>] Whom.\n" ++
    "@return \x7b\"><img>\x7d A greeting.\n@since <2>"

/-- What is read from them. -/
def greeting (param type default result version : String) : Comment.Parsed :=
  { doc := "Greets."
    occurrences := [
      (.text "params", [[("tagname", .text "params"), ("type", .text type),
        ("optional", .bool true), ("name", .text param), ("default", .text default),
        ("doc", .text "Whom.")]]),
      (.text "return", [[("tagname", .text "return"), ("type", .text result),
        ("doc", .text "A greeting.")]]),
      (.text "since", [[("tagname", .text "since"), ("version", .text version)]])] }

theorem parse_greetings {reg : Registry} (hreg : Registry.ofTags Tag.standard = .ok reg) :
    Comment.parse reg plainComment none = .ok (greeting "who" "String" "world" "String" "1.0")
        [.progress .debug "doc_parser" "Parsed 3 tag records"] ∧
      Comment.parse reg crookedComment none =
        .ok (greeting "it" "Array<String>" "<b>" "\"><img>" "<2>")
          [.progress .debug "doc_parser" "Parsed 3 tag records"] := by
  obtain ⟨-, rfl⟩ := Registry.ofTags_eq_ok_iff.mp hreg
  constructor <;> with_unfolding_all rfl

theorem greetings_alike : CommentsAlike "Hello" "\"><script>"
    (greeting "who" "String" "world" "String" "1.0")
    (greeting "it" "Array<String>" "<b>" "\"><img>" "<2>") where
  doc := rfl
  tags t ht _ := by
    have htag : ∀ u ∈ Tag.standard, t.key = u.key → t = u := fun u hu hkey =>
      List.inj_on_of_nodup_map Tag.nodup_keys_standard ht hu hkey
    by_cases hparams : t.key = "params"
    · obtain rfl := htag .param (by simp [Tag.standard]) hparams
      refine .of_used (List.cons_ne_nil _ _) (List.cons_ne_nil _ _) rfl rfl (by rintro ⟨⟩)
        (by rintro ⟨⟩) ⟨_, _, rfl, rfl, .cons ⟨_, _, rfl, rfl, ?_⟩ .nil⟩
      refine List.forall_mem_cons.mpr ⟨rfl, List.forall_mem_cons.mpr ⟨rfl,
        List.forall_mem_singleton.mpr (iff_of_false ?_ ?_)⟩⟩ <;> rintro ⟨⟩
    by_cases hreturn : t.key = "return"
    · obtain rfl := htag .returned (by simp [Tag.standard]) hreturn
      refine .of_used (List.cons_ne_nil _ _) (List.cons_ne_nil _ _) rfl rfl (by rintro ⟨⟩)
        (by rintro ⟨⟩) ⟨_, _, rfl, rfl, ?_⟩
      exact List.forall_mem_cons.mpr ⟨rfl, List.forall_mem_singleton.mpr rfl⟩
    by_cases hsince : t.key = "since"
    · obtain rfl := htag .since (by simp [Tag.standard]) hsince
      exact .of_used (List.cons_ne_nil _ _) (List.cons_ne_nil _ _) rfl rfl (by rintro ⟨⟩)
        (by rintro ⟨⟩) rfl
    refine .of_unused ht ?_ ?_ <;>
      simp [greeting, Groups.of, Table.get?, Ne.symm hparams, Ne.symm hreturn, Ne.symm hsince]
  this := by
    constructor <;> rintro ⟨r, ⟨⟩, htype⟩ <;> simp [Table.get?] at htype

/-! ### The page -/

section Blocks

variable {known known' : Descriptions}

theorem marks_memberBlock {m n : Member} (h : PlacedAlike known known' m n) :
    marks (memberBlock known m) = marks (memberBlock known' n) := by
  unfold memberBlock
  simp only [Text.marks_append, Text.marks_toString, Text.marks_escape, h.kind, h.description]

theorem marks_viewBlock {v w : View} (h : ViewAlike known known' v w) :
    marks (viewBlock known v) = marks (viewBlock known' w) := by
  have hmembers : List.Forall₂ (marks · = marks ·) (v.members.map (memberBlock known))
      (w.members.map (memberBlock known')) := by
    rw [List.forall₂_map_left_iff, List.forall₂_map_right_iff]
    exact h.members.imp fun _ _ => marks_memberBlock
  rw [viewBlock, viewBlock, h.showTitle, h.title, Text.marks_append, Text.marks_append,
    Text.marks_join_congr hmembers]

theorem marks_sectionBlock {s t : Section} (h : SectionAlike known known' s t) :
    marks (sectionBlock known s) = marks (sectionBlock known' t) := by
  have hviews : List.Forall₂ (marks · = marks ·) (s.views.map (viewBlock known))
      (t.views.map (viewBlock known')) := by
    rw [List.forall₂_map_left_iff, List.forall₂_map_right_iff]
    exact h.views.imp fun _ _ => marks_viewBlock
  unfold sectionBlock
  simp only [Text.marks_append, Text.marks_join_congr hviews, h.type]

theorem marks_layout {name name' doc tags others : String} (htags : SameMarkup tags others)
    {ss ts : List Section} (h : List.Forall₂ (SectionAlike known known') ss ts) :
    marks (layout name doc tags known ss) = marks (layout name' doc others known' ts) := by
  have hsections : List.Forall₂ (marks · = marks ·) (ss.map (sectionBlock known))
      (ts.map (sectionBlock known')) := by
    rw [List.forall₂_map_left_iff, List.forall₂_map_right_iff]
    exact h.imp fun _ _ => marks_sectionBlock
  have hblock : marks (if tags = "" then "" else s!"  <div class=\"tags\">{tags}</div>\n") =
      marks (if others = "" then "" else s!"  <div class=\"tags\">{others}</div>\n") := by
    by_cases hempty : tags = ""
    · rw [if_pos hempty, if_pos (htags.eq_empty_iff.mp hempty)]
    · rw [if_neg hempty, if_neg (mt htags.eq_empty_iff.mpr hempty)]
      simp [htags.1]
  unfold layout
  simp only [Text.marks_append, Text.marks_toString, Text.marks_escape, hblock,
    Text.marks_join_congr hsections]

end Blocks

/-- **Names cannot inject markup.** Take two classes as merging leaves them, each with distinct ids
for its members, that look alike: they have the same documentation, members of the same kinds, and
attributes that are present together, hold the same flags and are of the same size. They may differ
in all names, ids, types, defaults and versions. With the standard tags both have a page, and the
pages have the same sequence of the characters that make markup. -/
theorem pages_alike {reg : Registry} (hreg : Registry.ofTags Tag.standard = .ok reg) (f : Formatter)
    {c d : ClassDoc} (hc : c.Unrendered) (hd : d.Unrendered) (hids : c.memberIds.Nodup)
    (hids' : d.memberIds.Nodup) (h : c.Alike d) :
    ∃ c' d' page page', ofClass reg f c = (c', .ok page) ∧ ofClass reg f d = (d', .ok page') ∧
      marks page = marks page' := by
  obtain ⟨shown, described, shown', described', hdescribe, hdescribe', hplaced⟩ :=
    describe_alike hreg f h.members hc.members hd.members hids hids' [] []
  obtain ⟨a, b, html, html', hrender, hrender', hsame, -⟩ :=
    render_alike hreg f .cls hc.attributes hd.attributes h.attributes
  refine ⟨_, _, _, _, ofClass_eq_ok hdescribe hrender, ofClass_eq_ok hdescribe' hrender', ?_⟩
  rw [h.doc]
  exact marks_layout hsame (sections_alike hreg hplaced)

theorem pages_alike_authored : ∃ reg, Registry.ofTags Tag.standard = .ok reg ∧
    ∃ parsed told parsed' told', Comment.parse reg plainComment none = .ok parsed told ∧
      Comment.parse reg crookedComment none = .ok parsed' told' ∧
      ∃ c d notes notes', ClassDoc.merge reg (documented "Hello" parsed) = .ok c notes ∧
        ClassDoc.merge reg (documented "\"><script>" parsed') = .ok d notes' ∧
        c.Unrendered ∧ d.Unrendered ∧ c.memberIds.Nodup ∧ d.memberIds.Nodup ∧ c.Alike d ∧
        ∀ f, ∃ c' d' page page', ofClass reg f c = (c', .ok page) ∧
          ofClass reg f d = (d', .ok page') ∧ marks page = marks page' := by
  obtain ⟨reg, hreg⟩ : ∃ reg, Registry.ofTags Tag.standard = .ok reg := ⟨_, rfl⟩
  obtain ⟨hparse, hparse'⟩ := parse_greetings hreg
  obtain ⟨c, notes, hmerge, hc⟩ := exists_merged hreg "Hello" hparse
  obtain ⟨d, notes', hmerge', hd⟩ := exists_merged hreg "\"><script>" hparse'
  have halike := hc.alike hd greetings_alike
  exact ⟨reg, hreg, _, _, _, _, hparse, hparse', c, d, notes, notes', hmerge, hmerge',
    hc.unrendered, hd.unrendered, hc.nodup, hd.nodup, halike,
    fun f => pages_alike hreg f hc.unrendered hd.unrendered hc.nodup hd.nodup halike⟩

end Page

end ApiPages
