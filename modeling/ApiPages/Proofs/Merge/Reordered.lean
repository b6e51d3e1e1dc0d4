import ApiPages.Proofs.Merge.Stored

/-!
# The order of tags in a comment

Merging takes the names of raw records one by one, in the order in which they came up. Nothing but
the order of the complaints depends on that: each name comes to its own value, and what the tags
derive later they derive in an order of their own, by looking up what is there.
-/

namespace ApiPages

/-- Records with the same fields, in whichever order. -/
def Record.Same (r s : Record) : Prop :=
  ∀ key, Table.get? r key = Table.get? s key

namespace Record.Same

variable {r s : Record} (h : r.Same s)
include h

theorem set (key : String) (v : Value) : Record.Same (Table.set r key v) (Table.set s key v) := by
  intro other
  rw [Table.get?_set, Table.get?_set, h other]

theorem contains_eq (key : String) : Table.contains r key = Table.contains s key := by
  rw [Table.contains, Table.contains, h key]

theorem optional_eq (key : String) : Record.optional r key = Record.optional s key := by
  rw [Record.optional, Record.optional, h key]

end Record.Same

structure Outcome.Same (o o' : Outcome) : Prop where
  attributes : o.attributes.Same o'.attributes
  target : o.target = o'.target

/-! ### Tags that look attributes up -/

namespace Tag

/-- A tag that derives the same from the same attributes, in whichever order they stand. -/
def Extensional (t : Tag) : Prop :=
  ∀ (s : Subject) (attributes : Record) (docs : List Record), s.attributes.Same attributes →
    Except.Agree Outcome.Same (t.process s docs) (t.process { s with attributes } docs)

theorem extensional_of_plain {t : Tag}
    (hprocess : t.process = fun s _ => .ok { attributes := s.attributes }) : t.Extensional := by
  intro s attributes docs h
  rw [hprocess]
  exact .ok ⟨h, rfl⟩

theorem extensional_staticFlag : staticFlag.Extensional := by
  intro s attributes docs h
  have hcontains := h.contains_eq "static"
  refine .ok ⟨?_, rfl⟩
  dsimp only
  rw [hcontains]
  split
  · exact h
  · exact h.set _ _

theorem extensional_chainable : chainable.Extensional := by
  intro s attributes docs h
  have hcontains := h.contains_eq "chainable"
  have hreturn := h.optional_eq "return"
  simp only [chainable, hcontains, hreturn]
  split
  · exact .ok ⟨h, rfl⟩
  · cases (Record.optional attributes "return").optionalIn "type" with
    | error fault => exact .error fault fault
    | ok type => exact .ok ⟨h.set _ _, rfl⟩

theorem extensional_cfg : cfg.Extensional := by
  intro s attributes docs h
  have hown := h.optional_eq "cfg"
  simp only [cfg, hown]
  cases (Record.optional attributes "cfg").optionalIn "required" with
  | error fault => exact .error fault fault
  | ok required => exact .ok ⟨h.set _ _, rfl⟩

theorem extensional_override : override.Extensional := by
  intro s attributes docs h
  have hown := h.optional_eq "override"
  simp only [override, hown]
  exact .ok ⟨h, rfl⟩

theorem extensional_standard : ∀ t ∈ standard, t.Extensional := by
  simp only [standard, List.forall_mem_cons]
  refine ⟨extensional_cfg, extensional_of_plain rfl, extensional_of_plain rfl,
    extensional_of_plain rfl, extensional_of_plain rfl, extensional_of_plain rfl,
    extensional_of_plain rfl, extensional_of_plain rfl, extensional_staticFlag,
    extensional_of_plain rfl, extensional_of_plain rfl, extensional_of_plain rfl,
    extensional_of_plain rfl, extensional_of_plain rfl, extensional_chainable,
    extensional_of_plain rfl, extensional_of_plain rfl, extensional_override, ?_⟩
  exact fun _ h => absurd h List.not_mem_nil

end Tag

/-! ### Raw records in another order -/

/-- The same raw records, each name with its own records in their order, but the names in whichever
order they came up. -/
structure Occurrences.Reordered (raw raw' : Occurrences) : Prop where
  distinct : raw.Distinct
  doc : raw.doc.Perm raw'.doc
  code : raw.code.Perm raw'.code

namespace Occurrences.Reordered

variable {raw raw' : Occurrences} (h : raw.Reordered raw')
include h

theorem distinct' : raw'.Distinct where
  doc := (h.doc.map Prod.fst).nodup_iff.mp h.distinct.doc
  code := (h.code.map Prod.fst).nodup_iff.mp h.distinct.code

theorem of_doc (name : Name) : raw.doc.of name = raw'.doc.of name := by
  rw [Groups.of, Groups.of, Table.get?_perm h.doc h.distinct.doc]

theorem of_code (name : Name) : raw.code.of name = raw'.code.of name := by
  rw [Groups.of, Groups.of, Table.get?_perm h.code h.distinct.code]

theorem written_eq (name : Name) : raw.written name = raw'.written name := by
  rw [written, written, h.of_doc, h.of_code]

theorem tagnames_perm : raw.tagnames.Perm raw'.tagnames := by
  have hcontains : ∀ name, Table.contains raw.doc name = Table.contains raw'.doc name := by
    intro name
    rw [Table.contains, Table.contains, Table.get?_perm h.doc h.distinct.doc]
  rw [tagnames, tagnames]
  simp only [hcontains]
  exact (h.doc.map Prod.fst).append ((h.code.map Prod.fst).filter _)

end Occurrences.Reordered

/-- The same member, but for the order of the names among its raw records. -/
def Member.Reordered (m m' : Member) : Prop :=
  ∃ raw, m.raw.Reordered raw ∧ m' = { m with raw }

/-- The same class, but for the order of the names among the raw records of it and its members. -/
def ClassDoc.Reordered (c c' : ClassDoc) : Prop :=
  ∃ raw members, c.raw.Reordered raw ∧ List.Forall₂ Member.Reordered c.members members ∧
    c' = { c with raw, members }

/-- What merging finds out about a class and its members is the same. -/
structure ClassDoc.SameFindings (c c' : ClassDoc) : Prop where
  attributes : c.attributes.Same c'.attributes
  isOverride : c.isOverride = c'.isOverride
  overrideTarget : c.overrideTarget = c'.overrideTarget
  members : List.Forall₂ (fun m m' => m.attributes.Same m'.attributes) c.members c'.members

namespace Merge

section Reordered

variable {raw raw' : Occurrences} (h : raw.Reordered raw')
include h

theorem complaints_reordered (reg : Registry) (s : Subject) :
    (raw.tagnames.filterMap (complaint reg s raw)).Perm
      (raw'.tagnames.filterMap (complaint reg s raw')) := by
  have hsame : complaint reg s raw = complaint reg s raw' := by
    funext name
    rw [complaint, complaint, h.written_eq, h.of_doc]
  rw [hsame]
  exact h.tagnames_perm.filterMap _

theorem valueOf_reordered (s : Subject) (t : Tag) : valueOf s raw t = valueOf s raw' t := by
  rw [valueOf, valueOf, h.of_doc, h.of_code]

variable {reg : Registry}

theorem given_reordered (kind : Kind) (name : Name) :
    (given reg kind raw raw.tagnames).of name = (given reg kind raw' raw'.tagnames).of name := by
  have hmem : name ∈ raw.tagnames ↔ name ∈ raw'.tagnames := h.tagnames_perm.mem_iff
  by_cases hname : name ∈ raw.tagnames
  · cases htag : tagFor reg kind name with
    | none => rw [given_eq_nil fun _ => htag, given_eq_nil fun _ => htag]
    | some t =>
        rw [given_of_mem h.distinct.nodup_tagnames hname htag,
          given_of_mem h.distinct'.nodup_tagnames (hmem.mp hname) htag, h.of_doc]
  · rw [given_eq_nil fun hin => absurd hin hname,
      given_eq_nil fun hin => absurd (hmem.mpr hin) hname]

variable (hreg : reg.Settles) (s : Subject)
include hreg

/-- The attributes that are merged, and the records that are kept for later. -/
theorem merging_reordered :
    Except.Agree
      (fun state state' => state.attributes.Same state'.attributes ∧
        ∀ name, state.selected.of name = state'.selected.of name)
      (raw.tagnames.foldlM (mergeTagname reg s raw) { attributes := s.attributes })
      (raw'.tagnames.foldlM (mergeTagname reg s raw') { attributes := s.attributes }) := by
  have hmem : ∀ name, name ∈ raw.tagnames ↔ name ∈ raw'.tagnames :=
    fun _ => h.tagnames_perm.mem_iff
  refine .of_ok_iff ?_ fun state state' hrun hrun' => ⟨fun key => ?_, fun name => ?_⟩
  · rw [Except.foldlM_eq_ok_iff (exists_mergeTagname_eq_ok hreg),
      Except.foldlM_eq_ok_iff (exists_mergeTagname_eq_ok hreg)]
    simp only [hmem, valueOf_reordered h]
  · by_cases hclaimed : .text key ∈ raw.tagnames ∧ ∃ t, tagFor reg s.kind (.text key) = some t
    · obtain ⟨hname, t, htag⟩ := hclaimed
      obtain rfl := Name.text.inj (mem_of_tagFor hreg.indexed htag).2
      obtain ⟨v, hv, hget⟩ := get?_foldlM_of_mem hreg hrun hname htag
      obtain ⟨v', hv', hget'⟩ := get?_foldlM_of_mem hreg hrun' ((hmem _).mp hname) htag
      rw [valueOf_reordered h] at hv
      cases hv.symm.trans hv'
      rw [hget, hget']
    · have hnone : .text key ∈ raw.tagnames → tagFor reg s.kind (.text key) = none := by
        intro hname
        rw [Option.eq_none_iff_forall_ne_some]
        exact fun t htag => hclaimed ⟨hname, t, htag⟩
      rw [get?_foldlM_of_unclaimed hreg hrun hnone,
        get?_foldlM_of_unclaimed hreg hrun' fun hname => hnone ((hmem _).mpr hname)]
  · rw [selected_foldlM hrun, selected_foldlM hrun']
    exact given_reordered h s.kind name

/-- Merging the same records in another order of their names. -/
theorem run_reordered (hext : ∀ t ∈ reg.tags, t.Extensional) :
    Report.Agree Outcome.Same (run reg s raw) (run reg s raw') := by
  refine (Report.Agree.forM_warn (complaints_reordered h reg s)).bind fun _ _ _ => ?_
  refine (Report.Agree.ofExcept (merging_reordered h hreg s)).bind ?_
  rintro state state' ⟨hattributes, hselected⟩
  refine .ofExcept (.foldlM (fun outcome outcome' t ht hsame => ?_) ⟨hattributes, rfl⟩)
  have hmem := Registry.mem_of_mem_pluginsFor ht
  rw [processTag, processTag, hselected]
  refine (hext t hmem { s with attributes := outcome.attributes } _ _ hsame.attributes).bind ?_
  intro next next' hnext
  exact .ok ⟨hnext.attributes, by rw [hnext.target, hsame.target]⟩

end Reordered

/-- **The order of tags does not matter.** Merging the standard tags of a member or a class ends well
exactly if it does with the names of the raw records in another order. Then both find the same
attributes and the same override, and they warn of the same things in whichever order. -/
theorem merge_reordered {reg : Registry} (hreg : Registry.ofTags Tag.standard = .ok reg) :
    (∀ m m' : Member, m.Reordered m' →
      Report.Agree (fun n n' => n.attributes.Same n'.attributes) (m.merge reg) (m'.merge reg)) ∧
      ∀ c c' : ClassDoc, c.Reordered c' →
        Report.Agree ClassDoc.SameFindings (c.merge reg) (c'.merge reg) := by
  have hsettles := Registry.settles_standard hreg
  have hext : ∀ t ∈ reg.tags, t.Extensional := by
    rw [Registry.tags_ofTags hreg]
    exact Tag.extensional_standard
  have hmember : ∀ m m' : Member, m.Reordered m' →
      Report.Agree (fun n n' => n.attributes.Same n'.attributes) (m.merge reg) (m'.merge reg) := by
    rintro m _ ⟨raw, hraw, rfl⟩
    exact (run_reordered hraw hsettles m.subject hext).bind fun _ _ houtcome =>
      .pure houtcome.attributes
  refine ⟨hmember, ?_⟩
  rintro c _ ⟨raw, members, hraw, hmembers, rfl⟩
  refine (run_reordered hraw hsettles c.subject hext).bind fun outcome outcome' houtcome => ?_
  refine (Report.Agree.mapM (hmembers.imp hmember)).bind fun ms ms' hms => .pure ?_
  obtain ⟨attributes, target⟩ := outcome
  obtain ⟨attributes', target'⟩ := outcome'
  obtain rfl : target = target' := houtcome.target
  cases target with
  | none => exact ⟨houtcome.attributes, rfl, rfl, hms⟩
  | some target => exact ⟨houtcome.attributes, rfl, rfl, hms⟩

/-- A class with a tag that nobody handles before one that is merged, and a method that is chainable
because of what it returns. -/
def chainedClass (order : Groups → Groups) : ClassDoc :=
  let since : Record := [("tagname", .text "since"), ("version", .text "1")]
  { name := "Btn"
    raw.doc := order [(.text "colour", [[("tagname", .text "colour")]]), (.text "since", [since])]
    members := [{
      id := "show"
      owner := "Btn"
      name := "show"
      raw.doc := order [(.text "since", [since]),
        (.text "return", [[("tagname", .text "return"), ("type", .text "this"),
          ("doc", Tag.multiline)]])] }] }

theorem ready_chainedClass : (chainedClass id).Ready := by
  have hcolour : Record.Sound "colour" _ := Tag.sound_bare rfl
  have hreturn : Record.Sound "return" _ :=
    Tag.sound_typed (fun _ h => absurd h List.not_mem_nil) (.text "this")
  have hclass : Groups.Sound _ := (Groups.sound_nil.add hcolour).add (Tag.sound_since "1")
  have hmember : Groups.Sound _ := (Groups.sound_nil.add (Tag.sound_since "1")).add hreturn
  exact {
    attributes := .nil
    raw := ⟨hclass, Groups.sound_nil⟩
    members := List.forall_mem_singleton.mpr {
      attributes := .nil
      raw := ⟨hmember, Groups.sound_nil⟩ }
    target := Or.inl rfl
    files := List.not_mem_nil }

theorem merge_reordered_chained : ∃ reg, Registry.ofTags Tag.standard = .ok reg ∧
    (chainedClass id).Reordered (chainedClass List.reverse) ∧ ∃ c c' notes notes',
      (chainedClass id).merge reg = .ok c notes ∧
      (chainedClass List.reverse).merge reg = .ok c' notes' ∧
      c.SameFindings c' ∧ notes.Perm notes' := by
  obtain ⟨reg, hreg⟩ : ∃ reg, Registry.ofTags Tag.standard = .ok reg := ⟨_, rfl⟩
  have hreordered : (chainedClass id).Reordered (chainedClass List.reverse) := by
    refine ⟨(chainedClass List.reverse).raw, (chainedClass List.reverse).members, ?_, ?_, rfl⟩
    · exact ⟨⟨by decide, by decide⟩, (List.reverse_perm _).symm, .refl _⟩
    · refine .cons ⟨{ doc := _ }, ?_, rfl⟩ .nil
      exact ⟨⟨by decide, by decide⟩, (List.reverse_perm _).symm, .refl _⟩
  obtain ⟨c, notes, hmerge, -⟩ :=
    ClassDoc.merge_ends (Registry.sturdy_standard hreg) ready_chainedClass
  have hagree := (merge_reordered hreg).2 _ _ hreordered
  rw [hmerge] at hagree
  generalize hother : (chainedClass List.reverse).merge reg = other at hagree
  cases hagree with
  | ok hsame hnotes => exact ⟨reg, hreg, hreordered, c, _, notes, _, hmerge, hother, hsame, hnotes⟩

end Merge

end ApiPages
