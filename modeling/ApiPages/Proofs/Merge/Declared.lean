import ApiPages.Proofs.Merge.Derived
import ApiPages.Proofs.Tag.Naming

/-!
# Classes with comments and declarations

The comment of a class and its declarations name what it is derived from, what is mixed into it and
which class it patches. What the comment names goes first. The first name counts for base and
target, and of what is mixed in each name once.
-/

namespace ApiPages

open Record (name? naming derivedKeys)

/-- The names in the records of a tagname. -/
def Groups.names (groups : Groups) (key : String) : List String :=
  (groups.of (.text key)).filterMap name?

/-- All names in the raw records of a tagname, those of the comment first. -/
def Occurrences.names (raw : Occurrences) (key : String) : List String :=
  raw.doc.names key ++ raw.code.names key

namespace Merge

section Values

variable {s : Subject} {raw : Occurrences}

theorem valueOf_className {t : Tag}
    (hnamed : ∀ r ∈ raw.doc.of (.text t.key) ++ raw.code.of (.text t.key), ∃ s, r.name? = some s)
    (hmerge : ∀ s docs code, t.merge s docs code = Tag.mergeClassName docs code)
    (hkeeps : t.keepsLast = false) :
    valueOf s raw t = .ok (.ofText? (raw.names t.key).head?) := by
  rw [valueOf, hmerge, Tag.mergeClassName_eq (firstOf_select hkeeps _ _) hnamed,
    List.filterMap_append]
  rfl

theorem valueOf_mixins
    (hnamed : ∀ r ∈ raw.doc.of (.text "mixins") ++ raw.code.of (.text "mixins"),
      ∃ s, r.name? = some s) :
    valueOf s raw Tag.mixins = .ok (match raw.names "mixins" with
      | [] => .null
      | names => .list (names.eraseDups.map .text)) := by
  have hvalue : valueOf s raw Tag.mixins =
      Tag.mergeMixins (raw.doc.of (.text "mixins")) (raw.code.of (.text "mixins")) := rfl
  rw [hvalue, Tag.mergeMixins_eq hnamed, List.filterMap_append]
  rfl

end Values

theorem stored_ofText?_none (name : Option String) :
    stored (.ofText? name) none = name.map .text := by
  cases name <;> rfl

section Class

variable {reg : Registry} (hreg : Registry.ofTags Tag.standard = .ok reg) {s : Subject}
  (hempty : s.attributes = []) {raw : Occurrences} {outcome : Outcome} {notes : List Note}
  (h : run reg s raw = .ok outcome notes)
include hreg hempty h

theorem get?_run {t : Tag} (ht : t ∈ Tag.standard) (hcovers : t.covers s.kind = true)
    (hkey : ∀ word ∈ Tag.standard.map Tag.key, t.key ∉ derivedKeys word) {v : Value}
    (hv : valueOf s raw t = .ok v) : Table.get? outcome.attributes t.key = stored v none := by
  obtain ⟨state, hmerge, hprocess⟩ := run_eq_ok h
  rw [hempty] at hmerge
  obtain ⟨w, hw, hstate⟩ := get?_merged hreg hmerge (mem_pluginsFor_of_standard hreg ht hcovers)
  cases hv.symm.trans hw
  have hplugins : ∀ u ∈ reg.pluginsFor s.kind, u ∈ Tag.standard := fun u hu =>
    (standard_of_mem_pluginsFor hreg hu).1
  exact (foldlM_processTag_underived hplugins hprocess hkey).trans hstate

theorem get?_className {t : Tag} (ht : t ∈ Tag.standard) (hcovers : t.covers s.kind = true)
    (hkey : ∀ word ∈ Tag.standard.map Tag.key, t.key ∉ derivedKeys word)
    (hmerge : ∀ s docs code, t.merge s docs code = Tag.mergeClassName docs code)
    (hkeeps : t.keepsLast = false)
    (hnamed : ∀ r ∈ raw.doc.of (.text t.key) ++ raw.code.of (.text t.key), ∃ s, r.name? = some s) :
    Table.get? outcome.attributes t.key = (raw.names t.key).head?.map .text := by
  have hvalue := valueOf_className (s := s) hnamed hmerge hkeeps
  exact (get?_run hreg hempty h ht hcovers hkey hvalue).trans (stored_ofText?_none _)

theorem get?_mixins (hkind : s.kind = .cls)
    (hnamed : ∀ r ∈ raw.doc.of (.text "mixins") ++ raw.code.of (.text "mixins"),
      ∃ s, r.name? = some s) :
    Table.get? outcome.attributes "mixins" = if raw.names "mixins" = [] then none
      else some (.list ((raw.names "mixins").eraseDups.map .text)) := by
  have hvalue := valueOf_mixins (s := s) hnamed
  refine (get?_run hreg hempty h (by simp [Tag.standard]) (by rw [hkind]; rfl) (by decide)
    hvalue).trans ?_
  cases raw.names "mixins" <;> rfl

end Class

end Merge

/-- A class that is derived from the first of some bases, patches the first of some targets and has
some names mixed in, each where it stands first. -/
structure ClassDoc.Reconciled (c c' : ClassDoc) (bases mixed targets : List String) : Prop where
  base : Table.get? c'.attributes "extends" = bases.head?.map .text
  mixins : Table.get? c'.attributes "mixins" =
    if mixed = [] then none else some (.list (mixed.eraseDups.map .text))
  override : Table.get? c'.attributes "override" = targets.head?.map .text
  isOverride : c'.isOverride = targets.head?.isSome
  target : c'.overrideTarget = (targets.head?.map .text).getD c.overrideTarget

theorem ClassDoc.reconciled_of_merge {reg : Registry}
    (hreg : Registry.ofTags Tag.standard = .ok reg) {c c' : ClassDoc} {notes : List Note}
    (hempty : c.attributes = []) (hplain : c.isOverride = false)
    (hnamed : ∀ key ∈ namingKeys, ∀ r ∈ c.raw.doc.of (.text key) ++ c.raw.code.of (.text key),
      ∃ s, r.name? = some s)
    (htargets : ∀ name ∈ c.raw.names "override", name ≠ "") (h : c.merge reg = .ok c' notes) :
    Reconciled c c' (c.raw.names "extends") (c.raw.names "mixins") (c.raw.names "override") := by
  obtain ⟨outcome, _, hrun, hattributes, hflag, hpatches⟩ := Merge.exists_run_of_merge h
  have hbase : Table.get? outcome.attributes "extends" =
      (c.raw.names "extends").head?.map .text :=
    Merge.get?_className hreg hempty hrun (t := Tag.ancestor) (by simp [Tag.standard]) rfl
      (by decide) (fun _ _ _ => rfl) rfl (hnamed "extends" (by decide))
  have hmixins := Merge.get?_mixins hreg hempty hrun rfl (hnamed "mixins" (by decide))
  have hoverride : Table.get? outcome.attributes "override" =
      (c.raw.names "override").head?.map .text :=
    Merge.get?_className hreg hempty hrun (t := Tag.override) (by simp [Tag.standard]) rfl
      (by decide) (fun _ _ _ => rfl) rfl (hnamed "override" (by decide))
  have htarget : outcome.target = (c.raw.names "override").head?.map .text := by
    rw [Merge.target_run hreg rfl hrun, Merge.patched, Record.optional, hoverride]
    cases hhead : (c.raw.names "override").head? with
    | none => rfl
    | some name => exact if_pos (bne_iff_ne.mpr (htargets name (List.mem_of_head? hhead)))
  rw [htarget] at hflag hpatches
  refine ⟨?_, ?_, ?_, ?_, hpatches⟩
  · rw [hattributes, hbase]
  · rw [hattributes, hmixins]
  · rw [hattributes, hoverride]
  · rw [hflag, hplain, Bool.false_or, Option.isSome_map]

theorem ClassDoc.merge_ends_iff {reg : Registry} (hreg : reg.Sturdy) {c : ClassDoc}
    (hformed : c.attributes.Formed) (hraw : c.raw.Sound) :
    (∃ c' notes, c.merge reg = .ok c' notes) ↔
      ∀ m ∈ c.members, ∃ m' notes, m.merge reg = .ok m' notes := by
  constructor
  · rintro ⟨c', notes, h⟩ m hm
    obtain ⟨outcome, _, _, -, h⟩ := Report.bind_eq_ok h
    obtain ⟨members, _, _, hmembers, -⟩ := Report.bind_eq_ok h
    obtain ⟨m', -, hmerge⟩ := Except.exists_of_mem_right (Report.mapM_eq_ok hmembers).flip m hm
    exact ⟨m', hmerge⟩
  · intro h
    have hmembers : (c.members.mapM (Member.merge reg)).Ends fun ms => ∀ m ∈ ms, True :=
      .mapM fun m hm => by
        obtain ⟨m', notes, hmerge⟩ := h m hm
        exact ⟨m', notes, hmerge, trivial⟩
    have hends : (c.merge reg).Ends fun _ => True :=
      (Merge.run_ends hreg hformed hraw).bind fun _ _ => hmembers.bind fun _ _ => .pure trivial
    obtain ⟨c', notes, hmerge, -⟩ := hends
    exact ⟨c', notes, hmerge⟩

/-! ### Classes as they are read -/

/-- A class with the raw records of a comment and of the declarations behind it. -/
structure ClassDoc.Read (docs : Groups) (declarations : List Record) (c c' : ClassDoc) : Prop where
  same : c' = { c with raw := { doc := docs, code := c'.raw.code } }
  sound : c'.raw.Sound
  named : ∀ key ∈ namingKeys, ∀ r ∈ docs.of (.text key), ∃ s, s ≠ "" ∧ r.name? = some s
  base : c'.raw.code.of (.text "extends") =
    (declarations.filterMap Declaration.base?).map (naming "extends")
  mixins : c'.raw.code.of (.text "mixins") =
    (declarations.flatMap Declaration.mixedIn).map (naming "mixins")
  target : c'.raw.code.of (.text "override") =
    (declarations.filterMap Declaration.target?).map (naming "override")

theorem ClassDoc.exists_read {reg : Registry} (hreg : Registry.ofTags Tag.standard = .ok reg)
    (c : ClassDoc) (comment : String) (position : Option SourceRef) (declarations : List Record) :
    ∃ parsed told c' later, Comment.parse reg comment position = .ok parsed told ∧
      declarations.foldlM (Declaration.apply reg) { c with raw := { doc := parsed.occurrences } } =
        .ok c' later ∧
      Read parsed.occurrences declarations c c' := by
  have hsturdy := Registry.sturdy_standard hreg
  obtain ⟨parsed, told, hparse, hsound, hnamed⟩ := Comment.named_parse hreg comment position
  have hstart : Occurrences.Sound { doc := parsed.occurrences } := ⟨hsound, Groups.sound_nil⟩
  have hkeys : (reg.declarationTags.map Tag.key).Nodup := by
    rw [Declaration.declarationTags_standard hreg]
    decide
  obtain ⟨c', later, hrun, hfiled⟩ := Declaration.filed_foldlM hsturdy hkeys declarations
    { c with raw := { doc := parsed.occurrences } }
  have hends : (declarations.foldlM (Declaration.apply reg)
      { c with raw := { doc := parsed.occurrences } }).Ends fun c => c.raw.Sound :=
    Report.Ends.foldlM (fun c d _ hc => Declaration.apply_ok hsturdy c d hc) hstart
  obtain ⟨again, _, hagain, hraw⟩ := hends
  cases hrun.symm.trans hagain
  obtain ⟨hbase, hmixins, htarget⟩ := Declaration.code_of_filed hreg hfiled rfl
  exact ⟨parsed, told, c', later, hparse, hrun, hfiled.same, hraw, hnamed, hbase, hmixins, htarget⟩

namespace ClassDoc.Read

variable {docs : Groups} {declarations : List Record} {c c' : ClassDoc}
  (h : Read docs declarations c c')
include h

theorem names {key : String} {names : List String}
    (hcode : c'.raw.code.of (.text key) = names.map (naming key)) :
    c'.raw.names key = docs.names key ++ names := by
  have hdoc : c'.raw.doc = docs := by rw [h.same]
  rw [Occurrences.names, hdoc, Groups.names, Groups.names, hcode,
    Record.filterMap_name?_map_naming]

theorem all_named : ∀ key ∈ namingKeys,
    ∀ r ∈ c'.raw.doc.of (.text key) ++ c'.raw.code.of (.text key), ∃ s, r.name? = some s := by
  have hdoc : c'.raw.doc = docs := by rw [h.same]
  have hcode : ∀ key ∈ namingKeys, ∃ names : List String,
      c'.raw.code.of (.text key) = names.map (naming key) := by
    simp only [namingKeys, List.forall_mem_cons]
    exact ⟨⟨_, h.base⟩, ⟨_, h.mixins⟩, ⟨_, h.target⟩, fun _ h => absurd h List.not_mem_nil⟩
  intro key hkey r hr
  rw [hdoc] at hr
  rcases List.mem_append.mp hr with hr | hr
  · obtain ⟨s, -, hs⟩ := h.named key hkey r hr
    exact ⟨s, hs⟩
  · obtain ⟨names, hnames⟩ := hcode key hkey
    rw [hnames] at hr
    obtain ⟨s, -, rfl⟩ := List.mem_map.mp hr
    exact ⟨s, rfl⟩

theorem targets_ne : ∀ name ∈ c'.raw.names "override", name ≠ "" := by
  intro name hname
  rw [h.names h.target] at hname
  rcases List.mem_append.mp hname with hname | hname
  · obtain ⟨r, hr, hs⟩ := List.mem_filterMap.mp hname
    obtain ⟨s, hne, hs'⟩ := h.named "override" (by decide) r hr
    exact Option.some.inj (hs'.symm.trans hs) ▸ hne
  · obtain ⟨d, -, hd⟩ := List.mem_filterMap.mp hname
    exact Declaration.ne_of_target? hd

theorem reconciled {reg : Registry} (hreg : Registry.ofTags Tag.standard = .ok reg)
    (hempty : c.attributes = []) (hplain : c.isOverride = false) {d : ClassDoc} {notes : List Note}
    (hmerge : c'.merge reg = .ok d notes) :
    Reconciled c d (docs.names "extends" ++ declarations.filterMap Declaration.base?)
      (docs.names "mixins" ++ declarations.flatMap Declaration.mixedIn)
      (docs.names "override" ++ declarations.filterMap Declaration.target?) := by
  have hattributes : c'.attributes = [] := by rw [h.same, hempty]
  have hflag : c'.isOverride = false := by rw [h.same, hplain]
  have hpatched : c'.overrideTarget = c.overrideTarget := by rw [h.same]
  have hown := reconciled_of_merge hreg hattributes hflag h.all_named h.targets_ne hmerge
  rw [h.names h.base, h.names h.mixins, h.names h.target] at hown
  exact ⟨hown.base, hown.mixins, hown.override, hown.isOverride, hpatched ▸ hown.target⟩

end ClassDoc.Read

/-- **Comments go before declarations.** Every comment of a class without attributes can be read,
and behind it any declarations. The class can then be merged if its members can, and it is
reconciled with the names of the comment and, behind them, those of the declarations in their
order. The names of the comment are not empty. -/
theorem ClassDoc.merge_declared {reg : Registry} (hreg : Registry.ofTags Tag.standard = .ok reg)
    (c : ClassDoc) (hempty : c.attributes = []) (hplain : c.isOverride = false) (comment : String)
    (position : Option SourceRef) (declarations : List Record) :
    ∃ parsed told declared later, Comment.parse reg comment position = .ok parsed told ∧
      declarations.foldlM (Declaration.apply reg) { c with raw := { doc := parsed.occurrences } } =
        .ok declared later ∧
      (∀ key ∈ namingKeys, ∀ r ∈ parsed.occurrences.of (.text key),
        ∃ s, s ≠ "" ∧ r.name? = some s) ∧
      ((∃ c' notes, declared.merge reg = .ok c' notes) ↔
        ∀ m ∈ c.members, ∃ m' notes, m.merge reg = .ok m' notes) ∧
      ∀ c' notes, declared.merge reg = .ok c' notes →
        Reconciled c c'
          (parsed.occurrences.names "extends" ++ declarations.filterMap Declaration.base?)
          (parsed.occurrences.names "mixins" ++ declarations.flatMap Declaration.mixedIn)
          (parsed.occurrences.names "override" ++ declarations.filterMap Declaration.target?) := by
  obtain ⟨parsed, told, declared, later, hparse, hrun, hread⟩ :=
    exists_read hreg c comment position declarations
  have hformed : declared.attributes.Formed := by
    rw [hread.same, hempty]
    exact .nil
  have hmembers : declared.members = c.members := by rw [hread.same]
  have hends := merge_ends_iff (Registry.sturdy_standard hreg) hformed hread.sound
  rw [hmembers] at hends
  exact ⟨parsed, told, declared, later, hparse, hrun, hread.named, hends,
    fun _ _ hmerge => hread.reconciled hreg hempty hplain hmerge⟩

/-- A class that nothing is known of but its name. -/
def bareGrid : ClassDoc :=
  { name := "Grid" }

/-- What two calls say that define a class, the second one with some values of no use. -/
def gridDeclarations : List Record :=
  [[("mixins", .list [.text "util.Sorted", .int 3, .text "util.Bound"])],
    [("extend", .bool true), ("mixins", .record [("bound", .text "util.Bound")]),
      ("override", .text "Panel")]]

theorem bareGrid_merge_declared : ∃ reg, Registry.ofTags Tag.standard = .ok reg ∧
    bareGrid.attributes = [] ∧ bareGrid.isOverride = false ∧ ∃ parsed told declared later c' notes,
      Comment.parse reg "A grid. @mixins util.Bound" none = .ok parsed told ∧
      gridDeclarations.foldlM (Declaration.apply reg)
        { bareGrid with raw := { doc := parsed.occurrences } } = .ok declared later ∧
      declared.merge reg = .ok c' notes ∧
      ClassDoc.Reconciled bareGrid c' (parsed.occurrences.names "extends" ++ ["Ext.Base"])
        (parsed.occurrences.names "mixins" ++ ["util.Sorted", "util.Bound", "util.Bound"])
        (parsed.occurrences.names "override" ++ ["Panel"]) := by
  obtain ⟨reg, hreg⟩ : ∃ reg, Registry.ofTags Tag.standard = .ok reg := ⟨_, rfl⟩
  obtain ⟨parsed, told, declared, later, hparse, hrun, -, hends, hreconciled⟩ :=
    ClassDoc.merge_declared hreg bareGrid rfl rfl "A grid. @mixins util.Bound" none gridDeclarations
  obtain ⟨c', notes, hmerge⟩ := hends.mpr fun _ h => absurd h List.not_mem_nil
  exact ⟨reg, hreg, rfl, rfl, parsed, told, declared, later, c', notes, hparse, hrun, hmerge,
    hreconciled c' notes hmerge⟩

end ApiPages
