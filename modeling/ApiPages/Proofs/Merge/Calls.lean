import ApiPages.Proofs.Comment.Filed
import ApiPages.Proofs.Merge
import ApiPages.Proofs.Merge.Complaint

/-!
# The calls that merging makes

Merging works with the two hooks of each tag, `merge` and `process`. Here it takes them from
elsewhere, in any monad, so that they can be watched. With the tags' own hooks this is merging as it
runs, and with hooks that note each call it tells which calls that run makes and with which records.
-/

namespace ApiPages.Merge

/-- What merging asks of tags. -/
structure Hooks (m : Type → Type) where
  merge : Tag → Subject → List Record → List Record → m Value
  process : Tag → Subject → List Record → m Outcome

def Hooks.own : Hooks (Except Fault) where
  merge := Tag.merge
  process := Tag.process

/-- A call of a hook, with the records that the tag is given. -/
inductive Call where
  | merge (t : Tag) (docs code : List Record)
  | process (t : Tag) (docs : List Record)

def Call.tag : Call → Tag
  | merge t .. => t
  | process t _ => t

section Hooked

variable {m : Type → Type} [Monad m]

/-- The same hooks, which note each of their calls. -/
def Hooks.recorded (hooks : Hooks m) : Hooks (StateT (List Call) m) where
  merge t s docs code := fun calls =>
    (fun value => (value, calls ++ [.merge t docs code])) <$> hooks.merge t s docs code
  process t s docs := fun calls =>
    (fun outcome => (outcome, calls ++ [.process t docs])) <$> hooks.process t s docs

def mergeTagnameBy (hooks : Hooks m) (reg : Registry) (s : Subject) (raw : Occurrences)
    (state : MergeState) (tagname : Name) : m MergeState :=
  match tagFor reg s.kind tagname with
  | none => pure state
  | some t => do
    let docs := select t (raw.doc.of tagname)
    let value ←
      hooks.merge t { s with attributes := state.attributes } docs (raw.code.of tagname)
    return {
      attributes := store state.attributes t.key value
      selected := state.selected ++ [(tagname, docs)] }

def processTagBy (hooks : Hooks m) (s : Subject) (selected : Groups) (outcome : Outcome)
    (t : Tag) : m Outcome := do
  let next ← hooks.process t { s with attributes := outcome.attributes }
    (selected.of (.text t.key))
  return { next with target := next.target <|> outcome.target }

/-- Merges all records of a subject and lets every tag of its kind derive attributes, by the hooks
that are given. -/
def runBy (hooks : Hooks m) (reg : Registry) (s : Subject) (raw : Occurrences) : m Outcome := do
  let state ← raw.tagnames.foldlM (mergeTagnameBy hooks reg s raw) { attributes := s.attributes }
  (reg.pluginsFor s.kind).foldlM (processTagBy hooks s state.selected)
    { attributes := state.attributes }

end Hooked

/-- With the tags' own hooks this is what runs, behind the complaints about the tagnames. -/
theorem run_eq_runBy (reg : Registry) (s : Subject) (raw : Occurrences) :
    run reg s raw = ((raw.tagnames.filterMap (complaint reg s raw)).forM Report.warn >>= fun _ =>
      .ofExcept (runBy Hooks.own reg s raw)) := by
  have hstep : mergeTagnameBy Hooks.own reg s raw = mergeTagname reg s raw := rfl
  rw [run, runBy, hstep]
  refine bind_congr fun _ => ?_
  cases raw.tagnames.foldlM (mergeTagname reg s raw) { attributes := s.attributes } with
  | error fault => rfl
  | ok state => exact Report.after_nil _

/-! ### The calls of a run -/

section Recorded

variable {m : Type → Type} [Monad m] [LawfulMonad m] (hooks : Hooks m)
variable (reg : Registry) (kind : Kind) (raw : Occurrences)

def mergeCall (name : Name) : Option Call :=
  (tagFor reg kind name).map fun t => .merge t (select t (raw.doc.of name)) (raw.code.of name)

/-- The records of comments that the tags of some names are given. -/
def given (names : List Name) : Groups :=
  names.filterMap fun name =>
    (tagFor reg kind name).map fun t => (name, select t (raw.doc.of name))

variable {reg kind raw} {s : Subject}

/-- Which records are kept for later does not depend on what the hooks answer. -/
theorem foldlM_mergeTagnameBy_selected (names : List Name) (state : MergeState) :
    names.foldlM (mergeTagnameBy hooks reg s raw) state =
      (fun last => { last with selected := state.selected ++ given reg s.kind raw names }) <$>
        names.foldlM (mergeTagnameBy hooks reg s raw) state := by
  induction names generalizing state with
  | nil => simp [given]
  | cons name names ih =>
      rw [List.foldlM_cons, map_bind, mergeTagnameBy]
      cases htag : tagFor reg s.kind name with
      | none =>
          have hgiven : given reg s.kind raw (name :: names) = given reg s.kind raw names := by
            simp [given, htag]
          rw [pure_bind, pure_bind, hgiven]
          exact ih state
      | some t =>
          have hgiven : given reg s.kind raw (name :: names) =
              (name, select t (raw.doc.of name)) :: given reg s.kind raw names := by
            simp [given, htag]
          simp only [bind_assoc, pure_bind, hgiven]
          apply bind_congr
          intro value
          rw [ih, Functor.map_map]
          simp only [List.append_assoc, List.singleton_append]

theorem foldlM_mergeTagnameBy_recorded (names : List Name) (state : MergeState)
    (calls : List Call) :
    (names.foldlM (mergeTagnameBy hooks.recorded reg s raw) state).run calls =
      (fun last => (last, calls ++ names.filterMap (mergeCall reg s.kind raw))) <$>
        names.foldlM (mergeTagnameBy hooks reg s raw) state := by
  induction names generalizing state calls with
  | nil => simp
  | cons name names ih =>
      rw [List.foldlM_cons, List.foldlM_cons, StateT.run_bind, map_bind, mergeTagnameBy,
        mergeTagnameBy]
      cases htag : tagFor reg s.kind name with
      | none =>
          have hcall : mergeCall reg s.kind raw name = none := by rw [mergeCall, htag]; rfl
          rw [StateT.run_pure, pure_bind, pure_bind, ih, List.filterMap_cons_none hcall]
      | some t =>
          have hcall : mergeCall reg s.kind raw name =
              some (.merge t (select t (raw.doc.of name)) (raw.code.of name)) := by
            rw [mergeCall, htag]
            rfl
          have hmerge : ∀ s docs code, (hooks.recorded.merge t s docs code).run calls =
              (fun value => (value, calls ++ [.merge t docs code])) <$>
                hooks.merge t s docs code := fun _ _ _ => rfl
          simp only [StateT.run_bind, StateT.run_pure, hmerge, bind_map_left, bind_assoc, pure_bind]
          apply bind_congr
          intro value
          rw [ih, List.filterMap_cons_some hcall, List.append_assoc, List.singleton_append]

theorem foldlM_processTagBy_recorded (selected : Groups) (ts : List Tag) (outcome : Outcome)
    (calls : List Call) :
    (ts.foldlM (processTagBy hooks.recorded s selected) outcome).run calls =
      (fun last => (last, calls ++ ts.map fun t => .process t (selected.of (.text t.key)))) <$>
        ts.foldlM (processTagBy hooks s selected) outcome := by
  induction ts generalizing outcome calls with
  | nil => simp
  | cons t ts ih =>
      have hprocess : ∀ s docs, (hooks.recorded.process t s docs).run calls =
          (fun outcome => (outcome, calls ++ [.process t docs])) <$> hooks.process t s docs :=
        fun _ _ => rfl
      rw [List.foldlM_cons, List.foldlM_cons, map_bind, processTagBy, processTagBy]
      simp only [StateT.run_bind, hprocess, bind_map_left, bind_assoc, pure_bind]
      apply bind_congr
      intro next
      rw [ih, List.map_cons, List.append_assoc, List.singleton_append]

variable (reg kind raw) in
/-- The calls by which the records of a comment and of a declaration are merged. -/
def merging : List Call :=
  raw.tagnames.filterMap (mergeCall reg kind raw)

variable (reg kind raw) in
/-- The calls by which all tags of a kind derive attributes. -/
def processing : List Call :=
  (reg.pluginsFor kind).map fun t =>
    .process t ((given reg kind raw raw.tagnames).of (.text t.key))

/-- Whatever the hooks answer, the same calls are made in the same order. -/
theorem runBy_recorded :
    (runBy hooks.recorded reg s raw).run [] =
      (fun outcome => (outcome, merging reg s.kind raw ++ processing reg s.kind raw)) <$>
        runBy hooks reg s raw := by
  rw [runBy, runBy, StateT.run_bind, map_bind, foldlM_mergeTagnameBy_recorded,
    foldlM_mergeTagnameBy_selected]
  simp only [bind_map_left, foldlM_processTagBy_recorded]
  rfl

end Recorded

/-! ### Which tags are called, and with what -/

/-- The call that merges the records of a name: one of a tag of the kind that has the name. -/
def MergedBy (reg : Registry) (kind : Kind) (raw : Occurrences) (name : Name) (call : Call) :
    Prop :=
  ∃ t ∈ reg.pluginsFor kind, reg.findByName name = some t ∧
    call = .merge t (select t (raw.doc.of name)) (raw.code.of name)

/-- The records from which a tag derives attributes: those of the one call that merged for it, and
none if there is nothing to merge for it. -/
inductive Handed (raw : Occurrences) (merging : List Call) (t : Tag) : List Record → Prop
  | merged {before after : List Call} {docs code : List Record} (hkey : t.key ≠ "")
      (hoccurs : .text t.key ∈ raw.tagnames)
      (hcalls : merging = before ++ .merge t docs code :: after)
      (hothers : ∀ call ∈ before ++ after, call.tag ≠ t) : Handed raw merging t docs
  | absent (habsent : t.key = "" ∨ .text t.key ∉ raw.tagnames)
      (hcalls : ∀ call ∈ merging, call.tag ≠ t) : Handed raw merging t []

section Calls

variable {tags : List Tag} {reg : Registry} (hreg : Registry.ofTags tags = .ok reg)
variable {kind : Kind} {raw : Occurrences}

theorem mergeCall_eq_some_iff {name : Name} {call : Call} :
    mergeCall reg kind raw name = some call ↔ ∃ t, tagFor reg kind name = some t ∧
      .merge t (select t (raw.doc.of name)) (raw.code.of name) = call := by
  rw [mergeCall, Option.map_eq_some_iff]

theorem keys_given (names : List Name) :
    Table.keys (given reg kind raw names) =
      names.filter fun name => (tagFor reg kind name).isSome := by
  induction names with
  | nil => rfl
  | cons name names ih =>
      rw [given] at ih ⊢
      cases htag : tagFor reg kind name with
      | none =>
          rw [List.filterMap_cons_none (by rw [htag]; rfl), ih,
            List.filter_cons_of_neg (by simp [htag])]
      | some t =>
          rw [List.filterMap_cons_some (by rw [htag]; rfl), Table.keys, List.map_cons,
            List.filter_cons_of_pos (by simp [htag])]
          exact congrArg (name :: ·) ih

theorem given_eq_nil {names : List Name} {name : Name}
    (h : name ∈ names → tagFor reg kind name = none) :
    (given reg kind raw names).of name = [] := by
  have hkeys : name ∉ Table.keys (given reg kind raw names) := by
    rw [keys_given, List.mem_filter]
    rintro ⟨hname, hsome⟩
    rw [h hname] at hsome
    exact Bool.false_ne_true hsome
  exact Groups.of_eq_nil hkeys

theorem given_of_mem {names : List Name} (hnames : names.Nodup) {name : Name} (h : name ∈ names)
    {t : Tag} (htag : tagFor reg kind name = some t) :
    (given reg kind raw names).of name = select t (raw.doc.of name) := by
  have hkeys : (Table.keys (given reg kind raw names)).Nodup := by
    rw [keys_given]
    exact hnames.filter _
  have hmem : (name, select t (raw.doc.of name)) ∈ given reg kind raw names :=
    List.mem_filterMap.mpr ⟨name, h, by rw [htag]; rfl⟩
  rw [Groups.of, Table.get?_of_mem hkeys hmem]
  rfl

/-- Names of which a function makes something correspond to what it makes of them. -/
theorem forall₂_filterMap {α β : Type} {R : α → β → Prop} {f : α → Option β} {xs : List α}
    (h : ∀ x y, f x = some y → R x y) :
    List.Forall₂ R (xs.filter fun x => (f x).isSome) (xs.filterMap f) := by
  induction xs with
  | nil => exact .nil
  | cons x xs ih =>
      cases hx : f x with
      | none =>
          rw [List.filter_cons_of_neg (by simp [hx]), List.filterMap_cons_none hx]
          exact ih
      | some y =>
          rw [List.filter_cons_of_pos (by simp [hx]), List.filterMap_cons_some hx]
          exact .cons (h x y hx) ih

include hreg

theorem tagFor_eq_some_iff {name : Name} {t : Tag} :
    tagFor reg kind name = some t ↔ t ∈ reg.pluginsFor kind ∧ reg.findByName name = some t := by
  rw [tagFor, Option.filter_eq_some_iff, Registry.mem_pluginsFor_iff, Registry.tags_ofTags hreg]
  constructor
  · rintro ⟨hfind, hcovers⟩
    exact ⟨⟨((findByName_eq_some_iff hreg).mp hfind).1, hcovers⟩, hfind⟩
  · rintro ⟨⟨-, hcovers⟩, hfind⟩
    exact ⟨hfind, hcovers⟩

theorem owns_of_tagFor {name : Name} {t : Tag} (h : tagFor reg kind name = some t) :
    t.Owns name :=
  ((findByName_eq_some_iff hreg).mp ((tagFor_eq_some_iff hreg).mp h).2).2

theorem tagFor_key {t : Tag} (ht : t ∈ reg.pluginsFor kind) (hkey : t.key ≠ "") :
    tagFor reg kind (.text t.key) = some t := by
  have hmem := Registry.mem_of_mem_pluginsFor ht
  rw [Registry.tags_ofTags hreg] at hmem
  rw [tagFor_eq_some_iff hreg, findByName_eq_some_iff hreg]
  exact ⟨ht, hmem, hkey, rfl⟩

theorem owns_of_mergeCall {name : Name} {call : Call}
    (h : mergeCall reg kind raw name = some call) : call.tag.Owns name := by
  obtain ⟨t, htag, rfl⟩ := mergeCall_eq_some_iff.mp h
  exact owns_of_tagFor hreg htag

theorem tag_ne_of_mem_filterMap {names : List Name} {call : Call}
    (h : call ∈ names.filterMap (mergeCall reg kind raw)) {t : Tag}
    (ht : t.key = "" ∨ .text t.key ∉ names) : call.tag ≠ t := by
  obtain ⟨name, hname, hcall⟩ := List.mem_filterMap.mp h
  obtain ⟨hkey, rfl⟩ := owns_of_mergeCall hreg hcall
  rintro rfl
  exact ht.elim hkey fun hnot => hnot hname

theorem handed_given (hraw : raw.Distinct) {t : Tag} (ht : t ∈ reg.pluginsFor kind) :
    Handed raw (merging reg kind raw) t
      ((given reg kind raw raw.tagnames).of (.text t.key)) := by
  by_cases hcalled : t.key ≠ "" ∧ .text t.key ∈ raw.tagnames
  · obtain ⟨hkey, hoccurs⟩ := hcalled
    have htag := tagFor_key hreg ht hkey
    obtain ⟨before, after, hsplit⟩ := List.append_of_mem hoccurs
    have hnodup := hraw.nodup_tagnames
    rw [given_of_mem hnodup hoccurs htag]
    rw [hsplit, List.nodup_middle, List.nodup_cons] at hnodup
    have hcalls : merging reg kind raw =
        before.filterMap (mergeCall reg kind raw) ++
          .merge t (select t (raw.doc.of (.text t.key))) (raw.code.of (.text t.key)) ::
            after.filterMap (mergeCall reg kind raw) := by
      rw [merging, hsplit, List.filterMap_append,
        List.filterMap_cons_some (mergeCall_eq_some_iff.mpr ⟨t, htag, rfl⟩)]
    refine .merged hkey hoccurs hcalls fun call hcall => ?_
    rw [← List.filterMap_append] at hcall
    exact tag_ne_of_mem_filterMap hreg hcall (Or.inr hnodup.1)
  · rw [not_and_or, not_ne_iff] at hcalled
    have hnone : Name.text t.key ∈ raw.tagnames → tagFor reg kind (.text t.key) = none := by
      intro hoccurs
      rw [Option.eq_none_iff_forall_ne_some]
      intro u htag
      obtain ⟨hne, hname⟩ := owns_of_tagFor hreg htag
      have hkey := hcalled.resolve_right (not_not_intro hoccurs)
      exact hne ((Name.text.inj hname).symm.trans hkey)
    rw [given_eq_nil hnone]
    exact .absent hcalled fun call hcall => tag_ne_of_mem_filterMap hreg hcall hcalled

/-- **Every tag of a kind is called once for deriving, and before that once for its records.** The
names among the records that belong to a tag of the kind each make for one call that merges, in
their order, and no other tag is called to merge. Behind those calls every tag of the kind, in the
order of their positions, is called once to derive attributes. It is handed the records of the
comment that it was given for merging, and none if there was nothing to merge for it. These are the
calls with any hooks, and those of a run that ends well with the tags' own. -/
theorem run_calls (s : Subject) (hraw : raw.Distinct) :
    ∃ (names : List Name) (merging processing : List Call),
      (∀ (m : Type → Type) [Monad m] [LawfulMonad m] (hooks : Hooks m),
        (runBy hooks.recorded reg s raw).run [] =
          (fun outcome => (outcome, merging ++ processing)) <$> runBy hooks reg s raw) ∧
      (∀ outcome notes, run reg s raw = .ok outcome notes →
        (runBy Hooks.own.recorded reg s raw).run [] = .ok (outcome, merging ++ processing)) ∧
      names.Sublist raw.tagnames ∧ names.Nodup ∧
      (∀ name, name ∈ names ↔ name ∈ raw.tagnames ∧
        ∃ t ∈ reg.pluginsFor s.kind, reg.findByName name = some t) ∧
      List.Forall₂ (MergedBy reg s.kind raw) names merging ∧
      List.Forall₂ (fun t call => ∃ docs, call = .process t docs ∧ Handed raw merging t docs)
        (reg.pluginsFor s.kind) processing := by
  have hplugin : ∀ name, (tagFor reg s.kind name).isSome ↔
      ∃ t ∈ reg.pluginsFor s.kind, reg.findByName name = some t := by
    intro name
    rw [Option.isSome_iff_exists]
    simp only [tagFor_eq_some_iff hreg]
  refine ⟨raw.tagnames.filter fun name => (tagFor reg s.kind name).isSome,
    merging reg s.kind raw, processing reg s.kind raw, fun m _ _ hooks => runBy_recorded hooks,
    fun outcome notes h => ?_, List.filter_sublist, hraw.nodup_tagnames.filter _, fun name => ?_,
    ?_, ?_⟩
  · rw [run_eq_runBy] at h
    obtain ⟨_, _, _, -, h⟩ := Report.bind_eq_ok h
    rw [runBy_recorded, Report.ofExcept_eq_ok h]
    rfl
  · rw [List.mem_filter, hplugin]
  · have hcall : (fun name => (tagFor reg s.kind name).isSome) =
        fun name => (mergeCall reg s.kind raw name).isSome := by
      funext name
      rw [mergeCall, Option.isSome_map]
    rw [hcall]
    refine forall₂_filterMap fun name call h => ?_
    obtain ⟨t, htag, rfl⟩ := mergeCall_eq_some_iff.mp h
    obtain ⟨ht, hfind⟩ := (tagFor_eq_some_iff hreg).mp htag
    exact ⟨t, ht, hfind, rfl⟩
  · rw [processing, List.forall₂_map_right_iff, List.forall₂_same]
    exact fun t ht => ⟨_, rfl, handed_given hreg hraw ht⟩

end Calls

/-- A class with a tag that stands twice though only the first one counts, with one that nobody
handles, and with a mixin from its declaration. -/
def scatteredClass : ClassDoc :=
  let since (version : String) : Record :=
    [("tagname", .text "since"), ("version", .text version)]
  { name := "Btn"
    raw.doc := [(.text "since", [since "1", since "2"]),
      (.text "colour", [[("tagname", .text "colour")]])]
    raw.code := [(.text "mixins", [Tag.mixinRecord "Hidden"])] }

theorem scattered_calls : ∃ reg, Registry.ofTags Tag.standard = .ok reg ∧
    scatteredClass.raw.Distinct ∧ ∃ outcome notes merging processing,
      run reg scatteredClass.subject scatteredClass.raw = .ok outcome notes ∧
      (runBy Hooks.own.recorded reg scatteredClass.subject scatteredClass.raw).run [] =
        .ok (outcome, merging ++ processing) ∧
      .merge Tag.since [[("tagname", .text "since"), ("version", .text "1")]] [] ∈ merging ∧
      processing.map Call.tag = reg.pluginsFor .cls := by
  obtain ⟨reg, hreg⟩ : ∃ reg, Registry.ofTags Tag.standard = .ok reg := ⟨_, rfl⟩
  have hraw : scatteredClass.raw.Distinct := ⟨by decide, by decide⟩
  have hcolour : Record.Sound "colour" _ := Tag.sound_bare rfl
  have hsound : scatteredClass.raw.Sound :=
    { doc := ((Groups.sound_nil.add (Tag.sound_since "1")).add (Tag.sound_since "2")).add hcolour
      code := Groups.sound_nil.add (Tag.sound_mixinRecord "Hidden") }
  obtain ⟨outcome, notes, hrun, -⟩ :=
    run_ends (Registry.sturdy_standard hreg) (s := scatteredClass.subject) .nil hsound
  obtain ⟨names, merging, processing, -, hcalls, -, -, hnames, hmerged, hprocessed⟩ :=
    run_calls hreg scatteredClass.subject hraw
  refine ⟨reg, hreg, hraw, outcome, notes, merging, processing, hrun, hcalls outcome notes hrun,
    ?_, ?_⟩
  · have hfind : reg.findByName (.text "since") = some Tag.since :=
      (findByName_eq_some_iff hreg).mpr ⟨by simp [Tag.standard], by decide, rfl⟩
    have hplugin : Tag.since ∈ reg.pluginsFor .cls :=
      Registry.mem_pluginsFor_iff.mpr
        ⟨by simp [Registry.tags_ofTags hreg, Tag.standard], by decide⟩
    have hsince : Name.text "since" ∈ names :=
      (hnames _).mpr ⟨by decide, Tag.since, hplugin, hfind⟩
    obtain ⟨call, hcall, t, -, ht, rfl⟩ :=
      ApiPages.Except.exists_of_mem_right hmerged.flip _ hsince
    obtain rfl := Option.some.inj (hfind.symm.trans ht)
    exact hcall
  · rw [← List.forall₂_eq_eq_eq, List.forall₂_map_left_iff]
    refine hprocessed.flip.imp fun call t h => ?_
    obtain ⟨docs, rfl, -⟩ := h
    rfl

end ApiPages.Merge
