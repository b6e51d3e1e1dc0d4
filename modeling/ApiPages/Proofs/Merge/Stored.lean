import ApiPages.Proofs.Merge.Again
import ApiPages.Proofs.Merge.Calls

/-!
# What merging stores

The records of a name come to one value, whatever was merged before them. Merging ends well exactly
if each name comes to a value, and then each key of the attributes has what its name came to. Keys
without records keep what they had.
-/

namespace ApiPages.Merge

/-- What the records of a tag come to. -/
def valueOf (s : Subject) (raw : Occurrences) (t : Tag) : Except Fault Value :=
  t.merge s (select t (raw.doc.of (.text t.key))) (raw.code.of (.text t.key))

/-- The value of a key after another one is stored there; null changes nothing. -/
def stored : Value → Option Value → Option Value
  | .null, before => before
  | v, _ => some v

theorem get?_store_eq (attributes : Record) (key other : String) (v : Value) :
    Table.get? (store attributes key v) other =
      if key = other then stored v (Table.get? attributes other)
      else Table.get? attributes other := by
  by_cases hkey : key = other
  · subst hkey
    rw [if_pos rfl]
    cases v with
    | null => rfl
    | _ => simp [store, stored, Table.get?_set]
  · rw [if_neg hkey]
    exact get?_store_of_ne attributes hkey v

theorem stored_stored (v : Value) (before : Option Value) :
    stored v (stored v before) = stored v before := by
  cases v <;> rfl

section Names

variable {reg : Registry} (hreg : reg.Settles) {s : Subject} {raw : Occurrences}
include hreg

theorem mergeTagname_eq_ok_iff {state state' : MergeState} {name : Name} :
    mergeTagname reg s raw state name = .ok state' ↔
      (tagFor reg s.kind name = none ∧ state' = state) ∨
        ∃ t v, tagFor reg s.kind name = some t ∧ name = .text t.key ∧ valueOf s raw t = .ok v ∧
          state' = {
            attributes := store state.attributes t.key v
            selected := state.selected ++ [(name, select t (raw.doc.of name))] } := by
  rw [mergeTagname]
  cases htag : tagFor reg s.kind name with
  | none => simp [eq_comm]
  | some t =>
      obtain ⟨hmem, rfl⟩ := mem_of_tagFor hreg.indexed htag
      have hvalue : t.merge { s with attributes := state.attributes }
          (select t (raw.doc.of (.text t.key))) (raw.code.of (.text t.key)) = valueOf s raw t :=
        (hreg.tags t hmem).merge _ s _ _ rfl
      dsimp only
      rw [ApiPages.Except.bind_eq_ok_iff, hvalue]
      constructor
      · rintro ⟨v, hv, h⟩
        exact Or.inr ⟨t, v, rfl, rfl, hv, (Except.ok.inj h).symm⟩
      · rintro (⟨hnone, -⟩ | ⟨u, v, hu, -, hv, rfl⟩)
        · cases hnone
        · cases hu
          exact ⟨v, hv, rfl⟩

theorem exists_mergeTagname_eq_ok (state : MergeState) (name : Name) :
    (∃ state', mergeTagname reg s raw state name = .ok state') ↔
      ∀ t, tagFor reg s.kind name = some t → ∃ v, valueOf s raw t = .ok v := by
  simp only [mergeTagname_eq_ok_iff hreg]
  constructor
  · rintro ⟨_, ⟨hnone, -⟩ | ⟨t, v, htag, -, hv, -⟩⟩ u hu
    · cases hnone.symm.trans hu
    · cases htag.symm.trans hu
      exact ⟨v, hv⟩
  · intro h
    cases htag : tagFor reg s.kind name with
    | none => exact ⟨state, Or.inl ⟨rfl, rfl⟩⟩
    | some t =>
        obtain ⟨v, hv⟩ := h t htag
        exact ⟨_, Or.inr ⟨t, v, rfl, (mem_of_tagFor hreg.indexed htag).2, hv, rfl⟩⟩

variable {names : List Name} {state last : MergeState}

theorem get?_foldlM_of_unclaimed (h : names.foldlM (mergeTagname reg s raw) state = .ok last)
    {key : String} (hkey : .text key ∈ names → tagFor reg s.kind (.text key) = none) :
    Table.get? last.attributes key = Table.get? state.attributes key := by
  induction names generalizing state with
  | nil =>
      obtain rfl := Except.ok.inj h
      rfl
  | cons name names ih =>
      rw [List.foldlM_cons] at h
      obtain ⟨state', hstep, h⟩ := ApiPages.Except.bind_eq_ok_iff.mp h
      have hlater := ih h fun hmem => hkey (List.mem_cons_of_mem _ hmem)
      rcases (mergeTagname_eq_ok_iff hreg).mp hstep with ⟨-, rfl⟩ | ⟨t, v, htag, rfl, -, rfl⟩
      · exact hlater
      · have hne : t.key ≠ key := by
          rintro rfl
          cases htag.symm.trans (hkey List.mem_cons_self)
        rw [hlater, get?_store_of_ne state.attributes hne]

theorem get?_foldlM_of_mem (h : names.foldlM (mergeTagname reg s raw) state = .ok last) {t : Tag}
    (hname : .text t.key ∈ names) (htag : tagFor reg s.kind (.text t.key) = some t) :
    ∃ v, valueOf s raw t = .ok v ∧
      Table.get? last.attributes t.key = stored v (Table.get? state.attributes t.key) := by
  induction names generalizing state with
  | nil => exact absurd hname List.not_mem_nil
  | cons name names ih =>
      rw [List.foldlM_cons] at h
      obtain ⟨state', hstep, h⟩ := ApiPages.Except.bind_eq_ok_iff.mp h
      have hstep := (mergeTagname_eq_ok_iff hreg).mp hstep
      by_cases hfirst : name = .text t.key
      · subst hfirst
        rcases hstep with ⟨hnone, -⟩ | ⟨u, v, hu, -, hv, rfl⟩
        · cases hnone.symm.trans htag
        · cases hu.symm.trans htag
          have hget : Table.get? (store state.attributes t.key v) t.key =
              stored v (Table.get? state.attributes t.key) := by
            rw [get?_store_eq, if_pos rfl]
          by_cases hagain : .text t.key ∈ names
          · obtain ⟨w, hw, hlast⟩ := ih h hagain
            cases hv.symm.trans hw
            exact ⟨v, hv, by rw [hlast, hget, stored_stored]⟩
          · have hlast := get?_foldlM_of_unclaimed hreg h fun hmem => absurd hmem hagain
            exact ⟨v, hv, hlast.trans hget⟩
      · obtain ⟨v, hv, hlast⟩ := ih h ((List.mem_cons.mp hname).resolve_left (Ne.symm hfirst))
        refine ⟨v, hv, hlast.trans ?_⟩
        rcases hstep with ⟨-, rfl⟩ | ⟨u, w, -, rfl, -, rfl⟩
        · rfl
        · have hne : u.key ≠ t.key := fun heq => hfirst (congrArg Name.text heq)
          rw [get?_store_of_ne state.attributes hne]

omit hreg in
theorem selected_foldlM (h : names.foldlM (mergeTagname reg s raw) state = .ok last) :
    last.selected = state.selected ++ given reg s.kind raw names := by
  have hown : names.foldlM (mergeTagnameBy Hooks.own reg s raw) state = .ok last := h
  have hselected := hown
  rw [foldlM_mergeTagnameBy_selected, hown] at hselected
  exact congrArg MergeState.selected (Except.ok.inj hselected).symm

end Names

/-! ### Classes that patch another one -/

/-- The class that attributes name to be patched. -/
def patched (attributes : Record) : Option Value :=
  let name := Record.optional attributes "override"
  if name.truthy then some name else none

theorem patched_congr {attributes attributes' : Record}
    (h : Table.get? attributes' "override" = Table.get? attributes "override") :
    patched attributes' = patched attributes := by
  rw [patched, patched, Record.optional, Record.optional, h]

/-- One standard tag finds a class to patch, and it finds it under its own key. -/
theorem target_process : ∀ t ∈ Tag.standard, ∀ (s : Subject) docs o, t.process s docs = .ok o →
    o.target = if t.key = "override" then patched s.attributes else none := by
  have hplain : ∀ t : Tag, t.key ≠ "override" →
      t.process = (fun s _ => .ok { attributes := s.attributes }) →
      ∀ (s : Subject) docs o, t.process s docs = .ok o →
        o.target = if t.key = "override" then patched s.attributes else none := by
    intro t hkey hprocess s docs o h
    rw [hprocess] at h
    cases h
    exact (if_neg hkey).symm
  simp only [Tag.standard, List.forall_mem_cons]
  refine ⟨?_, hplain _ (by decide) rfl, hplain _ (by decide) rfl, hplain _ (by decide) rfl,
    hplain _ (by decide) rfl, hplain _ (by decide) rfl, hplain _ (by decide) rfl,
    hplain _ (by decide) rfl, ?_, hplain _ (by decide) rfl, hplain _ (by decide) rfl,
    hplain _ (by decide) rfl, hplain _ (by decide) rfl, hplain _ (by decide) rfl, ?_,
    hplain _ (by decide) rfl, hplain _ (by decide) rfl, ?_, fun _ h => absurd h List.not_mem_nil⟩
  all_goals intro s docs o h
  · obtain ⟨_, -, h⟩ := Except.bind_eq_ok_iff.mp h
    cases h
    rfl
  · cases h
    rfl
  · simp only [Tag.chainable] at h
    split at h
    · cases h
      rfl
    · obtain ⟨_, -, h⟩ := Except.bind_eq_ok_iff.mp h
      cases h
      rfl
  · cases h
    rfl

theorem foldlM_processTag_underived {ts : List Tag} (hts : ∀ t ∈ ts, t ∈ Tag.standard) {s : Subject}
    {selected : Groups} {outcome last : Outcome}
    (h : ts.foldlM (processTag s selected) outcome = .ok last) {key : String}
    (hkey : ∀ word ∈ Tag.standard.map Tag.key, key ∉ Record.derivedKeys word) :
    Table.get? last.attributes key = Table.get? outcome.attributes key :=
  foldlM_processTag_frame (fun u hu => Tag.settles_standard u (hts u hu)) h fun u hu =>
    hkey u.key (List.mem_map_of_mem (hts u hu))

theorem target_foldlM {ts : List Tag} (hts : ∀ t ∈ ts, t ∈ Tag.standard) {s : Subject}
    {selected : Groups} {outcome last : Outcome}
    (h : ts.foldlM (processTag s selected) outcome = .ok last) :
    last.target = if "override" ∈ ts.map Tag.key then
      patched last.attributes <|> outcome.target else outcome.target := by
  induction ts generalizing outcome with
  | nil =>
      obtain rfl := Except.ok.inj h
      rfl
  | cons t ts ih =>
      have hframe := patched_congr (foldlM_processTag_underived hts h (by decide))
      obtain ⟨ht, hts⟩ := List.forall_mem_cons.mp hts
      rw [List.foldlM_cons] at h
      obtain ⟨next, hstep, h⟩ := Except.bind_eq_ok_iff.mp h
      obtain ⟨own, hprocess, rfl⟩ := processTag_eq_ok hstep
      have htarget := target_process t ht _ _ own hprocess
      rw [ih hts h]
      by_cases hkey : t.key = "override"
      · rw [if_pos hkey, ← hframe] at htarget
        have hmem : "override" ∈ (t :: ts).map Tag.key := List.mem_cons.mpr (Or.inl hkey.symm)
        rw [if_pos hmem, htarget]
        cases patched last.attributes <;> simp
      · rw [if_neg hkey] at htarget
        simp [htarget, Ne.symm hkey]

theorem exists_run_of_merge {reg : Registry} {c c' : ClassDoc} {notes : List Note}
    (h : c.merge reg = .ok c' notes) :
    ∃ outcome notes', run reg c.subject c.raw = .ok outcome notes' ∧
      c'.attributes = outcome.attributes ∧
      c'.isOverride = (c.isOverride || outcome.target.isSome) ∧
      c'.overrideTarget = outcome.target.getD c.overrideTarget := by
  obtain ⟨outcome, notes', _, hrun, h⟩ := Report.bind_eq_ok h
  obtain ⟨members, _, _, -, h⟩ := Report.bind_eq_ok h
  cases h
  refine ⟨outcome, notes', hrun, ?_⟩
  rw [ClassDoc.absorb]
  cases outcome.target with
  | none => exact ⟨rfl, (Bool.or_false _).symm, rfl⟩
  | some target => exact ⟨rfl, (Bool.or_true _).symm, rfl⟩

section Target

variable {reg : Registry} (hreg : Registry.ofTags Tag.standard = .ok reg)
include hreg

theorem standard_of_mem_pluginsFor {kind : Kind} {t : Tag} (ht : t ∈ reg.pluginsFor kind) :
    t ∈ Tag.standard ∧ t.covers kind = true := by
  rw [Registry.mem_pluginsFor_iff, Registry.tags_ofTags hreg] at ht
  exact ht

theorem mem_pluginsFor_of_standard {kind : Kind} {t : Tag} (ht : t ∈ Tag.standard)
    (hcovers : t.covers kind = true) : t ∈ reg.pluginsFor kind := by
  rw [Registry.mem_pluginsFor_iff, Registry.tags_ofTags hreg]
  exact ⟨ht, hcovers⟩

theorem target_run {s : Subject} (hkind : s.kind = .cls) {raw : Occurrences} {outcome : Outcome}
    {notes : List Note} (h : run reg s raw = .ok outcome notes) :
    outcome.target = patched outcome.attributes := by
  obtain ⟨state, -, hprocess⟩ := run_eq_ok h
  have hplugins : ∀ t ∈ reg.pluginsFor s.kind, t ∈ Tag.standard := fun t ht =>
    (standard_of_mem_pluginsFor hreg ht).1
  have hoverride : Tag.override ∈ reg.pluginsFor s.kind :=
    mem_pluginsFor_of_standard hreg (by simp [Tag.standard]) (by rw [hkind]; rfl)
  have hmem : "override" ∈ (reg.pluginsFor s.kind).map Tag.key :=
    List.mem_map.mpr ⟨_, hoverride, rfl⟩
  rw [target_foldlM hplugins hprocess, if_pos hmem]
  cases patched outcome.attributes <;> rfl

/-- A class that names no class to patch is no override behind merging if it was none before. -/
theorem isOverride_merge {c c' : ClassDoc} {notes : List Note} (h : c.merge reg = .ok c' notes)
    (hname : .text "override" ∉ c.raw.tagnames)
    (hnone : Table.get? c.attributes "override" = none) : c'.isOverride = c.isOverride := by
  obtain ⟨outcome, _, hrun, -, hflag, -⟩ := exists_run_of_merge h
  have htarget := target_run hreg rfl hrun
  obtain ⟨state, hmerge, hprocess⟩ := run_eq_ok hrun
  have hplugins : ∀ t ∈ reg.pluginsFor c.subject.kind, t ∈ Tag.standard := fun t ht =>
    (standard_of_mem_pluginsFor hreg ht).1
  have hlast : Table.get? outcome.attributes "override" = none := calc
    Table.get? outcome.attributes "override"
        = Table.get? state.attributes "override" :=
          foldlM_processTag_underived hplugins hprocess (by decide)
    _ = Table.get? c.attributes "override" :=
          get?_foldlM_of_unclaimed (Registry.settles_standard hreg) hmerge
            fun hin => absurd hin hname
    _ = none := hnone
  have hpatched : patched outcome.attributes = none := by
    rw [patched, Record.optional, hlast]
    rfl
  rw [hflag, htarget, hpatched]
  exact Bool.or_false _

end Target

end ApiPages.Merge
