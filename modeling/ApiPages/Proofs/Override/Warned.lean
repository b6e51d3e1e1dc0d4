import ApiPages.Proofs.Override.Removal
import ApiPages.Proofs.Report
import ApiPages.Proofs.Text.Solid

/-!
# What overrides are warned of, and what they leave behind

Whether an override is applied, and what is told if it is not, can be read off the table before any
of them has been: flags, keys, names and targets stay as they are meanwhile. So can what a class
has at the end by way of documentation and places, even where classes share members.
-/

namespace ApiPages

open ClassDoc

/-! ### Documentation that overrides add -/

theorem addDoc_ne_empty {doc addition : String} {c : Char} (hc : c ∈ addition.toList)
    (hsolid : Text.isSpace c = false) : addDoc doc addition ≠ "" := by
  intro hempty
  have htrim : Text.trim (doc ++ "\n\n" ++ addition).toList = [] := by
    rw [← Text.trimmed_toList]
    exact congrArg String.toList hempty
  have hin : c ∈ Text.solid (doc ++ "\n\n" ++ addition).toList := by
    refine List.mem_filter.mpr ⟨?_, by simp [hsolid]⟩
    rw [String.toList_append]
    exact List.mem_append_right _ hc
  rw [← Text.solid_trim, htrim] at hin
  exact List.not_mem_nil hin

theorem annotate_eq_empty_iff {doc : String} {o : ClassDoc} :
    annotate doc o = "" ↔ doc = "" ∧ o.doc = "" := by
  rw [annotate]
  by_cases hdoc : o.doc = ""
  · simp [hdoc]
  · rw [if_pos hdoc]
    refine iff_of_false (addDoc_ne_empty (c := '*') ?_ (by decide)) fun h => hdoc h.2
    have hquote : '*' ∈ "**From override ".toList := by simp
    simp only [String.toList_append, List.append_assoc]
    exact List.mem_append_left _ hquote

theorem foldl_annotate_eq_empty_iff {doc : String} {os : List ClassDoc} :
    os.foldl annotate doc = "" ↔ doc = "" ∧ ∀ o ∈ os, o.doc = "" := by
  induction os generalizing doc with
  | nil => simp
  | cons o os ih => rw [List.foldl_cons, ih, annotate_eq_empty_iff, List.forall_mem_cons, and_assoc]

namespace ClassTable

/-! ### Why an override is skipped -/

/-- What stands in the way of an override, by the table as it is: it names no target, there is no
class under the name, or that class is an override itself. -/
inductive Hinders (table : ClassTable) (o : ClassDoc) : Option Warning → Prop
  | aimless (htarget : o.overrideTarget.truthy = false) : Hinders table o (some {
      category := .override
      message := s!"Override {o.name} names no target class"
      position := o.position })
  | missing (htruthy : o.overrideTarget.truthy = true)
      (hmissing : ∀ key c, (key, c) ∈ table → o.overrideTarget ≠ .text key) :
      Hinders table o (some {
        category := .extend
        message := s!"Class {o.overrideTarget.display} not found"
        position := o.position })
  | chained {key : String} {c : ClassDoc} (htruthy : o.overrideTarget.truthy = true)
      (htarget : o.overrideTarget = .text key) (hc : (key, c) ∈ table)
      (hflag : c.isOverride = true) : Hinders table o (some {
        category := .override
        message := s!"Override {o.name} targets override class {c.name}; " ++
          "overrides cannot be chained"
        position := o.position })
  | nothing {key : String} {c : ClassDoc} (htruthy : o.overrideTarget.truthy = true)
      (htarget : o.overrideTarget = .text key) (hc : (key, c) ∈ table)
      (hplain : c.isOverride = false) : Hinders table o none

section Hinders

variable {table current : ClassTable}

theorem Hinders.unique (hkeys : (Table.keys table).Nodup) {o : ClassDoc} {w w' : Option Warning}
    (h : Hinders table o w) (h' : Hinders table o w') : w = w' := by
  have hsame : ∀ {key key' : String} {c c' : ClassDoc}, o.overrideTarget = .text key →
      o.overrideTarget = .text key' → (key, c) ∈ table → (key', c') ∈ table → c = c' := by
    intro key key' c c' htarget htarget' hc hc'
    obtain rfl := Value.text.inj (htarget.symm.trans htarget')
    exact Table.eq_of_mem_of_mem hkeys hc hc'
  cases h with
  | aimless htarget => cases h' <;> simp_all
  | missing htruthy hmissing =>
      cases h' with
      | aimless htarget => simp [htruthy] at htarget
      | missing => rfl
      | chained _ htarget hc => exact absurd htarget (hmissing _ _ hc)
      | nothing _ htarget hc => exact absurd htarget (hmissing _ _ hc)
  | chained htruthy htarget hc hflag =>
      cases h' with
      | aimless htarget' => simp [htruthy] at htarget'
      | missing _ hmissing => exact absurd htarget (hmissing _ _ hc)
      | chained _ htarget' hc' => rw [hsame htarget htarget' hc hc']
      | nothing _ htarget' hc' hplain =>
          rw [hsame htarget htarget' hc hc', hplain] at hflag
          cases hflag
  | nothing htruthy htarget hc hplain =>
      cases h' with
      | aimless htarget' => simp [htruthy] at htarget'
      | missing _ hmissing => exact absurd htarget (hmissing _ _ hc)
      | chained _ htarget' hc' hflag =>
          rw [hsame htarget htarget' hc hc', hflag] at hplain
          cases hplain
      | nothing => rfl

/-- What stands in the way of an override meanwhile stood there from the start. -/
theorem Hinders.of_underway (h : Underway table current) {key : String} {o now : ClassDoc}
    (hnow : Flagged (key, o) (key, now)) (hflag : o.isOverride = true) {w : Option Warning}
    (hw : Hinders current now w) : Hinders table o w := by
  have hframe : now = { o with members := now.members } := hnow.frame hflag
  have hentry : ∀ key d, (key, d) ∈ current →
      ∃ c, (key, c) ∈ table ∧ Flagged (key, c) (key, d) := by
    intro key d hd
    obtain ⟨entry, hentry, hflagged⟩ := ApiPages.Except.exists_of_mem_right h (key, d) hd
    obtain rfl : key = entry.1 := hflagged.key
    exact ⟨entry.2, hentry, hflagged⟩
  generalize now.members = members at hframe
  subst hframe
  cases hw with
  | aimless htarget => exact .aimless htarget
  | missing htruthy hmissing =>
      refine .missing htruthy fun key c hc htarget => ?_
      have hkey : key ∈ Table.keys current :=
        h.keys_eq ▸ List.mem_map_of_mem (f := Prod.fst) hc
      obtain ⟨⟨_, d⟩, hd, rfl⟩ := List.mem_map.mp hkey
      exact hmissing _ d hd htarget
  | @chained _ d htruthy htarget hd hflag' =>
      obtain ⟨c, hc, hflagged⟩ := hentry _ d hd
      have hflag := hflagged.flag.symm.trans hflag'
      have hd' : d = { c with members := d.members } := hflagged.frame hflag
      have hname : d.name = c.name := by rw [hd']
      rw [hname]
      exact .chained htruthy htarget hc hflag
  | nothing htruthy htarget hd hplain =>
      obtain ⟨c, hc, hflagged⟩ := hentry _ _ hd
      exact .nothing htruthy htarget hc (hflagged.flag.symm.trans hplain)

end Hinders

/-! ### One override -/

section Step

variable {table current : ClassTable} {q : String} {o now : ClassDoc}

theorem hinders_obstacle (hkeys : (Table.keys current).Nodup) {target : Option ClassDoc}
    (htarget : now.overrideTarget.truthy = false ∧ target = none ∨
      now.overrideTarget.truthy = true ∧ targetOf current now = .ok target) :
    Hinders current now (obstacle now target) := by
  rcases htarget with ⟨hfalse, rfl⟩ | ⟨htruthy, htarget⟩
  · unfold obstacle
    simp only [hfalse]
    exact .aimless hfalse
  · obtain ⟨-, hfor, hfound⟩ := targetOf_eq_ok htarget
    unfold obstacle
    simp only [htruthy]
    cases target with
    | none =>
        refine .missing htruthy fun key c hc htext => ?_
        have hkey : now.isFor key = true := isFor_iff.mpr ⟨by simpa [htext] using htruthy, htext⟩
        have hnone := hfor key hkey
        rw [Table.get?_of_mem hkeys hc] at hnone
        cases hnone
    | some c =>
        obtain ⟨key, htext, hget⟩ := hfound c rfl
        have hc := Table.mem_of_get? hget
        cases hflag : c.isOverride with
        | true =>
            simp only [hflag]
            exact .chained htruthy htext hc hflag
        | false =>
            simp only [hflag]
            exact .nothing htruthy htext hc hflag

theorem process_eq_ok {result : ClassTable × Bool} {notes : List Note}
    (h : process current now = .ok result notes) : ∃ target,
      (now.overrideTarget.truthy = false ∧ target = none ∨
        now.overrideTarget.truthy = true ∧ targetOf current now = .ok target) ∧
      notes = (obstacle now target).toList.map Note.warning := by
  cases htruthy : now.overrideTarget.truthy with
  | false =>
      refine ⟨none, Or.inl ⟨rfl, rfl⟩, ?_⟩
      cases hw : obstacle now none with
      | none => simp [obstacle_eq_none_iff] at hw
      | some w =>
          rw [process_of_obstacle (Or.inl ⟨htruthy, rfl⟩) hw] at h
          cases h
          rfl
  | true =>
      cases htarget : targetOf current now with
      | error fault => simp [process, htruthy, htarget, Report.ofExcept] at h
      | ok target =>
          refine ⟨target, Or.inr ⟨rfl, rfl⟩, ?_⟩
          cases hw : obstacle now target with
          | some w =>
              rw [process_of_obstacle (Or.inr ⟨htruthy, htarget⟩) hw] at h
              cases h
              rfl
          | none =>
              obtain ⟨-, c, rfl, hplain⟩ := obstacle_eq_none_iff.mp hw
              obtain ⟨key, htext, hget⟩ := (targetOf_eq_ok htarget).2.2 c rfl
              have hfor : now.isFor key = true :=
                isFor_iff.mpr ⟨by simpa [htext] using htruthy, htext⟩
              rw [process_of_class hfor hget hplain, map_eq_pure_bind] at h
              obtain ⟨name, _, _, hname, hend, rfl⟩ := Report.exists_notes_of_bind h
              cases hend
              rw [Report.notes_of_ofExcept hname]
              rfl

theorem notes_process (hkeys : (Table.keys table).Nodup) (h : Underway table current)
    (hnow : Flagged (q, o) (q, now)) (hflag : o.isOverride = true) {result : ClassTable × Bool}
    {notes : List Note} (hprocess : process current now = .ok result notes) :
    ∃ w, Hinders table o w ∧ notes = w.toList.map Note.warning := by
  obtain ⟨target, htarget, hnotes⟩ := process_eq_ok hprocess
  have hkeys' : (Table.keys current).Nodup := h.keys_eq ▸ hkeys
  exact ⟨_, (hinders_obstacle hkeys' htarget).of_underway h hnow hflag, hnotes⟩

end Step

/-! ### What gathers on a class -/

/-- Where an entry stands once the overrides `done` have been applied, members aside. -/
structure Annotated (done : ClassTable) (entry now : String × ClassDoc) : Prop where
  key : now.1 = entry.1
  name : now.2.name = entry.2.name
  doc : entry.2.isOverride = false →
    now.2.doc = (overridesOf done entry.1).foldl annotate entry.2.doc
  files : entry.2.isOverride = false →
    now.2.files = entry.2.files ++ (overridesOf done entry.1).flatMap ClassDoc.files

theorem annotated_nil (entry : String × ClassDoc) : Annotated [] entry entry :=
  ⟨rfl, rfl, fun _ => rfl, fun _ => (List.append_nil _).symm⟩

section Gathering

variable {table done current patched : ClassTable} {q : String} {o now : ClassDoc}

theorem Annotated.of_not_isFor {entry now : String × ClassDoc} (h : Annotated done entry now)
    (ho : entry.2.isOverride = false → o.isFor entry.1 ≠ true) (members : List Member) :
    Annotated (done ++ [(q, o)]) entry (now.1, { now.2 with members }) := by
  refine ⟨h.key, h.name, fun hplain => ?_, fun hplain => ?_⟩
  · rw [overridesOf_concat_of_not_isFor (ho hplain)]
    exact h.doc hplain
  · rw [overridesOf_concat_of_not_isFor (ho hplain)]
    exact h.files hplain

theorem Annotated.of_isFor {entry now : String × ClassDoc} (h : Annotated done entry now)
    (hflag : o.isOverride = true) (ho : o.isFor entry.1 = true) {name : String}
    (hname : o.displayName = .ok name) (members : List Member) :
    Annotated (done ++ [(q, o)]) entry (now.1, { o with members }.patch name now.2) := by
  have hshown : o.shownName = name := by
    rw [shownName, hname]
    rfl
  refine ⟨h.key, h.name, fun hplain => ?_, fun hplain => ?_⟩
  · rw [overridesOf_concat_of_isFor hflag ho, List.foldl_append, ← h.doc hplain, ← hshown]
    rfl
  · rw [overridesOf_concat_of_isFor hflag ho, List.flatMap_append, List.flatMap_singleton,
      ← List.append_assoc, ← h.files hplain]
    rfl

/-- Applying an override adds what it has to say to the class that it is for, and to no other. -/
theorem annotated_process (hkeys : (Table.keys table).Nodup) (hunderway : Underway table current)
    (h : List.Forall₂ (Annotated done) table current) (hnow : Flagged (q, o) (q, now))
    (hflag : o.isOverride = true) {applied : Bool} {notes : List Note}
    (hprocess : process current now = .ok (patched, applied) notes) :
    List.Forall₂ (Annotated (done ++ [(q, o)])) table patched := by
  have hframe : now = { o with members := now.members } := hnow.frame hflag
  have hkeys' : (Table.keys current).Nodup := hunderway.keys_eq ▸ hkeys
  generalize now.members = members at hframe
  subst hframe
  rcases process_cases current { o with members } with
    ⟨-, key, c, name, hfor, hget, -, hname, heq⟩ | ⟨-, hnone, w, heq⟩ | ⟨-, fault, heq⟩
  · rw [heq] at hprocess
    cases hprocess
    refine Table.forall₂_map_of_mem h fun entry other _ hother hannotated => ?_
    obtain ⟨k, d⟩ := other
    obtain rfl : k = entry.1 := hannotated.key
    by_cases hk : entry.1 = key
    · obtain rfl : d = c :=
        Option.some.inj ((Table.get?_of_mem hkeys' hother).symm.trans (hk ▸ hget))
      simp only [hk, if_true]
      rw [← hk]
      exact hannotated.of_isFor hflag (hk ▸ hfor) hname members
    · have hnot : o.isFor entry.1 ≠ true := fun hfor' => hk (isFor_unique hfor' hfor)
      simp only [hk, if_false]
      exact hannotated.of_not_isFor (fun _ => hnot) _
  · rw [heq] at hprocess
    cases hprocess
    rw [← List.map_id current]
    refine Table.forall₂_map_of_mem h fun entry other hentry _ hannotated => ?_
    refine hannotated.of_not_isFor (fun hplain hfor => ?_) other.2.members
    obtain ⟨k, c⟩ := entry
    rcases hunderway.get? k with ⟨hmissing, -⟩ | ⟨c', d, hc', hd, hflagged⟩
    · rw [Table.get?_of_mem hkeys hentry] at hmissing
      cases hmissing
    · obtain rfl : c' = c := Option.some.inj (hc'.symm.trans (Table.get?_of_mem hkeys hentry))
      have hd' := hnone k d hfor hd
      exact Bool.noConfusion (hplain.symm.trans (hflagged.flag.symm.trans hd'))
  · rw [heq] at hprocess
    cases hprocess

end Gathering

/-- An ordinary class as it is left when all overrides of a table have been applied: its places
are followed by theirs, and it has documentation if any of them has. -/
structure Remains (table : ClassTable) (entry now : String × ClassDoc) : Prop where
  key : now.1 = entry.1
  name : now.2.name = entry.2.name
  files : now.2.files = entry.2.files ++ (overridesOf table entry.1).flatMap ClassDoc.files
  doc : now.2.doc = "" ↔ entry.2.doc = "" ∧ ∀ o ∈ overridesOf table entry.1, o.doc = ""

theorem Annotated.remains {table : ClassTable} {entry now : String × ClassDoc}
    (h : Annotated (worklist table) entry now) (hplain : entry.2.isOverride = false) :
    Remains table entry now where
  key := h.key
  name := h.name
  files := by rw [h.files hplain, overridesOf_worklist]
  doc := by rw [h.doc hplain, overridesOf_worklist, foldl_annotate_eq_empty_iff]

/-! ### The whole worklist -/

section Worklist

variable {table : ClassTable} (hkeys : (Table.keys table).Nodup)
include hkeys

/-- Going through some overrides to the end tells what stands in the way of each in turn, and lays
what they have to say over the classes that they are for. -/
theorem told_applyKeys {done current : ClassTable} (hunderway : Underway table current)
    (h : List.Forall₂ (Annotated done) table current) (todo : ClassTable)
    (htodo : ∀ entry ∈ todo, entry ∈ table ∧ entry.2.isOverride = true)
    (hends : (applyKeys current (Table.keys todo)).fault = none) :
    (∃ ws, Report.Told (fun entry => Hinders table entry.2) todo ws ∧
        (applyKeys current (Table.keys todo)).notes = ws.map Note.warning) ∧
      List.Forall₂ (Annotated (done ++ todo)) table
        (applyKeys current (Table.keys todo)).table := by
  induction todo generalizing done current with
  | nil => exact ⟨⟨[], .nil, rfl⟩, by rwa [List.append_nil]⟩
  | cons entry todo ih =>
      obtain ⟨q, o⟩ := entry
      obtain ⟨⟨ho, hflag⟩, htodo⟩ := List.forall_mem_cons.mp htodo
      obtain ⟨now, hget, hnow⟩ : ∃ now, Table.get? current q = some now ∧
          Flagged (q, o) (q, now) := by
        have hget := Table.get?_of_mem hkeys ho
        rcases hunderway.get? q with ⟨hnone, -⟩ | ⟨o', now, ho', hnow, hflagged⟩
        · simp [hnone] at hget
        · obtain rfl : o' = o := Option.some.inj (ho'.symm.trans hget)
          exact ⟨now, hnow, hflagged⟩
      have hkey : processKey current q = process current now := by simp [processKey, hget]
      have hkeys' : (Table.keys current).Nodup := hunderway.keys_eq ▸ hkeys
      have hhead : Table.keys ((q, o) :: todo) = q :: Table.keys todo := rfl
      rw [hhead, applyKeys, hkey] at hends ⊢
      cases hprocess : process current now with
      | fail fault => simp [hprocess] at hends
      | ok result notes =>
          obtain ⟨patched, applied⟩ := result
          rw [hprocess] at hends
          obtain ⟨w, hw, rfl⟩ := notes_process hkeys hunderway hnow hflag hprocess
          have hlater := hunderway.trans (underway_process hkeys' hprocess)
          have hannotated := annotated_process hkeys hunderway h hnow hflag hprocess
          obtain ⟨⟨ws, htold, hnotes⟩, hend⟩ := ih hlater hannotated htodo hends
          refine ⟨⟨w.toList ++ ws, .cons hw htold, ?_⟩, ?_⟩
          · rw [List.map_append, ← hnotes]
          · rwa [List.append_assoc] at hend

/-- What a run over all overrides tells, and what it leaves. -/
theorem told_processAll {final : ClassTable} {external known : List String} {notes : List Note}
    (h : processAll table external = .ok (final, known) notes) :
    Report.Told (fun entry => Hinders table entry.2) (worklist table)
        (notes.filterMap Note.warning?) ∧
      List.Forall₂ (Remains table) (table.filter fun entry => !entry.2.isOverride) final := by
  obtain ⟨hends, rfl, -⟩ := processAll_eq_ok h
  have hstart : List.Forall₂ (Annotated []) table table :=
    List.forall₂_same.mpr fun entry _ => annotated_nil entry
  obtain ⟨⟨ws, htold, hnotes⟩, hannotated⟩ := told_applyKeys hkeys (underway_refl table) hstart
    (worklist table) (fun _ => mem_worklist.mp) hends
  have hall : applyAll table = applyKeys table (Table.keys (worklist table)) := rfl
  constructor
  · obtain ⟨_, first, rest, hreport, hbehind, rfl⟩ := Report.exists_notes_of_bind h
    rw [Progress.report, hends] at hreport
    cases hreport
    cases hbehind
    rw [hall, hnotes, List.filterMap_append, Report.filterMap_map_warning]
    change Report.Told _ _ (ws ++ [])
    rwa [List.append_nil]
  · rw [hall]
    have hleft := forall₂_filter_plain (fun _ _ hnow => hnow.key) hkeys hannotated
    rw [← List.map_id (List.filter _ (applyKeys table _).table)]
    refine Table.forall₂_map_of_mem hleft fun entry now hentry _ hnow => ?_
    exact hnow.remains (by simpa using (List.mem_filter.mp hentry).2)

end Worklist

end ClassTable

end ApiPages
