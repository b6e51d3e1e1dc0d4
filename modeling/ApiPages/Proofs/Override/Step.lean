import ApiPages.Proofs.Override.Overlay
import ApiPages.Proofs.Table

/-!
# One override

What applying one override to a table can come to, and for which overrides it comes to anything.
-/

namespace ApiPages.ClassTable

open ClassDoc

/-- An override that can be applied, should its turn come: its target is something that can be a
key, and if that is an ordinary class, the override has a name to be quoted by. -/
structure Applicable (table : ClassTable) (o : ClassDoc) : Prop where
  canName : o.overrideTarget.truthy = true → o.overrideTarget.canName = true
  hasName : ∀ key c, o.isFor key = true → Table.get? table key = some c → c.isOverride = false →
    ∃ name, o.displayName = .ok name

variable {table : ClassTable} {o : ClassDoc}

theorem applicable_of_known (table : ClassTable)
    (htarget : o.overrideTarget = .null ∨ ∃ key, o.overrideTarget = .text key)
    (hplaces : none ∉ o.files) : Applicable table o := by
  refine ⟨fun _ => ?_, fun _ _ _ _ _ => ?_⟩
  · rcases htarget with h | ⟨key, h⟩ <;> simp [h, Value.canName]
  · unfold displayName
    split
    · exact ⟨_, rfl⟩
    · split
      · exact ⟨_, rfl⟩
      · exact ⟨_, rfl⟩
      · rename_i hfiles
        simp [hfiles] at hplaces

theorem truthy_of_isFor {key : String} (h : o.isFor key = true) :
    o.overrideTarget.truthy = true := by
  rw [isFor_iff] at h
  simp [h.2, h.1]

theorem targetOf_eq_ok {target : Option ClassDoc} (h : targetOf table o = .ok target) :
    o.overrideTarget.canName = true ∧
      (∀ key, o.isFor key = true → target = Table.get? table key) ∧
      ∀ c, target = some c →
        ∃ key, o.overrideTarget = .text key ∧ Table.get? table key = some c := by
  unfold targetOf at h
  split at h
  · rename_i key hkey
    cases h
    refine ⟨by simp [hkey, Value.canName], ?_, fun c hc => ⟨key, hkey, hc⟩⟩
    intro other hother
    rw [isFor_iff, hkey] at hother
    rw [Value.text.inj hother.2]
  · rename_i hno
    split at h
    · rename_i hname
      cases h
      refine ⟨hname, ?_, by simp⟩
      intro key hkey
      exact absurd (isFor_iff.mp hkey).2 (hno key)
    · cases h

theorem canName_of_targetOf_eq_error {fault : Fault} (h : targetOf table o = .error fault) :
    o.overrideTarget.canName = false := by
  unfold targetOf at h
  split at h
  · cases h
  · split at h
    · cases h
    · simp_all

theorem obstacle_eq_none_iff {target : Option ClassDoc} :
    obstacle o target = none ↔
      o.overrideTarget.truthy = true ∧ ∃ c, target = some c ∧ c.isOverride = false := by
  unfold obstacle
  cases o.overrideTarget.truthy <;> cases target <;> simp

/-! ### The three ways it can go -/

theorem process_of_obstacle {target : Option ClassDoc} {w : Warning}
    (htarget : o.overrideTarget.truthy = false ∧ target = none ∨
      o.overrideTarget.truthy = true ∧ targetOf table o = .ok target)
    (hw : obstacle o target = some w) : process table o = .ok (table, false) [.warning w] := by
  rcases htarget with ⟨htruthy, rfl⟩ | ⟨htruthy, htarget⟩
  · simp [process, htruthy, hw, Report.warn, Report.note, Report.pure_eq]
  · simp [process, htruthy, htarget, hw, Report.ofExcept, Report.warn, Report.note, Report.pure_eq]

theorem process_of_class {key : String} {c : ClassDoc} (ho : o.isFor key = true)
    (hget : Table.get? table key = some c) (hplain : c.isOverride = false) :
    process table o = (fun name => (replace table key (o.patch name c), true)) <$>
      Report.ofExcept o.displayName := by
  have htruthy := truthy_of_isFor ho
  have htext := (isFor_iff.mp ho).2
  have htarget : targetOf table o = .ok (some c) := by simp [targetOf, htext, hget]
  have hfree := obstacle_eq_none_iff.mpr ⟨htruthy, c, rfl, hplain⟩
  unfold process
  rw [if_pos htruthy, htarget]
  simp only [Report.ofExcept, Report.ok_bind, Report.after_nil, hfree, htext, Value.display_text]
  rfl

/-- The class that an override is for is patched, or there is no such class and a warning says so,
or the override is not applicable. -/
theorem process_cases (table : ClassTable) (o : ClassDoc) :
    (Applicable table o ∧ ∃ key c name, o.isFor key = true ∧ Table.get? table key = some c ∧
        c.isOverride = false ∧ o.displayName = .ok name ∧
        process table o = .ok (replace table key (o.patch name c), true) []) ∨
      (Applicable table o ∧
        (∀ key c, o.isFor key = true → Table.get? table key = some c → c.isOverride = true) ∧
        ∃ w, process table o = .ok (table, false) [.warning w]) ∨
      (¬ Applicable table o ∧ ∃ fault, process table o = .fail fault) := by
  cases htruthy : o.overrideTarget.truthy with
  | false =>
      have hnone : ∀ key, o.isFor key ≠ true := by
        intro key hkey
        rw [truthy_of_isFor hkey] at htruthy
        cases htruthy
      cases hw : obstacle o none with
      | none => simp [obstacle_eq_none_iff] at hw
      | some w =>
          refine Or.inr (Or.inl ⟨⟨by simp [htruthy], fun key _ hkey => absurd hkey (hnone key)⟩,
            fun key _ hkey => absurd hkey (hnone key), w,
            process_of_obstacle (Or.inl ⟨htruthy, rfl⟩) hw⟩)
  | true =>
      cases htarget : targetOf table o with
      | error fault =>
          have hname := canName_of_targetOf_eq_error htarget
          refine Or.inr (Or.inr ⟨fun h => ?_, fault, ?_⟩)
          · simp [h.canName htruthy] at hname
          · simp [process, htruthy, htarget, Report.ofExcept]
      | ok target =>
          obtain ⟨hname, hfor, hkey⟩ := targetOf_eq_ok htarget
          cases hw : obstacle o target with
          | some w =>
              have hflagged : ∀ key c, o.isFor key = true → Table.get? table key = some c →
                  c.isOverride = true := by
                intro key c ho hc
                by_contra hplain
                have hfree := obstacle_eq_none_iff.mpr
                  ⟨htruthy, c, (hfor key ho).trans hc, by simpa using hplain⟩
                simp [hfree] at hw
              refine Or.inr (Or.inl ⟨⟨fun _ => hname, ?_⟩, hflagged, w,
                process_of_obstacle (Or.inr ⟨htruthy, htarget⟩) hw⟩)
              intro key c ho hc hplain
              simp [hflagged key c ho hc] at hplain
          | none =>
              obtain ⟨-, c, rfl, hplain⟩ := obstacle_eq_none_iff.mp hw
              obtain ⟨key, htext, hget⟩ := hkey c rfl
              have ho : o.isFor key = true := isFor_iff.mpr ⟨by simpa [htext] using htruthy, htext⟩
              have hprocess := process_of_class ho hget hplain
              cases hdisplay : o.displayName with
              | error fault =>
                  rw [hdisplay] at hprocess
                  refine Or.inr (Or.inr ⟨fun h => ?_, fault, hprocess⟩)
                  obtain ⟨name, hok⟩ := h.hasName key c ho hget hplain
                  simp [hok] at hdisplay
              | ok name =>
                  rw [hdisplay] at hprocess
                  exact Or.inl ⟨⟨fun _ => hname, fun _ _ _ _ _ => ⟨name, hdisplay⟩⟩,
                    key, c, name, ho, hget, hplain, rfl, hprocess⟩

theorem applicable_of_process_eq_ok {result : ClassTable × Bool} {notes : List Note}
    (h : process table o = .ok result notes) : Applicable table o := by
  rcases process_cases table o with h' | h' | ⟨-, fault, heq⟩
  · exact h'.1
  · exact h'.1
  · simp [heq] at h

theorem not_applicable_of_process_eq_fail {fault : Fault} (h : process table o = .fail fault) :
    ¬ Applicable table o := by
  rcases process_cases table o with ⟨-, _, _, _, _, _, _, _, heq⟩ | ⟨-, -, _, heq⟩ | h'
  · simp [heq] at h
  · simp [heq] at h
  · exact h'.1

end ApiPages.ClassTable
