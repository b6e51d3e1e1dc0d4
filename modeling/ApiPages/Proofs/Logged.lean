import ApiPages.Log

/-!
# Stages with a log at hand

A report hands its notes on when it has ended well. Here a stage has the log at hand instead: it
writes each note when that comes up, reads the log as it likes, and leaves it behind also where it
fails. A stage follows a report if it comes to the same result and, ending well, to the same log. It
is blind to the disabled categories if nothing but the warnings in its log tells whether they are.
-/

namespace ApiPages

/-- A stage that writes to a log: what it comes to, and the log that it leaves behind. -/
abbrev Logged (α : Type) := ExceptT Fault (StateM Log) α

namespace Logged

variable {α β : Type}

def ofExcept (x : Except Fault α) : Logged α := fun log => (x, log)

def note (n : Note) : Logged Unit := fun log => (.ok (), log.add [n])

def warn (w : Warning) : Logged Unit :=
  note (.warning w)

def progress (level : Level) (stage message : String) : Logged Unit :=
  note (.progress level stage message)

/-- A stage that fails, if at all, before it has anything to note. -/
def ofReport (r : Report α) : Logged α := fun log =>
  match r with
  | .fail fault => (.error fault, log)
  | .ok a notes => (.ok a, log.add notes)

theorem bind_apply (m : Logged α) (f : α → Logged β) (log : Log) :
    (m >>= f) log =
      match m log with
      | (.ok a, next) => f a next
      | (.error fault, next) => (.error fault, next) := by
  change (match m log with | (result, next) => ExceptT.bindCont f result next) = _
  obtain ⟨result, next⟩ := m log
  cases result <;> rfl

end Logged

theorem Log.add_nil (log : Log) : log.add [] = log := by
  rw [add, List.filter_nil, List.append_nil]

theorem Log.record_bind {α β : Type} (log : Log) (r : Report α) (f : α → Report β) :
    log.record (r >>= f) = log.record r >>= fun (a, next) => next.record (f a) := by
  cases r with
  | fail fault => rfl
  | ok a notes =>
      rw [Report.ok_bind]
      change _ = (log.add notes).record (f a)
      cases f a with
      | fail fault => rfl
      | ok b later => rw [Report.after_ok, record, record, add_append]

/-! ### Following a report -/

/-- A stage that comes to what a report comes to, with the log in which the report is recorded. -/
def Logged.Follows {α : Type} (m : Logged α) (r : Report α) : Prop :=
  ∀ log, log.record r = (fun a => (a, (m log).2)) <$> (m log).1

namespace Logged.Follows

variable {α β : Type} {m : Logged α} {r : Report α}

theorem bind {f : α → Logged β} {g : α → Report β} (hm : m.Follows r)
    (hf : ∀ a, (f a).Follows (g a)) : (m >>= f).Follows (r >>= g) := by
  intro log
  rw [Log.record_bind, hm log, bind_apply]
  obtain ⟨result, next⟩ := m log
  cases result with
  | error fault => rfl
  | ok a => exact hf a next

theorem pure (a : α) : Follows (Pure.pure a) (Pure.pure a) := by
  intro log
  change Except.ok (a, log.add []) = Except.ok (a, log)
  rw [Log.add_nil]

theorem ofExcept (x : Except Fault α) : Follows (Logged.ofExcept x) (Report.ofExcept x) := by
  cases x with
  | error fault => exact fun _ => rfl
  | ok a => exact pure a

theorem note (n : Note) : Follows (Logged.note n) (Report.note n) :=
  fun _ => rfl

theorem ofReport (r : Report α) : Follows (Logged.ofReport r) r := by
  cases r <;> exact fun _ => rfl

theorem forM {γ : Type} {f : γ → Logged Unit} {g : γ → Report Unit} (h : ∀ x, (f x).Follows (g x))
    (xs : List γ) : (xs.forM f).Follows (xs.forM g) := by
  induction xs with
  | nil => exact pure ()
  | cons x xs ih => exact (h x).bind fun _ => ih

theorem mapM {γ : Type} {f : γ → Logged α} {g : γ → Report α} (h : ∀ x, (f x).Follows (g x))
    (xs : List γ) : (xs.mapM f).Follows (xs.mapM g) := by
  induction xs with
  | nil => exact pure []
  | cons x xs ih =>
      rw [List.mapM_cons, List.mapM_cons]
      exact (h x).bind fun _ => ih.bind fun _ => pure _

theorem foldlM {γ : Type} {f : α → γ → Logged α} {g : α → γ → Report α}
    (h : ∀ a x, (f a x).Follows (g a x)) (xs : List γ) (a : α) :
    (xs.foldlM f a).Follows (xs.foldlM g a) := by
  induction xs generalizing a with
  | nil => exact pure a
  | cons x xs ih =>
      rw [List.foldlM_cons, List.foldlM_cons]
      exact (h a x).bind fun b => ih b

end Logged.Follows

/-! ### Blind to what is disabled -/

/-- The log of a run with nothing disabled, and that of one that differs in the disabled categories
and in what they keep out of it. -/
structure Log.Hidden (disabled : List Category) (log hidden : Log) : Prop where
  shows : ∀ category, log.enabled category = true
  hides : ∀ category, hidden.enabled category = !disabled.contains category
  warnings : hidden.warnings = log.warnings.filter fun w => !disabled.contains w.category

namespace Log

theorem warnings_add (log : Log) (notes : List Note) :
    (log.add notes).warnings =
      log.warnings ++ (notes.filterMap Note.warning?).filter fun w => log.enabled w.category := by
  rw [warnings, add, List.filterMap_append, ← warnings]
  congr 1
  induction notes with
  | nil => rfl
  | cons n notes ih =>
      cases n with
      | progress level stage message =>
          rw [List.filter_cons_of_pos rfl]
          exact ih
      | warning w =>
          have hkeeps : log.keeps (.warning w) = log.enabled w.category := rfl
          have hsome : Note.warning? (.warning w) = some w := rfl
          rw [List.filter_cons, hkeeps, List.filterMap_cons_some hsome, List.filter_cons]
          split
          · rw [List.filterMap_cons_some hsome, ih]
          · exact ih

theorem enabled_disable (log : Log) (first category : Category) :
    (log.disable first).enabled category = (log.enabled category && !(category == first)) := by
  rw [disable]
  by_cases henabled : log.enabled first = true
  · rw [if_pos henabled]
    have hsame : decide (category = first) = (category == first) := rfl
    simp [enabled, hsame]
  · rw [if_neg henabled]
    by_cases hsame : category = first
    · simp [hsame, henabled]
    · simp [hsame]

theorem enabled_foldl_disable (categories : List Category) (log : Log) (category : Category) :
    (categories.foldl disable log).enabled category =
      (log.enabled category && !categories.contains category) := by
  induction categories generalizing log with
  | nil => simp
  | cons first categories ih =>
      rw [List.foldl_cons, ih, enabled_disable, List.contains_cons, Bool.not_or, Bool.and_assoc]

theorem notes_foldl_disable (categories : List Category) (log : Log) :
    (categories.foldl disable log).notes = log.notes := by
  induction categories generalizing log with
  | nil => rfl
  | cons first categories ih =>
      rw [List.foldl_cons, ih, disable]
      split <;> rfl

theorem hidden_without (disabled : List Category) : Hidden disabled {} (without disabled) where
  shows _ := rfl
  hides category := by rw [without, enabled_foldl_disable]; rfl
  warnings := by rw [warnings, without, notes_foldl_disable]; rfl

theorem Hidden.add {disabled : List Category} {log hidden : Log} (h : Hidden disabled log hidden)
    (notes : List Note) : Hidden disabled (log.add notes) (hidden.add notes) where
  shows := h.shows
  hides := h.hides
  warnings := by
    have hall : ∀ ws : List Warning, ws.filter (fun w => log.enabled w.category) = ws := by
      intro ws
      simp [h.shows]
    simp only [warnings_add, hall, h.hides, h.warnings, List.filter_append]

theorem Hidden.add_progress {disabled : List Category} {log hidden : Log}
    (h : Hidden disabled log hidden) (level : Level) (stage message message' : String) :
    Hidden disabled (log.add [.progress level stage message])
      (hidden.add [.progress level stage message']) where
  shows := h.shows
  hides := h.hides
  warnings := by
    have hnone : ∀ (log : Log) (message : String),
        (log.add [.progress level stage message]).warnings = log.warnings := fun log message =>
      (warnings_add log [.progress level stage message]).trans (List.append_nil _)
    rw [hnone, hnone, h.warnings]

end Log

/-- A stage that comes to the same whatever is disabled, with the same log but for the warnings that
are disabled. -/
def Logged.Blind {α : Type} (disabled : List Category) (m : Logged α) : Prop :=
  ∀ log hidden, Log.Hidden disabled log hidden →
    (m hidden).1 = (m log).1 ∧ Log.Hidden disabled (m log).2 (m hidden).2

/-- A stage that follows a report, and does so whatever is disabled. -/
structure Logged.Hides {α : Type} (disabled : List Category) (m : Logged α) (r : Report α) :
    Prop where
  follows : m.Follows r
  blind : m.Blind disabled

namespace Logged.Blind

variable {α β : Type} {disabled : List Category} {m : Logged α}

theorem bind {f : α → Logged β} (hm : m.Blind disabled) (hf : ∀ a, (f a).Blind disabled) :
    (m >>= f).Blind disabled := by
  intro log hidden h
  obtain ⟨hresult, hnext⟩ := hm log hidden h
  rw [bind_apply, bind_apply]
  cases hlog : m log with
  | mk result next =>
      cases hhidden : m hidden with
      | mk result' next' =>
          rw [hlog, hhidden] at hresult hnext
          obtain rfl : result' = result := hresult
          cases result' with
          | error fault => exact ⟨rfl, hnext⟩
          | ok a => exact hf a next next' hnext

theorem ofExcept (x : Except Fault α) : (Logged.ofExcept x).Blind disabled :=
  fun _ _ h => ⟨rfl, h⟩

theorem pure (a : α) : Blind disabled (Pure.pure a) :=
  ofExcept (.ok a)

theorem note (n : Note) : (Logged.note n).Blind disabled :=
  fun _ _ h => ⟨rfl, h.add [n]⟩

theorem ofReport (r : Report α) : (Logged.ofReport r).Blind disabled := by
  cases r with
  | fail fault => exact fun _ _ h => ⟨rfl, h⟩
  | ok a notes => exact fun _ _ h => ⟨rfl, h.add notes⟩

theorem forM {γ : Type} {f : γ → Logged Unit} (h : ∀ x, (f x).Blind disabled) (xs : List γ) :
    (xs.forM f).Blind disabled := by
  induction xs with
  | nil => exact pure ()
  | cons x xs ih => exact (h x).bind fun _ => ih

theorem mapM {γ : Type} {f : γ → Logged α} (h : ∀ x, (f x).Blind disabled) (xs : List γ) :
    (xs.mapM f).Blind disabled := by
  induction xs with
  | nil => exact pure []
  | cons x xs ih =>
      rw [List.mapM_cons]
      exact (h x).bind fun _ => ih.bind fun _ => pure _

theorem foldlM {γ : Type} {f : α → γ → Logged α} (h : ∀ a x, (f a x).Blind disabled) (xs : List γ)
    (a : α) : (xs.foldlM f a).Blind disabled := by
  induction xs generalizing a with
  | nil => exact pure a
  | cons x xs ih =>
      rw [List.foldlM_cons]
      exact (h a x).bind fun b => ih b

end Logged.Blind

end ApiPages
