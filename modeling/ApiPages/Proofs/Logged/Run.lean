import ApiPages.Proofs.Logged.Stages

/-!
# Runs with warnings disabled

A run is put together from stages that are blind to what is disabled, and only its last message
counts the warnings of the log. So two runs, of which one has categories disabled, come to the same,
and the log of that one lacks the warnings of those categories and nothing else.
-/

namespace ApiPages

namespace Run

def mergeTableLogged (reg : Registry) (table : ClassTable) : Logged ClassTable :=
  table.mapM fun entry => do
    return (entry.1, ← entry.2.mergeLogged reg)

def stagesLogged (reg : Registry) (table : ClassTable) (external : List String) :
    Logged (ClassTable × List String) := do
  Logged.progress .info "pipeline" s!"Merging {table.length} classes"
  let merged ← mergeTableLogged reg table
  let (table, external) ← ClassTable.processAllLogged merged external
  ((Table.values table).filterMap undocumented).forM Logged.warn
  return (table, external)

/-- A run that keeps its log also where it fails. -/
def runLogged (r : Run) (table : ClassTable) : Except Fault ClassTable × Run :=
  match stagesLogged r.registry table r.external r.log with
  | (.error fault, log) => (.error fault, { r with log })
  | (.ok (table, external), log) =>
    (.ok table, { r with log := log.add [summary table.length log.warnings.length], external })

theorem follows_mergeTable (reg : Registry) (table : ClassTable) :
    (mergeTableLogged reg table).Follows (mergeTable reg table) :=
  .mapM (fun entry => (entry.2.follows_merge reg).bind fun _ => .pure _) table

theorem follows_stages (reg : Registry) (table : ClassTable) (external : List String) :
    (stagesLogged reg table external).Follows (stages reg table external) := by
  refine (Logged.Follows.note _).bind fun _ => ?_
  refine (follows_mergeTable reg table).bind fun merged => ?_
  refine (ClassTable.follows_processAll merged external).bind fun result => ?_
  exact (Logged.Follows.warnAll _).bind fun _ => .pure _

theorem blind_stages (reg : Registry) (table : ClassTable) (external : List String)
    (disabled : List Category) : (stagesLogged reg table external).Blind disabled := by
  have hentry : ∀ entry : String × ClassDoc, Logged.Blind disabled
      (do return (entry.1, ← entry.2.mergeLogged reg) : Logged (String × ClassDoc)) :=
    fun entry => (entry.2.blind_merge reg disabled).bind fun _ => .pure _
  refine .bind (.note _) fun _ => ?_
  refine .bind (.mapM hentry table) fun merged => ?_
  refine (ClassTable.blind_processAll merged external disabled).bind fun result => ?_
  exact (Logged.Blind.warnAll _).bind fun _ => .pure _

/-- A run is what it comes to with the log at hand, unless it fails. -/
theorem run_eq_runLogged (r : Run) (table : ClassTable) :
    r.run table = (fun final => (final, (r.runLogged table).2)) <$> (r.runLogged table).1 := by
  have hstages := follows_stages r.registry table r.external r.log
  rw [run_eq, hstages, runLogged]
  obtain ⟨result, log⟩ := stagesLogged r.registry table r.external r.log
  cases result <;> rfl

theorem mapM_ofWord (categories : List Category) :
    (categories.map Category.word).mapM Category.ofWord = .ok categories := by
  induction categories with
  | nil => rfl
  | cons category categories ih =>
      rw [List.map_cons, List.mapM_cons, Category.ofWord_word, ih]
      rfl

theorem start_disabled (disk : Disk) (disabled : List Category) (settings : Settings)
    (registry : Option Registry) (entries : List EntryPoint) :
    start disk { settings with disabled := disabled.map Category.word } registry entries =
      (fun r => { r with
        settings := { settings with disabled := disabled.map Category.word }
        log := Log.without disabled }) <$>
        start disk { settings with disabled := [] } registry entries := by
  have hlog : Log.withDisabled (disabled.map Category.word) = .ok (Log.without disabled) := by
    rw [Log.withDisabled, mapM_ofWord]
    rfl
  rw [start, start]
  dsimp only
  rw [hlog]
  cases LogSink.start disk settings.logging with
  | error fault => rfl
  | ok sink =>
      cases registry with
      | some reg => rfl
      | none =>
          dsimp only
          cases Registry.discover settings.enabled entries <;> rfl

theorem blind_runLogged {disabled : List Category} {r : Run} {hidden : Log}
    (h : Log.Hidden disabled r.log hidden) (table : ClassTable) :
    ({ r with log := hidden }.runLogged table).1 = (r.runLogged table).1 ∧
      ({ r with log := hidden }.runLogged table).2.external = (r.runLogged table).2.external ∧
      Log.Hidden disabled (r.runLogged table).2.log
        ({ r with log := hidden }.runLogged table).2.log := by
  obtain ⟨hresult, hlog⟩ :=
    blind_stages r.registry table r.external disabled r.log hidden h
  rw [runLogged, runLogged]
  dsimp only
  cases hall : stagesLogged r.registry table r.external r.log with
  | mk result log =>
      cases hsome : stagesLogged r.registry table r.external hidden with
      | mk result' log' =>
          rw [hall, hsome] at hresult hlog
          obtain rfl : result' = result := hresult
          cases result' with
          | error fault => exact ⟨rfl, rfl, hlog⟩
          | ok final => exact ⟨rfl, rfl, hlog.add_progress _ _ _ _⟩

/-- **Disabling warnings hides them and does nothing else.** Whatever is disabled, reading comments
and declarations, merging, applying overrides and whole runs come to the same: to the same texts,
records, tables and classes known from outside, or to the same fault. The log lacks the warnings of
the disabled categories and no other, also where a stage fails. -/
theorem disabling_hides_warnings (disabled : List Category) :
    Log.Hidden disabled {} (Log.without disabled) ∧
      (∀ reg comment position, Logged.Hides disabled (Comment.parseLogged reg comment position)
        (Comment.parse reg comment position)) ∧
      (∀ reg c declaration, Logged.Hides disabled (Declaration.applyLogged reg c declaration)
        (Declaration.apply reg c declaration)) ∧
      (∀ reg m, Logged.Hides disabled (Member.mergeLogged reg m) (Member.merge reg m)) ∧
      (∀ reg c, Logged.Hides disabled (ClassDoc.mergeLogged reg c) (ClassDoc.merge reg c)) ∧
      (∀ table external, Logged.Hides disabled (ClassTable.processAllLogged table external)
          (ClassTable.processAll table external) ∧
        ∀ fault log, (ClassTable.applyAll table).fault = some fault →
          ClassTable.processAllLogged table external log =
            (.error fault, log.add (ClassTable.applyAll table).notes)) ∧
      (∀ disk (settings : Settings) registry entries,
        start disk { settings with disabled := disabled.map Category.word } registry entries =
          (fun r => { r with
            settings := { settings with disabled := disabled.map Category.word }
            log := Log.without disabled }) <$>
            start disk { settings with disabled := [] } registry entries) ∧
      ∀ (r : Run) (table : ClassTable),
        r.run table = (fun final => (final, (r.runLogged table).2)) <$> (r.runLogged table).1 ∧
          ∀ hidden, Log.Hidden disabled r.log hidden →
            ({ r with log := hidden }.runLogged table).1 = (r.runLogged table).1 ∧
            ({ r with log := hidden }.runLogged table).2.external =
              (r.runLogged table).2.external ∧
            Log.Hidden disabled (r.runLogged table).2.log
              ({ r with log := hidden }.runLogged table).2.log := by
  refine ⟨Log.hidden_without disabled, ?_, ?_, ?_, ?_, ?_,
    fun disk => start_disabled disk disabled, ?_⟩
  · intro reg comment position
    exact ⟨Comment.follows_parse reg comment position, Comment.blind_parse reg comment position _⟩
  · intro reg c declaration
    exact ⟨Declaration.follows_apply reg c declaration, Declaration.blind_apply reg c declaration _⟩
  · intro reg m
    exact ⟨m.follows_merge reg, m.blind_merge reg disabled⟩
  · intro reg c
    exact ⟨c.follows_merge reg, c.blind_merge reg disabled⟩
  · intro table external
    refine ⟨⟨ClassTable.follows_processAll table external,
      ClassTable.blind_processAll table external disabled⟩, fun fault log h => ?_⟩
    exact ClassTable.processAllLogged_of_fault h external log
  · intro r table
    exact ⟨run_eq_runLogged r table, fun hidden h => blind_runLogged h table⟩

example :
    ((Comment.parseLogged {} "A @nope x" none {}).2).warnings =
        [{ category := .tag, message := "Unsupported tag: @nope" }] ∧
      ((Comment.parseLogged {} "A @nope x" none (Log.without [.tag])).2).warnings = [] := by
  decide +kernel

end Run

end ApiPages
