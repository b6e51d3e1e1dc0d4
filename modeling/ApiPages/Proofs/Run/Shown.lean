import ApiPages.Proofs.LogSink
import ApiPages.Proofs.Run.Notes

/-!
# What a whole run shows

A whole run starts from its settings, reads comments and declarations with its log at hand, and goes
through its stages. What it comes to depends on its tags, its log and the classes known from
outside, and not on where its messages are shown. Those messages are the notes of its log, which are
mild.
-/

namespace ApiPages

/-! ### On the way to a class table -/

/-- A step on the way from sources to a class table: a comment or a declaration is read, or
something is entered that there is nothing to say about. -/
inductive Reading where
  | comment (key text : String)
  | memberComment (key id text : String)
  | declaration (key : String) (declaration : Record)
  | entered (f : ClassTable → ClassTable)

/-- Reads the comment of one member. -/
def ClassDoc.readMember (reg : Registry) (id text : String) (c : ClassDoc) : Report ClassDoc :=
  match c.member? id with
  | none => .fail (.missingKey id)
  | some m => do
    let m ← m.readComment reg text
    return { c with members := c.members.map fun other => if other.id = id then m else other }

/-- Reads something about the class of a key. -/
def ClassTable.readClass (table : ClassTable) (key : String) (read : ClassDoc → Report ClassDoc) :
    Report ClassTable :=
  match Table.get? table key with
  | none => .fail (.missingKey key)
  | some c => do return table.replace key (← read c)

def Reading.perform (reg : Registry) (table : ClassTable) : Reading → Report ClassTable
  | comment key text => table.readClass key (·.readComment reg text)
  | memberComment key id text => table.readClass key (·.readMember reg id text)
  | declaration key fields => table.readClass key fun c => Declaration.apply reg c fields
  | entered f => pure (f table)

theorem ClassDoc.mild_readMember (reg : Registry) (id text : String) (c : ClassDoc) :
    (c.readMember reg id text).Mild := by
  rw [readMember]
  split
  · exact .fail _
  · exact (Member.mild_readComment reg text _).bind fun _ => .pure _

theorem ClassTable.mild_readClass (table : ClassTable) (key : String)
    {read : ClassDoc → Report ClassDoc} (h : ∀ c, (read c).Mild) :
    (table.readClass key read).Mild := by
  rw [readClass]
  split
  · exact .fail _
  · exact (h _).bind fun _ => .pure _

theorem Reading.mild_perform (reg : Registry) (table : ClassTable) (reading : Reading) :
    (reading.perform reg table).Mild := by
  cases reading with
  | comment key text => exact table.mild_readClass key (ClassDoc.mild_readComment reg text)
  | memberComment key id text =>
      exact table.mild_readClass key (ClassDoc.mild_readMember reg id text)
  | declaration key fields =>
      exact table.mild_readClass key fun c => Declaration.mild_apply reg c fields
  | entered f => exact .pure _

namespace Run

/-- Reads all there is to read with the log of a run, and runs it over what that leads to. -/
def finish (r : Run) (readings : List Reading) (table : ClassTable) :
    Except Fault (ClassTable × Run) := do
  let (table, r) ← r.record (readings.foldlM (Reading.perform r.registry) table)
  r.run table

/-- A run from its settings to its end. -/
def whole (disk : Disk) (settings : Settings) (registry : Option Registry)
    (entries : List EntryPoint) (readings : List Reading) (table : ClassTable) :
    Except Fault (ClassTable × Run) := do
  (← start disk settings registry entries).finish readings table

/-! ### What it comes to -/

/-- The classes that a run leaves, the classes then known from outside, and its log. -/
def outcome (reg : Registry) (log : Log) (external : List String) (readings : List Reading)
    (table : ClassTable) : Except Fault (ClassTable × List String × Log) := do
  let (table, log) ← log.record (readings.foldlM (Reading.perform reg) table)
  let ((final, external), log) ← log.record (stages reg table external)
  return (final, external, log.add [summary final.length log.warnings.length])

theorem mild_outcome {reg : Registry} {log last : Log} (h : log.Mild) {external known : List String}
    {readings : List Reading} {table final : ClassTable}
    (hrun : outcome reg log external readings table = .ok (final, known, last)) : last.Mild := by
  obtain ⟨⟨read, next⟩, hread, hrun⟩ := Except.bind_eq_ok_iff.mp hrun
  obtain ⟨⟨result, later⟩, hstages, hrun⟩ := Except.bind_eq_ok_iff.mp hrun
  cases hrun
  have hnext := h.record (.foldlM (Reading.mild_perform reg) readings table) hread
  have hlater := hnext.record (mild_stages reg read external) hstages
  have hsummary : (summary result.1.length later.warnings.length).Mild := by
    change Level.info.rank < Level.warning.rank
    decide
  exact hlater.add (List.forall_mem_singleton.mpr hsummary)

/-- Neither the settings of a run nor where it shows its messages has a part in what it comes to. -/
theorem finish_eq (r : Run) (readings : List Reading) (table : ClassTable) :
    r.finish readings table =
      (fun (final, external, log) => (final, { r with log, external })) <$>
        outcome r.registry r.log r.external readings table := by
  rw [finish, record, outcome]
  simp only [bind_assoc, pure_bind, run_eq, map_bind, map_pure]
  rfl

/-- The settings of logging are used up at the start: a log file is opened, and messages are shown
as they ask for. -/
theorem start_eq {disk : Disk} {settings : Settings} {s : LoggingSettings}
    (hs : settings.logging = some s) (hopens : disk.Opens s) (registry : Option Registry)
    (entries : List EntryPoint) :
    start disk settings registry entries = (do
      let reg ← registry.elim (Registry.discover settings.enabled entries) pure
      let log ← Log.withDisabled settings.disabled
      return {
        settings
        registry := reg
        log
        external := settings.external
        sink := {
          level := some s.level
          handlers := s.handlers
          files := LogSink.opened s.file } }) := by
  rw [start, hs, LogSink.start_some hopens]
  cases registry <;> rfl

/-- A run whose console is made quiet, or no longer is. -/
def withQuiet (r : Run) (s : LoggingSettings) (quiet : Bool) : Run :=
  { r with
    settings := { r.settings with logging := some { s with quiet } }
    sink := { r.sink with handlers := { s with quiet }.handlers } }

/-- A run that ends well has a log of mild notes, and ends well however quiet its console is. -/
theorem exists_of_whole {disk : Disk} {settings : Settings} {s : LoggingSettings}
    (hs : settings.logging = some s) (hopens : disk.Opens s) {registry : Option Registry}
    {entries : List EntryPoint} {readings : List Reading} {table final : ClassTable} {r : Run}
    (h : whole disk settings registry entries readings table = .ok (final, r)) :
    r.log.Mild ∧ r.settings = settings ∧
      r.sink = {
        level := some s.level
        handlers := s.handlers
        files := LogSink.opened s.file } ∧
      ∀ quiet, whole disk { settings with logging := some { s with quiet } } registry entries
        readings table = .ok (final, r.withQuiet s quiet) := by
  rw [whole, start_eq hs hopens] at h
  obtain ⟨begun, hbegun, h⟩ := Except.bind_eq_ok_iff.mp h
  obtain ⟨reg, hreg, hbegun⟩ := Except.bind_eq_ok_iff.mp hbegun
  obtain ⟨log, hlog, hbegun⟩ := Except.bind_eq_ok_iff.mp hbegun
  cases hbegun
  rw [finish_eq] at h
  dsimp only at h
  cases hend : outcome reg log settings.external readings table with
  | error fault =>
      rw [hend] at h
      cases h
  | ok ended =>
      rw [hend] at h
      cases h
      refine ⟨mild_outcome (Log.mild_withDisabled hlog) hend, rfl, rfl, fun quiet => ?_⟩
      have hquiet : disk.Opens { s with quiet } := hopens
      rw [whole, start_eq rfl hquiet]
      dsimp only
      rw [hreg, hlog]
      refine (finish_eq _ readings table).trans ?_
      dsimp only
      rw [hend]
      rfl

/-! ### What it shows -/

section Shown

variable {r : Run} {s : LoggingSettings} {files : Table String String}
  (hsink : r.sink = { level := some s.level, handlers := s.handlers, files })
include hsink

theorem shown_eq :
    r.shown = { r.sink with
      console :=
        String.join ((LogSink.atLeast s.consoleLevel r.log.notes).map LogSink.consoleLine)
      files := (LogSink.atLeast s.level r.log.notes).foldl (LogSink.writeTo s.file) files } := by
  have hsetUp : LogSink.SetUp s r.sink := by
    rw [hsink]
    exact ⟨rfl, rfl⟩
  rw [shown, hsetUp.emitAll_eq, hsink, String.empty_append]

theorem files_withQuiet (quiet : Bool) : (r.withQuiet s quiet).shown.files = r.shown.files := by
  have hquiet : (r.withQuiet s quiet).sink =
      { level := some { s with quiet }.level, handlers := { s with quiet }.handlers, files } := by
    rw [withQuiet, hsink]
    rfl
  rw [shown_eq hquiet, shown_eq hsink]
  rfl

theorem logFile_withQuiet (hs : r.settings.logging = some s) (quiet : Bool) :
    (r.withQuiet s quiet).logFile = r.logFile := by
  have hfiles := files_withQuiet hsink quiet
  have hread : (r.withQuiet s quiet).shown.read = r.shown.read := by
    funext name
    rw [LogSink.read, LogSink.read, hfiles]
  rw [logFile, logFile, hs, hread]
  rfl

end Shown

theorem atLeast_warning {notes : List Note} (h : ∀ n ∈ notes, n.Mild) :
    LogSink.atLeast .warning notes =
      (notes.filterMap Note.warning?).map fun w => (Note.warning w).message := by
  refine Note.filter_message (fun w => ?_) (fun level stage text hlevel => ?_) h
  · exact decide_eq_true (Nat.le_refl _)
  · exact decide_eq_false (Nat.not_le_of_lt hlevel)

theorem filter_atLeast {notes : List Note} (h : ∀ n ∈ notes, n.Mild) (s : LoggingSettings) :
    (LogSink.atLeast s.level notes).filter (·.level = .warning) =
      (notes.filterMap Note.warning?).map fun w => (Note.warning w).message := by
  rw [LogSink.atLeast, List.filter_filter]
  refine Note.filter_message (fun w => ?_) (fun level stage text hlevel => ?_) h
  · rw [Note.message, decide_eq_true rfl, Bool.true_and]
    exact decide_eq_true s.level_le_warning
  · have hne : level ≠ .warning := by
      rintro rfl
      exact Nat.lt_irrefl _ hlevel
    simp [Note.message, hne]

/-- The entries of a log file are warnings, and messages that matter less than one. -/
theorem word_of_mem_atLeast {notes : List Note} (h : ∀ n ∈ notes, n.Mild) {level : Level}
    {m : Message} (hm : m ∈ LogSink.atLeast level notes) :
    m.level = .warning ∨ m.level.word = "INFO" ∨ m.level.word = "DEBUG" := by
  obtain ⟨n, hn, rfl⟩ := List.mem_map.mp (List.mem_filter.mp hm).1
  cases n with
  | warning w => exact Or.inl rfl
  | progress level stage text =>
      have hmild : level.rank < Level.warning.rank := h _ hn
      cases level with
      | debug => exact Or.inr (Or.inr rfl)
      | info => exact Or.inr (Or.inl rfl)
      | warning => exact absurd hmild (Nat.lt_irrefl _)
      | error => exact absurd hmild (by decide)
      | critical => exact absurd hmild (by decide)

def quietLogging : LoggingSettings :=
  { verbose := true, quiet := true, file := some "tagdoc.log" }

/-- A quiet run with a log file for all messages and one category of warnings disabled. -/
def quietSettings : Settings where
  disabled := ["nodoc"]
  enabled := some ["extends", "params"]
  logging := some quietLogging

def quietReadings : List Reading :=
  [.entered fun table => table.insert "Btn" {
      name := "Btn"
      files := [some { file := "btn.js", line := 3 }]
      members := [{ id := "click", owner := "Btn", name := "click" }] },
    .comment "Btn" "/** @nope */",
    .memberComment "Btn" "click" "/** @param \x7bString name */",
    .declaration "Btn" [("extend", .text "Cmp")],
    .entered fun table => table.insert "Fix" {
      name := "Fix"
      isOverride := true
      overrideTarget := .text "Bttn" }]

def quietWarnings : List String :=
  ["btn.js:3: Unsupported tag: @nope", "Unterminated type definition",
    "@param is missing a parameter name", "Class Bttn not found"]

def quietLines : List String :=
  ["WARNING tagdoc.warnings: btn.js:3: Unsupported tag: @nope\n",
    "DEBUG tagdoc.doc_parser: Parsed 0 tag records\n",
    "WARNING tagdoc.warnings: Unterminated type definition\n",
    "WARNING tagdoc.warnings: @param is missing a parameter name\n",
    "DEBUG tagdoc.doc_parser: Parsed 1 tag records\n",
    "DEBUG tagdoc.declaration: Parsed declaration of Btn\n",
    "INFO tagdoc.pipeline: Merging 2 classes\n",
    "WARNING tagdoc.warnings: Class Bttn not found\n",
    "DEBUG tagdoc.overrides: Applied 1 override classes\n",
    "INFO tagdoc.pipeline: Finished with 1 classes, 4 warnings\n"]

/-- A disk on which every file can be opened. -/
def openDisk : Disk := fun _ _ => none

end Run

end ApiPages
