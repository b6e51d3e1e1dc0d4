import ApiPages.ClassTable
import ApiPages.LogSink
import ApiPages.Merge
import ApiPages.Page
import ApiPages.Registry.Discovery

namespace ApiPages

/-- A run over a class table: its tags, its log, the classes known from outside, and where its
messages are to be shown. -/
structure Run where
  settings : Settings
  registry : Registry
  log : Log
  external : List String
  sink : LogSink

namespace Run

/-- Sets up a run; without a registry, its tags are those on offer. -/
def start (disk : Disk) (settings : Settings) (registry : Option Registry)
    (entries : List EntryPoint) : Except Fault Run := do
  let sink ← LogSink.start disk settings.logging
  let registry ←
    match registry with
    | some reg => pure reg
    | none => Registry.discover settings.enabled entries
  let log ← Log.withDisabled settings.disabled
  return { settings, registry, log, external := settings.external, sink }

def record {α : Type} (r : Run) (report : Report α) : Except Fault (α × Run) := do
  let (a, log) ← r.log.record report
  return (a, { r with log })

def shown (r : Run) : LogSink :=
  r.sink.emitAll r.log.notes

def logFile (r : Run) : Option String := do
  r.shown.read (LogSink.fileName (← (← r.settings.logging).file))

def mergeEntry (reg : Registry) (entry : String × ClassDoc) : Report (String × ClassDoc) := do
  return (entry.1, ← entry.2.merge reg)

def mergeTable (reg : Registry) (table : ClassTable) : Report ClassTable :=
  table.mapM (mergeEntry reg)

def undocumented (c : ClassDoc) : Option Warning :=
  if c.doc = "" then some {
    category := .nodoc
    message := s!"No documentation for {c.name}"
    position := c.position }
  else none

/-- Merges all classes, folds the overrides into their targets, and looks for classes that are
left without documentation. -/
def stages (reg : Registry) (table : ClassTable) (external : List String) :
    Report (ClassTable × List String) := do
  Report.progress .info "pipeline" s!"Merging {table.length} classes"
  let merged ← mergeTable reg table
  let (table, external) ← ClassTable.processAll merged external
  ((Table.values table).filterMap undocumented).forM Report.warn
  return (table, external)

def summary (classes warnings : Nat) : Note :=
  .progress .info "pipeline" s!"Finished with {classes} classes, {warnings} warnings"

def run (r : Run) (table : ClassTable) : Except Fault (ClassTable × Run) := do
  let ((table, external), r) ← r.record (stages r.registry table r.external)
  let log := r.log.add [summary table.length r.log.warnings.length]
  return (table, { r with log, external })

theorem run_eq (r : Run) (table : ClassTable) :
    r.run table =
      (fun ((final, external), log) => (final, { r with
        log := log.add [summary final.length log.warnings.length]
        external })) <$> r.log.record (stages r.registry table r.external) := by
  rw [run, record]
  cases r.log.record (stages r.registry table r.external) <;> rfl

def pages (r : Run) (f : Formatter) (table : ClassTable) : Report (Table String String) :=
  table.mapM fun (key, c) => do
    let (_, html) ← Page.report r.registry f c
    return (key, html)

end Run

end ApiPages
