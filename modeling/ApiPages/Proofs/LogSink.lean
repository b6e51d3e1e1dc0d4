import ApiPages.Proofs.Table
import ApiPages.Run
import Mathlib.Data.String.Basic

/-!
# What logging shows, and where

Logging has a level below which nothing is shown, a console that may be quiet, and perhaps a file.
So the console has the texts of the messages that are important enough for it, one a line, and the
file has a line for each message that is important enough at all. Whether the console is quiet makes
no difference to the file.
-/

namespace ApiPages

namespace LoggingSettings

/-- The least level of a message that is shown at all. -/
def level (s : LoggingSettings) : Level :=
  if s.verbose then .debug else .info

/-- The least level of a message that the console shows. -/
def consoleLevel (s : LoggingSettings) : Level :=
  if s.quiet then .warning else s.level

def handlers (s : LoggingSettings) : List Handler :=
  { level := s.consoleLevel } ::
    (s.file.map fun path => { file := some (LogSink.fileName path), level := s.level }).toList

theorem level_le_warning (s : LoggingSettings) : s.level.rank ≤ Level.warning.rank := by
  rw [level]
  split <;> decide

theorem level_le_consoleLevel (s : LoggingSettings) : s.level.rank ≤ s.consoleLevel.rank := by
  rw [consoleLevel]
  split
  · exact s.level_le_warning
  · exact Nat.le_refl _

end LoggingSettings

/-- The log file, if one is asked for, can be opened before anything has been written. -/
def Disk.Opens (disk : Disk) (s : LoggingSettings) : Prop :=
  ∀ path, s.file = some path → disk [] path = none

namespace LogSink

variable {s : LoggingSettings} {sink : LogSink}

/-! ### Setting logging up -/

/-- The files once the log file, if there is one, is open; there is nothing in it yet. -/
def opened : Option String → Table String String
  | none => []
  | some path => appendTo [] (fileName path) ""

theorem start_some {disk : Disk} (hopens : disk.Opens s) :
    start disk (some s) =
      .ok { level := some s.level, handlers := s.handlers, files := opened s.file } := by
  rw [start, configure, LoggingSettings.handlers]
  cases hfile : s.file with
  | none => rfl
  | some path =>
      dsimp only
      rw [openFile, hopens path hfile]
      rfl

theorem get?_opened (path : String) : Table.get? (opened (some path)) (fileName path) = some "" := by
  rw [opened, appendTo, Table.get?_set, if_pos rfl]
  rfl

/-! ### Showing messages -/

/-- Logging that is set up as some settings ask for it. -/
structure SetUp (s : LoggingSettings) (sink : LogSink) : Prop where
  level : sink.level = some s.level
  handlers : sink.handlers = s.handlers

/-- The files once a message is written to the log file, if there is one. -/
def writeTo (file : Option String) (files : Table String String) (m : Message) :
    Table String String :=
  match file with
  | none => files
  | some path => appendTo files (fileName path) (fileLine m)

theorem handle_console (m : Message) (sink : LogSink) (level : Level) :
    handle m sink { level } =
      { sink with
        console := sink.console ++ if level.rank ≤ m.level.rank then consoleLine m else "" } := by
  by_cases h : level.rank ≤ m.level.rank <;> simp [handle, Handler.takes, h]

theorem foldl_handle_file (m : Message) (sink : LogSink) (level : Level) (file : Option String) :
    (file.map fun path => ({ file := some (fileName path), level } : Handler)).toList.foldl
        (handle m) sink =
      { sink with
        files := if level.rank ≤ m.level.rank then writeTo file sink.files m else sink.files } := by
  cases file with
  | none => simp [writeTo]
  | some path => by_cases h : level.rank ≤ m.level.rank <;> simp [handle, Handler.takes, writeTo, h]

theorem SetUp.emit_eq (h : SetUp s sink) (m : Message) :
    sink.emit m = { sink with
      console := sink.console ++ if s.consoleLevel.rank ≤ m.level.rank then consoleLine m else ""
      files :=
        if s.level.rank ≤ m.level.rank then writeTo s.file sink.files m else sink.files } := by
  obtain ⟨level, handlers, console, files⟩ := sink
  obtain ⟨rfl, rfl⟩ := h
  rw [emit]
  dsimp only
  by_cases hlevel : s.level.rank ≤ m.level.rank
  · rw [if_pos hlevel, LoggingSettings.handlers, List.foldl_cons, handle_console,
      foldl_handle_file]
  · have hconsole : ¬ s.consoleLevel.rank ≤ m.level.rank := fun h =>
      hlevel (Nat.le_trans s.level_le_consoleLevel h)
    rw [if_neg hlevel, if_neg hlevel, if_neg hconsole, String.append_empty]

/-- The messages that are important enough, in the order in which they come up. -/
def atLeast (level : Level) (notes : List Note) : List Message :=
  (notes.map Note.message).filter fun m => level.rank ≤ m.level.rank

theorem SetUp.emitAll_eq (h : SetUp s sink) (notes : List Note) :
    sink.emitAll notes = { sink with
      console :=
        sink.console ++ String.join ((atLeast s.consoleLevel notes).map consoleLine)
      files := (atLeast s.level notes).foldl (writeTo s.file) sink.files } := by
  induction notes generalizing sink with
  | nil =>
      simp [emitAll, atLeast]
  | cons n notes ih =>
      have hnext : SetUp s (sink.emit n.message) := by
        rw [h.emit_eq]
        exact ⟨h.level, h.handlers⟩
      change (sink.emit n.message).emitAll notes = _
      rw [ih hnext, h.emit_eq]
      by_cases hlevel : s.level.rank ≤ n.message.level.rank <;>
        by_cases hconsole : s.consoleLevel.rank ≤ n.message.level.rank <;>
        simp [atLeast, hlevel, hconsole, String.append_assoc]

theorem get?_foldl_writeTo (path : String) {files : Table String String} {text : String}
    (h : Table.get? files (fileName path) = some text) (ms : List Message) :
    Table.get? (ms.foldl (writeTo (some path)) files) (fileName path) =
      some (text ++ String.join (ms.map fileLine)) := by
  induction ms generalizing files text with
  | nil => rw [List.foldl_nil, h, List.map_nil, String.join_nil, String.append_empty]
  | cons m ms ih =>
      have hnext : Table.get? (writeTo (some path) files m) (fileName path) =
          some (text ++ fileLine m) := by
        rw [writeTo, appendTo, Table.get?_set, if_pos rfl, h, Option.getD_some]
      rw [List.foldl_cons, ih hnext, List.map_cons, String.join_cons, String.append_assoc]

end LogSink

end ApiPages
