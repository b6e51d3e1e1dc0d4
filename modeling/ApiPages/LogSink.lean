import ApiPages.Log
import ApiPages.PathName
import ApiPages.Settings
import ApiPages.Text.Stamp

namespace ApiPages

namespace Level

def rank : Level → Nat
  | .debug => 10
  | .info => 20
  | .warning => 30
  | .error => 40
  | .critical => 50

def word : Level → String
  | .debug => "DEBUG"
  | .info => "INFO"
  | .warning => "WARNING"
  | .error => "ERROR"
  | .critical => "CRITICAL"

end Level

/-- Where files are: why a path cannot be opened while some files have been written, if so. -/
abbrev Disk := Table String String → String → Option Fault

structure Message where
  level : Level
  logger : String
  text : String

def loggerName (part : String) : String :=
  if part = "" then "tagdoc" else "tagdoc." ++ part

def Note.message : Note → Message
  | .warning w => { level := .warning, logger := loggerName "warnings", text := w.text }
  | .progress level stage text => { level, logger := loggerName stage, text }

/-- Where messages of at least some level are shown: in a file, or on the console. -/
structure Handler where
  file : Option String := none
  level : Level

def Handler.takes (h : Handler) (m : Message) : Bool :=
  h.level.rank ≤ m.level.rank

/-- The state of logging, and all that was written so far. Before it is configured there is no
level, and nothing is shown. -/
structure LogSink where
  level : Option Level := none
  handlers : List Handler := []
  console : String := ""
  files : Table String String := []

namespace LogSink

def consoleLine (m : Message) : String :=
  m.text ++ "\n"

/-- A message as a line of a file. The time in front of it is left out. -/
def fileLine (m : Message) : String :=
  s!"{m.level.word} {m.logger}: {m.text}\n"

def appendTo (files : Table String String) (name text : String) : Table String String :=
  Table.set files name ((Table.get? files name).getD "" ++ text)

/-- The name under which a file is kept: the way to it, without detours. -/
def fileName (path : String) : String :=
  if PathName.isAbsolute path then path else (PathName.route path).text

def openFile (disk : Disk) (files : Table String String) (path : String) :
    Except Fault (Table String String) :=
  match disk files path with
  | some fault => .error fault
  | none => .ok (appendTo files (fileName path) "")

/-- Starts logging afresh; what was written before stays. Where the file cannot be opened the
console is set up all the same. -/
def configure (sink : LogSink) (disk : Disk) (s : LoggingSettings) : LogSink × Option Fault :=
  let level := if s.verbose then .debug else .info
  let consoleHandler : Handler := { level := if s.quiet then .warning else level }
  let fresh := { sink with level := some level, handlers := [consoleHandler] }
  match s.file with
  | none => (fresh, none)
  | some name =>
    match openFile disk sink.files name with
    | .error fault => (fresh, some fault)
    | .ok files =>
      let fileHandler : Handler := { file := some (fileName name), level }
      ({ fresh with handlers := [consoleHandler, fileHandler], files }, none)

def start (disk : Disk) : Option LoggingSettings → Except Fault LogSink
  | none => .ok {}
  | some s =>
    match configure {} disk s with
    | (sink, none) => .ok sink
    | (_, some fault) => .error fault

def handle (m : Message) (sink : LogSink) (h : Handler) : LogSink :=
  if h.takes m then
    match h.file with
    | none => { sink with console := sink.console ++ consoleLine m }
    | some name => { sink with files := appendTo sink.files name (fileLine m) }
  else sink

def emit (sink : LogSink) (m : Message) : LogSink :=
  match sink.level with
  | none => sink
  | some level =>
    if level.rank ≤ m.level.rank then sink.handlers.foldl (handle m) sink else sink

def emitAll (sink : LogSink) (notes : List Note) : LogSink :=
  (notes.map Note.message).foldl emit sink

/-- The text of a file as it reads: every line end is a line feed, and no line starts with a
time. -/
def read (sink : LogSink) (name : String) : Option String :=
  (Table.get? sink.files name).map fun written =>
    String.ofList (Text.withoutStamps (Text.unifyBreaks written.toList))

def localFiles (sink : LogSink) : List String :=
  (Table.keys sink.files).filter fun name => !name.contains '/'

end LogSink

end ApiPages
