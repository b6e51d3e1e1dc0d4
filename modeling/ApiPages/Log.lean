import ApiPages.Report

namespace ApiPages

/-- The notes of a run; warnings of a disabled category are not kept. -/
structure Log where
  disabled : List Category := []
  notes : List Note := []

namespace Log

def enabled (log : Log) (category : Category) : Bool :=
  !log.disabled.contains category

def disable (log : Log) (category : Category) : Log :=
  if log.enabled category then { log with disabled := log.disabled ++ [category] } else log

def enable (log : Log) (category : Category) : Log :=
  { log with disabled := log.disabled.filter (· ≠ category) }

def without (categories : List Category) : Log :=
  categories.foldl disable {}

def withDisabled (words : List String) : Except Fault Log := do
  return without (← words.mapM Category.ofWord)

def keeps (log : Log) : Note → Bool
  | .warning w => log.enabled w.category
  | .progress .. => true

def add (log : Log) (notes : List Note) : Log :=
  { log with notes := log.notes ++ notes.filter log.keeps }

def warnings (log : Log) : List Warning :=
  log.notes.filterMap Note.warning?

def byCategory (log : Log) (category : Category) : List Warning :=
  log.warnings.filter (·.category = category)

theorem add_append (log : Log) (first second : List Note) :
    log.add (first ++ second) = (log.add first).add second := by
  simp only [add, List.filter_append, List.append_assoc]
  rfl

def record {α : Type} (log : Log) (r : Report α) : Except Fault (α × Log) :=
  match r with
  | .fail fault => .error fault
  | .ok a notes => .ok (a, log.add notes)

end Log

end ApiPages
