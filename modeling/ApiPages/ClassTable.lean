import ApiPages.Override
import ApiPages.Report

namespace ApiPages

abbrev ClassTable := Table String ClassDoc

namespace ClassTable

def freshSerial (table : ClassTable) : Nat :=
  ((Table.values table).flatMap ClassDoc.members).foldl (fun n m => max n (m.serial + 1)) 1

def numberFrom (n : Nat) : List Member → List Member
  | [] => []
  | m :: ms => { m with serial := n } :: numberFrom (n + 1) ms

def insert (table : ClassTable) (key : String) (c : ClassDoc) : ClassTable :=
  Table.set table key { c with members := numberFrom (freshSerial table) c.members }

def targetOf (table : ClassTable) (o : ClassDoc) : Except Fault (Option ClassDoc) :=
  match o.overrideTarget with
  | .text key => .ok (Table.get? table key)
  | v => if v.canName then .ok none else .error .wrongShape

/-- Puts a patched class into the table, and its members wherever they are shared. -/
def replace (table : ClassTable) (key : String) (c : ClassDoc) : ClassTable :=
  table.map fun (k, other) => if k = key then (k, c) else (k, other.refresh c.members)

def obstacle (o : ClassDoc) (target : Option ClassDoc) : Option Warning :=
  let position := o.position
  if !o.overrideTarget.truthy then some {
    category := .override
    message := s!"Override {o.name} names no target class"
    position }
  else
    match target with
    | none => some {
        category := .extend
        message := s!"Class {o.overrideTarget.display} not found"
        position }
    | some c =>
      if c.isOverride then some {
        category := .override
        message := s!"Override {o.name} targets override class {c.name}; " ++
          "overrides cannot be chained"
        position }
      else none

/-- Applies one override to its target, and says whether it could be applied. -/
def process (table : ClassTable) (o : ClassDoc) : Report (ClassTable × Bool) := do
  let target ← if o.overrideTarget.truthy then .ofExcept (targetOf table o) else pure none
  match obstacle o target with
  | some w =>
    Report.warn w
    return (table, false)
  | none =>
    match target with
    | some c => do
      let name ← .ofExcept o.displayName
      return (replace table o.overrideTarget.display (o.patch name c), true)
    | none => return (table, false)

def processKey (table : ClassTable) (key : String) : Report (ClassTable × Bool) :=
  match Table.get? table key with
  | some o => process table o
  | none => .fail (.missingKey key)

def overrideKeys (table : ClassTable) : List String :=
  Table.keys (table.filter fun entry => entry.2.isOverride)

/-- How far overrides have been applied: the table as it now is, and what stopped the next one. -/
structure Progress where
  table : ClassTable
  notes : List Note := []
  fault : Option Fault := none

def applyKeys (table : ClassTable) : List String → Progress
  | [] => { table }
  | key :: keys =>
    match processKey table key with
    | .fail fault => { table, fault := some fault }
    | .ok (patched, _) notes =>
      let later := applyKeys patched keys
      { later with notes := notes ++ later.notes }

def applyAll (table : ClassTable) : Progress :=
  applyKeys table (overrideKeys table)

def Progress.report (p : Progress) : Report ClassTable :=
  match p.fault with
  | none => .ok p.table p.notes
  | some fault => .fail fault

/-- Applying classes in turn is one report that goes on as long as nothing fails. -/
theorem report_applyKeys (table : ClassTable) (keys : List String) :
    (applyKeys table keys).report =
      keys.foldlM (fun t key => Prod.fst <$> processKey t key) table := by
  induction keys generalizing table with
  | nil => rfl
  | cons key keys ih =>
    rw [List.foldlM_cons, applyKeys]
    cases processKey table key with
    | fail fault => rfl
    | ok result notes =>
      have h := ih result.1
      simp only [map_eq_pure_bind, Report.ok_bind, Report.after_ok, Report.pure_eq,
        List.append_nil] at h ⊢
      rw [← h]
      unfold Progress.report
      cases (applyKeys result.1 keys).fault <;> rfl

def recordKeys (external keys : List String) : List String :=
  keys.foldl (fun known key => if known.contains key then known else known ++ [key]) external

/-- Applies every override in the order of the table, removes them all and records their keys as
classes known from outside. -/
def processAll (table : ClassTable) (external : List String) :
    Report (ClassTable × List String) := do
  let keys := overrideKeys table
  let patched ← table.applyAll.report
  Report.progress .debug "overrides" s!"Applied {keys.length} override classes"
  return (patched.filter fun entry => !keys.contains entry.1, recordKeys external keys)

end ClassTable

end ApiPages
