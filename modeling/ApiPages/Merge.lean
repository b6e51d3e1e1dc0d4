import ApiPages.Registry
import ApiPages.Report

namespace ApiPages

/-- How far the merging of a class or member has come: its attributes, and the doc-side records
that each tag was given. -/
structure MergeState where
  attributes : Record
  selected : Groups := []

namespace Merge

def select (t : Tag) (docs : List Record) : List Record :=
  if t.repeatable then docs
  else if t.keepsLast then docs.getLast?.toList
  else docs.head?.toList

def complaint (reg : Registry) (s : Subject) (raw : Occurrences) (tagname : Name) :
    Option Warning :=
  match reg.findByName tagname with
  | none => some {
      category := .tag
      message := s!"No tag handles '{(raw.written tagname).display}' on {s.name}"
      position := s.position }
  | some t =>
    if !t.covers s.kind then some {
      category := .tag
      message := s!"{t.label} is not allowed on a {s.kind.word}"
      position := s.position }
    else if !t.repeatable && 1 < (raw.doc.of tagname).length then some {
      category := .tagRepeated
      message := s!"Only one {t.label} allowed per doc-comment of {s.name}"
      position := s.position }
    else none

def tagFor (reg : Registry) (kind : Kind) (tagname : Name) : Option Tag :=
  (reg.findByName tagname).filter (·.covers kind)

/-- Stores the value of a tag; null changes nothing. -/
def store (attributes : Record) (tagname : String) : Value → Record
  | .null => attributes
  | value => Table.set attributes tagname value

def mergeTagname (reg : Registry) (s : Subject) (raw : Occurrences) (state : MergeState)
    (tagname : Name) : Except Fault MergeState :=
  match tagFor reg s.kind tagname with
  | none => .ok state
  | some t => do
    let docs := select t (raw.doc.of tagname)
    let value ← t.merge { s with attributes := state.attributes } docs (raw.code.of tagname)
    return {
      attributes := store state.attributes t.key value
      selected := state.selected ++ [(tagname, docs)] }

/-- Lets a tag derive attributes. The last class that a tag names as patched counts. -/
def processTag (s : Subject) (selected : Groups) (outcome : Outcome) (t : Tag) :
    Except Fault Outcome := do
  let next ← t.process { s with attributes := outcome.attributes } (selected.of (.text t.key))
  return { next with target := next.target <|> outcome.target }

/-- Merges all records of a subject, and then lets every tag of its kind derive attributes. -/
def run (reg : Registry) (s : Subject) (raw : Occurrences) : Report Outcome := do
  (raw.tagnames.filterMap (complaint reg s raw)).forM Report.warn
  let state ← .ofExcept
    (raw.tagnames.foldlM (mergeTagname reg s raw) { attributes := s.attributes })
  .ofExcept ((reg.pluginsFor s.kind).foldlM (processTag s state.selected)
    { attributes := state.attributes })

end Merge

def Member.subject (m : Member) : Subject :=
  { kind := .member m.kind, name := m.name, position := m.position, attributes := m.attributes }

def ClassDoc.subject (c : ClassDoc) : Subject :=
  { kind := .cls, name := c.name, position := c.position, attributes := c.attributes }

def Member.merge (reg : Registry) (m : Member) : Report Member := do
  let outcome ← Merge.run reg m.subject m.raw
  return { m with attributes := outcome.attributes }

def ClassDoc.absorb (c : ClassDoc) (outcome : Outcome) : ClassDoc :=
  match outcome.target with
  | none => { c with attributes := outcome.attributes }
  | some target =>
    { c with attributes := outcome.attributes, isOverride := true, overrideTarget := target }

def ClassDoc.merge (reg : Registry) (c : ClassDoc) : Report ClassDoc := do
  let outcome ← Merge.run reg c.subject c.raw
  let members ← c.members.mapM (Member.merge reg)
  return { c.absorb outcome with members }

end ApiPages
