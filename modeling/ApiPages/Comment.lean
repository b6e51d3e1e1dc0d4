import ApiPages.Comment.Segment
import ApiPages.Comment.Undecorate
import ApiPages.Registry
import ApiPages.Report

namespace ApiPages.Comment

structure Routed where
  docs : List (List Char) := []
  records : List Record := []
  warnings : List Warning := []

def awaitsText (r : Record) : Bool :=
  (Record.optional r "doc").isText "multiline"

/-- Gives the text to the first record that asks for it, and no text to the others. -/
def attach (text : String) : List Record → List Record
  | [] => []
  | r :: rs =>
    if awaitsText r then Table.set r "doc" (.text text) :: attach "" rs
    else r :: attach text rs

def routeUnknown (position : Option SourceRef) (s : Segment) : Routed :=
  { docs := [s.source]
    warnings := [{
      category := .tag
      message := "Unsupported tag: @" ++ String.ofList s.pattern
      position }] }

/-- Hands a segment to its tag. Text that the tag leaves over goes to the record that asks for
it, or else to the documentation. -/
def routeTo (t : Tag) (position : Option SourceRef) (s : Segment) : Except Fault Routed :=
  let (yield, cursor) := t.parse position (Cursor.start s.body)
  let warnings := cursor.warnings position
  let records := yield.records
  if records.all fun r => Table.contains r "tagname" then
    if records.any awaitsText then
      .ok {
        records := attach (String.ofList (Text.trim cursor.rest)) records
        warnings }
    else .ok { docs := [cursor.rest], records, warnings }
  else .error (.untaggedRecord (String.ofList s.pattern))

def route (reg : Registry) (position : Option SourceRef) (s : Segment) : Except Fault Routed :=
  match reg.findByPattern (String.ofList s.pattern) with
  | none => .ok (routeUnknown position s)
  | some t => routeTo t position s

/-- Joins the pieces that are not blank, each without the line breaks at its ends. -/
def joinDocs (docs : List (List Char)) : List Char :=
  Text.trim (Text.unlines
    ((docs.filter fun doc => !Text.isBlank doc).map (Text.trimWhile (· == '\n'))))

structure Parsed where
  doc : String
  occurrences : Groups

def parse (reg : Registry) (comment : String) (position : Option SourceRef) : Report Parsed := do
  let (head, later) := segments true (strip comment.toList)
  let routed ← .ofExcept (later.mapM (route reg position))
  let records := routed.flatMap Routed.records
  let raw ← .ofExcept (Occurrences.addDocs {} records)
  (routed.flatMap Routed.warnings).forM Report.warn
  Report.progress .debug "doc_parser" s!"Parsed {records.length} tag records"
  return {
    doc := String.ofList (joinDocs (head :: routed.flatMap Routed.docs))
    occurrences := raw.doc }

end ApiPages.Comment

namespace ApiPages

def Member.readComment (reg : Registry) (comment : String) (m : Member) : Report Member := do
  let parsed ← Comment.parse reg comment m.position
  return { m with doc := parsed.doc, raw := { doc := parsed.occurrences } }

def ClassDoc.readComment (reg : Registry) (comment : String) (c : ClassDoc) : Report ClassDoc := do
  let parsed ← Comment.parse reg comment c.position
  return { c with doc := parsed.doc, raw := { doc := parsed.occurrences } }

end ApiPages
