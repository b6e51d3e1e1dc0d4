import ApiPages.Tag

namespace ApiPages.Tag

/-- A tag that keeps the rest of its line, and notes how often and where it occurs. -/
def valued (t : Tag) : Tag :=
  { t with
    parse := fun _ => do
      Scan.blanks
      let value ← Scan.restOfLine
      return .one [("tagname", t.tagnameValue), ("value", .text value)]
    merge := fun _ docs code => do
      return .list (← (docs ++ code).mapM fun r => Record.required r "value")
    process := fun s docs =>
      match t.tagname with
      | none => .error .wrongShape
      | some name =>
        let seen := Table.set s.attributes (name ++ "_seen") (.int docs.length)
        let place := Value.ofText? (s.position.map SourceRef.text)
        .ok { attributes := Table.set seen (name ++ "_at") place }
    declare := fun v =>
      match v with
      | .null => .nothing
      | .list items =>
        .many (items.map fun item => [("tagname", t.tagnameValue), ("value", item)])
      | v => .one [("tagname", t.tagnameValue), ("value", v)]
    html := fun _ v =>
      let shown (n : Nat) : Option String := some s!"[{t.key}:{n}]"
      match v with
      | .null => .ok none
      | .text s => .ok (shown s.length)
      | .list items => .ok (shown items.length)
      | .record r => .ok (shown r.length)
      | _ => .error .wrongShape }

/-- A tag that yields numbered records, all of them asking for the text behind the tag. -/
def counted (t : Tag) (count : Nat) : Tag :=
  { t with
    parse := fun _ =>
      pure (.many ((List.range count).map fun (n : Nat) =>
        [("tagname", t.tagnameValue), ("n", .int (n : Nat)), ("doc", multiline)]))
    merge := fun _ docs _ => do
      return .list (← docs.mapM fun r => Record.required r "doc") }

def constant (t : Tag) (r : Record) : Tag :=
  { t with parse := fun _ => pure (.one r) }

end ApiPages.Tag
