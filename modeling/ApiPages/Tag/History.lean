import ApiPages.Tag

namespace ApiPages.Tag

def since : Tag where
  patterns := ["since"]
  tagname := some "since"
  scope := ["all"]
  position := some (.int 6)
  parse := fun _ => do
    Scan.blanks
    let version ← Scan.restOfLine
    return .one [("tagname", .text "since"), ("version", .text version)]
  merge := fun _ docs _ =>
    match docs with
    | [] => .ok .null
    | r :: _ => do
      let version ← Record.required r "version"
      return version.or .null
  html := fun _ v =>
    .ok (if v.truthy then some s!"<p>Available since: <b>{v.escaped}</b></p>" else none)

def deprecatedFormat (f : Formatter) (v : Value) : Value × Option Fault :=
  if v.truthy then
    match v.required "text" with
    | .error fault => (v, some fault)
    | .ok text => if text.truthy then f.formatField "text" v else (v, none)
  else (v, none)

def deprecatedHtml (kind : Kind) (v : Value) : Except Fault (Option String) :=
  if v.truthy then do
    let version ← v.optional "version"
    let html ← v.htmlOf
    let what := if kind = .cls then "class" else "member"
    let since := if version.truthy then s!" since {version.escaped}" else ""
    return some ("<div class=\"signature-box deprecated\">" ++
      s!"<p>This {what} has been <strong>deprecated</strong>{since}</p>" ++
      s!"{html}</div>")
  else .ok none

/-- A notice with a text, after the version from which on it holds if a digit comes first. -/
def deprecated : Tag where
  patterns := ["deprecated"]
  tagname := some "deprecated"
  scope := ["all"]
  position := some (.int 7)
  parse := fun _ => do
    Scan.blanks
    let version ← if ← Scan.look .digit then Scan.version else pure none
    return .one [("tagname", .text "deprecated"), ("version", .ofText? version),
      ("doc", multiline)]
  merge := fun _ docs _ =>
    match docs with
    | [] => .ok .null
    | r :: _ =>
      .ok (.record [("version", Record.optional r "version"),
        ("text", (Record.optional r "doc").or (.text ""))])
  format := deprecatedFormat
  html := deprecatedHtml

end ApiPages.Tag
