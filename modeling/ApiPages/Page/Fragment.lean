import ApiPages.Registry

namespace ApiPages.Page

/-- Formats the value of each tag in turn. A fault leaves the values of the later tags alone. -/
def formatTags (f : Formatter) : List Tag → Record → Record × Option Fault
  | [], attributes => (attributes, none)
  | t :: ts, attributes =>
    match t.own attributes with
    | none => formatTags f ts attributes
    | some v =>
      let (v, fault) := t.format f v
      let attributes := Table.set attributes t.key v
      match fault with
      | some fault => (attributes, some fault)
      | none => formatTags f ts attributes

def fragment (kind : Kind) (attributes : Record) (t : Tag) : Except Fault String := do
  let html ← t.html kind ((t.own attributes).getD .null)
  return html.getD ""

def joinFragments (fragments : List String) : String :=
  String.intercalate "\n" (fragments.filter (· ≠ ""))

/-- The HTML of all tags of a class or member, and its attributes after formatting. -/
def render (reg : Registry) (f : Formatter) (kind : Kind) (attributes : Record) :
    Record × Except Fault String :=
  let tags := reg.renderOrder kind
  match formatTags f tags attributes with
  | (attributes, some fault) => (attributes, .error fault)
  | (attributes, none) => (attributes, joinFragments <$> tags.mapM (fragment kind attributes))

end ApiPages.Page
