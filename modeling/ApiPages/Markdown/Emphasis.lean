import ApiPages.Markdown.Piece

namespace ApiPages.Markdown

open Piece

/-- How emphasis may be put together, the first one that fits being taken. -/
inductive Shape where
  /-- Three marks, one, two: emphasis at the start of a strong span. -/
  | emphasisFirst
  /-- Three marks, two, one: a strong span at the start of emphasis. -/
  | strongFirst
  /-- Two marks, one, three: emphasis at the end of a strong span. -/
  | emphasisLast
  | strong
  | emphasis
  deriving DecidableEq, Repr

structure Found where
  first : List Piece
  second : List Piece
  rest : List Piece

def startsWith (mark : Char) (count : Nat) (ps : List Piece) : Bool :=
  count ≤ ps.length && (ps.take count).all (·.is mark)

def endsWord (ps : List Piece) : Bool :=
  !ps.head?.any isWord

def cutAtMarks (mark : Char) (count least : Nat) (ps : List Piece) :
    Option (List Piece × List Piece) :=
  (cutAt (fun _ rest => startsWith mark count rest) least none ps).map fun (front, rest) =>
    (front, rest.drop count)

def tripleAt (mark : Char) (inner outer : Nat) (ps : List Piece) : Option Found := do
  if startsWith mark 3 ps then
    let (first, rest) ← cutAtMarks mark inner 1 (ps.drop 3)
    let (second, rest) ← cutAtMarks mark outer 0 rest
    return { first, second, rest }
  else none

/-- A shape of stars at the front of a text. What is only emphasized, and the first part of a
strong span, hold no star. -/
def starsAt (shape : Shape) (ps : List Piece) : Option Found :=
  let unmarked (ps : List Piece) : List Piece := ps.takeWhile (!·.is '*')
  match shape with
  | .emphasisFirst => tripleAt '*' 1 2 ps
  | .strongFirst => tripleAt '*' 2 1 ps
  | .emphasisLast => do
    let first := unmarked (ps.drop 2)
    let rest := ps.drop (first.length + 2)
    if startsWith '*' 2 ps && !first.isEmpty && startsWith '*' 1 rest && !startsWith '*' 2 rest then
      let (second, rest) ← cutAtMarks '*' 3 1 (rest.drop 1)
      return { first, second, rest }
    else none
  | .strong => do
    if startsWith '*' 2 ps then
      let (first, rest) ← cutAtMarks '*' 2 1 (ps.drop 2)
      return { first, second := [], rest }
    else none
  | .emphasis => do
    let first := unmarked (ps.drop 1)
    let rest := ps.drop (first.length + 1)
    if startsWith '*' 1 ps && !first.isEmpty && startsWith '*' 1 rest then
      return { first, second := [], rest := rest.drop 1 }
    else none

def opens (before : Option Piece) (count : Nat) (ps : List Piece) : Bool :=
  !before.any isWord && startsWith '_' count ps && !startsWith '_' (count + 1) ps

def closes (count : Nat) (before : Option Piece) (ps : List Piece) : Bool :=
  !before.any (·.is '_') && startsWith '_' count ps && endsWord (ps.drop count)

def underscoresAt (shape : Shape) (before : Option Piece) (ps : List Piece) : Option Found :=
  match shape with
  | .emphasisFirst => tripleAt '_' 1 2 ps
  | .strongFirst => tripleAt '_' 2 1 ps
  | .emphasisLast => do
    if opens before 2 ps then
      let (first, rest) ← cutAt (opens · 1 ·) 1 none (ps.drop 2)
      let (second, rest) ← cutAt (fun _ rest => startsWith '_' 3 rest && endsWord (rest.drop 3)) 1
        none (rest.drop 1)
      return { first, second, rest := rest.drop 3 }
    else none
  | .strong => do
    if opens before 2 ps then
      let (first, rest) ← cutAt (closes 2) 1 none (ps.drop 2)
      return { first, second := [], rest := rest.drop 2 }
    else none
  | .emphasis => do
    if opens before 1 ps then
      let (first, rest) ← cutAt (closes 1) 1 none (ps.drop 1)
      return { first, second := [], rest := rest.drop 1 }
    else none

def shapeAt (mark : Char) (shape : Shape) (before : Option Piece) (ps : List Piece) :
    Option Found :=
  if mark = '*' then starsAt shape ps else underscoresAt shape before ps

namespace Shape

def all : List Shape :=
  [.emphasisFirst, .strongFirst, .emphasisLast, .strong, .emphasis]

def inner (shape : Shape) : List Shape :=
  (all.dropWhile (· ≠ shape)).drop 1

def toSpan (shape : Shape) (apart : Bool) (first second : List Piece) : Piece :=
  match shape with
  | .emphasisFirst => .span .strong apart (.span .emphasis true first :: second)
  | .strongFirst => .span .emphasis apart (.span .strong true first :: second)
  | .emphasisLast => .span .strong apart (first ++ [.span .emphasis true second])
  | .strong => .span .strong apart first
  | .emphasis => .span .emphasis apart first

end Shape

/-- The text inside a shape, with the spans that its own marks make, each of which stands apart.
Only the later shapes are tried, one behind the other from where the one before has ended. -/
def inside (mark : Char) : Nat → List Shape → Option Piece → List Piece → List Piece
  | 0, _, _, ps => ps
  | _, _, _, [] => []
  | fuel + 1, shapes, before, p :: ps =>
    if p.is mark then
      let (spans, rest) := shapes.foldl
        (fun (spans, rest) shape =>
          let before := if spans.isEmpty then before else some (.char mark)
          match shapeAt mark shape before rest with
          | none => (spans, rest)
          | some found =>
            let read (part : List Piece) := inside mark fuel shape.inner none part
            (spans ++ [shape.toSpan true (read found.first) (read found.second)], found.rest))
        ([], p :: ps)
      if spans.isEmpty then p :: inside mark fuel shapes (some p) ps
      else spans ++ inside mark fuel shapes (some (.char mark)) rest
    else p :: inside mark fuel shapes (some p) ps

def spanAt (mark : Char) (before : Option Piece) (ps : List Piece) : Option (Piece × List Piece) :=
  if ps.head?.any (·.is mark) then
    Shape.all.findSome? fun shape =>
      (shapeAt mark shape before ps).map fun found =>
        let read (part : List Piece) := inside mark (part.length + 1) shape.inner none part
        (shape.toSpan false (read found.first) (read found.second), found.rest)
  else none

/-- Finds the spans of a mark, one after the other from the start of the text. Inside the span, the
text and the text of its own spans are only searched for later marks; what follows one of these
spans is searched again. -/
def markSpans (mark : Char) (later : List Piece → List Piece) : Nat → List Piece → List Piece
  | 0, ps => ps
  | fuel + 1, ps =>
    let search (content : List Piece) : List Piece :=
      let (lead, spans) := segments content
      joinSegments (later lead) (spans.map fun (s, tail) =>
        (s.mapLead later, later (markSpans mark later fuel tail)))
    let step (before : Option Piece) (ps : List Piece) : Option (List Piece) :=
      (spanAt mark before ps).map fun (s, rest) => s.mapContent search :: rest
    match rewriteFirst step none ps with
    | some ps => markSpans mark later fuel ps
    | none => ps

def markUnderscores (ps : List Piece) : List Piece :=
  markSpans '_' (fun ps => ps) (ps.length + 1) ps

def markStars (ps : List Piece) : List Piece :=
  markSpans '*' markUnderscores (ps.length + 1) ps

end ApiPages.Markdown
