import ApiPages.Text.Space
import ApiPages.Text.Word

namespace ApiPages.Markdown

inductive SpanKind where
  | emphasis
  | strong
  | code
  | lineBreak
  deriving DecidableEq, Repr

def escapeChar (c : Char) : List Char :=
  match c with
  | '&' => "&amp;".toList
  | '<' => "&lt;".toList
  | '>' => "&gt;".toList
  | c => [c]

inductive Piece where
  | char (c : Char)
  | plain (c : Char)
  /-- Marks between blanks, which mark nothing. -/
  | lone (marks : List Char)
  | raw (html : List Char)
  /-- A span that has been found. Marks on both sides of it belong together unless it stands
  `apart`. -/
  | span (kind : SpanKind) (apart : Bool) (content : List Piece)
  deriving Repr

namespace Piece

def is (c : Char) : Piece → Bool
  | .char d => d == c
  | _ => false

def isSpace : Piece → Bool
  | .char c => Text.isSpace c
  | _ => false

def isWord : Piece → Bool
  | .char c => Text.isWord c
  | _ => false

def isApart : Piece → Bool
  | .span _ apart _ => apart
  | _ => false

def ofText (cs : List Char) : List Piece :=
  cs.map .char

/-- The text in front of the first span that stands apart, and each such span with the text behind
it. -/
def segments : List Piece → List Piece × List (Piece × List Piece)
  | [] => ([], [])
  | p :: ps =>
    let (lead, spans) := segments ps
    if p.isApart then ([], (p, lead) :: spans) else (p :: lead, spans)

def joinSegments (lead : List Piece) (spans : List (Piece × List Piece)) : List Piece :=
  lead ++ spans.flatMap fun (s, tail) => s :: tail

@[simp]
theorem joinSegments_segments (ps : List Piece) :
    joinSegments (segments ps).1 (segments ps).2 = ps := by
  induction ps with
  | nil => rfl
  | cons p ps ih =>
    simp only [joinSegments] at ih
    unfold segments
    simp only
    split
    · simp [joinSegments, ih]
    · simp [joinSegments, ih]

def mapLead (f : List Piece → List Piece) : Piece → Piece
  | .span kind apart content =>
    .span kind apart (joinSegments (f (segments content).1) (segments content).2)
  | p => p

def mapContent (f : List Piece → List Piece) : Piece → Piece
  | .span kind apart content => .span kind apart (f content)
  | p => p

mutual

def text : Piece → List Char
  | .char c => [c]
  | .plain c => [c]
  | .lone marks => marks
  | .raw html => html
  | .span .code _ content => (textOf content).flatMap escapeChar
  | .span _ _ content => textOf content

def textOf : List Piece → List Char
  | [] => []
  | p :: ps => p.text ++ textOf ps

end

/-- Lets the spans of a text stand apart, and those in the text of a span and of its own spans. The
spans stand in each other at most `depth` deep. -/
def setApart : Nat → List Piece → List Piece
  | 0, ps => ps
  | depth + 1, ps =>
    ps.flatMap fun p =>
      match p with
      | .lone marks => ofText marks
      | .span kind false content =>
        let (lead, spans) := segments content
        [.span kind true (joinSegments (setApart depth lead)
          (spans.map fun (s, tail) => (s.mapLead (setApart depth), setApart depth tail)))]
      | p => [p]

/-- Rewrites the first place where `step` applies; it sees the piece in front. -/
def rewriteFirst (step : Option Piece → List Piece → Option (List Piece)) :
    Option Piece → List Piece → Option (List Piece)
  | _, [] => none
  | before, p :: ps =>
    match step before (p :: ps) with
    | some done => some done
    | none => (rewriteFirst step (some p) ps).map (p :: ·)

/-- Cuts a text at the first place where `stop` holds, which sees the piece in front; `least`
pieces must come before. -/
def cutAt (stop : Option Piece → List Piece → Bool) :
    Nat → Option Piece → List Piece → Option (List Piece × List Piece)
  | _, _, [] => none
  | 0, before, p :: ps =>
    if stop before (p :: ps) then some ([], p :: ps)
    else (cutAt stop 0 (some p) ps).map fun (front, rest) => (p :: front, rest)
  | least + 1, _, p :: ps =>
    (cutAt stop least (some p) ps).map fun (front, rest) => (p :: front, rest)

end Piece

end ApiPages.Markdown
