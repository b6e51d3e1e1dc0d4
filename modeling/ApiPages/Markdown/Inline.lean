import ApiPages.Markdown.Emphasis
import ApiPages.Markdown.Mark

namespace ApiPages.Markdown

open Piece

/-- Reads a text once: code comes before escapes, these before tags, and emphasis last. -/
def readText (ps : List Piece) : List Piece :=
  let fuel := ps.length + 1
  let marked := markTags fuel (markBreaks (markEscapes (markCode fuel ps)))
  markUnderscores (markStars (markLone fuel none marked))

def readApart (ps : List Piece) : List Piece :=
  setApart (ps.length + 1) (readText ps)

/-- Reads the texts inside and behind spans that stand apart, which have only been searched for
some of the marks so far. The text in front is left as it is. The spans stand in each other at
most `depth` deep. -/
def readSpans : Nat → List Piece → List Piece
  | 0, ps => ps
  | depth + 1, ps =>
    let (lead, spans) := segments ps
    lead ++ spans.flatMap fun (s, tail) =>
      let read :=
        match s with
        | .span .code apart content => .span .code apart content
        | .span kind apart content =>
          let (lead, inner) := segments content
          let first := readApart lead
          if inner.isEmpty then .span kind apart (first.map (·.mapContent (readSpans depth)))
          else .span kind apart (readSpans depth (joinSegments first inner))
        | p => p
      read :: readSpans depth (readApart tail)

def running (besideBlocks : Bool) (cs : List Char) : List Piece :=
  let ps := readApart (ofText cs)
  let depth := cs.length + 2
  if besideBlocks then readSpans depth ps else ps.map (·.mapContent (readSpans depth))

def startsEntity (cs : List Char) : Bool :=
  let body := cs.takeWhile (· ≠ ';')
  let isHex (c : Char) : Bool := c.isDigit || ('a' ≤ c && c ≤ 'f') || ('A' ≤ c && c ≤ 'F')
  let named :=
    match body with
    | '#' :: 'x' :: digits => !digits.isEmpty && digits.all isHex
    | '#' :: 'X' :: digits => !digits.isEmpty && digits.all isHex
    | '#' :: digits => !digits.isEmpty && digits.all Char.isDigit
    | letters => !letters.isEmpty && letters.all Char.isAlphanum
  named && body.length < cs.length

namespace Piece

def isSpan : Piece → Bool
  | .span .. => true
  | _ => false

def char? : Piece → Option Char
  | .char c => some c
  | .plain c => some c
  | _ => none

def leadingChars (ps : List Piece) : List Char :=
  (ps.takeWhile (·.char?.isSome)).filterMap char?

def leadIsBlank (ps : List Piece) : Bool :=
  (ps.takeWhile (!·.isSpan)).all isSpace

/-- A piece of code as HTML. A character that a backslash has made plain before the code was found
is written as its number between two controls. -/
def codeHtml : Piece → List Char
  | .plain c => '\x02' :: (toString c.toNat).toList ++ ['\x03']
  | .raw taken => taken
  | p => p.text.flatMap escapeChar

mutual

/-- Pieces as HTML. An ampersand in front of the name of a character is kept; blanks are left out
if `skipping`. -/
def html (skipping : Bool) : List Piece → List Char
  | [] => []
  | .span .lineBreak _ _ :: ps => "<br />\n".toList ++ html (leadIsBlank ps) ps
  | .span kind _ content :: ps => spanHtml kind content ++ html false ps
  | .raw taken :: ps => taken ++ html false ps
  | .lone marks :: ps => marks ++ html false ps
  | .char c :: ps =>
    if skipping then html true ps
    else if c = '&' && startsEntity (leadingChars ps) then c :: html false ps
    else escapeChar c ++ html false ps
  | .plain c :: ps => escapeChar c ++ html false ps

def spanHtml (kind : SpanKind) (content : List Piece) : List Char :=
  match kind with
  | .code => "<code>".toList ++ content.flatMap codeHtml ++ "</code>".toList
  | .emphasis => "<em>".toList ++ html false content ++ "</em>".toList
  | .strong => "<strong>".toList ++ html false content ++ "</strong>".toList
  | .lineBreak => []

end

end Piece

end ApiPages.Markdown
