import ApiPages.Yaml.Reader

namespace ApiPages.Yaml

def isFlowMark (c : Char) : Bool :=
  c == ',' || c == '[' || c == ']' || c == '\x7b' || c == '\x7d'

def stopsPlain (inFlow : Bool) (c : Char) (cs : List Char) : Bool :=
  c == ' ' || c == '\t' || isBreak c ||
    (c == ':' && (Reader.endsWord cs || (inFlow && cs.head?.any isFlowMark))) ||
    (inFlow && (isFlowMark c || c == '?'))

def plainLength (inFlow : Bool) : List Char → Nat
  | [] => 0
  | c :: cs => if stopsPlain inFlow c cs then 0 else plainLength inFlow cs + 1

def startsPlain (inFlow : Bool) : List Char → Bool
  | [] => false
  | c :: cs =>
    if c = '-' ∨ c = '?' ∨ c = ':' then !Reader.endsWord cs && (c == '-' || !inFlow)
    else !isBreak c && !(" \t,[]\x7b\x7d#&*!|>'\"%@\x60".toList.contains c)

/-- A scalar without quotes, as far as it has been read: its text, the place behind it, and
whether that place is on a new line. -/
structure Plain where
  text : List Char
  after : Reader
  onNewLine : Bool

/-- Reads words that stand at `indent` at least. Between two words lie blanks, or line ends, which
are folded; there are at most as many words as `fuel` says. -/
def readPlain (inFlow : Bool) (indent : Int) : Nat → Reader → Plain
  | 0, r => { text := [], after := r, onNewLine := false }
  | fuel + 1, r =>
    let length := plainLength inFlow r.rest
    let word := r.rest.take length
    let (gap, ahead) := (r.drop length).span fun c => c == ' ' || isBreak c
    let onNewLine := gap.any isBreak
    let goesOn := !gap.isEmpty && !(onNewLine && ahead.atMarker) &&
      ahead.rest.head? != some '#' && (inFlow || indent ≤ ahead.column) &&
      plainLength inFlow ahead.rest != 0
    if goesOn then
      let between := if onNewLine then foldBreaks (breaksIn gap) else gap
      let later := readPlain inFlow indent fuel ahead
      { later with text := word ++ between ++ later.text }
    else { text := word, after := ahead, onNewLine }

end ApiPages.Yaml
