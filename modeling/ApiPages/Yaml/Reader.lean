import ApiPages.Fault

namespace ApiPages.Yaml

def notYaml : Fault :=
  .malformedYaml "the text is not YAML"

/-- A line ends with a line feed, or with one of the less common line ends. -/
def isBreak (c : Char) : Bool :=
  c == '\n' || c == '\x85' || c == '\u2028' || c == '\u2029'

/-- A line end as it counts in a text: only the separators of lines and paragraphs are kept. -/
def breakAs (c : Char) : Char :=
  if c = '\u2028' ∨ c = '\u2029' then c else '\n'

def breaksIn (cs : List Char) : List Char :=
  (cs.filter isBreak).map breakAs

/-- Line ends inside a text that goes on: a single one becomes a blank, of more the first is
dropped. -/
def foldBreaks : List Char → List Char
  | ['\n'] => [' ']
  | '\n' :: breaks => breaks
  | breaks => breaks

structure Reader where
  rest : List Char
  index : Nat := 0
  line : Nat := 0
  column : Nat := 0

namespace Reader

def byteOrderMark : Char := '\uFEFF'

/-- The place behind the next character. A byte order mark takes no room. -/
def next (r : Reader) : Reader :=
  match r.rest with
  | [] => r
  | c :: cs =>
    if isBreak c then { rest := cs, index := r.index + 1, line := r.line + 1, column := 0 }
    else
      { r with
        rest := cs
        index := r.index + 1
        column := if c = byteOrderMark then r.column else r.column + 1 }

def drop (r : Reader) : Nat → Reader
  | 0 => r
  | n + 1 => drop r.next n

@[simp]
theorem rest_next (r : Reader) : r.next.rest = r.rest.tail := by
  unfold next
  split
  · simp [*]
  · split <;> simp [*]

@[simp]
theorem rest_drop (r : Reader) (n : Nat) : (r.drop n).rest = r.rest.drop n := by
  induction n generalizing r with
  | zero => rfl
  | succ n ih => rw [drop, ih, rest_next, List.drop_tail]

def span (p : Char → Bool) (r : Reader) : List Char × Reader :=
  let taken := r.rest.takeWhile p
  (taken, r.drop taken.length)

def skipSpaces (r : Reader) : Reader :=
  (r.span (· == ' ')).2

def skipComment (r : Reader) : Reader :=
  let r := r.skipSpaces
  if r.rest.head? == some '#' then (r.span (!isBreak ·)).2 else r

def atLineEnd (r : Reader) : Bool :=
  r.rest.head?.all isBreak

def endsWord : List Char → Bool
  | [] => true
  | c :: _ => c == ' ' || c == '\t' || isBreak c

def atMark (c : Char) (r : Reader) : Bool :=
  r.column == 0 && [c, c, c].isPrefixOf r.rest && endsWord (r.rest.drop 3)

def atMarker (r : Reader) : Bool :=
  r.atMark '-' || r.atMark '.'

def skipBlanks (r : Reader) : Reader × Bool :=
  go r.rest.length r false
where
  go : Nat → Reader → Bool → Reader × Bool
  | 0, r, broken => (r, broken)
  | lines + 1, r, broken =>
    let r := r.skipComment
    if r.rest.head?.any isBreak then go lines r.next true else (r, broken)

end Reader

end ApiPages.Yaml
