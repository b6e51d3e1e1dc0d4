import ApiPages.Text.Digit
import ApiPages.Text.Space

namespace ApiPages.Markdown

/-- How far a block is indented that belongs to the item above it. -/
def indentWidth : Nat := 4

def indentOf (line : List Char) : Nat :=
  (line.takeWhile (· == ' ')).length

def isIndented (line : List Char) : Bool :=
  indentWidth ≤ indentOf line

inductive ItemMark where
  | bullet
  | number
  deriving DecidableEq, Repr

/-- The mark of an item and the blanks behind it, of which there is at least one; what remains is
the text of the item. -/
def splitMark (line : List Char) : Option (ItemMark × List Char) :=
  let digits := (line.takeWhile Text.isDigit).length
  let marked :=
    match line.drop digits with
    | '.' :: rest => if digits = 0 then none else some (ItemMark.number, rest)
    | c :: rest =>
      if digits = 0 ∧ (c = '*' ∨ c = '+' ∨ c = '-') then some (ItemMark.bullet, rest) else none
    | [] => none
  match marked with
  | some (mark, ' ' :: rest) => some (mark, rest.dropWhile (· == ' '))
  | _ => none

def item? (line : List Char) : Option (ItemMark × List Char) :=
  if isIndented line then none else splitMark (line.drop (indentOf line))

def isInnerItem (line : List Char) : Bool :=
  isIndented line && indentOf line < 2 * indentWidth &&
    (splitMark (line.drop (indentOf line))).isSome

/-- The title of a heading up to the number signs that may end the line. A backslash belongs to
the character behind it, so it cannot be the last one. -/
def titleOf : List Char → Option (List Char)
  | [] => some []
  | '\\' :: c :: cs => (titleOf cs).map fun title => '\\' :: c :: title
  | c :: cs =>
    if c = '\\' then none
    else if (c :: cs).all (· == '#') then some []
    else (titleOf cs).map (c :: ·)

def heading? (line : List Char) : Option (Nat × List Char) :=
  let level := min 6 (line.takeWhile (· == '#')).length
  if level = 0 then none
  else (titleOf (line.drop level)).map fun title => (level, Text.trim title)

def underline? (line : List Char) : Option Nat :=
  let marks := Text.dropTrailing (· == ' ') line
  if marks.isEmpty || !(marks.all fun c => c == '=' || c == '-') then none
  else if marks.head? = some '=' then some 1
  else some 2

/-- Whether a text has marks of one kind only, at least `count`, with up to two blanks behind each;
`gap` counts those in front. -/
def isMarkRow (mark : Char) : Nat → Nat → List Char → Bool
  | count, _, [] => count == 0
  | count, gap, c :: cs =>
    if c = mark then isMarkRow mark (count - 1) 0 cs
    else c == ' ' && gap < 2 && isMarkRow mark count (gap + 1) cs

def isRule (line : List Char) : Bool :=
  !isIndented line &&
    let row := Text.trimWhile (· == ' ') line
    match row.head? with
    | some c => (c == '-' || c == '_' || c == '*') && isMarkRow c 3 0 row
    | none => false

def quoted? (line : List Char) : Option (List Char) :=
  if isIndented line then none
  else
    match line.drop (indentOf line) with
    | '>' :: ' ' :: rest => some rest
    | '>' :: rest => some rest
    | _ => none

def unquoted (line : List Char) : List Char :=
  if Text.trim line = ['>'] then [] else (quoted? line).getD line

end ApiPages.Markdown
