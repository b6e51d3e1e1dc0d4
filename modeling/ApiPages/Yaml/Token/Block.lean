import ApiPages.Fault
import ApiPages.Yaml.Reader

namespace ApiPages.Yaml

inductive Chomping where
  | clip
  | strip
  | keep
  deriving DecidableEq

/-- How a block of text is set: how its end is treated, and by how much it is indented, if the
text itself does not show it. -/
structure BlockHeader where
  chomping : Chomping := .clip
  increment : Option Nat := none

def chomping? (c : Char) : Option Chomping :=
  if c = '+' then some .keep else if c = '-' then some .strip else none

def headerMarks (cs : List Char) : BlockHeader × Nat :=
  let digit? (cs : List Char) : Option Nat :=
    (cs.head?.filter Char.isDigit).map fun c => c.toNat - '0'.toNat
  match cs.head?.bind chomping? with
  | some chomping =>
    let increment := digit? (cs.drop 1)
    ({ chomping, increment }, if increment.isSome then 2 else 1)
  | none =>
    match digit? cs with
    | none => ({}, 0)
    | some n =>
      match (cs.drop 1).head?.bind chomping? with
      | some chomping => ({ chomping, increment := some n }, 2)
      | none => ({ increment := some n }, 1)

def readHeader (r : Reader) : Except Fault (BlockHeader × Reader) :=
  let (header, count) := headerMarks r.rest
  let r := r.drop count
  let after := r.skipComment
  if header.increment = some 0 then .error notYaml
  else if !(r.atLineEnd || r.rest.head? == some ' ') then .error notYaml
  else if !after.atLineEnd then .error notYaml
  else .ok (header, after.next)

/-- Empty lines, the place behind them, and the furthest column that their blanks reach. -/
def leadingLines : Nat → Reader → Nat → List Char × Reader × Nat
  | 0, r, furthest => ([], r, furthest)
  | fuel + 1, r, furthest =>
    match r.rest with
    | [] => ([], r, furthest)
    | c :: _ =>
      if c = ' ' then leadingLines fuel r.next (max furthest r.next.column)
      else if isBreak c then
        let (breaks, last) := leadingLines fuel r.next furthest
        (breakAs c :: breaks, last)
      else ([], r, furthest)

def indentTo (indent : Nat) (r : Reader) : Reader :=
  r.drop ((r.rest.takeWhile (· == ' ')).length.min (indent - r.column))

def emptyLines (indent : Nat) : Nat → Reader → List Char × Reader
  | 0, r => ([], r)
  | fuel + 1, r =>
    let r := indentTo indent r
    match r.rest with
    | [] => ([], r)
    | c :: _ =>
      if isBreak c then
        let (breaks, last) := emptyLines indent fuel r.next
        (breakAs c :: breaks, last)
      else ([], r)

def startsBlank (r : Reader) : Bool :=
  r.rest.head?.any fun c => c == ' ' || c == '\t'

/-- The lines of a block of text from column `indent` on, behind some empty lines. Folding makes
one blank of a line end between two lines that do not start with one. -/
def blockLines (folded : Bool) (indent : Nat) (chomping : Chomping) :
    Nat → List Char → Reader → List Char × Reader
  | 0, _, r => ([], r)
  | fuel + 1, breaks, r =>
    if r.column ≠ indent ∨ r.rest.isEmpty then
      (if chomping = .keep then breaks else [], r)
    else
      let (line, lineEnd) := r.span (!isBreak ·)
      let ending := (lineEnd.rest.take 1).map breakAs
      let (later, ahead) := emptyLines indent lineEnd.rest.length lineEnd.next
      let (rest, last) := blockLines folded indent chomping fuel later ahead
      if ahead.column = indent ∧ !ahead.rest.isEmpty then
        let between :=
          if folded && ending == ['\n'] && !startsBlank r && !startsBlank ahead then
            if later.isEmpty then [' '] else []
          else ending
        (breaks ++ line ++ between ++ rest, last)
      else (breaks ++ line ++ (if chomping = .strip then [] else ending) ++ rest, last)

def readBlockText (folded : Bool) (indent : Int) (r : Reader) :
    Except Fault (List Char × Reader) := do
  let (header, r) ← readHeader r
  let least := (max 1 (indent + 1)).toNat
  match header.increment with
  | none =>
    let (breaks, ahead, furthest) := leadingLines r.rest.length r 0
    return blockLines folded (max least furthest) header.chomping (r.rest.length + 1) breaks ahead
  | some n =>
    let column := least + n - 1
    let (breaks, ahead) := emptyLines column (r.rest.length + 1) r
    return blockLines folded column header.chomping (r.rest.length + 1) breaks ahead

end ApiPages.Yaml
