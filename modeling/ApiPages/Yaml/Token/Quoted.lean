import ApiPages.Fault
import ApiPages.Text.Coded
import ApiPages.Yaml.Reader

namespace ApiPages.Yaml

def isFoldable (c : Char) : Bool :=
  c == ' ' || c == '\t' || isBreak c

def gapAt (r : Reader) : List Char :=
  r.rest.takeWhile isFoldable

/-- The place behind a gap; a line with three dashes or dots must not follow. -/
def skipGap (r : Reader) : Except Fault Reader :=
  let after := r.drop (gapAt r).length
  if (gapAt r).any isBreak && after.atMarker then .error notYaml else .ok after

def gapText (gap : List Char) : List Char :=
  if gap.any isBreak then foldBreaks (breaksIn gap) else gap

theorem rest_length_skipGap {r after : Reader} (h : skipGap r = .ok after) :
    after.rest.length ≤ r.rest.length := by
  unfold skipGap at h
  simp only at h
  split at h
  · cases h
  · cases h
    simp

theorem rest_length_skipGap_of_cons {r after : Reader} {c : Char} {cs : List Char}
    (hrest : r.rest = c :: cs) (hc : isFoldable c = true) (h : skipGap r = .ok after) :
    after.rest.length < r.rest.length := by
  unfold skipGap at h
  simp only at h
  split at h
  · cases h
  · cases h
    simp only [gapAt, Reader.rest_drop, hrest, List.takeWhile_cons_of_pos hc, List.length_cons,
      List.drop_succ_cons, List.length_drop]
    omega

def codedChar (width : Nat) (cs : List Char) : Except Fault Char :=
  match (cs.take width).mapM Text.hexDigit? with
  | none => .error notYaml
  | some digits =>
    let code := digits.foldl (· * 16 + ·) 0
    if digits.length < width then .error notYaml
    else if Nat.pow 2 31 ≤ code then .error .codeTooLarge
    else if 0x110000 ≤ code then .error .noSuchCharacter
    else .ok (Char.ofNat code)

def shortEscapes : List (Char × Char) :=
  [('0', '\x00'), ('a', '\x07'), ('b', '\x08'), ('t', '\t'), ('\t', '\t'), ('n', '\n'),
    ('v', '\x0b'), ('f', '\x0c'), ('r', '\r'), ('e', '\x1b'), (' ', ' '), ('"', '"'),
    ('\\', '\\'), ('/', '/'), ('N', '\x85'), ('_', '\xa0'), ('L', '\u2028'), ('P', '\u2029')]

/-- What a backslash and the characters behind it stand for, and how many these are. -/
def escapeAt : List Char → Except Fault (Char × Nat)
  | 'x' :: cs => (codedChar 2 cs).map (·, 3)
  | 'u' :: cs =>
    match Text.codedChar cs with
    | some (c, length) => .ok (c, length + 1)
    | none => .error notYaml
  | 'U' :: cs => (codedChar 8 cs).map (·, 9)
  | c :: _ =>
    match shortEscapes.find? (·.1 == c) with
    | some (_, meant) => .ok (meant, 1)
    | none => .error notYaml
  | [] => .error notYaml

def readQuoted (mark : Char) (r : Reader) : Except Fault (List Char × Reader) :=
  match hrest : r.rest with
  | [] => .error notYaml
  | c :: cs =>
    if c = mark then
      if mark = '\'' ∧ cs.head? = some '\'' then
        (readQuoted mark (r.drop 2)).map fun (text, r) => ('\'' :: text, r)
      else .ok ([], r.next)
    else if hc : isFoldable c then
      match hgap : skipGap r with
      | .error fault => .error fault
      | .ok after =>
        have := rest_length_skipGap_of_cons hrest hc hgap
        (readQuoted mark after).map fun (text, last) => (gapText (gapAt r) ++ text, last)
    else if c = '\\' ∧ mark = '"' then
      if cs.head?.any isBreak ∧ (r.drop 2).atMarker then .error notYaml
      else if cs.head?.any isBreak then
        match hgap : skipGap (r.drop 2) with
        | .error fault => .error fault
        | .ok after =>
          have := rest_length_skipGap hgap
          (readQuoted mark after).map fun (text, last) =>
            (breaksIn (gapAt (r.drop 2)) ++ text, last)
      else do
        let (d, count) ← escapeAt cs
        let (text, after) ← readQuoted mark (r.drop (count + 1))
        return (d :: text, after)
    else (readQuoted mark r.next).map fun (text, r) => (c :: text, r)
termination_by r.rest.length
decreasing_by
  all_goals simp_all
  all_goals omega

end ApiPages.Yaml
