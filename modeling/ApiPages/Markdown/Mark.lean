import ApiPages.Markdown.Piece

namespace ApiPages.Markdown

open Piece

def cutCode (ticks : Nat) (ps : List Piece) : Option (List Piece × List Piece) :=
  let closes (before : Option Piece) (rest : List Piece) : Bool :=
    !before.any (·.is '\x60') && (rest.takeWhile (·.is '\x60')).length == ticks
  (cutAt closes 1 none ps).map fun (content, rest) => (content, rest.drop ticks)

/-- Code at the front of a text. As many of the backquotes open it as can be closed. -/
def codeAt (ps : List Piece) : Option (List Piece × List Piece) :=
  let run := (ps.takeWhile (·.is '\x60')).length
  (List.range run).findSome? fun fewer => cutCode (run - fewer) (ps.drop (run - fewer))

def trimPieces (ps : List Piece) : List Piece :=
  ((ps.dropWhile isSpace).reverse.dropWhile isSpace).reverse

/-- Code at the front of a text, or the backslashes in front of it: an even number of them stands
for half as many. Behind a backslash there is neither. -/
def codeStep (before : Option Piece) (ps : List Piece) : Option (List Piece) :=
  let run := (ps.takeWhile (·.is '\\')).length
  let behind := ps.drop run
  if before.any (·.is '\\') then none
  else if 0 < run then
    if run % 2 = 0 ∧ behind.head?.any (·.is '\x60') then
      some (List.replicate (run / 2) (.plain '\\') ++ behind)
    else none
  else
    (codeAt ps).map fun (content, rest) => .span .code false (trimPieces content) :: rest

def markCode : Nat → List Piece → List Piece
  | 0, ps => ps
  | fuel + 1, ps =>
    match rewriteFirst codeStep none ps with
    | some ps => markCode fuel ps
    | none => ps

def isEscapable (c : Char) : Bool :=
  "\\\x60*_\x7b\x7d[]()>#+-.!".toList.contains c

def markEscapes : List Piece → List Piece
  | .char '\\' :: .char c :: ps =>
    if isEscapable c then .plain c :: markEscapes ps
    else .char '\\' :: .char c :: markEscapes ps
  | p :: ps => p :: markEscapes ps
  | [] => []

def markBreaks : List Piece → List Piece
  | .char ' ' :: .char ' ' :: .char '\n' :: ps => .span .lineBreak false [] :: markBreaks ps
  | p :: ps => p :: markBreaks ps
  | [] => []

def commentAt (ps : List Piece) : Option (List Piece × List Piece) :=
  let starts (word : String) (rest : List Piece) : Bool :=
    word.toList.length ≤ rest.length && (word.toList.zip rest).all fun (c, p) => p.is c
  if starts "<!--" ps then do
    let (body, rest) ← cutAt (fun _ rest => starts "<!--" rest || starts "-->" rest) 0 none
      (ps.drop 4)
    if starts "-->" rest then return (ps.take (body.length + 7), rest.drop 3) else none
  else none

def tagAt (ps : List Piece) : Option (List Piece × List Piece) :=
  let isEdge (p : Piece) : Bool := p.is '<' || p.is '>'
  let body := (ps.drop 1).takeWhile (!isEdge ·)
  let rest := ps.drop (body.length + 1)
  let name := if body.head?.any (·.is '/') then body.drop 1 else body
  let isLetter (p : Piece) : Bool :=
    match p with
    | .char c => c.isAlpha
    | _ => false
  if ps.head?.any (·.is '<') && name.head?.any isLetter && rest.head?.any (·.is '>') &&
      !(body.takeWhile (!·.is ' ')).any (·.is '@') then
    some (ps.take (body.length + 2), rest.drop 1)
  else none

def markTags : Nat → List Piece → List Piece
  | 0, ps => ps
  | fuel + 1, ps =>
    let step (_ : Option Piece) (ps : List Piece) : Option (List Piece) :=
      ((tagAt ps).or (commentAt ps)).map fun (html, rest) => .raw (textOf html) :: rest
    match rewriteFirst step none ps with
    | some ps => markTags fuel ps
    | none => ps

/-- Up to three marks of one kind that have a blank, or nothing, on either side. -/
def loneAt (before : Option Piece) (mark : Char) (ps : List Piece) : Option Nat :=
  let run := (ps.takeWhile (·.is mark)).length
  if before.all isSpace && 1 ≤ run && run ≤ 3 && (ps.drop run).head?.all isSpace then some run
  else none

def markLone (fuel : Nat) (before : Option Piece) (ps : List Piece) : List Piece :=
  match fuel, ps with
  | 0, ps => ps
  | _, [] => []
  | fuel + 1, p :: rest =>
    match (loneAt before '*' ps).or (loneAt before '_' ps) with
    | some run => .lone (textOf (ps.take run)) :: markLone fuel (some p) (ps.drop run)
    | none => p :: markLone fuel (some p) rest

end ApiPages.Markdown
