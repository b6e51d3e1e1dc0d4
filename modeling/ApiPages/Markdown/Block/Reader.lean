import ApiPages.Markdown.Block
import ApiPages.Markdown.Line
import ApiPages.Text.Split

namespace ApiPages.Markdown

inductive Place where
  /-- In no list, or where nothing is known of it. -/
  | anywhere
  /-- In an item whose text is not set off as paragraphs. -/
  | tightItem
  /-- In an item behind an empty line. -/
  | looseItem
  /-- In an item whose indentation has been taken off. -/
  | outdented
  | quotation
  deriving DecidableEq, Repr

def splitBlocks : List Char → List (List Char)
  | [] => [[]]
  | '\n' :: '\n' :: cs => [] :: splitBlocks cs
  | c :: cs =>
    match splitBlocks cs with
    | [] => [[c]]
    | block :: blocks => (c :: block) :: blocks

abbrev PartsReader := Place → Block → List (List Char) → Block

def readEmpty (text : List Char) (b : Block) : Block :=
  b.mapLast fun child =>
    if child.kind = .code then
      { child with text := child.text ++ (if text.isEmpty then ['\n', '\n'] else ['\n']) }
    else child

mutual

/-- The kinds of the last block, of the last block in it, and so on. -/
def Block.spine : Block → List BlockKind
  | ⟨_, _, children, _⟩ => spineOf children

def spineOf : List Block → List BlockKind
  | [] => []
  | [b] => b.kind :: b.spine
  | _ :: b :: bs => spineOf (b :: bs)

end

/-- How many lists an indented text is inside of, and how many blocks lead to the innermost one, or
to an item of it. -/
def levelIn (indents level : Nat) : List BlockKind → Nat × Nat
  | [] => (level, 0)
  | kind :: kinds =>
    if indents ≤ level then (level, 0)
    else if kind = .bullets ∨ kind = .numbers then
      let (level, steps) := levelIn indents (level + 1) kinds
      (level, steps + 1)
    else if kind = .item then
      let (level, steps) := levelIn indents level kinds
      (level, steps + 1)
    else (level, 0)

def outdent (levels : Nat) (text : List Char) : List Char :=
  Text.unlines ((Text.lines text).map fun line =>
    if levels * indentWidth ≤ indentOf line then line.drop (levels * indentWidth) else line)

def readIndented (read : PartsReader) (place : Place) (text : List Char) (b : Block) : Block :=
  let (level, steps) :=
    levelIn (indentOf text / indentWidth) (if place = .tightItem then 1 else 0) b.spine
  let text := outdent level text
  if b.isItem then
    if b.last?.any Block.isList then b.mapLast (read .outdented · [text])
    else read .outdented b [text]
  else
    b.mapDeep (fun b =>
      if b.isItem then read .outdented b [text]
      else if b.last?.any Block.isItem then
        b.mapLast fun item => read .outdented item.loosen (splitBlocks text)
      else b.add (read .outdented { kind := .item } [text])) steps

/-- Reads the indented lines at the start of a text as code; the answer has the other lines too. -/
def readCode (text : List Char) (b : Block) : Block × List Char :=
  let lines := Text.lines text
  let isCode (line : List Char) : Bool := isIndented line || Text.isBlank line
  let code := (lines.takeWhile isCode).map fun line =>
    if isIndented line then line.drop indentWidth else []
  let written := Text.dropTrailing Text.isSpace (Text.unlines code) ++ ['\n']
  let rest := Text.unlines (lines.dropWhile isCode)
  match b.last? with
  | some child =>
    if child.kind = .code then
      (b.setLast { child with text := child.text ++ '\n' :: written }, rest)
    else (b.add { kind := .code, text := written }, rest)
  | none => (b.add { kind := .code, text := written }, rest)

def splitLines {α : Type} (recognize : List Char → Option α) :
    List (List Char) → Option (List (List Char) × α × List (List Char))
  | [] => none
  | line :: lines =>
    match recognize line with
    | some a => some ([], a, lines)
    | none => (splitLines recognize lines).map fun (front, a, rest) => (line :: front, a, rest)

/-- The text of a list item by item. A line that is none goes on with the item above it, and so
does an item inside an item behind another one. -/
def itemsOf (text : List Char) : List (List Char) :=
  let add (items : List (List Char)) (line : List Char) : List (List Char) :=
    match item? line, items.getLast? with
    | some (_, item), _ => items ++ [item]
    | none, none => items ++ [line]
    | none, some last =>
      if isInnerItem line && !isIndented last then items ++ [line]
      else items.dropLast ++ [last ++ '\n' :: line]
  (Text.lines text).foldl add []

def addItems (read : PartsReader) (list : Block) (items : List (List Char)) : Block :=
  items.foldl
    (fun list item =>
      if isIndented item then list.mapLast (read .tightItem · [item])
      else list.add (read .tightItem { kind := .item } [item]))
    list

/-- Reads a text that starts with an item. Behind an empty line a list goes on, whatever its
kind. -/
def readList (read : PartsReader) (kind : BlockKind) (text : List Char) (b : Block) : Block :=
  let items := itemsOf text
  match b.last?.filter Block.isList with
  | some list =>
    let first := read .looseItem { kind := .item } (items.take 1)
    let list := (list.mapLast fun item => item.loosen.loosenTail).add first
    b.setLast (addItems read list (items.drop 1))
  | none =>
    if b.isList then addItems read b items else b.add (addItems read { kind } items)

def readQuotation (read : PartsReader) (lines : List (List Char)) (b : Block) : Block :=
  let parts := splitBlocks (Text.unlines (lines.map unquoted))
  match b.last?.filter (·.kind == .quote) with
  | some quote => b.setLast (read .quotation quote parts)
  | none => b.add (read .quotation { kind := .quote } parts)

def readParagraph (place : Place) (text : List Char) (b : Block) : Block :=
  let started := text.dropWhile Text.isSpace
  if Text.isBlank text then b
  else if place = .tightItem then
    match b.last? with
    | some child => b.setLast { child with tail := child.tail ++ '\n' :: text }
    | none => { b with text := if b.text.isEmpty then started else b.text ++ '\n' :: started }
  else b.add { kind := .paragraph, text := started }

def readPart (read : PartsReader) (place : Place) (text : List Char) (b : Block) :
    Block × List Char :=
  let lines := Text.lines text
  let first := lines.headD []
  if first.isEmpty then (readEmpty text b, text.drop 1)
  else if isIndented text && place ≠ .outdented && (b.isItem || b.last?.any Block.isList) then
    (readIndented read place text b, [])
  else if isIndented text then readCode text b
  else
    match splitLines heading? lines with
    | some (front, (level, title), rest) =>
      let b := if front.isEmpty then b else read place b [Text.unlines front]
      let rest := Text.unlines rest
      (b.add { kind := .heading level, text := title },
        if place = .looseItem then outdent 1 rest else rest)
    | none =>
      match (lines[1]?).bind underline? with
      | some level =>
        (b.add { kind := .heading level, text := Text.trim first }, Text.unlines (lines.drop 2))
      | none =>
        match splitLines (fun line => if isRule line then some () else none) lines with
        | some (front, _, rest) =>
          let front := Text.dropTrailing (· == '\n') (Text.unlines front)
          let b := if front.isEmpty then b else read place b [front]
          (b.add { kind := .rule }, (Text.unlines rest).dropWhile (· == '\n'))
        | none =>
          match item? first with
          | some (mark, _) =>
            let kind := if mark = .number then BlockKind.numbers else .bullets
            (readList read kind text b, [])
          | none =>
            match splitLines (fun line => (quoted? line).map fun _ => line) lines with
            | some (front, line, rest) =>
              let b := read place b [Text.unlines front]
              let quotation := line :: rest
              (readQuotation read (if front.isEmpty then quotation else [] :: quotation) b, [])
            | none => (readParagraph place text b, [])

/-- Reads the parts of a text into a block. Each step takes off a character, a part, or the
indentation of a part, so there are at most twice as many as parts and characters. -/
def readParts : Nat → PartsReader
  | 0, _, b, _ => b
  | _, _, b, [] => b
  | fuel + 1, place, b, text :: parts =>
    let (b, rest) := readPart (readParts fuel) place text b
    readParts fuel place b (if rest.isEmpty then parts else rest :: parts)

def Block.ofText (text : List Char) : Block :=
  readParts (2 * text.length + 4) .anywhere { kind := .document } (splitBlocks text)

end ApiPages.Markdown
