import ApiPages.Text.Space

namespace ApiPages.Markdown

inductive BlockKind where
  | document
  | paragraph
  | heading (level : Nat)
  | rule
  | code
  | quote
  | bullets
  | numbers
  | item
  deriving DecidableEq, Repr

/-- A block of a text: its own text, the blocks in it, and the text behind it, which only the
blocks of an item have. -/
structure Block where
  kind : BlockKind
  text : List Char := []
  children : List Block := []
  tail : List Char := []

namespace Block

def isList (b : Block) : Bool :=
  b.kind == .bullets || b.kind == .numbers

def isItem (b : Block) : Bool :=
  b.kind == .item

def last? (b : Block) : Option Block :=
  b.children.getLast?

def add (b child : Block) : Block :=
  { b with children := b.children ++ [child] }

def setLast (b child : Block) : Block :=
  { b with children := b.children.dropLast ++ [child] }

def mapLast (f : Block → Block) (b : Block) : Block :=
  match b.last? with
  | some child => b.setLast (f child)
  | none => b

def mapDeep (f : Block → Block) : Nat → Block → Block
  | 0, b => f b
  | steps + 1, b => b.mapLast (mapDeep f steps)

def loosen (b : Block) : Block :=
  if b.text.isEmpty then b
  else { b with text := [], children := { kind := .paragraph, text := b.text } :: b.children }

def loosenTail (b : Block) : Block :=
  match b.last? with
  | some child =>
    if child.tail.isEmpty then b
    else
      (b.setLast { child with tail := [] }).add
        { kind := .paragraph, text := child.tail.dropWhile Text.isSpace }
  | none => b

end Block

end ApiPages.Markdown
