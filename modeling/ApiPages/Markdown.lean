import ApiPages.Formatter
import ApiPages.Markdown.Block.Reader
import ApiPages.Markdown.Inline

namespace ApiPages.Markdown

/-- Fills tabs up to the next of the columns that stand four apart. -/
def expandTabs : Nat → List Char → List Char
  | _, [] => []
  | _, '\n' :: cs => '\n' :: expandTabs 0 cs
  | column, '\t' :: cs =>
    let width := indentWidth - column % indentWidth
    List.replicate width ' ' ++ expandTabs (column + width) cs
  | column, c :: cs => c :: expandTabs (column + 1) cs

def emptyBlankLines (text : List Char) : List Char :=
  match Text.lines text with
  | [] => []
  | first :: lines =>
    Text.unlines (first :: lines.map fun line => if line.all (· == ' ') then [] else line)

def isControl (c : Char) : Bool :=
  c == '\x02' || c == '\x03'

def normalize (text : List Char) : List Char :=
  let kept := Text.unifyBreaks (text.filter (!isControl ·))
  emptyBlankLines (expandTabs 0 (kept ++ ['\n', '\n']))

def BlockKind.name : BlockKind → String
  | .document => "div"
  | .paragraph => "p"
  | .heading level => "h" ++ toString level
  | .rule => "hr"
  | .code => "pre"
  | .quote => "blockquote"
  | .bullets => "ul"
  | .numbers => "ol"
  | .item => "li"

def enclose (name : String) (html : List Char) : List Char :=
  '<' :: name.toList ++ '>' :: html ++ '<' :: '/' :: name.toList ++ ['>']

def ownHtml (b : Block) : List Char :=
  let ps := running (!b.children.isEmpty) b.text
  if !b.children.isEmpty && ps.all Piece.isSpace then ['\n'] else Piece.html false ps

def tailHtml (b : Block) : List Char :=
  let ps := readSpans (b.tail.length + 2) (readApart (Piece.ofText b.tail))
  let (lead, _) := Piece.segments ps
  if lead.all Piece.isSpace then '\n' :: Piece.html false (ps.drop lead.length)
  else Piece.html false ps

mutual

def Block.html : Block → List Char
  | ⟨kind, text, children, tail⟩ =>
    let b : Block := ⟨kind, text, children, tail⟩
    match kind with
    | .document => ownHtml b ++ blocksHtml children
    | .rule => "<hr />".toList
    | .code =>
      let code := Text.dropTrailing Text.isSpace text ++ ['\n']
      enclose kind.name (enclose "code" (code.flatMap escapeChar))
    | kind => enclose kind.name (ownHtml b ++ blocksHtml children)

def blocksHtml : List Block → List Char
  | [] => []
  | b :: bs => b.html ++ tailHtml b ++ blocksHtml bs

end

def convert (text : String) : String :=
  if Text.isBlank text.toList then ""
  else String.ofList (Text.trim (Block.ofText (normalize text.toList)).html)

def formatter : Formatter :=
  { convert }

/-- The extensions that there are. One whose constructs do not occur in a text does not change how
it reads. -/
def extensions : List String :=
  ["abbr", "admonition", "attr_list", "codehilite", "def_list", "extra", "fenced_code",
    "footnotes", "legacy_attrs", "legacy_em", "md_in_html", "meta", "nl2br", "sane_lists",
    "smarty", "tables", "toc", "wikilinks"]

def checkExtension (name : String) : Except Fault Unit :=
  if extensions.any fun known => name = known ∨ name = "markdown.extensions." ++ known then .ok ()
  else if name = "" then .error .namelessExtension
  else .error (.unknownExtension name)

def formatterWith (names : List String) : Except Fault Formatter := do
  names.forM checkExtension
  return formatter

end ApiPages.Markdown
