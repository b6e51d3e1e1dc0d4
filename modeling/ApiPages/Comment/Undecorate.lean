import ApiPages.Text.Space
import ApiPages.Text.Split

namespace ApiPages.Comment

def dropOpening : List Char → List Char
  | '/' :: '*' :: '*' :: cs => cs
  | '/' :: '*' :: cs => cs
  | cs => cs

def dropClosing (cs : List Char) : List Char :=
  if ['*', '/'].isSuffixOf cs then cs.take (cs.length - 2) else cs

/-- What follows the star of a decorated line, if nothing speaks against it being decoration. -/
def afterStar : List Char → Option (List Char)
  | '*' :: cs => unlessDelimiter cs
  | _ => none
where
  unlessDelimiter : List Char → Option (List Char)
    | '*' :: _ => none
    | '/' :: _ => none
    | ' ' :: cs => some cs
    | cs => some cs

def undecorate (line : List Char) : List Char :=
  (afterStar (line.dropWhile fun c => c == ' ' || c == '\t')).getD line

/-- The text of a comment without its delimiters and the decoration of its lines. -/
def strip (comment : List Char) : List Char :=
  let inner := dropClosing (dropOpening (Text.trim comment))
  Text.trim (Text.unlines ((Text.lines inner).map undecorate))

end ApiPages.Comment
