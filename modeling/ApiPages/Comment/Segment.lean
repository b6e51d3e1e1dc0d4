import ApiPages.Text.Space
import ApiPages.Text.Word

namespace ApiPages.Comment

structure Segment where
  pattern : List Char
  body : List Char
  deriving DecidableEq

def Segment.source (s : Segment) : List Char :=
  '@' :: (s.pattern ++ s.body)

def startsName : List Char → Bool
  | c :: _ => c.isAlpha
  | [] => false

/-- Cuts a text at its tags: the head in front of the first one, and a segment for each. A tag
starts the text or follows a blank, so addresses with an `@` inside are left alone. -/
def segments (atBoundary : Bool) (cs : List Char) : List Char × List Segment :=
  match cs with
  | [] => ([], [])
  | c :: cs =>
    if atBoundary && c == '@' && startsName cs then
      let (body, later) := segments false (cs.dropWhile Text.isTagName)
      ([], { pattern := cs.takeWhile Text.isTagName, body } :: later)
    else
      let (head, later) := segments (Text.isSpace c) cs
      (c :: head, later)
termination_by cs.length
decreasing_by
  · have := (List.dropWhile_sublist (l := cs) Text.isTagName).length_le
    simp only [List.length_cons]
    omega
  · simp

end ApiPages.Comment
