import ApiPages.Text.Digit
import ApiPages.Text.Split

namespace ApiPages.Text

/-- The form of a time: `d` stands for a digit, anything else for itself. -/
def stampForm : List Char :=
  "dddd-dd-dd dd:dd:dd,ddd ".toList

def afterForm : List Char → List Char → Option (List Char)
  | [], cs => some cs
  | _ :: _, [] => none
  | f :: form, c :: cs =>
    if (if f = 'd' then isDigit c else c == f) then afterForm form cs else none

/-- Removes the time in front of each line that has one. -/
def withoutStamps (cs : List Char) : List Char :=
  unlines ((lines cs).map fun line => (afterForm stampForm line).getD line)

end ApiPages.Text
