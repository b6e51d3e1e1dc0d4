namespace ApiPages.Text

def entity (c : Char) : List Char :=
  match c with
  | '&' => ['&', 'a', 'm', 'p', ';']
  | '<' => ['&', 'l', 't', ';']
  | '>' => ['&', 'g', 't', ';']
  | '"' => ['&', '#', '3', '4', ';']
  | '\'' => ['&', '#', '3', '9', ';']
  | c => [c]

/-- Text as it stands in HTML content and in quoted attribute values. -/
def escape (s : String) : String :=
  String.ofList (s.toList.flatMap entity)

theorem escape_toList (s : String) : (escape s).toList = s.toList.flatMap entity := by
  simp [escape]

end ApiPages.Text
