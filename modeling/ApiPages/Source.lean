namespace ApiPages

structure SourceRef where
  file : String
  line : Int := 0
  deriving DecidableEq, Repr, Inhabited

def SourceRef.text (ref : SourceRef) : String :=
  s!"{ref.file}:{ref.line}"

def SourceRef.listed (place : Option SourceRef) : String :=
  (place.map SourceRef.text).getD "None"

end ApiPages
