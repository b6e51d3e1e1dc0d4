import ApiPages.Fault

namespace ApiPages.Yaml

/-- A piece of a document: a mark, a name or a scalar. -/
inductive Token where
  | streamEnd
  /-- A directive that names a version, of which only the first part counts. -/
  | version (major : Nat)
  /-- A directive that lets `handle` stand for `lead` in front of the names of tags. -/
  | handle (handle lead : String)
  | otherDirective
  | documentStart
  | documentEnd
  | blockSequence
  | blockMapping
  | blockEnd
  | openBracket
  | closeBracket
  | openBrace
  | closeBrace
  | entry
  | comma
  | key
  | value
  | reference (name : String)
  | anchor (name : String)
  | tag (handle : Option String) (name : String)
  | scalar (text : List Char) (plain : Bool)
  | broken (fault : Fault)
  deriving DecidableEq, Repr

end ApiPages.Yaml
