import ApiPages.Registry
import ApiPages.Tag.Standard
import ApiPages.Text.Lower

namespace ApiPages

/-- A tag on offer from outside, or what came in its place. -/
inductive EntryPoint where
  | tag (t : Tag)
  /-- What cannot be loaded, and why. -/
  | broken (name text : String)
  /-- What can be loaded, but then fails to make its tag. -/
  | failing (fault : Fault)
  | junk

def EntryPoint.load : EntryPoint → Except Fault Tag
  | .tag t => .ok t
  | .broken name text => .error (.brokenEntryPoint name text)
  | .failing fault => .error fault
  | .junk => .error .notATag

/-- The tags chosen so far, their small-letter names, and the names still wanted; with no list
of wanted names every tag is. -/
structure Selection where
  wanted : Option (List String)
  chosen : List Tag := []
  seen : List String := []

namespace Selection

def wants (s : Selection) (key : String) : Bool :=
  match s.wanted with
  | none => true
  | some names => names.contains key

def offer (s : Selection) (t : Tag) : Except Fault Selection := do
  let key := Text.lower (← t.name)
  return if s.wants key && !s.seen.contains key then
    { wanted := s.wanted.map fun names => names.filter (· ≠ key)
      chosen := s.chosen ++ [t]
      seen := s.seen ++ [key] }
  else s

def offerEntry (s : Selection) (entry : EntryPoint) : Except Fault Selection := do
  s.offer (← entry.load)

def missing (s : Selection) : List String :=
  ((s.wanted.getD []).eraseDups).mergeSort fun a b => a ≤ b

end Selection

/-- The standard tags and then those on offer; where names are given, those tags alone, and all
of them. -/
def Tag.discover (enabled : Option (List String)) (entries : List EntryPoint) :
    Except Fault (List Tag) := do
  let start : Selection := { wanted := enabled.map fun names => names.map Text.lower }
  let s ← Tag.standard.foldlM Selection.offer start
  let s ← entries.foldlM Selection.offerEntry s
  if s.missing.isEmpty then return s.chosen
  else throw (.unknownTags s.missing)

def Registry.discover (enabled : Option (List String)) (entries : List EntryPoint) :
    Except Fault Registry := do
  Registry.ofTags (← Tag.discover enabled entries)

end ApiPages
