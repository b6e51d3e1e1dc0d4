import ApiPages.Name
import ApiPages.Table

namespace ApiPages

def Record.tagname (r : Record) : Except Fault Name :=
  match Table.get? r "tagname" with
  | none => .error (.missingKey "tagname")
  | some v => Name.ofValue v

/-- Records filed by tagname, in the order in which the names and the records came. -/
abbrev Groups := Table Name (List Record)

namespace Groups

def add : Groups → Name → Record → Groups
  | [], name, r => [(name, [r])]
  | (key, rs) :: groups, name, r =>
    if key = name then (key, rs ++ [r]) :: groups else (key, rs) :: add groups name r

def of (groups : Groups) (name : Name) : List Record :=
  (Table.get? groups name).getD []

theorem of_add (groups : Groups) (name other : Name) (r : Record) :
    of (add groups name r) other =
      if name = other then of groups other ++ [r] else of groups other := by
  induction groups with
  | nil => by_cases h : name = other <;> simp [add, of, Table.get?, h]
  | cons group groups ih =>
    obtain ⟨key, rs⟩ := group
    simp only [of] at ih
    by_cases hk : key = name
    · subst hk
      by_cases ho : key = other <;> simp [add, of, Table.get?, ho]
    · by_cases ho : key = other
      · subst ho
        simp [add, of, Table.get?, hk, Ne.symm hk]
      · simp [add, of, Table.get?, hk, ho, ih]

end Groups

/-- The raw records of a class or member: those written in its comment and those inferred from
its declaration. -/
structure Occurrences where
  doc : Groups := []
  code : Groups := []

namespace Occurrences

def addDoc (raw : Occurrences) (r : Record) : Except Fault Occurrences := do
  return { raw with doc := raw.doc.add (← Record.tagname r) r }

def addCode (raw : Occurrences) (r : Record) : Except Fault Occurrences := do
  return { raw with code := raw.code.add (← Record.tagname r) r }

def addDocs (raw : Occurrences) (rs : List Record) : Except Fault Occurrences :=
  rs.foldlM addDoc raw

def addCodes (raw : Occurrences) (rs : List Record) : Except Fault Occurrences :=
  rs.foldlM addCode raw

/-- The names in the comment, then those that only the declaration has. -/
def tagnames (raw : Occurrences) : List Name :=
  Table.keys raw.doc ++ (Table.keys raw.code).filter fun name => !Table.contains raw.doc name

def written (raw : Occurrences) (name : Name) : Value :=
  ((raw.doc.of name ++ raw.code.of name).head?.bind (Table.get? · "tagname")).getD .null

end Occurrences

end ApiPages
