import ApiPages.Registry
import ApiPages.Report

namespace ApiPages.Declaration

def recordsOf (t : Tag) (declaration : Record) : List Record :=
  match Table.get? declaration t.declarationKey with
  | some value => (t.declare value).records
  | none => t.declarationDefault.toList

/-- Adds what the tags infer from a declaration to the raw records of a class. -/
def apply (reg : Registry) (c : ClassDoc) (declaration : Record) : Report ClassDoc := do
  let records := reg.declarationTags.flatMap fun t => recordsOf t declaration
  let raw ← .ofExcept (c.raw.addCodes records)
  Report.progress .debug "declaration" s!"Parsed declaration of {c.name}"
  return { c with raw }

end ApiPages.Declaration
