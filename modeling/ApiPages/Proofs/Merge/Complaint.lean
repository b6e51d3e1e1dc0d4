import ApiPages.Proofs.Registry
import ApiPages.Proofs.Report
import ApiPages.Run

/-!
# What merging complains of

Merging asks of each tagname, class by class, whether some tag has it, whether that tag belongs
there and whether it stands there too often. The answer depends on the tags in use and on the
records as they were read, and on nothing that merging has found out before.
-/

namespace ApiPages

/-- A tagname among the records of a class or member. -/
structure Filing where
  subject : Subject
  raw : Occurrences
  tagname : Name

/-- The tagnames of one class or member. -/
def Occurrences.filings (raw : Occurrences) (s : Subject) : List Filing :=
  raw.tagnames.map fun tagname => { subject := s, raw, tagname }

/-- The tagnames of a class, and then those of its members. -/
def ClassDoc.filings (c : ClassDoc) : List Filing :=
  c.raw.filings c.subject ++ c.members.flatMap fun m => m.raw.filings m.subject

/-- The tagnames of all classes, in the order of the table. -/
def ClassTable.filings (table : ClassTable) : List Filing :=
  (Table.values table).flatMap ClassDoc.filings

/-- Whether records under a name are the tag's own. -/
def Tag.Owns (t : Tag) (name : Name) : Prop :=
  t.key ≠ "" ∧ name = .text t.key

namespace Merge

/-- What there is to complain of about a tagname where `tags` are in use: no tag has it, its tag
does not belong there, or a tag that may stand only once stands in the comment more than once. -/
inductive Complains (tags : List Tag) (f : Filing) : Option Warning → Prop
  | unknown (hunknown : ∀ t ∈ tags, ¬ t.Owns f.tagname) : Complains tags f (some {
      category := .tag
      message :=
        s!"No tag handles '{(f.raw.written f.tagname).display}' on {f.subject.name}"
      position := f.subject.position })
  | misplaced {t : Tag} (ht : t ∈ tags) (howns : t.Owns f.tagname)
      (hscope : t.covers f.subject.kind = false) : Complains tags f (some {
        category := .tag
        message := s!"{t.label} is not allowed on a {f.subject.kind.word}"
        position := f.subject.position })
  | repeated {t : Tag} (ht : t ∈ tags) (howns : t.Owns f.tagname)
      (hscope : t.covers f.subject.kind = true) (honce : t.repeatable = false)
      (hdocs : 2 ≤ (f.raw.doc.of f.tagname).length) : Complains tags f (some {
        category := .tagRepeated
        message := s!"Only one {t.label} allowed per doc-comment of {f.subject.name}"
        position := f.subject.position })
  | welcome {t : Tag} (ht : t ∈ tags) (howns : t.Owns f.tagname)
      (hscope : t.covers f.subject.kind = true)
      (hdocs : t.repeatable = true ∨ (f.raw.doc.of f.tagname).length < 2) : Complains tags f none

section Complaints

variable {tags : List Tag} {reg : Registry} (hreg : Registry.ofTags tags = .ok reg)
include hreg

theorem findByName_eq_some_iff {name : Name} {t : Tag} :
    reg.findByName name = some t ↔ t ∈ tags ∧ t.Owns name := by
  rw [Registry.findByName, Option.bind_eq_some_iff, Tag.Owns]
  simp only [Name.text?_eq_some_iff, Registry.findByTagname_eq_some_iff hreg]
  constructor
  · rintro ⟨_, hname, ht, hne, rfl⟩
    exact ⟨ht, hne, hname⟩
  · rintro ⟨ht, hne, hname⟩
    exact ⟨t.key, hname, ht, hne, rfl⟩

theorem complains_iff {f : Filing} {w : Option Warning} :
    Complains tags f w ↔ w = complaint reg f.subject f.raw f.tagname := by
  constructor
  · rintro (hunknown | ⟨ht, howns, hscope⟩ | ⟨ht, howns, hscope, honce, hdocs⟩ |
      ⟨ht, howns, hscope, hdocs⟩)
    · have hfind : reg.findByName f.tagname = none := by
        rw [Option.eq_none_iff_forall_ne_some]
        intro t hfind
        obtain ⟨ht, howns⟩ := (findByName_eq_some_iff hreg).mp hfind
        exact hunknown t ht howns
      rw [complaint, hfind]
    · rw [complaint, (findByName_eq_some_iff hreg).mpr ⟨ht, howns⟩]
      simp [hscope]
    · rw [complaint, (findByName_eq_some_iff hreg).mpr ⟨ht, howns⟩]
      simp [hscope, honce, Nat.lt_of_succ_le hdocs]
    · rw [complaint, (findByName_eq_some_iff hreg).mpr ⟨ht, howns⟩]
      rcases hdocs with hdocs | hdocs
      · simp [hscope, hdocs]
      · simp [hscope, Nat.not_lt.mpr (Nat.le_of_lt_succ hdocs)]
  · rintro rfl
    rw [complaint]
    split
    · rename_i hfind
      refine .unknown fun t ht howns => ?_
      rw [(findByName_eq_some_iff hreg).mpr ⟨ht, howns⟩] at hfind
      cases hfind
    · rename_i t hfind
      obtain ⟨ht, howns⟩ := (findByName_eq_some_iff hreg).mp hfind
      split
      · rename_i hscope
        exact .misplaced ht howns (by simpa using hscope)
      · rename_i hscope
        have hcovers : t.covers f.subject.kind = true := by simpa using hscope
        split
        · rename_i hrepeated
          rw [Bool.and_eq_true, Bool.not_eq_true', decide_eq_true_eq] at hrepeated
          exact .repeated ht howns hcovers hrepeated.1 hrepeated.2
        · rename_i hrepeated
          refine .welcome ht howns hcovers ?_
          rw [Bool.and_eq_true, Bool.not_eq_true', decide_eq_true_eq, not_and_or,
            Bool.not_eq_false, Nat.not_lt] at hrepeated
          exact hrepeated.imp_right Nat.lt_succ_of_le

theorem Complains.unique {f : Filing} {w w' : Option Warning} (h : Complains tags f w)
    (h' : Complains tags f w') : w = w' :=
  ((complains_iff hreg).mp h).trans ((complains_iff hreg).mp h').symm

end Complaints

/-! ### The notes of merging -/

section Notes

variable {reg : Registry} {notes : List Note}

/-- The notes about some tagnames. -/
def notesOn (reg : Registry) (fs : List Filing) : List Note :=
  (fs.filterMap fun f => complaint reg f.subject f.raw f.tagname).map Note.warning

theorem notes_run {s : Subject} {raw : Occurrences} {outcome : Outcome}
    (h : run reg s raw = .ok outcome notes) : notes = notesOn reg (raw.filings s) := by
  rw [run, Report.forM_warn] at h
  obtain ⟨_, first, _, hwarned, hbehind, rfl⟩ := Report.exists_notes_of_bind h
  obtain ⟨state, tagnames, _, htagnames, hprocess, rfl⟩ := Report.exists_notes_of_bind hbehind
  cases hwarned
  rw [Report.notes_of_ofExcept htagnames, Report.notes_of_ofExcept hprocess, List.append_nil,
    List.append_nil, notesOn, Occurrences.filings, List.filterMap_map]
  rfl

theorem notes_member {m m' : Member} (h : m.merge reg = .ok m' notes) :
    notes = notesOn reg (m.raw.filings m.subject) := by
  obtain ⟨outcome, first, _, hrun, hend, rfl⟩ := Report.exists_notes_of_bind h
  cases hend
  rw [List.append_nil]
  exact notes_run hrun

theorem notesOn_append (fs gs : List Filing) :
    notesOn reg (fs ++ gs) = notesOn reg fs ++ notesOn reg gs := by
  rw [notesOn, List.filterMap_append, List.map_append]
  rfl

theorem notesOn_flatMap {α : Type} (f : α → List Filing) (xs : List α) :
    notesOn reg (xs.flatMap f) = xs.flatMap fun x => notesOn reg (f x) := by
  induction xs with
  | nil => rfl
  | cons x xs ih => rw [List.flatMap_cons, List.flatMap_cons, notesOn_append, ih]

theorem notes_class {c c' : ClassDoc} (h : c.merge reg = .ok c' notes) :
    notes = notesOn reg c.filings := by
  obtain ⟨outcome, first, _, hrun, hbehind, rfl⟩ := Report.exists_notes_of_bind h
  obtain ⟨members, later, _, hmembers, hend, rfl⟩ := Report.exists_notes_of_bind hbehind
  cases hend
  rw [notes_run hrun, Report.notes_of_mapM (fun _ _ _ => notes_member) hmembers, List.append_nil,
    ClassDoc.filings, notesOn_append, notesOn_flatMap]

theorem notes_table {table merged : ClassTable} (h : Run.mergeTable reg table = .ok merged notes) :
    notes = notesOn reg table.filings := by
  have hentry : ∀ (entry now : String × ClassDoc) (notes : List Note),
      Run.mergeEntry reg entry = .ok now notes → notes = notesOn reg entry.2.filings := by
    intro entry now notes hentry
    obtain ⟨c, first, _, hmerge, hend, rfl⟩ := Report.exists_notes_of_bind hentry
    cases hend
    rw [List.append_nil]
    exact notes_class hmerge
  rw [Report.notes_of_mapM hentry h, ClassTable.filings, Table.values, List.flatMap_map,
    notesOn_flatMap]

end Notes

end Merge

end ApiPages
