import ApiPages.Proofs.Merge
import ApiPages.Proofs.Report

/-!
# Surplus occurrences

A tag that may stand only once in a comment is given one of its records, to merge as well as to
derive attributes from, and no other tag sees the rest. So the rest can be taken away beforehand:
nothing changes but that nobody is warned of it.
-/

namespace ApiPages

/-! ### Reports without some of their warnings -/

namespace Report

variable {α β : Type} (category : Category)

/-- Whether a note is none of the warnings of a category. -/
def isOther (n : Note) : Bool :=
  n.warning?.all (·.category ≠ category)

/-- The same report without the warnings of a category. -/
def dropping : Report α → Report α
  | .fail fault => .fail fault
  | .ok a notes => .ok a (notes.filter (isOther category))

theorem dropping_bind (r : Report α) (f : α → Report β) :
    (r >>= f).dropping category = r.dropping category >>= fun a => (f a).dropping category := by
  cases r with
  | fail fault => rfl
  | ok a notes =>
      rw [ok_bind, dropping, ok_bind]
      cases f a with
      | fail fault => rfl
      | ok b later => rw [after_ok, dropping, dropping, after_ok, List.filter_append]

theorem dropping_pure (a : α) : (pure a : Report α).dropping category = pure a := rfl

theorem dropping_ofExcept (x : Except Fault α) :
    (ofExcept x).dropping category = ofExcept x := by
  cases x <;> rfl

theorem dropping_forM_warn (ws : List Warning) :
    (ws.forM warn).dropping category = (ws.filter (·.category ≠ category)).forM warn := by
  rw [forM_warn, forM_warn, dropping, List.filter_map]
  rfl

end Report

/-! ### Raw records without surplus -/

namespace Merge

/-- The records of a comment under a name that count on a kind: all of them, or of a tag that may
stand only once the one that it keeps. -/
def kept (reg : Registry) (kind : Kind) (name : Name) (docs : List Record) : List Record :=
  match tagFor reg kind name with
  | none => docs
  | some t =>
    if t.repeatable then docs else (if t.keepsLast then docs.getLast? else docs.head?).toList

variable {reg : Registry} {kind : Kind} {name : Name}

theorem kept_nil : kept reg kind name [] = [] := by
  rw [kept]
  split
  · rfl
  · split
    · rfl
    · split <;> rfl

theorem kept_of_none (h : tagFor reg kind name = none) (docs : List Record) :
    kept reg kind name docs = docs := by
  rw [kept, h]

theorem kept_of_some {t : Tag} (h : tagFor reg kind name = some t) (docs : List Record) :
    kept reg kind name docs = select t docs := by
  rw [kept, h, select]
  dsimp only
  split
  · rfl
  · split <;> rfl

theorem select_select (t : Tag) (docs : List Record) :
    select t (select t docs) = select t docs := by
  simp only [select]
  split
  · rfl
  · split
    · cases docs.getLast? <;> rfl
    · cases docs.head? <;> rfl

theorem length_select_le {t : Tag} (h : t.repeatable = false) (docs : List Record) :
    (select t docs).length ≤ 1 := by
  rw [select, h]
  split
  · contradiction
  · split
    · cases docs.getLast? <;> simp
    · cases docs.head? <;> simp

end Merge

/-- Raw records without those that a tag of the kind would not be given. -/
def Occurrences.thinned (reg : Registry) (kind : Kind) (raw : Occurrences) : Occurrences :=
  { raw with doc := raw.doc.map fun (name, docs) => (name, Merge.kept reg kind name docs) }

def Member.thinned (reg : Registry) (m : Member) : Member :=
  { m with raw := m.raw.thinned reg (.member m.kind) }

/-- The same class with surplus records neither of its own nor of its members. -/
def ClassDoc.thinned (reg : Registry) (c : ClassDoc) : ClassDoc :=
  { c with
    raw := c.raw.thinned reg .cls
    members := c.members.map (Member.thinned reg) }

namespace Occurrences

variable (reg : Registry) (kind : Kind) (raw : Occurrences)

theorem of_doc_thinned (name : Name) :
    (raw.thinned reg kind).doc.of name = Merge.kept reg kind name (raw.doc.of name) := by
  obtain ⟨doc, code⟩ := raw
  induction doc with
  | nil => exact Merge.kept_nil.symm
  | cons group doc ih =>
      obtain ⟨key, docs⟩ := group
      simp only [thinned, Groups.of, List.map_cons, Table.get?] at ih ⊢
      by_cases hkey : key = name
      · subst hkey
        simp
      · simpa [hkey] using ih

/-- Of a tag of which the last one counts the last record stays, and all of a name without a tag. -/
example :
    let owner : Tag := { tagname := some "owner", keepsLast := true, scope := ["all"] }
    let first : Record := [("tagname", .text "owner"), ("name", .text "Ann")]
    let last : Record := [("tagname", .text "owner"), ("name", .text "Bob")]
    (Occurrences.thinned { byTagname := [("owner", owner)] } .cls
        { doc := [(.text "owner", [first, last]), (.text "colour", [first, last])] }).doc =
      [(.text "owner", [last]), (.text "colour", [first, last])] :=
  rfl

theorem tagnames_thinned : (raw.thinned reg kind).tagnames = raw.tagnames := by
  have hkeys : Table.keys (raw.thinned reg kind).doc = Table.keys raw.doc := by
    rw [Table.keys, Table.keys, thinned, List.map_map]
    rfl
  have hcontains : ∀ name, Table.contains (raw.thinned reg kind).doc name =
      Table.contains raw.doc name := by
    intro name
    rw [Bool.eq_iff_iff, Table.contains_iff_mem_keys, Table.contains_iff_mem_keys, hkeys]
  rw [tagnames, tagnames, hkeys]
  simp only [hcontains]
  rfl

end Occurrences

/-! ### Merging without surplus -/

namespace Merge

variable (reg : Registry) (s : Subject) (raw : Occurrences)

/-- There is as much to complain of without surplus, but for the surplus itself. -/
theorem complaint_thinned (name : Name) :
    complaint reg s (raw.thinned reg s.kind) name =
      (complaint reg s raw name).filter (·.category ≠ .tagRepeated) := by
  have hof := raw.of_doc_thinned reg s.kind name
  cases hfind : reg.findByName name with
  | none =>
      have hnone : tagFor reg s.kind name = none := by
        rw [tagFor, hfind]
        rfl
      have hwritten : (raw.thinned reg s.kind).written name = raw.written name := by
        rw [Occurrences.written, Occurrences.written, hof, kept_of_none hnone]
        rfl
      simp only [complaint, hfind, hwritten]
      rfl
  | some t =>
      cases hscope : t.covers s.kind with
      | false =>
          simp only [complaint, hfind, hscope]
          rfl
      | true =>
          have hsome : tagFor reg s.kind name = some t := by
            rw [tagFor, hfind, Option.filter_some, if_pos hscope]
          rw [kept_of_some hsome] at hof
          simp only [complaint, hfind, hscope, hof]
          cases honce : t.repeatable with
          | true => rfl
          | false =>
              have hone := Nat.not_lt.mpr (length_select_le honce (raw.doc.of name))
              simp only [hone]
              by_cases hsurplus : 1 < (raw.doc.of name).length
              · simp [hsurplus, Option.filter_some]
              · simp [hsurplus]

theorem mergeTagname_thinned :
    mergeTagname reg s (raw.thinned reg s.kind) = mergeTagname reg s raw := by
  funext state name
  rw [mergeTagname, mergeTagname]
  cases htag : tagFor reg s.kind name with
  | none => rfl
  | some t =>
      have hselect : select t ((raw.thinned reg s.kind).doc.of name) =
          select t (raw.doc.of name) := by
        rw [raw.of_doc_thinned, kept_of_some htag, select_select]
      dsimp only
      rw [hselect]
      rfl

theorem run_thinned :
    run reg s (raw.thinned reg s.kind) = (run reg s raw).dropping .tagRepeated := by
  have hcomplaints : raw.tagnames.filterMap (complaint reg s (raw.thinned reg s.kind)) =
      (raw.tagnames.filterMap (complaint reg s raw)).filter (·.category ≠ .tagRepeated) := by
    rw [List.filter_filterMap]
    exact congrArg (raw.tagnames.filterMap ·) (funext (complaint_thinned reg s raw))
  rw [run, run, raw.tagnames_thinned, mergeTagname_thinned, hcomplaints, Report.dropping_bind,
    Report.dropping_forM_warn]
  simp only [Report.dropping_bind, Report.dropping_ofExcept]

end Merge

theorem Member.merge_thinned (reg : Registry) (m : Member) :
    (m.thinned reg).merge reg = Member.thinned reg <$> (m.merge reg).dropping .tagRepeated := by
  have hrun : Merge.run reg (m.thinned reg).subject (m.thinned reg).raw =
      (Merge.run reg m.subject m.raw).dropping .tagRepeated := Merge.run_thinned reg m.subject m.raw
  rw [merge, merge, hrun, Report.dropping_bind, map_bind]
  refine bind_congr fun outcome => ?_
  rw [Report.dropping_pure, map_pure]
  rfl

theorem Member.mapM_merge_thinned (reg : Registry) (ms : List Member) :
    (ms.map (Member.thinned reg)).mapM (Member.merge reg) =
      List.map (Member.thinned reg) <$>
        (ms.mapM (Member.merge reg)).dropping .tagRepeated := by
  induction ms with
  | nil => rfl
  | cons m ms ih =>
      rw [List.map_cons, List.mapM_cons, List.mapM_cons, merge_thinned, ih, Report.dropping_bind,
        bind_map_left, map_bind]
      refine bind_congr fun merged => ?_
      rw [Report.dropping_bind, bind_map_left, map_bind]
      rfl

theorem ClassDoc.merge_thinned (reg : Registry) (c : ClassDoc) :
    (c.thinned reg).merge reg =
      ClassDoc.thinned reg <$> (c.merge reg).dropping .tagRepeated := by
  have hrun : Merge.run reg (c.thinned reg).subject (c.thinned reg).raw =
      (Merge.run reg c.subject c.raw).dropping .tagRepeated := Merge.run_thinned reg c.subject c.raw
  have hmembers := Member.mapM_merge_thinned reg c.members
  have habsorb : ∀ outcome members, { (c.thinned reg).absorb outcome with
      members := List.map (Member.thinned reg) members } =
        ClassDoc.thinned reg { c.absorb outcome with members } := by
    intro outcome members
    rw [absorb, absorb]
    cases outcome.target <;> rfl
  rw [merge, merge, hrun, Report.dropping_bind, map_bind]
  refine bind_congr fun outcome => ?_
  rw [thinned, hmembers, Report.dropping_bind, bind_map_left, map_bind]
  refine bind_congr fun members => ?_
  rw [Report.dropping_pure, map_pure, ← habsorb]
  rfl

namespace Merge

/-- **Surplus is only warned of.** For whatever tags and records: without the records that no tag is
given, merging ends as it does with them, well or not. It finds out the same about the class or
member, and notes the same but for the warnings that a tag stands there too often. -/
theorem surplus_only_warned_of (reg : Registry) :
    (∀ (s : Subject) (raw : Occurrences),
        run reg s (raw.thinned reg s.kind) = (run reg s raw).dropping .tagRepeated) ∧
      (∀ m : Member, (m.thinned reg).merge reg =
        Member.thinned reg <$> (m.merge reg).dropping .tagRepeated) ∧
      ∀ c : ClassDoc, (c.thinned reg).merge reg =
        ClassDoc.thinned reg <$> (c.merge reg).dropping .tagRepeated :=
  ⟨run_thinned reg, Member.merge_thinned reg, ClassDoc.merge_thinned reg⟩

end Merge

end ApiPages
