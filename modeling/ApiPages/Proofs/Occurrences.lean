import ApiPages.Proofs.Comment.Filed
import ApiPages.Proofs.Table

/-!
# Raw records as they are added

Records are added on two sides in any order, and some cannot be filed. Each side then has the
records that were filed there, sorted by name, and the names come in the order in which the sides
and the records first had them.
-/

namespace ApiPages

namespace Record

/-- The names under which records are filed, each as often as it comes up. -/
def names (rs : List Record) : List Name :=
  rs.filterMap fun r => (Record.tagname r).toOption

def named (rs : List Record) (name : Name) : List Record :=
  rs.filter fun r => Record.tagname r = .ok name

theorem mem_names {rs : List Record} {name : Name} :
    name ∈ names rs ↔ ∃ r ∈ rs, Record.tagname r = .ok name := by
  rw [names, List.mem_filterMap]
  refine exists_congr fun r => and_congr_right fun _ => ?_
  cases Record.tagname r with
  | ok other => simp [Except.toOption]
  | error fault => simp [Except.toOption]

theorem named_ne_nil_iff {rs : List Record} {name : Name} :
    named rs name ≠ [] ↔ name ∈ names rs := by
  simp [named, mem_names]

theorem tagname_eq_missing_iff {r : Record} :
    Record.tagname r = .error (.missingKey "tagname") ↔ Table.get? r "tagname" = none := by
  rw [Record.tagname]
  cases Table.get? r "tagname" with
  | none => simp
  | some v =>
      refine iff_of_false (fun h => ?_) (Option.some_ne_none v)
      exact absurd (Name.eq_wrongShape_of_ofValue h) nofun

end Record

namespace Groups

/-- What records come to when they are filed one after another. -/
structure FiledFrom (groups : Groups) (rs : List Record) : Prop where
  keys : Table.keys groups = (Record.names rs).eraseDups
  records : ∀ name, groups.of name = Record.named rs name

namespace FiledFrom

theorem nil : FiledFrom [] [] where
  keys := rfl
  records _ := rfl

variable {groups : Groups} {rs : List Record} (h : groups.FiledFrom rs)
include h

theorem add {r : Record} {name : Name} (hname : Record.tagname r = .ok name) :
    (groups.add name r).FiledFrom (rs ++ [r]) where
  keys := by
    have hnames : Record.names (rs ++ [r]) = Record.names rs ++ [name] := by
      simp [Record.names, hname, Except.toOption]
    rw [hnames, Table.eraseDups_concat, keys_add, h.keys]
    by_cases hknown : name ∈ Record.names rs
    · rw [if_pos (List.mem_eraseDups.mpr hknown), if_pos hknown, List.append_nil]
    · rw [if_neg (mt List.mem_eraseDups.mp hknown), if_neg hknown]
  records other := by
    rw [of_add, h.records, Record.named, Record.named, List.filter_append]
    by_cases heq : name = other
    · rw [if_pos heq, List.filter_cons_of_pos (by simp [hname, heq]), List.filter_nil]
    · rw [if_neg heq, List.filter_cons_of_neg (by simp [hname, heq]), List.filter_nil,
        List.append_nil]

theorem skip {r : Record} {fault : Fault} (hfault : Record.tagname r = .error fault) :
    groups.FiledFrom (rs ++ [r]) where
  keys := by
    rw [h.keys]
    simp [Record.names, hfault, Except.toOption]
  records name := by
    rw [h.records]
    simp [Record.named, hfault]

theorem mem_keys {name : Name} : name ∈ Table.keys groups ↔ name ∈ Record.names rs := by
  rw [h.keys, List.mem_eraseDups]

theorem nodup_keys : (Table.keys groups).Nodup := by
  rw [h.keys]
  exact Table.nodup_eraseDups _

/-- A name is found exactly if there are records of it, and then with all of them. -/
theorem get?_eq_some_iff {name : Name} {found : List Record} :
    Table.get? groups name = some found ↔ found = Record.named rs name ∧ found ≠ [] := by
  have hrecords := h.records name
  rw [of] at hrecords
  cases hget : Table.get? groups name with
  | none =>
      have hempty : Record.named rs name = [] := by rw [← hrecords, hget]; rfl
      refine iff_of_false (Option.some_ne_none found).symm ?_
      rintro ⟨rfl, hne⟩
      exact hne hempty
  | some listed =>
      rw [hget, Option.getD_some] at hrecords
      have hmem : name ∈ Table.keys groups := by
        rw [← Table.contains_iff_mem_keys, Table.contains, hget]
        rfl
      have hne : listed ≠ [] := by
        rw [hrecords, Record.named_ne_nil_iff]
        exact h.mem_keys.mp hmem
      rw [Option.some_inj, ← hrecords]
      constructor
      · rintro rfl
        exact ⟨rfl, hne⟩
      · exact fun hfound => hfound.1.symm

end FiledFrom

end Groups

namespace Occurrences

/-- A record that is to be filed, and the side it comes from. -/
inductive Addition where
  | doc (r : Record)
  | code (r : Record)

namespace Addition

def record : Addition → Record
  | .doc r => r
  | .code r => r

def doc? : Addition → Option Record
  | .doc r => some r
  | .code _ => none

def code? : Addition → Option Record
  | .doc _ => none
  | .code r => some r

end Addition

def file (raw : Occurrences) : Addition → Except Fault Occurrences
  | .doc r => raw.addDoc r
  | .code r => raw.addCode r

/-- The raw records behind an addition, which leaves them as they are if it fails. -/
def tryFile (raw : Occurrences) (addition : Addition) : Occurrences :=
  match raw.file addition with
  | .ok next => next
  | .error _ => raw

def fileAll (additions : List Addition) : Occurrences :=
  additions.foldl tryFile {}

theorem fileAll_concat (additions : List Addition) (addition : Addition) :
    fileAll (additions ++ [addition]) = (fileAll additions).tryFile addition :=
  List.foldl_concat _ _ _ _

/-- The records among some additions that were meant for a side. -/
def docsOf (additions : List Addition) : List Record :=
  additions.filterMap Addition.doc?

def codesOf (additions : List Addition) : List Record :=
  additions.filterMap Addition.code?

theorem docsOf_concat (additions : List Addition) (addition : Addition) :
    docsOf (additions ++ [addition]) = docsOf additions ++ addition.doc?.toList := by
  cases addition <;> simp [docsOf, Addition.doc?]

theorem codesOf_concat (additions : List Addition) (addition : Addition) :
    codesOf (additions ++ [addition]) = codesOf additions ++ addition.code?.toList := by
  cases addition <;> simp [codesOf, Addition.code?]

theorem exists_addition_iff {P : Record → Prop} {additions : List Addition} :
    (∃ addition ∈ additions, P addition.record) ↔
      (∃ r ∈ docsOf additions, P r) ∨ ∃ r ∈ codesOf additions, P r := by
  simp only [docsOf, codesOf, List.mem_filterMap]
  constructor
  · rintro ⟨addition, hmem, hP⟩
    cases addition with
    | doc r => exact Or.inl ⟨r, ⟨.doc r, hmem, rfl⟩, hP⟩
    | code r => exact Or.inr ⟨r, ⟨.code r, hmem, rfl⟩, hP⟩
  · rintro (⟨r, ⟨addition, hmem, hside⟩, hP⟩ | ⟨r, ⟨addition, hmem, hside⟩, hP⟩)
    all_goals
      cases addition <;> cases hside
      exact ⟨_, hmem, hP⟩

/-- The raw records with one more, under its name. -/
def put (raw : Occurrences) (name : Name) : Addition → Occurrences
  | .doc r => { raw with doc := raw.doc.add name r }
  | .code r => { raw with code := raw.code.add name r }

theorem file_eq (raw : Occurrences) (addition : Addition) :
    raw.file addition = (Record.tagname addition.record).map fun name => raw.put name addition := by
  cases addition with
  | doc r =>
      rw [file, addDoc, Addition.record]
      cases Record.tagname r <;> rfl
  | code r =>
      rw [file, addCode, Addition.record]
      cases Record.tagname r <;> rfl

theorem file_eq_missing_iff {raw : Occurrences} {addition : Addition} :
    raw.file addition = .error (.missingKey "tagname") ↔
      Table.get? addition.record "tagname" = none := by
  rw [← Record.tagname_eq_missing_iff, file_eq]
  cases Record.tagname addition.record with
  | ok name => simp [Except.map]
  | error fault => simp [Except.map]

/-- Both sides of raw records as some additions have left them. -/
structure FiledFrom (raw : Occurrences) (additions : List Addition) : Prop where
  doc : raw.doc.FiledFrom (docsOf additions)
  code : raw.code.FiledFrom (codesOf additions)

namespace FiledFrom

theorem empty : FiledFrom {} [] where
  doc := .nil
  code := .nil

variable {raw : Occurrences} {additions : List Addition}

theorem concat {addition : Addition}
    (hdoc : raw.doc.FiledFrom (docsOf additions ++ addition.doc?.toList))
    (hcode : raw.code.FiledFrom (codesOf additions ++ addition.code?.toList)) :
    raw.FiledFrom (additions ++ [addition]) where
  doc := by rwa [docsOf_concat]
  code := by rwa [codesOf_concat]

variable (h : raw.FiledFrom additions)
include h

theorem put {addition : Addition} {name : Name}
    (hname : Record.tagname addition.record = .ok name) :
    (raw.put name addition).FiledFrom (additions ++ [addition]) := by
  cases addition with
  | doc r =>
      have hcode : raw.code.FiledFrom (codesOf additions ++ []) := by simpa using h.code
      exact .concat (h.doc.add hname) hcode
  | code r =>
      have hdoc : raw.doc.FiledFrom (docsOf additions ++ []) := by simpa using h.doc
      exact .concat hdoc (h.code.add hname)

theorem skip {addition : Addition} {fault : Fault}
    (hfault : Record.tagname addition.record = .error fault) :
    raw.FiledFrom (additions ++ [addition]) := by
  cases addition with
  | doc r =>
      have hcode : raw.code.FiledFrom (codesOf additions ++ []) := by simpa using h.code
      exact .concat (h.doc.skip hfault) hcode
  | code r =>
      have hdoc : raw.doc.FiledFrom (docsOf additions ++ []) := by simpa using h.doc
      exact .concat hdoc (h.code.skip hfault)

theorem tryFile (addition : Addition) :
    (raw.tryFile addition).FiledFrom (additions ++ [addition]) := by
  rw [Occurrences.tryFile, file_eq]
  cases hname : Record.tagname addition.record with
  | ok name => exact h.put hname
  | error fault => exact h.skip hname

theorem tagnames_eq : raw.tagnames =
    (Record.names (docsOf additions)).eraseDups ++
      (Record.names (codesOf additions)).eraseDups.filter
        (· ∉ Record.names (docsOf additions)) := by
  rw [tagnames, h.doc.keys, h.code.keys]
  congr 1
  refine List.filter_congr fun name _ => ?_
  have hcontains := (Table.contains_iff_mem_keys raw.doc name).trans h.doc.mem_keys
  by_cases hmem : name ∈ Record.names (docsOf additions)
  · simp [hmem, hcontains.mpr hmem]
  · simp [hmem, mt hcontains.mp hmem]

end FiledFrom

theorem filedFrom_fileAll (additions : List Addition) :
    (fileAll additions).FiledFrom additions := by
  induction additions using List.reverseRecOn with
  | nil => exact .empty
  | append_singleton additions addition ih =>
      rw [fileAll_concat]
      exact ih.tryFile addition

/-- **Raw records are what was added, sorted by side and name.** Whatever is added in whatever
order, an addition fails for want of a tagname exactly if its record has none, and one that fails
changes nothing. Under each name there are the records of that name, in their order, or the name is
not there at all. The names are those of the comment, as they first came up, and then those that
only the declaration has, as these did. -/
theorem additions_filed_in_order (additions : List Addition) :
    (∀ addition, ((fileAll additions).file addition = .error (.missingKey "tagname") ↔
        Table.get? addition.record "tagname" = none) ∧
      fileAll (additions ++ [addition]) =
        ((fileAll additions).file addition).toOption.getD (fileAll additions)) ∧
    (∀ name found, (Table.get? (fileAll additions).doc name = some found ↔
        found = Record.named (docsOf additions) name ∧ found ≠ []) ∧
      (Table.get? (fileAll additions).code name = some found ↔
        found = Record.named (codesOf additions) name ∧ found ≠ [])) ∧
    (fileAll additions).tagnames.Nodup ∧
    (∀ name, name ∈ (fileAll additions).tagnames ↔
      ∃ addition ∈ additions, Record.tagname addition.record = .ok name) ∧
    (fileAll additions).tagnames =
      (Record.names (docsOf additions)).eraseDups ++
        (Record.names (codesOf additions)).eraseDups.filter
          (· ∉ Record.names (docsOf additions)) := by
  have hfiled := filedFrom_fileAll additions
  have hdistinct : (fileAll additions).Distinct :=
    ⟨hfiled.doc.nodup_keys, hfiled.code.nodup_keys⟩
  refine ⟨fun addition => ⟨file_eq_missing_iff, ?_⟩,
    fun name found => ⟨hfiled.doc.get?_eq_some_iff, hfiled.code.get?_eq_some_iff⟩,
    hdistinct.nodup_tagnames, fun name => ?_, hfiled.tagnames_eq⟩
  · rw [fileAll_concat, tryFile]
    cases (fileAll additions).file addition <;> rfl
  · rw [mem_tagnames, hfiled.doc.mem_keys, hfiled.code.mem_keys, Record.mem_names,
      Record.mem_names]
    exact exists_addition_iff.symm

/-- Records of both sides in turns, one of them without a tagname. -/
def assortedAdditions : List Addition :=
  [.code [("tagname", .text "b")], .doc [("tagname", .text "c"), ("n", .int 1)],
    .doc [("n", .int 2)], .code [("tagname", .text "a"), ("n", .int 3)],
    .doc [("tagname", .text "a")], .doc [("tagname", .text "c"), ("n", .int 4)]]

theorem assorted_filed_in_order :
    (fileAll assortedAdditions).tagnames = [.text "c", .text "a", .text "b"] ∧
      Table.get? (fileAll assortedAdditions).doc (.text "c") =
        some [[("tagname", .text "c"), ("n", .int 1)],
          [("tagname", .text "c"), ("n", .int 4)]] := by
  obtain ⟨-, hget, -, -, hnames⟩ := additions_filed_in_order assortedAdditions
  refine ⟨hnames, (hget _ _).1.mpr ⟨rfl, List.cons_ne_nil _ _⟩⟩

end Occurrences

end ApiPages
