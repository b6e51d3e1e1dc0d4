import ApiPages.ClassTable
import Mathlib.Data.List.Nodup

/-!
# Classes below their overrides

An override lays its documentation, its places and its members over a class. Read by itself it does
so once and for all; a patch of a running table reads the same as long as class and override share
no member.
-/

namespace ApiPages.ClassDoc

/-- The name that an override is quoted by, empty if it cannot have one. -/
def shownName (o : ClassDoc) : String :=
  o.displayName.toOption.getD ""

/-- The documentation of a class behind what an override says about the class itself. -/
def annotate (doc : String) (o : ClassDoc) : String :=
  if o.doc ≠ "" then overriddenDoc o.shownName doc o.doc else doc

/-- A class below an override that is read by itself. -/
def overlaidBy (c o : ClassDoc) : ClassDoc :=
  { c with
    doc := annotate c.doc o
    files := c.files ++ o.files
    members := o.members.foldl (enterMember o.shownName c.name) c.members }

/-- Whether the target of an override is the class under a key. -/
def isFor (o : ClassDoc) (key : String) : Bool :=
  key != "" && o.overrideTarget.isText key

theorem isFor_iff {o : ClassDoc} {key : String} :
    o.isFor key = true ↔ key ≠ "" ∧ o.overrideTarget = .text key := by
  cases ho : o.overrideTarget <;> simp [isFor, Value.isText, ho]

theorem isFor_unique {o : ClassDoc} {key other : String} (h : o.isFor key = true)
    (h' : o.isFor other = true) : key = other := by
  have heq := (isFor_iff.mp h).2.symm.trans (isFor_iff.mp h').2
  exact Value.text.inj heq

/-! ### What an override does to the list of members -/

section Members

variable {γ : Type} (p : Member → Bool) (f : Member → Member)

theorem map_modifyLast (g : Member → γ) (hf : ∀ m, g (f m) = g m) (ms : List Member) :
    (modifyLast p f ms).map g = ms.map g := by
  induction ms with
  | nil => rfl
  | cons m ms ih =>
      rw [modifyLast]
      split
      · simp [hf]
      · simp [ih]

end Members

@[simp]
theorem patchMember_serial (override : String) (m theirs : Member) :
    (patchMember override m theirs).serial = m.serial := rfl

@[simp]
theorem adoptMember_serial (override owner : String) (m : Member) :
    (adoptMember override owner m).serial = m.serial := rfl

theorem map_serial_enterMember (override owner : String) (ms : List Member) (theirs : Member) :
    (enterMember override owner ms theirs).map Member.serial =
      ms.map Member.serial ++
        if ms.any (·.id == theirs.id) then [] else [theirs.serial] := by
  unfold enterMember
  split
  · rw [List.append_nil, map_modifyLast]
    exact fun _ => rfl
  · simp

theorem mem_serials_foldl_enterMember {override owner : String} {entries ms : List Member} {n : Nat}
    (h : n ∈ (entries.foldl (enterMember override owner) ms).map Member.serial) :
    n ∈ ms.map Member.serial ∨ n ∈ entries.map Member.serial := by
  induction entries generalizing ms with
  | nil => exact Or.inl h
  | cons entry entries ih =>
      rcases ih h with hms | hrest
      · rw [map_serial_enterMember, List.mem_append] at hms
        rcases hms with hms | hentry
        · exact Or.inl hms
        · split at hentry
          · simp at hentry
          · exact Or.inr (by simp [List.mem_singleton.mp hentry])
      · exact Or.inr (List.mem_cons_of_mem _ hrest)

theorem find?_serial_eq_none_iff {ms : List Member} {n : Nat} :
    ms.find? (·.serial == n) = none ↔ n ∉ ms.map Member.serial := by
  rw [List.find?_eq_none, List.mem_map, not_exists]
  exact forall_congr' fun m => by rw [beq_iff_eq, not_and]

theorem takeMember_eq_enterMember {override owner : String} {ms : List Member} {entry : Member}
    (h : entry.serial ∉ ms.map Member.serial) :
    takeMember override owner ms entry = enterMember override owner ms entry := by
  rw [takeMember, find?_serial_eq_none_iff.mpr h, Option.getD_none]

theorem foldl_takeMember {override owner : String} {entries ms : List Member}
    (hentries : (entries.map Member.serial).Nodup)
    (hapart : ∀ n ∈ entries.map Member.serial, n ∉ ms.map Member.serial) :
    entries.foldl (takeMember override owner) ms =
      entries.foldl (enterMember override owner) ms := by
  induction entries generalizing ms with
  | nil => rfl
  | cons entry entries ih =>
      rw [List.map_cons, List.nodup_cons] at hentries
      rw [List.foldl_cons, List.foldl_cons,
        takeMember_eq_enterMember (hapart _ (List.mem_map_of_mem List.mem_cons_self))]
      refine ih hentries.2 fun n hn hmem => ?_
      have hsplit := mem_serials_foldl_enterMember (show n ∈
        ([entry].foldl (enterMember override owner) ms).map Member.serial from hmem)
      rcases hsplit with hms | hentry
      · exact hapart n (List.mem_cons_of_mem _ hn) hms
      · rw [List.map_singleton, List.mem_singleton] at hentry
        exact hentries.1 (hentry ▸ hn)

/-- Patching a class with an override it shares no member with lays the override over it. -/
theorem patch_eq_overlaidBy {name : String} {c o : ClassDoc} (hname : o.displayName = .ok name)
    (ho : (o.members.map Member.serial).Nodup)
    (hapart : ∀ n ∈ o.members.map Member.serial, n ∉ c.members.map Member.serial) :
    patch name o c = c.overlaidBy o := by
  have hshown : o.shownName = name := by
    rw [shownName, hname]
    rfl
  rw [patch, overlaidBy, annotate, hshown, foldl_takeMember ho hapart]

/-! ### A class below several overrides -/

theorem mem_serials_overlaidBy {c o : ClassDoc} {n : Nat}
    (h : n ∈ (c.overlaidBy o).members.map Member.serial) :
    n ∈ c.members.map Member.serial ∨ n ∈ o.members.map Member.serial :=
  mem_serials_foldl_enterMember h

theorem mem_serials_foldl_overlaidBy {os : List ClassDoc} {c : ClassDoc} {n : Nat}
    (h : n ∈ (os.foldl overlaidBy c).members.map Member.serial) :
    n ∈ c.members.map Member.serial ∨ ∃ o ∈ os, n ∈ o.members.map Member.serial := by
  induction os generalizing c with
  | nil => exact Or.inl h
  | cons o os ih =>
      rcases ih h with hc | ⟨o', ho', hn⟩
      · rcases mem_serials_overlaidBy hc with hc | ho
        · exact Or.inl hc
        · exact Or.inr ⟨o, List.mem_cons_self, ho⟩
      · exact Or.inr ⟨o', List.mem_cons_of_mem _ ho', hn⟩

theorem foldl_overlaidBy_files (os : List ClassDoc) (c : ClassDoc) :
    (os.foldl overlaidBy c).files = c.files ++ os.flatMap ClassDoc.files := by
  induction os generalizing c with
  | nil => simp
  | cons o os ih => simp [ih, overlaidBy]

theorem foldl_overlaidBy_doc (os : List ClassDoc) (c : ClassDoc) :
    (os.foldl overlaidBy c).doc = os.foldl annotate c.doc := by
  induction os generalizing c with
  | nil => rfl
  | cons o os ih => exact ih (c.overlaidBy o)

/-- Overrides leave everything about a class alone but its documentation, places and members. -/
theorem foldl_overlaidBy_frame (os : List ClassDoc) (c : ClassDoc) :
    os.foldl overlaidBy c =
      { c with
        doc := (os.foldl overlaidBy c).doc
        files := (os.foldl overlaidBy c).files
        members := (os.foldl overlaidBy c).members } := by
  induction os generalizing c with
  | nil => rfl
  | cons o os ih =>
      rw [List.foldl_cons]
      exact ih (c.overlaidBy o)

end ApiPages.ClassDoc
