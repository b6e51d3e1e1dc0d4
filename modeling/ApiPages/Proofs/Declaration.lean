import ApiPages.Proofs.Sources

/-!
# What declarations say

A declaration names what a class is derived from, what is mixed into it and which class it patches.
Whatever else stands in the places of the names says nothing. The names that several declarations of
a class give are filed in the order of the declarations.
-/

namespace ApiPages

def Value.text? : Value → Option String
  | .text s => some s
  | _ => none

theorem Value.text?_eq_some_iff {v : Value} {s : String} : v.text? = some s ↔ v = .text s := by
  cases v <;> simp [Value.text?]

namespace Record

/-- The name in a record. -/
def name? (r : Record) : Option String :=
  (Table.get? r "name").bind Value.text?

theorem name?_eq_some_iff {r : Record} {s : String} :
    r.name? = some s ↔ Table.get? r "name" = some (.text s) := by
  simp [name?, Option.bind_eq_some_iff, Value.text?_eq_some_iff]

/-- A record that says no more than a name. -/
def naming (tagname name : String) : Record :=
  [("tagname", .text tagname), ("name", .text name)]

theorem filterMap_name?_map_naming (tagname : String) (names : List String) :
    (names.map (naming tagname)).filterMap name? = names := by
  have hname : name? ∘ naming tagname = some := rfl
  rw [List.filterMap_map, hname, List.filterMap_some]

end Record

namespace Declaration

open Record (naming)

/-- A name is a text that is not empty. -/
def nameIn (v : Value) : Option String :=
  v.text?.filter (· ≠ "")

theorem ne_of_nameIn {v : Value} {s : String} (h : nameIn v = some s) : s ≠ "" := by
  rw [nameIn, Option.filter_eq_some_iff] at h
  simpa using h.2

/-- One name, names under keys, or a list of names. -/
def namesIn : Value → List String
  | .text s => [s]
  | .list items => items.filterMap Value.text?
  | .record fields => (Table.values fields).filterMap Value.text?
  | .mapping entries => (entries.map Prod.snd).filterMap Value.text?
  | .pair a b => [a, b].filterMap Value.text?
  | _ => []

/-- What a class is derived from. A declaration that does not speak of it stands for the base of all
classes, and no other one does. -/
def base? (declaration : Record) : Option String :=
  match Table.get? declaration "extend" with
  | none => some "Ext.Base"
  | some v => nameIn v

def mixedIn (declaration : Record) : List String :=
  match Table.get? declaration "mixins" with
  | none => []
  | some v => namesIn v

/-- The class that a class patches. -/
def target? (declaration : Record) : Option String :=
  (Table.get? declaration "override").bind nameIn

theorem ne_of_target? {declaration : Record} {s : String} (h : target? declaration = some s) :
    s ≠ "" := by
  obtain ⟨v, -, hv⟩ := Option.bind_eq_some_iff.mp h
  exact ne_of_nameIn hv

/-! ### The records of one declaration -/

theorem records_declareClassName (tagname : String) (v : Value) :
    (Tag.declareClassName tagname v).records = (nameIn v).toList.map (naming tagname) := by
  cases v with
  | text s =>
      by_cases hs : s = ""
      · rw [Tag.declareClassName, if_pos hs, hs]
        rfl
      · have hname : nameIn (.text s) = some s := by
          rw [nameIn, Value.text?, Option.filter_some, if_pos (by simpa using hs)]
        rw [Tag.declareClassName, if_neg hs, hname]
        rfl
  | _ => rfl

theorem textsOf_eq (vs : List Value) : Tag.textsOf vs = vs.filterMap Value.text? := by
  refine List.filterMap_congr fun v _ => ?_
  cases v <;> rfl

theorem records_declareMixins (v : Value) :
    (Tag.declareMixins v).records = (namesIn v).map (naming "mixins") := by
  cases v with
  | list items => exact congrArg (List.map _) (textsOf_eq items)
  | record fields => exact congrArg (List.map _) (textsOf_eq _)
  | mapping entries => exact congrArg (List.map _) (textsOf_eq _)
  | pair a b => exact congrArg (List.map _) (textsOf_eq _)
  | _ => rfl

section Records

variable {t : Tag} (declaration : Record)

theorem recordsOf_eq {say : Value → List Record} (hdeclare : ∀ v, (t.declare v).records = say v) :
    recordsOf t declaration =
      match Table.get? declaration t.declarationKey with
      | none => t.declarationDefault.toList
      | some v => say v := by
  rw [recordsOf]
  cases Table.get? declaration t.declarationKey with
  | none => rfl
  | some v => exact hdeclare v

theorem recordsOf_ancestor :
    recordsOf Tag.ancestor declaration = (base? declaration).toList.map (naming "extends") := by
  have hkey : Tag.ancestor.declarationKey = "extend" := rfl
  rw [recordsOf_eq declaration (records_declareClassName "extends"), hkey, base?]
  cases Table.get? declaration "extend" <;> rfl

theorem recordsOf_mixins :
    recordsOf Tag.mixins declaration = (mixedIn declaration).map (naming "mixins") := by
  have hkey : Tag.mixins.declarationKey = "mixins" := rfl
  rw [recordsOf_eq declaration records_declareMixins, hkey, mixedIn]
  cases Table.get? declaration "mixins" <;> rfl

theorem recordsOf_override :
    recordsOf Tag.override declaration = (target? declaration).toList.map (naming "override") := by
  have hkey : Tag.override.declarationKey = "override" := rfl
  rw [recordsOf_eq declaration (records_declareClassName "override"), hkey, target?]
  cases Table.get? declaration "override" <;> rfl

end Records

/-! ### Declarations in turn -/

theorem filter_tagname {rs : List Record} {key : String}
    (h : ∀ r ∈ rs, Record.tagname r = .ok (.text key)) (other : String) :
    (rs.filter fun r => Record.tagname r = .ok (.text other)) = if key = other then rs else [] := by
  split
  · rename_i heq
    exact List.filter_eq_self.mpr fun r hr => by simp [h r hr, heq]
  · rename_i hne
    exact List.filter_eq_nil_iff.mpr fun r hr => by simp [h r hr, hne]

theorem filter_flatMap_own {ts : List Tag} (hkeys : (ts.map Tag.key).Nodup)
    {f : Tag → List Record} (hown : ∀ t ∈ ts, ∀ r ∈ f t, Record.tagname r = .ok (.text t.key))
    {t : Tag} (ht : t ∈ ts) :
    ((ts.flatMap f).filter fun r => Record.tagname r = .ok (.text t.key)) = f t := by
  induction ts with
  | nil => exact absurd ht List.not_mem_nil
  | cons u us ih =>
      obtain ⟨hfirst, hrest⟩ := List.forall_mem_cons.mp hown
      rw [List.map_cons, List.nodup_cons] at hkeys
      rw [List.flatMap_cons, List.filter_append, filter_tagname hfirst]
      rcases List.mem_cons.mp ht with rfl | hmem
      · have hothers : ∀ r ∈ us.flatMap f, ¬ Record.tagname r = .ok (.text t.key) := by
          intro r hr hname
          obtain ⟨u, hu, hr⟩ := List.mem_flatMap.mp hr
          have hkey := (hrest u hu r hr).symm.trans hname
          exact hkeys.1 (Name.text.inj (Except.ok.inj hkey) ▸ List.mem_map_of_mem hu)
        rw [if_pos rfl, List.filter_eq_nil_iff.mpr (by simpa using hothers), List.append_nil]
      · have hne : u.key ≠ t.key := fun heq => hkeys.1 (heq ▸ List.mem_map_of_mem hmem)
        rw [if_neg hne, List.nil_append]
        exact ih hkeys.2 hrest hmem

/-- A class whose declarations are filed behind what was inferred for it before. -/
structure Filed (reg : Registry) (declarations : List Record) (c c' : ClassDoc) : Prop where
  same : c' = { c with raw := { c.raw with code := c'.raw.code } }
  code : ∀ t ∈ reg.declarationTags, c'.raw.code.of (.text t.key) =
    c.raw.code.of (.text t.key) ++ declarations.flatMap (recordsOf t)

theorem Filed.trans {reg : Registry} {ds ds' : List Record} {c c' c'' : ClassDoc}
    (h : Filed reg ds c c') (h' : Filed reg ds' c' c'') : Filed reg (ds ++ ds') c c'' where
  same := by rw [h'.same, h.same]
  code t ht := by rw [h'.code t ht, h.code t ht, List.flatMap_append, List.append_assoc]

section Filing

variable {reg : Registry} (hreg : reg.Sturdy) (hkeys : (reg.declarationTags.map Tag.key).Nodup)
include hreg hkeys

theorem filed_apply (c : ClassDoc) (declaration : Record) :
    (apply reg c declaration).Ends (Filed reg [declaration] c) := by
  have hown : ∀ t ∈ reg.declarationTags, ∀ r ∈ recordsOf t declaration,
      Record.tagname r = .ok (.text t.key) := fun t ht r hr =>
    (sound_recordsOf (hreg.ofDeclaration ht) declaration r hr).tagname_eq
  have htagged : ∀ r ∈ reg.declarationTags.flatMap fun t => recordsOf t declaration,
      ∃ name, Record.tagname r = .ok name := by
    intro r hr
    obtain ⟨t, ht, hr⟩ := List.mem_flatMap.mp hr
    exact ⟨_, hown t ht r hr⟩
  obtain ⟨code, hadd, hfiled⟩ := Occurrences.addCodes_filed htagged c.raw
  refine (Report.Ends.ofExcept ⟨_, hadd, rfl⟩).bind fun raw hraw =>
    .seq (.progress _ _ _) (.pure ?_)
  subst hraw
  refine ⟨rfl, fun t ht => ?_⟩
  rw [List.flatMap_singleton]
  exact (hfiled _).trans (congrArg _ (filter_flatMap_own hkeys hown ht))

theorem filed_foldlM (declarations : List Record) (c : ClassDoc) :
    (declarations.foldlM (apply reg) c).Ends (Filed reg declarations c) := by
  induction declarations generalizing c with
  | nil => exact .pure ⟨rfl, fun t _ => (List.append_nil _).symm⟩
  | cons declaration declarations ih =>
      rw [List.foldlM_cons]
      refine (filed_apply hreg hkeys c declaration).bind fun next hfirst => ?_
      obtain ⟨last, notes, hrun, hlater⟩ := ih next
      exact ⟨last, notes, hrun, hfirst.trans hlater⟩

end Filing

/-! ### Classes that nothing was inferred for before -/

theorem declarationTags_standard {reg : Registry} (hreg : Registry.ofTags Tag.standard = .ok reg) :
    reg.declarationTags = [Tag.ancestor, Tag.mixins, Tag.override] := by
  obtain ⟨-, rfl⟩ := Registry.ofTags_eq_ok_iff.mp hreg
  exact Registry.values_entries_declarationKeys Tag.standard

theorem flatMap_toList_map {α β γ : Type} (f : α → Option β) (g : β → γ) (xs : List α) :
    (xs.flatMap fun x => (f x).toList.map g) = (xs.filterMap f).map g := by
  rw [List.map_filterMap, List.filterMap_eq_flatMap_toList]
  refine List.flatMap_congr fun x _ => ?_
  cases f x <;> rfl

theorem code_of_filed {reg : Registry} (hreg : Registry.ofTags Tag.standard = .ok reg)
    {ds : List Record} {c c' : ClassDoc} (h : Filed reg ds c c') (hnone : c.raw.code = []) :
    c'.raw.code.of (.text "extends") = (ds.filterMap base?).map (naming "extends") ∧
      c'.raw.code.of (.text "mixins") = (ds.flatMap mixedIn).map (naming "mixins") ∧
      c'.raw.code.of (.text "override") = (ds.filterMap target?).map (naming "override") := by
  have hcode : ∀ t ∈ [Tag.ancestor, Tag.mixins, Tag.override], ∀ f : Record → List Record,
      (∀ d, recordsOf t d = f d) → c'.raw.code.of (.text t.key) = ds.flatMap f := by
    intro t ht f hf
    rw [← declarationTags_standard hreg] at ht
    rw [h.code t ht, hnone]
    exact List.flatMap_congr fun d _ => hf d
  refine ⟨?_, ?_, ?_⟩
  · rw [← flatMap_toList_map]
    exact hcode Tag.ancestor (by simp) _ recordsOf_ancestor
  · rw [List.map_flatMap]
    exact hcode Tag.mixins (by simp) _ recordsOf_mixins
  · rw [← flatMap_toList_map]
    exact hcode Tag.override (by simp) _ recordsOf_override

end Declaration

end ApiPages
