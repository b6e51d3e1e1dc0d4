import ApiPages.Page.Section
import ApiPages.Proofs.Registry
import ApiPages.Tag.Standard
import Mathlib.Data.List.Basic

/-!
# How a page shares out the members

A page has a section for each kind of members, and a section a view for each of its subsections.
Both are cut by filters of which every member passes exactly one, so no member is lost and none is
shown twice, whatever its attributes hold.
-/

namespace ApiPages

namespace Value

theorem same_bool (a b : Bool) : (Value.bool a).same (.bool b) = (a == b) := by
  revert a b
  decide +kernel

end Value

/-! ### Subsections -/

namespace Subsection

/-- Subsections that take each member in exactly one place, by its attributes. -/
structure ShareOut (subsections : List Subsection) : Prop where
  apart : subsections.Pairwise fun s t =>
    ∀ attributes, s.accepts attributes = true → t.accepts attributes = false
  complete : ∀ attributes, subsections.any (·.accepts attributes) = true

theorem accepts_of_wanted {s : Subsection} {key : String} {b : Bool}
    (h : s.wanted = [(key, .bool b)]) (attributes : Record) :
    s.accepts attributes = (((Table.get? attributes key).getD .null).truthy == b) := by
  rw [accepts, h, List.all_cons, List.all_nil, Bool.and_true]
  exact Value.same_bool _ b

theorem shareOut_pair {s t : Subsection} {key : String} {b : Bool}
    (hs : s.wanted = [(key, .bool b)]) (ht : t.wanted = [(key, .bool !b)]) : ShareOut [s, t] where
  apart := by
    refine List.pairwise_pair.mpr fun attributes h => ?_
    rw [accepts_of_wanted hs, beq_iff_eq] at h
    rw [accepts_of_wanted ht, h]
    cases b <;> rfl
  complete attributes := by
    rw [List.any_cons, List.any_cons, accepts_of_wanted hs, accepts_of_wanted ht]
    cases ((Table.get? attributes key).getD .null).truthy <;> cases b <;> rfl

end Subsection

/-- A type whose section has no subsections, or such as share out all members. -/
def MemberType.Sorts (type : MemberType) : Prop :=
  type.subsections = [] ∨ Subsection.ShareOut type.subsections

namespace Page

open Subsection (ShareOut)

theorem perm_flatMap_filter {ι α : Type} {p : ι → α → Bool} {keys : List ι}
    (h : keys.Pairwise fun i j => ∀ x, p i x = true → p j x = false) (xs : List α) :
    (keys.flatMap fun i => xs.filter (p i)).Perm
      (xs.filter fun x => keys.any fun i => p i x) := by
  induction keys with
  | nil => simp
  | cons i keys ih =>
      obtain ⟨hi, hkeys⟩ := List.pairwise_cons.mp h
      have hpass : (xs.filter fun x => (i :: keys).any fun j => p j x).filter (p i) =
          xs.filter (p i) := by
        rw [List.filter_filter]
        refine List.filter_congr fun x _ => ?_
        cases hx : p i x <;> simp [hx]
      have hfail : ((xs.filter fun x => (i :: keys).any fun j => p j x).filter fun x => !p i x) =
          xs.filter fun x => keys.any fun j => p j x := by
        rw [List.filter_filter]
        refine List.filter_congr fun x _ => ?_
        cases hx : p i x with
        | false => simp [hx]
        | true =>
            have hnone : (keys.any fun j => p j x) = false := by
              rw [List.any_eq_false]
              intro j hj
              simp [hi j hj x hx]
            rw [hnone]
            simp
      have hsplit := List.filter_append_perm (p i)
        (xs.filter fun x => (i :: keys).any fun j => p j x)
      rw [hpass, hfail] at hsplit
      exact ((ih hkeys).append_left _).trans hsplit

/-! ### Views -/

section Views

variable {members : List Member}

theorem viewOf_eq_some {s : Subsection} {v : View} (h : viewOf members s = some v) :
    v.members ≠ [] ∧
      v = {
        title := s.title
        members := members.filter fun m => s.accepts m.attributes
        subsection := some s } := by
  rw [viewOf] at h
  split at h
  · cases h
  · rename_i m ms hfilter
    obtain rfl := Option.some.inj h
    exact ⟨List.cons_ne_nil m ms, by rw [hfilter]⟩

theorem viewOf_eq_none {s : Subsection} (h : ∀ m ∈ members, s.accepts m.attributes = false) :
    viewOf members s = none := by
  have hfilter : (members.filter fun m => s.accepts m.attributes) = [] := by
    rw [List.filter_eq_nil_iff]
    intro m hm
    simp [h m hm]
  rw [viewOf, hfilter]

theorem viewOf_of_forall {s : Subsection} (hne : members ≠ [])
    (h : ∀ m ∈ members, s.accepts m.attributes = true) :
    viewOf members s = some { title := s.title, members, subsection := some s } := by
  have hfilter : (members.filter fun m => s.accepts m.attributes) = members :=
    List.filter_eq_self.mpr h
  rw [viewOf, hfilter]
  cases members with
  | nil => exact absurd rfl hne
  | cons m ms => rfl

theorem flatMap_members_viewOf (members : List Member) (subsections : List Subsection) :
    (subsections.filterMap (viewOf members)).flatMap View.members =
      subsections.flatMap fun s => members.filter fun m => s.accepts m.attributes := by
  induction subsections with
  | nil => rfl
  | cons s subsections ih =>
      rw [List.flatMap_cons, List.filterMap_cons]
      cases hview : viewOf members s with
      | none =>
          have hfilter : (members.filter fun m => s.accepts m.attributes) = [] := by
            rw [viewOf] at hview
            split at hview
            · assumption
            · cases hview
          rw [hfilter, List.nil_append]
          exact ih
      | some v =>
          have hmembers : v.members = members.filter fun m => s.accepts m.attributes := by
            rw [(viewOf_eq_some hview).2]
          rw [← hmembers, ← ih]
          rfl

theorem hideTitle_members (count : Nat) (v : View) : (hideTitle count v).members = v.members := by
  rw [hideTitle]
  split
  · split <;> rfl
  · rfl

theorem filterMap_viewOf_eq_singleton {subsections : List Subsection} (h : ShareOut subsections)
    {d : Subsection} (hd : d ∈ subsections) (hne : members ≠ [])
    (hall : ∀ m ∈ members, d.accepts m.attributes = true) :
    subsections.filterMap (viewOf members) =
      [{ title := d.title, members, subsection := some d }] := by
  obtain ⟨before, after, rfl⟩ := List.append_of_mem hd
  obtain ⟨-, hafter, hbefore⟩ := List.pairwise_append.mp h.apart
  have hnone : ∀ s ∈ before ++ after, viewOf members s = none := by
    intro s hs
    refine viewOf_eq_none fun m hm => ?_
    rcases List.mem_append.mp hs with hs | hs
    · cases hs' : s.accepts m.attributes with
      | false => rfl
      | true =>
          have hlater := hbefore s hs d List.mem_cons_self m.attributes hs'
          rw [hall m hm] at hlater
          cases hlater
    · exact (List.pairwise_cons.mp hafter).1 s hs m.attributes (hall m hm)
  obtain ⟨hbefore, hafter⟩ := List.forall_mem_append.mp hnone
  rw [List.filterMap_append, List.filterMap_cons, viewOf_of_forall hne hall,
    List.filterMap_eq_nil_iff.mpr hbefore, List.filterMap_eq_nil_iff.mpr hafter]
  rfl

theorem showTitle_hideTitle {s : Subsection} {v : View} (h : viewOf members s = some v) :
    (hideTitle members.length v).showTitle = false ↔
      s.isDefault = true ∧ ∀ m ∈ members, s.accepts m.attributes = true := by
  obtain ⟨-, rfl⟩ := viewOf_eq_some h
  rw [← List.length_filter_eq_length_iff]
  cases hdefault : s.isDefault with
  | false => simp [hideTitle, hdefault]
  | true =>
      by_cases hlength : (members.filter fun m => s.accepts m.attributes).length = members.length
      · simp [hideTitle, hdefault, hlength]
      · simp [hideTitle, hdefault, hlength]

end Views

/-! ### Sections -/

section Sections

variable {type : MemberType} {members : List Member}

theorem split_of_nil (h : type.subsections = []) (members : List Member) :
    split type members = [{ title := type.title, members, showTitle := false }] := by
  rw [split, h]
  rfl

theorem split_of_ne_nil (h : type.subsections ≠ []) (members : List Member) :
    split type members =
      match type.subsections.filterMap (viewOf members) with
      | [v] => [hideTitle members.length v]
      | views => views := by
  have hempty : type.subsections.isEmpty = false := by simpa using h
  rw [split, hempty]
  rfl

theorem flatMap_members_split (h : type.subsections ≠ []) (members : List Member) :
    (split type members).flatMap View.members =
      type.subsections.flatMap fun s => members.filter fun m => s.accepts m.attributes := by
  rw [split_of_ne_nil h, ← flatMap_members_viewOf]
  split
  · rename_i v hviews
    rw [hviews, List.flatMap_singleton, List.flatMap_singleton, hideTitle_members]
  · rfl

/-- The views of a section show its members, each once. -/
theorem perm_split (h : type.Sorts) (members : List Member) :
    ((split type members).flatMap View.members).Perm members := by
  by_cases hempty : type.subsections = []
  · rw [split_of_nil hempty, List.flatMap_singleton]
  · have hshare := h.resolve_left hempty
    rw [flatMap_members_split hempty]
    refine (perm_flatMap_filter (hshare.apart.imp fun hapart (m : Member) => hapart m.attributes) _).trans ?_
    rw [List.filter_eq_self.mpr fun m _ => hshare.complete m.attributes]

/-- What a view of a section shows, and when it does so without a title. -/
theorem mem_split (h : type.Sorts) (hne : members ≠ []) {v : View} (hv : v ∈ split type members) :
    v.members ≠ [] ∧ v.members.Sublist members ∧
      (v.showTitle = false ↔ type.subsections = [] ∨ ∃ d ∈ type.subsections,
        d.isDefault = true ∧ ∀ m ∈ members, d.accepts m.attributes = true) := by
  by_cases hempty : type.subsections = []
  · rw [split_of_nil hempty, List.mem_singleton] at hv
    subst hv
    exact ⟨hne, List.Sublist.refl members, iff_of_true rfl (Or.inl hempty)⟩
  · have hshare := h.resolve_left hempty
    rw [split_of_ne_nil hempty] at hv
    split at hv
    · rename_i only honly
      obtain rfl := List.mem_singleton.mp hv
      obtain ⟨s, hs, hview⟩ : ∃ s ∈ type.subsections, viewOf members s = some only := by
        rw [← List.mem_filterMap, honly]
        exact List.mem_singleton_self only
      obtain ⟨hmembers, hshape⟩ := viewOf_eq_some hview
      rw [hideTitle_members, showTitle_hideTitle hview]
      refine ⟨hmembers, by rw [hshape]; exact List.filter_sublist, ?_⟩
      constructor
      · rintro ⟨hdefault, hall⟩
        exact Or.inr ⟨s, hs, hdefault, hall⟩
      · rintro (hnil | ⟨d, hd, hdefault, hall⟩)
        · exact absurd hnil hempty
        · have hsingle := filterMap_viewOf_eq_singleton hshare hd hne hall
          rw [honly, hshape] at hsingle
          simp only [List.cons.injEq, and_true, View.mk.injEq, Option.some.injEq] at hsingle
          obtain rfl := hsingle.2.2.2
          exact ⟨hdefault, hall⟩
    · rename_i views hviews
      obtain ⟨s, hs, hview⟩ := List.mem_filterMap.mp hv
      obtain ⟨hmembers, hshape⟩ := viewOf_eq_some hview
      refine ⟨hmembers, by rw [hshape]; exact List.filter_sublist, ?_⟩
      constructor
      · intro hshow
        rw [hshape] at hshow
        cases hshow
      · rintro (hnil | ⟨d, hd, -, hall⟩)
        · exact absurd hnil hempty
        · exact absurd (filterMap_viewOf_eq_singleton hshare hd hne hall) (hviews _)

theorem sectionOf_eq_some {c : ClassDoc} {s : Section} (h : sectionOf c type = some s) :
    (c.members.filter fun m => m.kind.word == type.name) ≠ [] ∧
      s = {
        type
        views := split type (c.members.filter fun m => m.kind.word == type.name) } := by
  rw [sectionOf] at h
  split at h
  · cases h
  · rename_i m ms hfilter
    obtain rfl := Option.some.inj h
    exact ⟨by simp [hfilter], by rw [hfilter]⟩

theorem isSome_sectionOf (c : ClassDoc) (type : MemberType) :
    (sectionOf c type).isSome = c.members.any fun m => m.kind.word == type.name := by
  rw [sectionOf]
  split
  · rename_i hfilter
    rw [List.filter_eq_nil_iff] at hfilter
    simpa using hfilter
  · rename_i m ms hfilter
    have hmem : m ∈ c.members.filter fun m => m.kind.word == type.name := by simp [hfilter]
    obtain ⟨hm, hkind⟩ := List.mem_filter.mp hmem
    exact (List.any_eq_true.mpr ⟨m, hm, hkind⟩).symm

theorem map_name_sections (reg : Registry) (c : ClassDoc) :
    (sections reg c).map (·.type.name) =
      (reg.sections.map MemberType.name).filter fun name =>
        c.members.any fun m => m.kind.word == name := by
  rw [sections]
  induction reg.sections with
  | nil => rfl
  | cons type types ih =>
      rw [List.filterMap_cons, List.map_cons, List.filter_cons, ← isSome_sectionOf, ← ih]
      cases hsection : sectionOf c type with
      | none => rfl
      | some s =>
          obtain ⟨-, rfl⟩ := sectionOf_eq_some hsection
          rfl

/-- A section shows the members of its kind, each once. -/
theorem perm_members_of_sectionOf {c : ClassDoc} {s : Section} (hsorts : type.Sorts)
    (h : sectionOf c type = some s) :
    s.members.Perm (c.members.filter fun m => m.kind.word == type.name) := by
  obtain ⟨-, rfl⟩ := sectionOf_eq_some h
  exact perm_split hsorts _

theorem perm_flatMap_sectionOf {types : List MemberType} (c : ClassDoc)
    (hsorts : ∀ type ∈ types, type.Sorts) :
    ((types.filterMap (sectionOf c)).flatMap Section.members).Perm
      (types.flatMap fun type => c.members.filter fun m => m.kind.word == type.name) := by
  induction types with
  | nil => exact List.Perm.refl _
  | cons type types ih =>
      obtain ⟨htype, htypes⟩ := List.forall_mem_cons.mp hsorts
      rw [List.filterMap_cons, List.flatMap_cons]
      cases hsection : sectionOf c type with
      | none =>
          have hany := isSome_sectionOf c type
          rw [hsection, Option.isSome_none, eq_comm, List.any_eq_false] at hany
          rw [List.filter_eq_nil_iff.mpr hany, List.nil_append]
          exact ih htypes
      | some s =>
          rw [List.flatMap_cons]
          exact (perm_members_of_sectionOf htype hsection).append (ih htypes)

end Sections

/-! ### The sections of the standard tags -/

section Standard

variable {reg : Registry} (hreg : Registry.ofTags Tag.standard = .ok reg)
include hreg

theorem sections_standard :
    reg.sections = [Tag.cfg, .property, .method, .event, .cssVar, .cssMixin].filterMap
      Tag.memberType := by
  have hvalues : Table.values reg.memberTypes =
      [Tag.cfg, .property, .method, .event, .cssVar, .cssMixin].filterMap Tag.memberType := by
    rw [Registry.memberTypes_ofTags hreg]
    rfl
  rw [Registry.sections, hvalues]
  exact List.mergeSort_of_pairwise (by decide +kernel)

theorem names_sections_standard :
    reg.sections.map MemberType.name = MemberKind.all.map MemberKind.word := by
  rw [sections_standard hreg]
  rfl

theorem exists_of_mem_sections_standard {type : MemberType} (h : type ∈ reg.sections) :
    ∃ t ∈ [Tag.cfg, .property, .method, .event, .cssVar, .cssMixin], t.memberType = some type := by
  rw [sections_standard hreg] at h
  exact List.mem_filterMap.mp h

theorem memberType?_standard {type : MemberType} (h : type ∈ reg.sections) :
    reg.memberType? type.name = some type := by
  obtain ⟨t, ht, htype⟩ := exists_of_mem_sections_standard hreg h
  rw [Registry.memberType?, Registry.memberTypes_ofTags hreg]
  simp only [List.mem_cons, List.not_mem_nil, or_false] at ht
  rcases ht with rfl | rfl | rfl | rfl | rfl | rfl <;>
    (obtain rfl := Option.some.inj htype; rfl)

theorem sorts_standard {type : MemberType} (h : type ∈ reg.sections) : type.Sorts := by
  obtain ⟨t, ht, htype⟩ := exists_of_mem_sections_standard hreg h
  simp only [List.mem_cons, List.not_mem_nil, or_false] at ht
  rcases ht with rfl | rfl | rfl | rfl | rfl | rfl <;> obtain rfl := Option.some.inj htype
  · exact Or.inr (Subsection.shareOut_pair rfl rfl)
  · exact Or.inr (Subsection.shareOut_pair rfl rfl)
  · exact Or.inr (Subsection.shareOut_pair rfl rfl)
  · exact Or.inl rfl
  · exact Or.inl rfl
  · exact Or.inl rfl

end Standard

/-- **Sections share out the members.** With the standard tags a page has a section for each kind of
which the class has members, in a fixed order. Each member stands in one view of the section of its
kind. No view is empty, each keeps the order of the class, and a title is hidden where the section
is not divided or its default subsection takes all members of the kind. -/
theorem sections_share_members {reg : Registry} (hreg : Registry.ofTags Tag.standard = .ok reg)
    (c : ClassDoc) :
    (sections reg c).map (·.type.name) =
        (MemberKind.all.filter fun kind => c.members.any (·.kind = kind)).map MemberKind.word ∧
      ((sections reg c).flatMap Section.members).Perm c.members ∧
      ∀ s ∈ sections reg c, ∃ kind : MemberKind,
        s.type.name = kind.word ∧ reg.memberType? kind.word = some s.type ∧
          s.members.Perm (c.members.filter (·.kind = kind)) ∧
          ∀ v ∈ s.views, v.members ≠ [] ∧ v.members.Sublist c.members ∧
            (v.showTitle = false ↔ s.type.subsections = [] ∨ ∃ d ∈ s.type.subsections,
              d.isDefault = true ∧
                ∀ m ∈ c.members, m.kind = kind → d.accepts m.attributes = true) := by
  have hword : ∀ (m : Member) (kind : MemberKind),
      (m.kind.word == kind.word) = decide (m.kind = kind) := by
    intro m kind
    rw [Bool.eq_iff_iff, beq_iff_eq, decide_eq_true_eq]
    exact ⟨MemberKind.word_injective, congrArg MemberKind.word⟩
  refine ⟨?_, ?_, ?_⟩
  · rw [map_name_sections, names_sections_standard hreg, List.filter_map]
    simp only [Function.comp_def, hword]
  · refine (perm_flatMap_sectionOf c fun type htype => sorts_standard hreg htype).trans ?_
    have hnames : (reg.sections.flatMap fun type =>
        c.members.filter fun m => m.kind.word == type.name) =
        MemberKind.all.flatMap fun kind => c.members.filter (·.kind = kind) := by
      rw [← List.flatMap_map MemberType.name fun name => c.members.filter (·.kind.word == name),
        names_sections_standard hreg, List.flatMap_map]
      simp only [hword]
    rw [hnames]
    have hapart : MemberKind.all.Pairwise fun i j =>
        ∀ m : Member, decide (m.kind = i) = true → decide (m.kind = j) = false := by
      have hne : MemberKind.all.Pairwise (· ≠ ·) := by decide
      refine hne.imp fun hij m hi => ?_
      rw [decide_eq_true_eq] at hi
      rw [hi, decide_eq_false_iff_not]
      exact hij
    refine (perm_flatMap_filter hapart c.members).trans ?_
    rw [List.filter_eq_self.mpr fun m _ => by cases m.kind <;> rfl]
  · intro s hs
    obtain ⟨type, htype, hsection⟩ := List.mem_filterMap.mp hs
    obtain ⟨kind, -, hkind⟩ : ∃ kind ∈ MemberKind.all, kind.word = type.name := by
      rw [← List.mem_map, ← names_sections_standard hreg]
      exact List.mem_map_of_mem htype
    have hsorts := sorts_standard hreg htype
    have hperm := perm_members_of_sectionOf hsorts hsection
    obtain ⟨hne, rfl⟩ := sectionOf_eq_some hsection
    simp only [← hkind, hword] at hperm hne ⊢
    refine ⟨kind, rfl, hkind ▸ memberType?_standard hreg htype, hperm, fun v hv => ?_⟩
    obtain ⟨hmembers, hsublist, hshow⟩ := mem_split hsorts hne hv
    refine ⟨hmembers, hsublist.trans List.filter_sublist, hshow.trans ?_⟩
    simp only [List.mem_filter, decide_eq_true_eq, and_imp]

/-- Methods and config options that leave their subsection to a value of some other kind. -/
def assortedClass : ClassDoc :=
  { name := "Btn"
    members := [
      { id := "method-hide", owner := "Btn", name := "hide", attributes := [("static", .int 0)] },
      { id := "cfg-text", owner := "Btn", kind := .cfg, name := "text",
        attributes := [("required", .list [])] },
      { id := "method-of", owner := "Btn", name := "of", attributes := [("static", .text "no")] },
      { id := "cfg-icon", owner := "Btn", kind := .cfg, name := "icon" }] }

theorem sections_share_members_assorted : ∃ reg, Registry.ofTags Tag.standard = .ok reg ∧
    (sections reg assortedClass).map (·.type.name) = ["cfg", "method"] ∧
      ((sections reg assortedClass).flatMap Section.members).Perm assortedClass.members ∧
      ∀ s ∈ sections reg assortedClass, ∀ v ∈ s.views, v.members ≠ [] := by
  obtain ⟨reg, hreg⟩ : ∃ reg, Registry.ofTags Tag.standard = .ok reg := ⟨_, rfl⟩
  obtain ⟨hnames, hperm, hviews⟩ := sections_share_members hreg assortedClass
  refine ⟨reg, hreg, hnames.trans (by decide), hperm, fun s hs v hv => ?_⟩
  obtain ⟨kind, -, -, -, hshown⟩ := hviews s hs
  exact (hshown v hv).1

end Page

end ApiPages
