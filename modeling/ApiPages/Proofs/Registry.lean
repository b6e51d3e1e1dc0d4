import ApiPages.Proofs.Except
import ApiPages.Proofs.Table
import ApiPages.Registry
import Mathlib.Data.List.Induction

/-!
# Registries and their indices

Tags agree with each other where no two of them claim the same name. Tag by tag a registry takes
tags that agree, and stops at the first one that does not. Its indices list the tags under all that
they claim, so what an index finds is the one tag that claims it.
-/

namespace ApiPages

namespace Scope

/-- A word for a group of kinds, or for one kind of members. -/
def Known (token : String) : Prop :=
  token ∈ ["class", "member", "method_like", "property_like", "all"] ∨
    ∃ kind : MemberKind, token = kind.word

theorem known_iff {token : String} : Known token ↔ ∃ scope, ofWord? token = some scope := by
  constructor
  · rintro (hgroup | ⟨kind, rfl⟩)
    · simp only [List.mem_cons, List.not_mem_nil, or_false] at hgroup
      rcases hgroup with rfl | rfl | rfl | rfl | rfl <;> exact ⟨_, rfl⟩
    · cases kind <;> exact ⟨_, rfl⟩
  · rintro ⟨scope, h⟩
    unfold ofWord? at h
    split at h
    case h_6 =>
      obtain ⟨kind, hkind, -⟩ := Option.map_eq_some_iff.mp h
      have hword : kind.word = token := by simpa using List.find?_some hkind
      exact Or.inr ⟨kind, hword.symm⟩
    all_goals exact Or.inl (by decide)

theorem ofWord_eq_ok_iff {token : String} : (∃ scope, ofWord token = .ok scope) ↔ Known token := by
  rw [known_iff, ofWord]
  cases ofWord? token with
  | none => exact ⟨fun ⟨_, h⟩ => (nomatch h), fun ⟨_, h⟩ => (nomatch h)⟩
  | some scope => exact ⟨fun _ => ⟨scope, rfl⟩, fun _ => ⟨scope, rfl⟩⟩

theorem ofWord_eq_error_iff {token : String} {fault : Fault} :
    ofWord token = .error fault ↔ ¬ Known token ∧ fault = .unknownScope token := by
  rw [known_iff, ofWord]
  cases ofWord? token with
  | none => simp [eq_comm]
  | some scope => simp

end Scope

namespace Tag

/-- The names that a text stands for: an empty one for none, any other for itself. -/
def named (key : String) : List String :=
  if key = "" then [] else [key]

theorem mem_named {key name : String} : name ∈ named key ↔ name ≠ "" ∧ key = name := by
  rw [named]
  split
  · rename_i hempty
    simp [hempty, eq_comm]
  · rename_i hkey
    rw [List.mem_singleton]
    exact ⟨fun h => ⟨h ▸ hkey, h.symm⟩, fun h => h.2.symm⟩

def tagnames (t : Tag) : List String :=
  named t.key

def declarationKeys (t : Tag) : List String :=
  named t.declarationKey

theorem mem_tagnames {t : Tag} {name : String} : name ∈ t.tagnames ↔ name ≠ "" ∧ t.key = name :=
  mem_named

theorem key_eq_iff {t : Tag} {name : String} (hname : name ≠ "") :
    t.key = name ↔ t.tagname = some name := by
  rw [key]
  cases t.tagname with
  | none => simpa using hname.symm
  | some _ => simp

theorem kinds_eq_ok_iff {t : Tag} :
    (∃ kinds, t.kinds = .ok kinds) ↔ ∀ token ∈ t.scope, Scope.Known token := by
  simp only [← Scope.ofWord_eq_ok_iff]
  rw [← ApiPages.Except.mapM_eq_ok_iff]
  simp only [kinds, ApiPages.Except.bind_eq_ok_iff]
  exact ⟨fun ⟨_, scopes, hscopes, _⟩ => ⟨scopes, hscopes⟩,
    fun ⟨scopes, hscopes⟩ => ⟨_, scopes, hscopes, rfl⟩⟩

theorem kinds_eq_error_iff {t : Tag} {fault : Fault} :
    t.kinds = .error fault ↔ ∃ known token rest, t.scope = known ++ token :: rest ∧
      (∀ word ∈ known, Scope.Known word) ∧ ¬ Scope.Known token ∧ fault = .unknownScope token := by
  rw [kinds, ApiPages.Except.bind_eq_error_iff, ApiPages.Except.mapM_eq_error_iff]
  simp only [Scope.ofWord_eq_ok_iff, Scope.ofWord_eq_error_iff]
  exact ⟨fun h => h.resolve_right fun ⟨_, _, h⟩ => (nomatch h), Or.inl⟩

end Tag

/-! ### Tags that agree -/

/-- Tags that can be used together: no name is claimed twice, be it by two tags or by one, and all
scopes are known. -/
structure Tag.Consistent (tags : List Tag) : Prop where
  patterns : (tags.flatMap Tag.patterns).Nodup
  tagnames : (tags.flatMap Tag.tagnames).Nodup
  declarationKeys : (tags.flatMap Tag.declarationKeys).Nodup
  scopes : ∀ t ∈ tags, ∀ token ∈ t.scope, Scope.Known token

/-- The first of some names that is taken, by names given before or by another one of them. -/
def Tag.FirstTaken (given names : List String) (name : String) : Prop :=
  ∃ free rest, names = free ++ name :: rest ∧ (given ++ free).Nodup ∧ name ∈ given ++ free

/-- What is wrong with a tag behind some others: a pattern, else its tagname, else its declaration
key is taken, else a word of its scope is not known. -/
inductive Tag.Offends (earlier : List Tag) (t : Tag) : Fault → Prop
  | pattern {pattern : String}
      (htaken : FirstTaken (earlier.flatMap Tag.patterns) t.patterns pattern) :
      Offends earlier t (.patternTaken pattern)
  | tagname {name : String} (hpatterns : ((earlier ++ [t]).flatMap Tag.patterns).Nodup)
      (htaken : FirstTaken (earlier.flatMap Tag.tagnames) t.tagnames name) :
      Offends earlier t (.tagnameTaken name)
  | declarationKey {key : String} (hpatterns : ((earlier ++ [t]).flatMap Tag.patterns).Nodup)
      (htagnames : ((earlier ++ [t]).flatMap Tag.tagnames).Nodup)
      (htaken : FirstTaken (earlier.flatMap Tag.declarationKeys) t.declarationKeys key) :
      Offends earlier t (.declarationKeyTaken key)
  | scope {known rest : List String} {token : String}
      (hpatterns : ((earlier ++ [t]).flatMap Tag.patterns).Nodup)
      (htagnames : ((earlier ++ [t]).flatMap Tag.tagnames).Nodup)
      (hkeys : ((earlier ++ [t]).flatMap Tag.declarationKeys).Nodup)
      (hscope : t.scope = known ++ token :: rest) (hknown : ∀ word ∈ known, Scope.Known word)
      (hunknown : ¬ Scope.Known token) :
      Offends earlier t (.unknownScope token)

theorem Tag.consistent_nil : Consistent [] where
  patterns := List.nodup_nil
  tagnames := List.nodup_nil
  declarationKeys := List.nodup_nil
  scopes _ h := absurd h List.not_mem_nil

theorem Tag.Consistent.of_append {earlier later : List Tag} (h : Consistent (earlier ++ later)) :
    Consistent earlier := by
  have hfirst : ∀ claims : Tag → List String, ((earlier ++ later).flatMap claims).Nodup →
      (earlier.flatMap claims).Nodup := by
    intro claims hall
    rw [List.flatMap_append] at hall
    exact (List.nodup_append.mp hall).1
  exact ⟨hfirst _ h.patterns, hfirst _ h.tagnames, hfirst _ h.declarationKeys,
    fun t ht => h.scopes t (List.mem_append_left _ ht)⟩

namespace Registry

/-! ### Indices -/

/-- An index of tags, in which each stands under all names that it claims. -/
def entries (claims : Tag → List String) (tags : List Tag) : Table String Tag :=
  tags.flatMap fun t => (claims t).map fun name => (name, t)

section Entries

variable {claims : Tag → List String} {tags : List Tag}

theorem keys_entries : Table.keys (entries claims tags) = tags.flatMap claims := by
  simp [Table.keys, entries, List.map_flatMap, Function.comp_def]

theorem entries_concat (t : Tag) :
    entries claims (tags ++ [t]) = entries claims tags ++ (claims t).map fun name => (name, t) := by
  rw [entries, List.flatMap_append, List.flatMap_singleton]
  rfl

theorem mem_entries {name : String} {t : Tag} :
    (name, t) ∈ entries claims tags ↔ t ∈ tags ∧ name ∈ claims t := by
  rw [entries, List.mem_flatMap]
  constructor
  · rintro ⟨u, hu, hmem⟩
    obtain ⟨_, hname, heq⟩ := List.mem_map.mp hmem
    cases heq
    exact ⟨hu, hname⟩
  · rintro ⟨ht, hname⟩
    exact ⟨t, ht, List.mem_map_of_mem hname⟩

/-- Where no name is claimed twice, a name finds the tag that claims it. -/
theorem get?_entries (hclaims : (tags.flatMap claims).Nodup) {name : String} {t : Tag} :
    Table.get? (entries claims tags) name = some t ↔ t ∈ tags ∧ name ∈ claims t := by
  rw [← mem_entries]
  exact ⟨Table.mem_of_get?, Table.get?_of_mem (keys_entries ▸ hclaims)⟩

theorem toList_get?_entries (hclaims : (tags.flatMap claims).Nodup) (name : String) :
    (Table.get? (entries claims tags) name).toList = tags.filter fun t => name ∈ claims t := by
  induction tags with
  | nil => rfl
  | cons t tags ih =>
      obtain ⟨-, hlater, hapart⟩ := List.nodup_append.mp hclaims
      by_cases hname : name ∈ claims t
      · have hnone : (tags.filter fun u => name ∈ claims u) = [] := by
          rw [List.filter_eq_nil_iff]
          intro u hu hmem
          have hlisted : name ∈ tags.flatMap claims :=
            List.mem_flatMap.mpr ⟨u, hu, of_decide_eq_true hmem⟩
          exact hapart name hname name hlisted rfl
        rw [(get?_entries hclaims).mpr ⟨List.mem_cons_self, hname⟩,
          List.filter_cons_of_pos (by simpa using hname), hnone]
        rfl
      · have hnone : Table.get? ((claims t).map fun name => (name, t)) name = none := by
          rw [Option.eq_none_iff_forall_ne_some]
          intro u hu
          obtain ⟨_, hmem, heq⟩ := List.mem_map.mp (Table.mem_of_get? hu)
          cases heq
          exact hname hmem
        have hsplit : entries claims (t :: tags) =
            (claims t).map (fun name => (name, t)) ++ entries claims tags := rfl
        rw [hsplit, Table.get?_append, hnone, Option.none_or,
          List.filter_cons_of_neg (by simpa using hname), ih hlater]

end Entries

/-! ### Claims -/

section Claims

variable {t : Tag} {fault : String → Fault} {index index' : Table String Tag}

theorem claim_eq_ok_iff {name : String} :
    claim t fault index name = .ok index' ↔
      name ∉ Table.keys index ∧ index' = index ++ [(name, t)] := by
  rw [claim, ← Table.contains_iff_mem_keys]
  split
  · rename_i htaken
    simp [htaken]
  · rename_i hfree
    simp [hfree, eq_comm]

theorem claim_eq_error_iff {name : String} {e : Fault} :
    claim t fault index name = .error e ↔ name ∈ Table.keys index ∧ e = fault name := by
  rw [claim, ← Table.contains_iff_mem_keys]
  split
  · rename_i htaken
    simp [htaken, eq_comm]
  · rename_i hfree
    simp [hfree]

theorem claimIfNamed_eq_foldlM (key : String) :
    claimIfNamed t fault index key = (Tag.named key).foldlM (claim t fault) index := by
  rw [claimIfNamed, Tag.named]
  split
  · rfl
  · exact (bind_pure _).symm

theorem foldlM_claim_eq_ok_iff {names : List String} (hindex : (Table.keys index).Nodup) :
    names.foldlM (claim t fault) index = .ok index' ↔
      (Table.keys index ++ names).Nodup ∧ index' = index ++ names.map fun name => (name, t) := by
  induction names generalizing index with
  | nil =>
      rw [List.append_nil, List.map_nil, List.append_nil]
      exact ⟨fun h => ⟨hindex, (Except.ok.inj h).symm⟩, fun h => congrArg Except.ok h.2.symm⟩
  | cons name names ih =>
      have hkeys : Table.keys (index ++ [(name, t)]) = Table.keys index ++ [name] := by
        simp [Table.keys]
      rw [List.foldlM_cons, ApiPages.Except.bind_eq_ok_iff]
      simp only [claim_eq_ok_iff]
      constructor
      · rintro ⟨_, ⟨hfree, rfl⟩, h⟩
        have hindex' : (Table.keys (index ++ [(name, t)])).Nodup := by
          rw [hkeys, List.nodup_append]
          refine ⟨hindex, List.nodup_singleton name, fun other hother key hkey => ?_⟩
          rw [List.mem_singleton.mp hkey]
          exact fun heq => hfree (heq ▸ hother)
        obtain ⟨hnodup, rfl⟩ := (ih hindex').mp h
        rw [hkeys, List.append_assoc] at hnodup
        exact ⟨hnodup, by simp⟩
      · rintro ⟨hnodup, rfl⟩
        rw [← List.singleton_append, ← List.append_assoc, ← hkeys] at hnodup
        have hindex' := (List.nodup_append.mp hnodup).1
        refine ⟨_, ⟨fun htaken => ?_, rfl⟩, (ih hindex').mpr ⟨hnodup, by simp⟩⟩
        rw [hkeys] at hindex'
        exact (List.nodup_append.mp hindex').2.2 name htaken name (List.mem_singleton_self name) rfl

theorem foldlM_claim_eq_error_iff {names : List String} (hindex : (Table.keys index).Nodup)
    {e : Fault} :
    names.foldlM (claim t fault) index = .error e ↔
      ∃ name, Tag.FirstTaken (Table.keys index) names name ∧ e = fault name := by
  have hkeys : ∀ free : List String, Table.keys (index ++ free.map fun name => (name, t)) =
      Table.keys index ++ free := fun free => by simp [Table.keys, Function.comp_def]
  rw [ApiPages.Except.foldlM_eq_error_iff]
  simp only [foldlM_claim_eq_ok_iff hindex, claim_eq_error_iff]
  constructor
  · rintro ⟨free, name, rest, _, rfl, ⟨hfree, rfl⟩, htaken, rfl⟩
    rw [hkeys] at htaken
    exact ⟨name, ⟨free, rest, rfl, hfree, htaken⟩, rfl⟩
  · rintro ⟨name, ⟨free, rest, rfl, hfree, htaken⟩, rfl⟩
    exact ⟨free, name, rest, _, rfl, ⟨hfree, rfl⟩, (hkeys free).symm ▸ htaken, rfl⟩

variable {claims : Tag → List String} {earlier : List Tag}

theorem enter_eq_ok_iff (hearlier : (earlier.flatMap claims).Nodup) :
    (claims t).foldlM (claim t fault) (entries claims earlier) = .ok index ↔
      ((earlier ++ [t]).flatMap claims).Nodup ∧ index = entries claims (earlier ++ [t]) := by
  rw [foldlM_claim_eq_ok_iff (keys_entries ▸ hearlier), keys_entries, entries_concat,
    List.flatMap_append, List.flatMap_singleton]

theorem enter_eq_error_iff (hearlier : (earlier.flatMap claims).Nodup) {e : Fault} :
    (claims t).foldlM (claim t fault) (entries claims earlier) = .error e ↔
      ∃ name, Tag.FirstTaken (earlier.flatMap claims) (claims t) name ∧ e = fault name := by
  rw [foldlM_claim_eq_error_iff (keys_entries ▸ hearlier), keys_entries]

end Claims

/-! ### Registration -/

/-- The registry of some tags, once they are all in it. -/
def listing (tags : List Tag) : Registry where
  tags
  byPattern := entries Tag.patterns tags
  byTagname := entries Tag.tagnames tags
  byDeclaration := entries Tag.declarationKeys tags
  memberTypes := tags.foldl (fun types t => addMemberType types t.memberType) []

section Register

variable {earlier : List Tag} (hearlier : Tag.Consistent earlier) {t : Tag}
include hearlier

theorem register_eq_ok_iff {reg : Registry} :
    register (listing earlier) t = .ok reg ↔
      Tag.Consistent (earlier ++ [t]) ∧ reg = listing (earlier ++ [t]) := by
  simp only [register, ApiPages.Except.bind_eq_ok_iff, claimIfNamed_eq_foldlM]
  constructor
  · rintro ⟨_, hpattern, _, htagname, _, hkey, kinds, hkinds, hreg⟩
    obtain ⟨hpatterns, rfl⟩ := (enter_eq_ok_iff hearlier.patterns).mp hpattern
    obtain ⟨htagnames, rfl⟩ := (enter_eq_ok_iff hearlier.tagnames).mp htagname
    obtain ⟨hkeys, rfl⟩ := (enter_eq_ok_iff hearlier.declarationKeys).mp hkey
    obtain rfl := Except.ok.inj hreg
    refine ⟨⟨hpatterns, htagnames, hkeys, ?_⟩, ?_⟩
    · refine List.forall_mem_append.mpr ⟨hearlier.scopes, List.forall_mem_singleton.mpr ?_⟩
      exact Tag.kinds_eq_ok_iff.mp ⟨kinds, hkinds⟩
    · simp [listing]
  · rintro ⟨hall, rfl⟩
    obtain ⟨kinds, hkinds⟩ := Tag.kinds_eq_ok_iff.mpr (hall.scopes t (by simp))
    exact ⟨_, (enter_eq_ok_iff hearlier.patterns).mpr ⟨hall.patterns, rfl⟩,
      _, (enter_eq_ok_iff hearlier.tagnames).mpr ⟨hall.tagnames, rfl⟩,
      _, (enter_eq_ok_iff hearlier.declarationKeys).mpr ⟨hall.declarationKeys, rfl⟩,
      kinds, hkinds, by simp [listing]; rfl⟩

theorem register_eq_error_iff {fault : Fault} :
    register (listing earlier) t = .error fault ↔ Tag.Offends earlier t fault := by
  simp only [register, ApiPages.Except.bind_eq_error_iff, claimIfNamed_eq_foldlM]
  constructor
  · rintro (h | ⟨_, hpattern, h | ⟨_, htagname, h | ⟨_, hkey, h | ⟨_, -, h⟩⟩⟩⟩)
    · obtain ⟨pattern, htaken, rfl⟩ := (enter_eq_error_iff hearlier.patterns).mp h
      exact .pattern htaken
    all_goals obtain ⟨hpatterns, -⟩ := (enter_eq_ok_iff hearlier.patterns).mp hpattern
    · obtain ⟨name, htaken, rfl⟩ := (enter_eq_error_iff hearlier.tagnames).mp h
      exact .tagname hpatterns htaken
    all_goals obtain ⟨htagnames, -⟩ := (enter_eq_ok_iff hearlier.tagnames).mp htagname
    · obtain ⟨key, htaken, rfl⟩ := (enter_eq_error_iff hearlier.declarationKeys).mp h
      exact .declarationKey hpatterns htagnames htaken
    · obtain ⟨hkeys, -⟩ := (enter_eq_ok_iff hearlier.declarationKeys).mp hkey
      obtain ⟨known, token, rest, hscope, hknown, hunknown, rfl⟩ := Tag.kinds_eq_error_iff.mp h
      exact .scope hpatterns htagnames hkeys hscope hknown hunknown
    · cases h
  · rintro (⟨htaken⟩ | ⟨hpatterns, htaken⟩ | ⟨hpatterns, htagnames, htaken⟩ |
      ⟨hpatterns, htagnames, hkeys, hscope, hknown, hunknown⟩)
    · exact Or.inl ((enter_eq_error_iff hearlier.patterns).mpr ⟨_, htaken, rfl⟩)
    all_goals
      refine Or.inr ⟨_, (enter_eq_ok_iff hearlier.patterns).mpr ⟨hpatterns, rfl⟩, ?_⟩
    · exact Or.inl ((enter_eq_error_iff hearlier.tagnames).mpr ⟨_, htaken, rfl⟩)
    all_goals
      refine Or.inr ⟨_, (enter_eq_ok_iff hearlier.tagnames).mpr ⟨htagnames, rfl⟩, ?_⟩
    · exact Or.inl ((enter_eq_error_iff hearlier.declarationKeys).mpr ⟨_, htaken, rfl⟩)
    · refine Or.inr ⟨_, (enter_eq_ok_iff hearlier.declarationKeys).mpr ⟨hkeys, rfl⟩, Or.inl ?_⟩
      exact Tag.kinds_eq_error_iff.mpr ⟨_, _, _, hscope, hknown, hunknown, rfl⟩

end Register

/-- A registry can be made of tags that agree, and of no others. -/
theorem ofTags_eq_ok_iff {tags : List Tag} {reg : Registry} :
    ofTags tags = .ok reg ↔ Tag.Consistent tags ∧ reg = listing tags := by
  induction tags using List.reverseRecOn generalizing reg with
  | nil => exact ⟨fun h => ⟨Tag.consistent_nil, (Except.ok.inj h).symm⟩, fun h => h.2 ▸ rfl⟩
  | append_singleton tags t ih =>
      have hsteps : ofTags (tags ++ [t]) = ofTags tags >>= fun reg => register reg t := by
        simp only [ofTags, List.foldlM_append, List.foldlM_cons, List.foldlM_nil, bind_pure]
      rw [hsteps, ApiPages.Except.bind_eq_ok_iff]
      constructor
      · rintro ⟨_, hearlier, h⟩
        obtain ⟨hconsistent, rfl⟩ := ih.mp hearlier
        exact (register_eq_ok_iff hconsistent).mp h
      · rintro ⟨hall, rfl⟩
        have hconsistent := hall.of_append
        exact ⟨_, ih.mpr ⟨hconsistent, rfl⟩, (register_eq_ok_iff hconsistent).mpr ⟨hall, rfl⟩⟩

/-- What keeps a registry from being made is wrong with the first tag that does not agree with
those before it. -/
theorem ofTags_eq_error_iff {tags : List Tag} {fault : Fault} :
    ofTags tags = .error fault ↔ ∃ earlier t later, tags = earlier ++ t :: later ∧
      Tag.Consistent earlier ∧ Tag.Offends earlier t fault := by
  rw [ofTags, ApiPages.Except.foldlM_eq_error_iff]
  constructor
  · rintro ⟨earlier, t, later, reg, rfl, hearlier, h⟩
    obtain ⟨hconsistent, rfl⟩ := ofTags_eq_ok_iff.mp hearlier
    exact ⟨earlier, t, later, rfl, hconsistent, (register_eq_error_iff hconsistent).mp h⟩
  · rintro ⟨earlier, t, later, rfl, hconsistent, hoffends⟩
    exact ⟨earlier, t, later, _, rfl, ofTags_eq_ok_iff.mpr ⟨hconsistent, rfl⟩,
      (register_eq_error_iff hconsistent).mpr hoffends⟩

section OfTags

variable {tags : List Tag} {reg : Registry} (h : ofTags tags = .ok reg)
include h

theorem tags_ofTags : reg.tags = tags := by
  rw [(ofTags_eq_ok_iff.mp h).2, listing]

theorem memberTypes_ofTags :
    reg.memberTypes = tags.foldl (fun types t => addMemberType types t.memberType) [] := by
  rw [(ofTags_eq_ok_iff.mp h).2, listing]

theorem findByPattern_eq_some_iff {pattern : String} {t : Tag} :
    reg.findByPattern pattern = some t ↔ t ∈ tags ∧ pattern ∈ t.patterns := by
  obtain ⟨hconsistent, rfl⟩ := ofTags_eq_ok_iff.mp h
  exact get?_entries hconsistent.patterns

theorem findByTagname_eq_some_iff {tagname : String} {t : Tag} :
    reg.findByTagname tagname = some t ↔ t ∈ tags ∧ tagname ≠ "" ∧ t.key = tagname := by
  obtain ⟨hconsistent, rfl⟩ := ofTags_eq_ok_iff.mp h
  rw [← Tag.mem_tagnames]
  exact get?_entries hconsistent.tagnames

theorem mem_of_findByPattern {pattern : String} {t : Tag}
    (hfind : reg.findByPattern pattern = some t) : t ∈ tags :=
  ((findByPattern_eq_some_iff h).mp hfind).1

end OfTags

theorem mem_pluginsFor_iff {reg : Registry} {kind : Kind} {t : Tag} :
    t ∈ reg.pluginsFor kind ↔ t ∈ reg.tags ∧ t.covers kind = true := by
  rw [pluginsFor, List.mem_mergeSort, List.mem_filter]

theorem mem_of_mem_pluginsFor {reg : Registry} {kind : Kind} {t : Tag}
    (h : t ∈ reg.pluginsFor kind) : t ∈ reg.tags :=
  (mem_pluginsFor_iff.mp h).1

theorem mem_of_mem_renderOrder {reg : Registry} {kind : Kind} {t : Tag}
    (h : t ∈ reg.renderOrder kind) : t ∈ reg.tags :=
  mem_of_mem_pluginsFor (List.mem_filter.mp h).1

theorem nodup_keys_pluginsFor {reg : Registry} (h : (reg.tags.map Tag.key).Nodup) (kind : Kind) :
    ((reg.pluginsFor kind).map Tag.key).Nodup := by
  have hsorted := (List.mergeSort_perm (reg.tags.filter (·.covers kind))
    fun a b => positionLe a.position b.position).map Tag.key
  refine hsorted.nodup_iff.mpr (h.sublist ?_)
  exact (List.filter_sublist (p := (·.covers kind))).map Tag.key

theorem nodup_keys_renderOrder {reg : Registry} (h : (reg.tags.map Tag.key).Nodup) (kind : Kind) :
    ((reg.renderOrder kind).map Tag.key).Nodup :=
  (nodup_keys_pluginsFor h kind).sublist (List.filter_sublist.map Tag.key)

/-- What the indices find is there, and goes by the name under which it is found. -/
structure Indexed (reg : Registry) : Prop where
  byPattern : ∀ pattern t, (pattern, t) ∈ reg.byPattern → t ∈ reg.tags
  byTagname : ∀ key t, (key, t) ∈ reg.byTagname → t ∈ reg.tags ∧ t.key = key
  byDeclaration : ∀ key t, (key, t) ∈ reg.byDeclaration → t ∈ reg.tags

theorem indexed_ofTags {tags : List Tag} {reg : Registry} (h : ofTags tags = .ok reg) :
    reg.Indexed := by
  obtain ⟨-, rfl⟩ := ofTags_eq_ok_iff.mp h
  constructor
  · exact fun pattern t hmem => (mem_entries.mp hmem).1
  · intro key t hmem
    obtain ⟨ht, hname⟩ := mem_entries.mp hmem
    exact ⟨ht, (Tag.mem_tagnames.mp hname).2⟩
  · exact fun key t hmem => (mem_entries.mp hmem).1

theorem values_entries_declarationKeys (tags : List Tag) :
    Table.values (entries Tag.declarationKeys tags) =
      tags.filter fun t => t.declarationKey ≠ "" := by
  induction tags with
  | nil => rfl
  | cons t tags ih =>
      have hsplit : Table.values (entries Tag.declarationKeys (t :: tags)) =
          t.declarationKeys.map (fun _ => t) ++ Table.values (entries Tag.declarationKeys tags) := by
        simp [Table.values, entries, Function.comp_def]
      rw [hsplit, ih, Tag.declarationKeys, Tag.named]
      split
      · rename_i hnone
        rw [List.filter_cons_of_neg (by simpa using hnone)]
        rfl
      · rename_i hsome
        rw [List.filter_cons_of_pos (by simpa using hsome)]
        rfl

/-- **Registries are made of tags that agree.** A registry can be made exactly of tags no two of
which claim the same name and whose scopes are known. Otherwise it is refused for what is wrong with
the first tag that does not agree with those before it: a pattern, else its tagname, else its
declaration key is taken, else its scope is not known. What a pattern, a tagname or a declaration
key finds then are all the tags that have it, hence one at most, and the tags with a declaration key
are listed in their order. -/
theorem ofTags_consistent (tags : List Tag) :
    ((∃ reg, ofTags tags = .ok reg) ↔ Tag.Consistent tags) ∧
      (∀ fault, ofTags tags = .error fault ↔ ∃ earlier t later, tags = earlier ++ t :: later ∧
        Tag.Consistent earlier ∧ Tag.Offends earlier t fault) ∧
      ∀ reg, ofTags tags = .ok reg →
        reg.tags = tags ∧
        reg.declarationTags = (tags.filter fun t => t.declarationKey ≠ "") ∧
        ∀ x : String,
          (reg.findByPattern x).toList = (tags.filter fun t => x ∈ t.patterns) ∧
          (reg.findByTagname x).toList = (tags.filter fun t => x ≠ "" ∧ t.tagname = some x) ∧
          (reg.findByDeclaration x).toList =
            tags.filter fun t => x ≠ "" ∧ t.declarationKey = x := by
  refine ⟨⟨fun ⟨_, h⟩ => (ofTags_eq_ok_iff.mp h).1, fun h => ⟨_, ofTags_eq_ok_iff.mpr ⟨h, rfl⟩⟩⟩,
    fun fault => ofTags_eq_error_iff, fun reg h => ?_⟩
  obtain ⟨hconsistent, rfl⟩ := ofTags_eq_ok_iff.mp h
  refine ⟨rfl, values_entries_declarationKeys tags, fun x => ⟨?_, ?_, ?_⟩⟩
  · exact toList_get?_entries hconsistent.patterns x
  · refine (toList_get?_entries hconsistent.tagnames x).trans (List.filter_congr fun t _ => ?_)
    have hiff : x ∈ t.tagnames ↔ x ≠ "" ∧ t.tagname = some x := by
      rw [Tag.mem_tagnames]
      exact and_congr_right Tag.key_eq_iff
    simp only [hiff]
  · refine (toList_get?_entries hconsistent.declarationKeys x).trans
      (List.filter_congr fun t _ => ?_)
    simp only [Tag.declarationKeys, Tag.mem_named]

end Registry

end ApiPages
