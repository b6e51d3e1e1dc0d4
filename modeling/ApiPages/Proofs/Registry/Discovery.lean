import ApiPages.Proofs.Except
import ApiPages.Proofs.Table
import ApiPages.Registry.Discovery
import Mathlib.Data.String.Basic

/-!
# Which tags are switched on

Tags are asked for by their names in small letters. Of the standard tags and those on offer behind
them, the first one of each name that is asked for is chosen, and a name that no tag has is refused.
What is left of the request after each offer is what no tag before had, so the request works as a
filter although it shrinks.
-/

namespace ApiPages

namespace Tag

/-- A tag that can be asked for. -/
def Named (t : Tag) : Prop :=
  ∃ name, t.name = .ok name

/-- The name that a tag is asked for by, in small letters. -/
def handle (t : Tag) : String :=
  Text.lower (t.name.toOption.getD "")

/-- The tags whose handle has a property and comes up for the first time, in their order. -/
def firstsOf (p : String → Prop) [DecidablePred p] (tags : List Tag) : List Tag :=
  (tags.zipIdx.filter fun entry =>
    p entry.1.handle ∧ entry.1.handle ∉ (tags.take entry.2).map handle).map Prod.fst

theorem named_of_key {t : Tag} (h : t.key ≠ "") : t.Named :=
  ⟨t.key, if_pos h⟩

theorem named_standard : ∀ t ∈ standard, t.Named := by
  have hkeys : ∀ t ∈ standard, t.key ≠ "" := by decide
  exact fun t ht => named_of_key (hkeys t ht)

section FirstsOf

variable {p : String → Prop} [DecidablePred p]

theorem firstsOf_append (xs ys : List Tag) :
    firstsOf p (xs ++ ys) =
      firstsOf p xs ++ firstsOf (fun key => p key ∧ key ∉ xs.map handle) ys := by
  have hfront : xs.zipIdx.filter (fun entry =>
        p entry.1.handle ∧ entry.1.handle ∉ ((xs ++ ys).take entry.2).map handle) =
      xs.zipIdx.filter fun entry =>
        p entry.1.handle ∧ entry.1.handle ∉ (xs.take entry.2).map handle := by
    refine List.filter_congr fun (t, i) hmem => ?_
    have hlt : i < xs.length := by
      have := (List.mem_zipIdx hmem).2.1
      omega
    rw [List.take_append_of_le_length hlt.le]
  have hback : (ys.zipIdx xs.length).filter (fun entry =>
        p entry.1.handle ∧ entry.1.handle ∉ ((xs ++ ys).take entry.2).map handle) =
      (ys.zipIdx.filter fun entry => (p entry.1.handle ∧ entry.1.handle ∉ xs.map handle) ∧
        entry.1.handle ∉ (ys.take entry.2).map handle).map fun entry =>
          (entry.1, xs.length + entry.2) := by
    rw [List.zipIdx_eq_map_add, List.filter_map]
    refine congrArg _ (List.filter_congr fun (t, i) _ => decide_eq_decide.mpr ?_)
    rw [List.take_length_add_append, List.map_append, List.mem_append, not_or, and_assoc]
  rw [firstsOf, List.zipIdx_append, List.filter_append, Nat.zero_add, hfront, hback,
    List.map_append, List.map_map]
  rfl

theorem firstsOf_singleton (t : Tag) : firstsOf p [t] = if p t.handle then [t] else [] := by
  by_cases h : p t.handle <;> simp [firstsOf, h]

theorem firstsOf_concat (tags : List Tag) (t : Tag) :
    firstsOf p (tags ++ [t]) =
      firstsOf p tags ++ if p t.handle ∧ t.handle ∉ tags.map handle then [t] else [] := by
  rw [firstsOf_append, firstsOf_singleton]

theorem mem_handles_firstsOf {tags : List Tag} {key : String} :
    key ∈ (firstsOf p tags).map handle ↔ p key ∧ key ∈ tags.map handle := by
  induction tags using List.reverseRecOn with
  | nil => simp [firstsOf]
  | append_singleton tags t ih =>
      rw [firstsOf_concat, List.map_append, List.mem_append, ih, List.map_append, List.mem_append,
        List.map_singleton, List.mem_singleton]
      by_cases h : p t.handle ∧ t.handle ∉ tags.map handle
      · rw [if_pos h, List.map_singleton, List.mem_singleton]
        constructor
        · rintro (⟨hp, hmem⟩ | rfl)
          · exact ⟨hp, Or.inl hmem⟩
          · exact ⟨h.1, Or.inr rfl⟩
        · rintro ⟨hp, hmem | rfl⟩
          · exact Or.inl ⟨hp, hmem⟩
          · exact Or.inr rfl
      · rw [if_neg h, List.map_nil]
        refine ⟨fun hmem => ?_, ?_⟩
        · obtain ⟨hp, hmem⟩ := hmem.resolve_right List.not_mem_nil
          exact ⟨hp, Or.inl hmem⟩
        · rintro ⟨hp, hmem | rfl⟩
          · exact Or.inl ⟨hp, hmem⟩
          · exact Or.inl ⟨hp, not_not.mp fun hnew => h ⟨hp, hnew⟩⟩

theorem nodup_handles_firstsOf (tags : List Tag) : ((firstsOf p tags).map handle).Nodup := by
  induction tags using List.reverseRecOn with
  | nil => exact List.nodup_nil
  | append_singleton tags t ih =>
      rw [firstsOf_concat]
      split
      · rename_i h
        rw [List.map_append, List.nodup_append]
        refine ⟨ih, List.nodup_singleton _, fun key hkey other hother heq => ?_⟩
        rw [List.mem_singleton.mp hother] at heq
        exact h.2 (mem_handles_firstsOf.mp (heq ▸ hkey)).2
      · rwa [List.append_nil]

theorem firstsOf_of_nodup {tags : List Tag} (h : (tags.map handle).Nodup) :
    firstsOf p tags = tags.filter fun t => p t.handle := by
  induction tags using List.reverseRecOn with
  | nil => rfl
  | append_singleton tags t ih =>
      rw [List.map_append, List.nodup_append] at h
      have hnew : t.handle ∉ tags.map handle := fun hmem =>
        h.2.2 _ hmem _ (List.mem_singleton_self _) rfl
      rw [firstsOf_concat, ih h.1, List.filter_append]
      by_cases hp : p t.handle
      · rw [if_pos ⟨hp, hnew⟩, List.filter_cons_of_pos (by simpa using hp), List.filter_nil]
      · rw [if_neg fun h => hp h.1, List.filter_cons_of_neg (by simpa using hp), List.filter_nil]

end FirstsOf

/-! ### What a request comes to -/

/-- Whether a request asks for a handle: without a list of names it asks for every one. -/
def Asked (enabled : Option (List String)) (key : String) : Prop :=
  ∀ names, enabled = some names → key ∈ names.map Text.lower

theorem asked_none (key : String) : Asked none key :=
  nofun

theorem asked_some {names : List String} {key : String} :
    Asked (some names) key ↔ key ∈ names.map Text.lower :=
  ⟨fun h => h names rfl, fun h _ heq => Option.some.inj heq ▸ h⟩

instance (enabled : Option (List String)) : DecidablePred (Asked enabled) := fun key =>
  match enabled with
  | none => .isTrue (asked_none key)
  | some _ => decidable_of_iff' _ asked_some

section Request

variable (enabled : Option (List String)) (tags : List Tag)

/-- A handle that a list of names asks for, and that no tag has. -/
def Unmet (key : String) : Prop :=
  enabled.isSome ∧ Asked enabled key ∧ key ∉ tags.map handle

/-- What a request comes to: it is refused for all handles that it asks for in vain, or else the
first tag of each handle that it asks for is chosen. -/
inductive Discovered : Except Fault (List Tag) → Prop
  | unknown {missing : List String} (hne : missing ≠ []) (hsorted : missing.Pairwise (· < ·))
      (hmissing : ∀ key, key ∈ missing ↔ Unmet enabled tags key) :
      Discovered (.error (.unknownTags missing))
  | chosen (hmet : ∀ key, ¬ Unmet enabled tags key) :
      Discovered (.ok (firstsOf (Asked enabled) tags))

variable {enabled tags}

/-- Requests that ask for the same handles come to the same, in whichever order and however often
they do. -/
theorem Discovered.unique {enabled' : Option (List String)}
    {result result' : Except Fault (List Tag)}
    (h : Discovered enabled tags result) (h' : Discovered enabled' tags result')
    (hsome : enabled.isSome = enabled'.isSome)
    (hsame : ∀ key, Asked enabled key ↔ Asked enabled' key) : result = result' := by
  have hunmet : ∀ key, Unmet enabled tags key ↔ Unmet enabled' tags key := fun key => by
    rw [Unmet, Unmet, hsome, hsame key]
  cases h with
  | @unknown missing hne hsorted hmissing =>
      cases h' with
      | @unknown missing' hne' hsorted' hmissing' =>
          have hperm : missing.Perm missing' := by
            have hnodup : missing.Nodup := hsorted.imp ne_of_lt
            have hnodup' : missing'.Nodup := hsorted'.imp ne_of_lt
            refine (List.perm_ext_iff_of_nodup hnodup hnodup').mpr fun key => ?_
            rw [hmissing, hmissing', hunmet]
          rw [hperm.eq_of_pairwise (fun a b _ _ hab hba => absurd hab hba.asymm) hsorted hsorted']
      | chosen hmet =>
          obtain ⟨key, rest, rfl⟩ := List.exists_cons_of_ne_nil hne
          exact absurd ((hunmet key).mp ((hmissing key).mp List.mem_cons_self)) (hmet key)
  | chosen hmet =>
      cases h' with
      | @unknown missing' hne' hsorted' hmissing' =>
          obtain ⟨key, rest, rfl⟩ := List.exists_cons_of_ne_nil hne'
          exact absurd ((hunmet key).mpr ((hmissing' key).mp List.mem_cons_self)) (hmet key)
      | chosen hmet' =>
          have hasked : Asked enabled = Asked enabled' := funext fun key => propext (hsame key)
          simp only [hasked]

end Request

end Tag

/-! ### Offers -/

namespace Selection

open Tag (Asked Unmet Named Discovered firstsOf handle)

/-- How a selection stands after some tags were offered. -/
def after (enabled : Option (List String)) (tags : List Tag) : Selection where
  wanted := enabled.map fun names => (names.map Text.lower).filter (· ∉ tags.map handle)
  chosen := firstsOf (Asked enabled) tags
  seen := (firstsOf (Asked enabled) tags).map handle

variable {enabled : Option (List String)}

theorem after_nil :
    after enabled [] = { wanted := enabled.map fun names => names.map Text.lower } := by
  cases enabled <;> simp [after, firstsOf]

theorem takes_after_iff {tags : List Tag} {key : String} :
    ((after enabled tags).wants key && !(after enabled tags).seen.contains key) = true ↔
      Asked enabled key ∧ key ∉ tags.map handle := by
  have hseen : (after enabled tags).seen.contains key = true ↔
      Asked enabled key ∧ key ∈ tags.map handle := by
    rw [List.contains_iff_mem]
    exact Tag.mem_handles_firstsOf
  have hwants : (after enabled tags).wants key = true ↔
      enabled = none ∨ Asked enabled key ∧ key ∉ tags.map handle := by
    cases enabled with
    | none => simp [after, wants]
    | some names => simp [after, wants, Tag.asked_some]
  rw [Bool.and_eq_true, Bool.not_eq_true', ← Bool.not_eq_true, hseen, hwants]
  constructor
  · rintro ⟨rfl | h, hnew⟩
    · exact ⟨Tag.asked_none key, fun hmem => hnew ⟨Tag.asked_none key, hmem⟩⟩
    · exact h
  · exact fun h => ⟨Or.inr h, fun hold => h.2 hold.2⟩

theorem wanted_after_concat (tags : List Tag) (t : Tag) :
    (after enabled (tags ++ [t])).wanted =
      (after enabled tags).wanted.map fun keys => keys.filter (· ≠ t.handle) := by
  simp only [after, Option.map_map]
  refine congrArg (Option.map · enabled) (funext fun names => ?_)
  rw [Function.comp_apply, List.filter_filter]
  refine List.filter_congr fun key _ => ?_
  simp [and_comm]

theorem wanted_after_concat_of_not {tags : List Tag} {t : Tag}
    (h : ¬ (Asked enabled t.handle ∧ t.handle ∉ tags.map handle)) :
    (after enabled (tags ++ [t])).wanted = (after enabled tags).wanted := by
  rw [wanted_after_concat]
  cases enabled with
  | none => rfl
  | some names =>
      refine congrArg some (List.filter_eq_self.mpr fun key hkey => decide_eq_true ?_)
      rintro rfl
      obtain ⟨hmem, hnew⟩ := List.mem_filter.mp hkey
      exact h ⟨Tag.asked_some.mpr hmem, of_decide_eq_true hnew⟩

/-- Either way the selection stands as it should behind one tag more. -/
theorem offer_after {tags : List Tag} {t : Tag} (ht : t.Named) :
    (after enabled tags).offer t = .ok (after enabled (tags ++ [t])) := by
  obtain ⟨name, hname⟩ := ht
  have hhandle : Text.lower name = t.handle := by rw [handle, hname]; rfl
  have hchosen := Tag.firstsOf_concat (p := Asked enabled) tags t
  rw [offer, hname]
  change Except.ok _ = _
  rw [hhandle]
  congr 1
  by_cases htakes : Asked enabled t.handle ∧ t.handle ∉ tags.map handle
  · rw [if_pos htakes] at hchosen
    rw [if_pos (takes_after_iff.mpr htakes), ← wanted_after_concat]
    simp only [after, hchosen, List.map_append, List.map_singleton]
  · rw [if_neg htakes, List.append_nil] at hchosen
    rw [if_neg fun h => htakes (takes_after_iff.mp h)]
    have hwanted := wanted_after_concat_of_not htakes
    simp only [after, hchosen] at hwanted ⊢
    rw [hwanted]

theorem foldlM_offer {later : List Tag} (h : ∀ t ∈ later, t.Named) (earlier : List Tag) :
    later.foldlM offer (after enabled earlier) = .ok (after enabled (earlier ++ later)) := by
  induction later generalizing earlier with
  | nil => rw [List.append_nil]; rfl
  | cons t later ih =>
      obtain ⟨ht, hlater⟩ := List.forall_mem_cons.mp h
      rw [List.foldlM_cons, offer_after ht]
      exact (ih hlater (earlier ++ [t])).trans (by rw [List.append_assoc]; rfl)

theorem foldlM_offerEntry {entries : List EntryPoint} {offered : List Tag}
    (h : List.Forall₂ (fun entry t => entry.load = .ok t) entries offered) (s : Selection) :
    entries.foldlM offerEntry s = offered.foldlM offer s := by
  induction h generalizing s with
  | nil => rfl
  | @cons entry t entries offered hload _ ih =>
      have hstep : s.offerEntry entry = s.offer t := by rw [offerEntry, hload]; rfl
      rw [List.foldlM_cons, List.foldlM_cons, hstep]
      exact bind_congr fun s' => ih s'

/-! ### What nobody had -/

theorem mem_missing_after {tags : List Tag} {key : String} :
    key ∈ (after enabled tags).missing ↔ Unmet enabled tags key := by
  rw [missing, List.mem_mergeSort, List.mem_eraseDups, Unmet]
  cases enabled with
  | none => simp [after]
  | some names =>
      rw [Tag.asked_some, after, Option.map_some, Option.getD_some, List.mem_filter,
        decide_eq_true_eq]
      simp

theorem missing_sorted (s : Selection) : s.missing.Pairwise (· < ·) := by
  have htrans : ∀ a b c : String, decide (a ≤ b) → decide (b ≤ c) → decide (a ≤ c) :=
    fun a b c hab hbc => decide_eq_true (le_trans (of_decide_eq_true hab) (of_decide_eq_true hbc))
  have htotal : ∀ a b : String, decide (a ≤ b) || decide (b ≤ a) := fun a b => by
    simpa using le_total a b
  have hsorted := List.pairwise_mergeSort htrans htotal (s.wanted.getD []).eraseDups
  have hnodup : s.missing.Nodup :=
    (List.mergeSort_perm _ _).nodup_iff.mpr (Table.nodup_eraseDups _)
  exact hsorted.imp₂ (fun a b hle hne => lt_of_le_of_ne (of_decide_eq_true hle) hne) hnodup

end Selection

namespace Tag

section Discover

variable {entries : List EntryPoint} {offered : List Tag}
  (hload : List.Forall₂ (fun entry t => entry.load = .ok t) entries offered)
  (hnamed : ∀ t ∈ offered, t.Named)
include hload hnamed

theorem discover_eq (enabled : Option (List String)) :
    discover enabled entries =
      if (Selection.after enabled (standard ++ offered)).missing.isEmpty then
        .ok (firstsOf (Asked enabled) (standard ++ offered))
      else .error (.unknownTags (Selection.after enabled (standard ++ offered)).missing) := by
  have hstandard : standard.foldlM Selection.offer (.after enabled []) = _ :=
    Selection.foldlM_offer named_standard []
  have hoffered : offered.foldlM Selection.offer (.after enabled standard) = _ :=
    Selection.foldlM_offer hnamed standard
  rw [discover, ← Selection.after_nil, hstandard]
  change (entries.foldlM Selection.offerEntry _ >>= _) = _
  rw [Selection.foldlM_offerEntry hload, List.nil_append, hoffered]
  rfl

theorem discovered (enabled : Option (List String)) :
    Discovered enabled (standard ++ offered) (discover enabled entries) := by
  rw [discover_eq hload hnamed]
  split
  · rename_i hempty
    refine .chosen fun key hunmet => ?_
    rw [← Selection.mem_missing_after, List.isEmpty_iff.mp hempty] at hunmet
    exact absurd hunmet List.not_mem_nil
  · rename_i hne
    refine .unknown (fun hnil => hne ?_) (Selection.missing_sorted _) fun key =>
      Selection.mem_missing_after
    rw [hnil]
    rfl

/-- **Tags are chosen by name.** Of the standard tags and those on offer behind them, the first one
of each name that is asked for is chosen, small letters or not; if some of the names have no tag,
the request is refused with a list of these names, each once and in order. So no two chosen tags
share a name, a standard tag goes before one on offer, and it does not matter in which order or how
often names are asked for. -/
theorem discover_by_name (enabled : Option (List String)) :
    Discovered enabled (standard ++ offered) (discover enabled entries) ∧
      (∀ fault, discover enabled entries = .error fault → ∃ missing,
        fault = .unknownTags missing ∧
        fault.message = "Unknown tags requested: " ++ String.intercalate ", " missing) ∧
      (∀ tags, discover enabled entries = .ok tags → (tags.map handle).Nodup ∧
        tags = standard.filter (fun t => Asked enabled t.handle) ++
          firstsOf (fun key => Asked enabled key ∧ key ∉ standard.map handle) offered) ∧
      ∀ names names', enabled = some names →
        (∀ key, key ∈ names'.map Text.lower ↔ key ∈ names.map Text.lower) →
        discover (some names') entries = discover enabled entries := by
  have hdiscovered := discovered hload hnamed enabled
  refine ⟨hdiscovered, fun fault h => ?_, fun tags h => ?_, ?_⟩
  · rw [h] at hdiscovered
    cases hdiscovered with
    | unknown => exact ⟨_, rfl, rfl⟩
  · rw [h] at hdiscovered
    cases hdiscovered with
    | chosen =>
        have hstandard : (standard.map handle).Nodup := by decide +kernel
        exact ⟨nodup_handles_firstsOf _, by rw [firstsOf_append, firstsOf_of_nodup hstandard]⟩
  · rintro names names' rfl hsame
    have hasked : ∀ key, Asked (some names') key ↔ Asked (some names) key := fun key => by
      rw [asked_some, asked_some, hsame]
    exact (discovered hload hnamed (some names')).unique hdiscovered rfl hasked

end Discover

/-- Tags that share names with a standard tag and with each other. -/
def echoes : List Tag :=
  [{ patterns := ["since2"], tagname := some "SINCE" }, { tagname := some "Echo" },
    { patterns := ["ECHO"] }]

theorem echoes_discovered :
    List.Forall₂ (fun entry t => entry.load = .ok t) (echoes.map EntryPoint.tag) echoes ∧
      (∀ t ∈ echoes, t.Named) ∧ ∃ tags,
        discover (some ["eCHO", "Since", "SINCE"]) (echoes.map EntryPoint.tag) = .ok tags ∧
        (tags.map handle).Nodup ∧ tags.map key = ["since", "Echo"] := by
  have hload : List.Forall₂ (fun entry t => entry.load = .ok t)
      (echoes.map EntryPoint.tag) echoes := by
    rw [List.forall₂_map_left_iff, List.forall₂_same]
    exact fun t _ => rfl
  have hnamed : ∀ t ∈ echoes, t.Named := by
    intro t ht
    simp only [echoes, List.mem_cons, List.not_mem_nil, or_false] at ht
    rcases ht with rfl | rfl | rfl <;> exact ⟨_, rfl⟩
  obtain ⟨hdiscovered, -, htags, -⟩ :=
    discover_by_name hload hnamed (some ["eCHO", "Since", "SINCE"])
  refine ⟨hload, hnamed, ?_⟩
  cases hresult : discover (some ["eCHO", "Since", "SINCE"]) (echoes.map EntryPoint.tag) with
  | error fault =>
      rw [hresult] at hdiscovered
      cases hdiscovered with
      | @unknown missing hne _ hmissing =>
          obtain ⟨key, rest, rfl⟩ := List.exists_cons_of_ne_nil hne
          obtain ⟨-, hasked, hnone⟩ := (hmissing key).mp List.mem_cons_self
          have hhad : ∀ key ∈ ["eCHO", "Since", "SINCE"].map Text.lower,
              key ∈ (standard ++ echoes).map handle := by decide +kernel
          exact absurd (hhad key (asked_some.mp hasked)) hnone
  | ok tags =>
      obtain ⟨hnodup, htags⟩ := htags tags hresult
      refine ⟨tags, rfl, hnodup, ?_⟩
      rw [htags]
      decide +kernel

end Tag

end ApiPages
