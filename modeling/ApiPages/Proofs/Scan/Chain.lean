import ApiPages.Proofs.Scan
import ApiPages.Text.Split
import Mathlib.Data.List.Basic

/-!
# Names joined by dots

A name that is read is the longest chain of names at the front of a text. A dot goes with the name
behind it, so that a dot behind which no name starts is left alone.
-/

namespace ApiPages

namespace Pattern

/-! ### How far a chain goes on -/

theorem chainTail_cons_of_isIdent {c : Char} (hc : Text.isIdent c = true) (cs : List Char) :
    chainTail (c :: cs) = chainTail cs + 1 := by
  cases cs with
  | nil => simp [chainTail, hc]
  | cons d cs => rw [chainTail, if_pos hc]

theorem chainTail_dot {d : Char} (hd : Text.isIdent d = true) (cs : List Char) :
    chainTail ('.' :: d :: cs) = chainTail (d :: cs) + 1 := by
  have hdot : Text.isIdent '.' = false := by decide
  rw [chainTail, if_neg (by simp [hdot]), if_pos ⟨rfl, hd⟩, chainTail_cons_of_isIdent hd]

theorem chainTail_run {name : List Char} (hname : ∀ c ∈ name, Text.isIdent c = true)
    (rest : List Char) : chainTail (name ++ rest) = chainTail rest + name.length := by
  induction name with
  | nil => rfl
  | cons c name ih =>
      obtain ⟨hc, hname⟩ := List.forall_mem_cons.mp hname
      rw [List.cons_append, chainTail_cons_of_isIdent hc, ih hname, List.length_cons]
      omega

theorem chainTail_le (cs : List Char) : chainTail cs ≤ cs.length := by
  fun_induction chainTail cs with
  | case1 => exact Nat.le_refl 0
  | case2 | case3 => simp
  | case4 c d cs _ ih | case5 c d cs _ _ ih =>
      simp only [List.length_cons] at ih ⊢
      omega
  | case6 => exact Nat.zero_le _

theorem le_of_identChain {cs : List Char} {n : Nat} (h : identChain cs = some n) :
    n ≤ cs.length := by
  cases cs with
  | nil => cases h
  | cons c cs =>
      rw [identChain] at h
      split at h
      · obtain rfl := Option.some.inj h
        exact Nat.succ_le_succ (chainTail_le cs)
      · cases h

/-! ### Chains -/

/-- Names joined by single dots, none of them empty. -/
def IsChain (cs : List Char) : Prop :=
  ∃ names, names ≠ [] ∧ (∀ name ∈ names, name ≠ [] ∧ ∀ c ∈ name, Text.isIdent c = true) ∧
    cs = Text.joinWith ['.'] names

namespace IsChain

variable {cs name rest : List Char}

theorem single (hne : name ≠ []) (hname : ∀ c ∈ name, Text.isIdent c = true) : IsChain name :=
  ⟨[name], List.cons_ne_nil name [], List.forall_mem_singleton.mpr ⟨hne, hname⟩,
    List.intercalate_singleton.symm⟩

theorem cons (hne : name ≠ []) (hname : ∀ c ∈ name, Text.isIdent c = true) (h : IsChain rest) :
    IsChain (name ++ '.' :: rest) := by
  obtain ⟨names, hnames, hall, rfl⟩ := h
  refine ⟨name :: names, List.cons_ne_nil name names,
    List.forall_mem_cons.mpr ⟨⟨hne, hname⟩, hall⟩, ?_⟩
  rw [Text.joinWith, Text.joinWith, List.intercalate_cons_of_ne_nil hnames, List.append_assoc]
  rfl

theorem of_all (names : List (List Char)) (hne : names ≠ [])
    (h : (names.all fun name => !name.isEmpty && name.all Text.isIdent) = true) :
    IsChain (Text.joinWith ['.'] names) :=
  ⟨names, hne, fun name hname => by simpa using List.all_eq_true.mp h name hname, rfl⟩

/-- Chains are names, and names put in front of chains with a dot between them. -/
@[elab_as_elim]
theorem induction {motive : ∀ cs, IsChain cs → Prop}
    (single : ∀ name hne hname, motive name (.single hne hname))
    (cons : ∀ name rest hne hname h, motive rest h →
      motive (name ++ '.' :: rest) (.cons hne hname h)) (h : IsChain cs) : motive cs h := by
  obtain ⟨names, hne, hall, hcs⟩ := id h
  induction names generalizing cs with
  | nil => exact absurd rfl hne
  | cons name names ih =>
      obtain ⟨⟨hname, hidents⟩, hlater⟩ := List.forall_mem_cons.mp hall
      cases names with
      | nil =>
          obtain rfl : cs = name := hcs.trans List.intercalate_singleton
          exact single cs hname hidents
      | cons next names =>
          have hnext := List.cons_ne_nil next names
          have hrest : IsChain (Text.joinWith ['.'] (next :: names)) := ⟨_, hnext, hlater, rfl⟩
          obtain rfl : cs = name ++ '.' :: Text.joinWith ['.'] (next :: names) := by
            rw [hcs, Text.joinWith, List.intercalate_cons_cons, List.append_assoc]
            rfl
          exact cons name _ hname hidents hrest (ih hrest hnext hlater rfl)

theorem exists_cons (h : IsChain cs) : ∃ c rest, cs = c :: rest ∧ Text.isIdent c = true := by
  induction h using IsChain.induction with
  | single name hne hname =>
      obtain ⟨c, later, rfl⟩ := List.exists_cons_of_ne_nil hne
      exact ⟨c, later, rfl, hname c List.mem_cons_self⟩
  | cons name rest hne hname _ _ =>
      obtain ⟨c, later, rfl⟩ := List.exists_cons_of_ne_nil hne
      exact ⟨c, later ++ '.' :: rest, rfl, hname c List.mem_cons_self⟩

theorem forall_mem (h : IsChain cs) : ∀ c ∈ cs, Text.isIdent c = true ∨ c = '.' := by
  induction h using IsChain.induction with
  | single name _ hname => exact fun c hc => Or.inl (hname c hc)
  | cons name rest _ hname _ ih =>
      intro c hc
      rcases List.mem_append.mp hc with hc | hc
      · exact Or.inl (hname c hc)
      · rcases List.mem_cons.mp hc with hdot | hc
        · exact Or.inr hdot
        · exact ih c hc

theorem concat {c : Char} (h : IsChain cs) (hc : Text.isIdent c = true) : IsChain (cs ++ [c]) := by
  induction h using IsChain.induction with
  | single name _ hname =>
      refine single (List.concat_ne_nil c name) ?_
      exact List.forall_mem_append.mpr ⟨hname, List.forall_mem_singleton.mpr hc⟩
  | cons name rest hne hname _ ih =>
      rw [List.append_assoc]
      exact cons hne hname ih

theorem concat_dot {d : Char} (h : IsChain cs) (hd : Text.isIdent d = true) :
    IsChain (cs ++ ['.', d]) := by
  induction h using IsChain.induction with
  | single name hne hname =>
      exact cons hne hname (single (List.cons_ne_nil d []) (List.forall_mem_singleton.mpr hd))
  | cons name rest hne hname _ ih =>
      rw [List.append_assoc]
      exact cons hne hname ih

theorem getLast?_ne_dot (h : IsChain cs) : cs.getLast? ≠ some '.' := by
  induction h using IsChain.induction with
  | single name _ hname =>
      intro hlast
      exact absurd (hname '.' (List.mem_of_getLast? hlast)) (by decide)
  | cons name rest _ _ hrest ih =>
      obtain ⟨c, later, rfl, -⟩ := hrest.exists_cons
      rwa [List.getLast?_append_of_ne_nil _ (List.cons_ne_nil _ _), List.getLast?_cons_cons]

/-- A chain goes on as far as what stands behind it does. -/
theorem chainTail_append (h : IsChain cs) (rest : List Char) :
    chainTail (cs ++ rest) = chainTail rest + cs.length := by
  induction h using IsChain.induction with
  | single name _ hname => exact chainTail_run hname rest
  | cons name later _ hname hlater ih =>
      obtain ⟨d, ds, rfl, hd⟩ := hlater.exists_cons
      rw [List.append_assoc, chainTail_run hname, List.cons_append, List.cons_append,
        chainTail_dot hd, ← List.cons_append, ih]
      simp only [List.length_append, List.length_cons]
      omega

theorem append_take {front : List Char} (h : IsChain front) (cs : List Char) :
    IsChain (front ++ cs.take (chainTail cs)) := by
  fun_induction chainTail cs generalizing front with
  | case1 => simpa using h
  | case2 c hc => exact h.concat hc
  | case3 c hc => simpa using h
  | case4 c d cs hc ih =>
      have hlater := ih (h.concat hc)
      rwa [List.append_assoc] at hlater
  | case5 c d cs hc hdot ih =>
      obtain ⟨rfl, hd⟩ := hdot
      have hlater := ih (h.concat_dot hd)
      rwa [List.append_assoc] at hlater
  | case6 c d cs hc hdot => simpa using h

end IsChain

/-! ### Where a chain ends -/

/-- Characters behind which no chain of names goes on. -/
def Stops (rest : List Char) : Prop :=
  ∀ c ∈ rest.head?, Text.isIdent c = false ∧ c ≠ '.'

theorem chainTail_of_stops {rest : List Char} (h : Stops rest) : chainTail rest = 0 := by
  match rest with
  | [] => rfl
  | [c] => simp [chainTail, (h c rfl).1]
  | c :: d :: cs =>
      obtain ⟨hc, hdot⟩ := h c rfl
      rw [chainTail, if_neg (by simp [hc]), if_neg fun h => hdot h.1]

theorem identChain_append_of_isChain {cs : List Char} (h : IsChain cs) (rest : List Char) :
    identChain (cs ++ rest) = some (chainTail rest + cs.length) := by
  obtain ⟨c, later, rfl, hc⟩ := h.exists_cons
  have htail := h.chainTail_append rest
  rw [List.cons_append, chainTail_cons_of_isIdent hc] at htail
  rw [List.cons_append, identChain, if_pos hc, htail]

theorem identChain_append {cs rest : List Char} (h : IsChain cs) (hrest : Stops rest) :
    identChain (cs ++ rest) = some cs.length := by
  rw [identChain_append_of_isChain h, chainTail_of_stops hrest, Nat.zero_add]

/-- The longest front of a text that is a chain of names. -/
structure LongestChain (cs front : List Char) : Prop where
  starts : front <+: cs
  chain : IsChain front
  longest : ∀ other, other <+: cs → IsChain other → other.length ≤ front.length

theorem isChain_take_of_identChain {cs : List Char} {n : Nat} (h : identChain cs = some n) :
    IsChain (cs.take n) := by
  cases cs with
  | nil => cases h
  | cons c cs =>
      rw [identChain] at h
      split at h
      · rename_i hc
        obtain rfl := Option.some.inj h
        have hname : IsChain [c] :=
          .single (List.cons_ne_nil c []) (List.forall_mem_singleton.mpr hc)
        exact hname.append_take cs
      · cases h

theorem longestChain_of_identChain {cs : List Char} {n : Nat} (h : identChain cs = some n) :
    LongestChain cs (cs.take n) where
  starts := List.take_prefix n cs
  chain := isChain_take_of_identChain h
  longest other hother hchain := by
    obtain ⟨rest, rfl⟩ := hother
    rw [List.length_take_of_le (le_of_identChain h)]
    rw [identChain_append_of_isChain hchain] at h
    obtain rfl := Option.some.inj h
    exact Nat.le_add_left _ _

theorem not_isChain_of_identChain {cs front : List Char} (h : identChain cs = none)
    (hfront : front <+: cs) : ¬ IsChain front := by
  rintro hchain
  obtain ⟨rest, rfl⟩ := hfront
  rw [identChain_append_of_isChain hchain] at h
  cases h

end Pattern

namespace Scan

open Pattern (IsChain LongestChain)

/-- What reading a chain of names comes to: the longest one, or nothing if there is none. -/
inductive ReadsChain (c : Cursor) : Option String → Cursor → Prop
  | found {front rest : List Char} (hrest : c.rest = front ++ rest)
      (hlongest : LongestChain c.rest front) :
      ReadsChain c (some (String.ofList front)) { c with consumed := c.consumed ++ front, rest }
  | nothing (hnone : ∀ front, front <+: c.rest → ¬ IsChain front) : ReadsChain c none c

theorem readsChain_identChain (c : Cursor) :
    ReadsChain c (identChain c).1 (identChain c).2 := by
  rw [identChain, accept]
  cases h : Pattern.identChain c.rest with
  | none => exact .nothing fun front hfront => Pattern.not_isChain_of_identChain h hfront
  | some n =>
      have hsplit := (List.take_append_drop n c.rest).symm
      exact .found hsplit (Pattern.longestChain_of_identChain h)

theorem ReadsChain.getLast?_ne_dot {c after : Cursor} {name : String}
    (h : ReadsChain c (some name) after) : name.toList.getLast? ≠ some '.' := by
  cases h with
  | found hrest hlongest =>
      rw [String.toList_ofList]
      exact hlongest.chain.getLast?_ne_dot

end Scan

end ApiPages
