namespace ApiPages

/-- Keys with their values, in the order in which the keys were first added. -/
abbrev Table (α β : Type) := List (α × β)

namespace Table

variable {α β : Type} [DecidableEq α]

def get? : Table α β → α → Option β
  | [], _ => none
  | (k, v) :: t, key => if k = key then some v else get? t key

/-- A present key keeps its place, a new one goes to the end. -/
def set : Table α β → α → β → Table α β
  | [], key, value => [(key, value)]
  | (k, v) :: t, key, value => if k = key then (k, value) :: t else (k, v) :: set t key value

def keys (t : Table α β) : List α :=
  t.map Prod.fst

def values (t : Table α β) : List β :=
  t.map Prod.snd

def contains (t : Table α β) (key : α) : Bool :=
  (get? t key).isSome

def erase (t : Table α β) (key : α) : Table α β :=
  t.filter fun entry => entry.1 ≠ key

theorem get?_set (t : Table α β) (key other : α) (value : β) :
    get? (set t key value) other = if key = other then some value else get? t other := by
  induction t with
  | nil => simp [set, get?]
  | cons entry t ih =>
    obtain ⟨k, v⟩ := entry
    by_cases hk : k = key
    · subst hk
      by_cases ho : k = other <;> simp [set, get?, ho]
    · by_cases ho : k = other
      · subst ho
        simp [set, get?, hk, Ne.symm hk]
      · simp [set, get?, hk, ho, ih]

theorem contains_iff_mem_keys (t : Table α β) (key : α) :
    contains t key = true ↔ key ∈ keys t := by
  induction t with
  | nil => simp [contains, get?, keys]
  | cons entry t ih =>
    obtain ⟨k, v⟩ := entry
    simp only [contains, keys] at ih
    by_cases hk : k = key
    · simp [contains, get?, keys, hk]
    · simp [contains, get?, keys, hk, Ne.symm hk, ih]

theorem get?_eq_none_iff {t : Table α β} {key : α} : get? t key = none ↔ key ∉ keys t := by
  rw [← contains_iff_mem_keys, contains, Bool.not_eq_true, Option.isSome_eq_false_iff,
    Option.isNone_iff_eq_none]

theorem keys_set (t : Table α β) (key : α) (value : β) :
    keys (set t key value) = if key ∈ keys t then keys t else keys t ++ [key] := by
  induction t with
  | nil => simp [set, keys]
  | cons entry t ih =>
    obtain ⟨k, v⟩ := entry
    simp only [keys] at ih
    by_cases hk : k = key
    · simp [set, keys, hk]
    · simp only [set, hk, if_false, keys, List.map_cons, ih, List.mem_cons, Ne.symm hk, false_or]
      split <;> simp [*]

end Table

end ApiPages
