import ApiPages.Table
import Mathlib.Data.List.Forall2
import Mathlib.Data.List.Induction
import Mathlib.Data.List.Nodup

/-!
# Tables as finite maps

A table is a list of entries, and a look-up finds the first entry of a key. Where the keys are
distinct the two views agree: what a key is looked up to is exactly what it is listed with.
-/

namespace ApiPages.Table

variable {α β : Type} [DecidableEq α]

theorem mem_of_get? {t : Table α β} {key : α} {value : β} (h : get? t key = some value) :
    (key, value) ∈ t := by
  induction t with
  | nil => simp [get?] at h
  | cons entry t ih =>
      obtain ⟨k, v⟩ := entry
      by_cases hk : k = key
      · subst hk
        have hv : v = value := by simpa [get?] using h
        exact hv ▸ List.mem_cons_self
      · exact List.mem_cons_of_mem _ (ih (by simpa [get?, hk] using h))

theorem get?_of_mem {t : Table α β} (hkeys : (keys t).Nodup) {key : α} {value : β}
    (h : (key, value) ∈ t) : get? t key = some value := by
  induction t with
  | nil => simp at h
  | cons entry t ih =>
      obtain ⟨k, v⟩ := entry
      simp only [keys, List.map_cons, List.nodup_cons] at hkeys
      rcases List.mem_cons.mp h with heq | hmem
      · cases heq
        simp [get?]
      · have hne : k ≠ key := by
          rintro rfl
          exact hkeys.1 (List.mem_map_of_mem (f := Prod.fst) hmem)
        simpa [get?, hne] using ih hkeys.2 hmem

theorem set_eq_self {t : Table α β} {key : α} {value : β} (h : get? t key = some value) :
    set t key value = t := by
  induction t with
  | nil => simp [get?] at h
  | cons entry t ih =>
      obtain ⟨k, v⟩ := entry
      by_cases hk : k = key
      · have hv : v = value := by simpa [get?, hk] using h
        simp [set, hk, hv]
      · have hrest := ih (by simpa [get?, hk] using h)
        simp [set, hk, hrest]

theorem forall_mem_set {P : α × β → Prop} {t : Table α β} {key : α} {value : β}
    (hset : P (key, value)) (h : ∀ entry ∈ t, P entry) : ∀ entry ∈ set t key value, P entry := by
  induction t with
  | nil => exact List.forall_mem_singleton.mpr hset
  | cons entry t ih =>
      obtain ⟨hentry, ht⟩ := List.forall_mem_cons.mp h
      obtain ⟨k, v⟩ := entry
      rw [set]
      split
      · rename_i hk
        exact List.forall_mem_cons.mpr ⟨hk ▸ hset, ht⟩
      · exact List.forall_mem_cons.mpr ⟨hentry, ih ht⟩

theorem get?_append (s t : Table α β) (key : α) :
    get? (s ++ t) key = (get? s key).or (get? t key) := by
  induction s with
  | nil => rfl
  | cons entry s ih =>
      obtain ⟨k, v⟩ := entry
      by_cases hk : k = key
      · simp [get?, hk]
      · simpa [get?, hk] using ih

theorem get?_filter_key (p : α → Bool) (t : Table α β) (key : α) :
    get? (t.filter fun entry => p entry.1) key = if p key then get? t key else none := by
  induction t with
  | nil => simp [get?]
  | cons entry t ih =>
      obtain ⟨k, v⟩ := entry
      by_cases hk : k = key
      · subst hk
        cases hp : p k <;> simp [hp, get?, ih]
      · cases hp : p k <;> simp [hp, get?, hk, ih]

omit [DecidableEq α] in
theorem nodup_keys_filter {t : Table α β} (hkeys : (keys t).Nodup) (p : α × β → Bool) :
    (keys (t.filter p)).Nodup :=
  hkeys.sublist ((List.filter_sublist (p := p)).map Prod.fst)

theorem eq_of_mem_of_mem {t : Table α β} (hkeys : (keys t).Nodup) {key : α} {v w : β}
    (hv : (key, v) ∈ t) (hw : (key, w) ∈ t) : v = w := by
  have hsome := (get?_of_mem hkeys hv).symm.trans (get?_of_mem hkeys hw)
  exact Option.some.inj hsome

theorem get?_perm {s t : Table α β} (h : s.Perm t) (hkeys : (keys s).Nodup) (key : α) :
    get? s key = get? t key := by
  have hkeys' : (keys t).Nodup := (h.map Prod.fst).nodup_iff.mp hkeys
  apply Option.ext
  intro value
  exact ⟨fun hget => get?_of_mem hkeys' (h.mem_iff.mp (mem_of_get? hget)),
    fun hget => get?_of_mem hkeys (h.mem_iff.mpr (mem_of_get? hget))⟩

/-! ### Entries that correspond -/

omit [DecidableEq α] in
/-- A map over one of two tables keeps the correspondence if it does so entry by entry. -/
theorem forall₂_map_of_mem {γ δ : Type} {R : α × β → γ → Prop} {S : α × β → δ → Prop}
    {s : Table α β} {t : List γ} (h : List.Forall₂ R s t) {f : γ → δ}
    (hf : ∀ entry now, entry ∈ s → now ∈ t → R entry now → S entry (f now)) :
    List.Forall₂ S s (t.map f) := by
  rw [List.forall₂_map_right_iff]
  rw [List.forall₂_iff_zip] at h ⊢
  refine ⟨h.1, fun {entry now} hmem => ?_⟩
  obtain ⟨hentry, hnow⟩ := List.of_mem_zip hmem
  exact hf entry now hentry hnow (h.2 hmem)

theorem exists_append_of_forall₂ {γ δ : Type} {R : γ → δ → Prop} {s t : List γ} {u : List δ}
    (h : List.Forall₂ R (s ++ t) u) :
    ∃ front back, u = front ++ back ∧ List.Forall₂ R s front ∧ List.Forall₂ R t back := by
  refine ⟨u.take s.length, u.drop s.length, (List.take_append_drop s.length u).symm, ?_, ?_⟩
  · have hfront := List.forall₂_take s.length h
    rwa [List.take_left] at hfront
  · have hback := List.forall₂_drop s.length h
    rwa [List.drop_left] at hback

section Forall₂

variable {γ : Type} {R : α × β → α × γ → Prop} (hkey : ∀ entry now, R entry now → now.1 = entry.1)
  {s : Table α β} {t : Table α γ} (h : List.Forall₂ R s t)
include hkey h

omit [DecidableEq α] in
theorem keys_of_forall₂ : keys t = keys s := by
  induction h with
  | nil => rfl
  | @cons entry now s t hnow _ ih =>
      have hhead := hkey entry now hnow
      simp only [keys, List.map_cons] at ih ⊢
      rw [hhead, ih]

/-- Tables whose entries correspond find corresponding values, or neither finds one. -/
theorem get?_of_forall₂ (key : α) :
    get? s key = none ∧ get? t key = none ∨
      ∃ v w, get? s key = some v ∧ get? t key = some w ∧ R (key, v) (key, w) := by
  induction h with
  | nil => exact Or.inl ⟨rfl, rfl⟩
  | @cons entry now s t hnow _ ih =>
      obtain ⟨k, v⟩ := entry
      obtain ⟨k', w⟩ := now
      obtain rfl : k' = k := hkey _ _ hnow
      by_cases hk : k' = key
      · subst hk
        exact Or.inr ⟨v, w, by simp [get?], by simp [get?], hnow⟩
      · simpa [get?, hk] using ih

end Forall₂

/-! ### Keys listed once -/

section EraseDups

variable {κ : Type} [BEq κ] [LawfulBEq κ]

theorem eraseDups_concat (keys : List κ) (key : κ) :
    (keys ++ [key]).eraseDups = keys.eraseDups ++ if key ∈ keys then [] else [key] := by
  rw [List.eraseDups_append]
  by_cases h : key ∈ keys <;> simp [h, List.removeAll, List.eraseDups_cons]

theorem nodup_eraseDups (keys : List κ) : keys.eraseDups.Nodup := by
  induction keys using List.reverseRecOn with
  | nil => exact List.nodup_nil
  | append_singleton keys key ih =>
      rw [eraseDups_concat]
      split
      · rwa [List.append_nil]
      · rename_i hnew
        refine List.nodup_append.mpr ⟨ih, List.nodup_singleton key, fun a ha b hb heq => ?_⟩
        rw [List.mem_singleton.mp hb] at heq
        exact hnew (List.mem_eraseDups.mp (heq ▸ ha))

end EraseDups

end ApiPages.Table
