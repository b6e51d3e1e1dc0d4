import ApiPages.ClassTable
import ApiPages.Proofs.Table
import Mathlib.Data.List.Flatten
import Mathlib.Data.List.Nodup
import Mathlib.Data.List.Pairwise

/-!
# Tables that share no member

Entries with one serial are one member, and what an override writes to it shows wherever it is
listed. A table to which every class brought members of its own has no two such entries, and
entering a class keeps it so.
-/

namespace ApiPages.ClassTable

/-- The serials of all members that a table lists. -/
def serials (table : ClassTable) : List Nat :=
  table.flatMap fun entry => entry.2.members.map Member.serial

/-- No two entries of a table are one member. -/
def Unshared (table : ClassTable) : Prop :=
  (serials table).Nodup

namespace Unshared

variable {table : ClassTable} {key other : String} {c d : ClassDoc}

theorem nodup_serials (h : Unshared table) (hmem : (key, c) ∈ table) :
    (c.members.map Member.serial).Nodup :=
  (List.nodup_flatMap.mp h).1 (key, c) hmem

theorem serial_ne (h : Unshared table) (hc : (key, c) ∈ table) (hd : (other, d) ∈ table)
    (hne : key ≠ other) {m m' : Member} (hm : m ∈ c.members) (hm' : m' ∈ d.members) :
    m.serial ≠ m'.serial := by
  have hpairwise := (List.nodup_flatMap.mp h).2
  have hentries : (key, c) ≠ (other, d) := fun heq => hne (congrArg Prod.fst heq)
  have : Std.Symm (Function.onFun List.Disjoint fun entry : String × ClassDoc =>
      entry.2.members.map Member.serial) := ⟨fun _ _ hxy n hn hn' => hxy hn' hn⟩
  have hdisjoint := hpairwise.forall hc hd hentries
  intro heq
  exact hdisjoint (List.mem_map_of_mem hm) (heq ▸ List.mem_map_of_mem hm')

theorem filter (h : Unshared table) (p : String × ClassDoc → Bool) :
    Unshared (table.filter p) :=
  h.sublist (List.filter_sublist.flatMap _)

end Unshared

/-! ### Entering a class -/

theorem mem_serials_set {table : ClassTable} {key : String} {c : ClassDoc} {n : Nat}
    (h : n ∈ serials (Table.set table key c)) :
    n ∈ c.members.map Member.serial ∨ n ∈ serials table := by
  induction table with
  | nil => simpa [Table.set, serials] using h
  | cons entry table ih =>
      obtain ⟨k, d⟩ := entry
      by_cases hk : k = key
      · simp only [Table.set, hk, if_true, serials, List.flatMap_cons, List.mem_append] at h ⊢
        exact h.imp_right Or.inr
      · simp only [Table.set, hk, if_false, serials, List.flatMap_cons, List.mem_append] at h ih ⊢
        rcases h with hd | hrest
        · exact Or.inr (Or.inl hd)
        · exact (ih hrest).imp_right Or.inr

theorem unshared_set {table : ClassTable} (h : Unshared table) {key : String} {c : ClassDoc}
    (hc : (c.members.map Member.serial).Nodup)
    (hnew : ∀ n ∈ c.members.map Member.serial, n ∉ serials table) :
    Unshared (Table.set table key c) := by
  unfold Unshared at h ⊢
  induction table with
  | nil => simpa [Table.set, serials] using hc
  | cons entry table ih =>
      obtain ⟨k, d⟩ := entry
      have hsplit : serials ((k, d) :: table) = d.members.map Member.serial ++ serials table := rfl
      rw [hsplit, List.nodup_append] at h
      simp only [hsplit, List.mem_append, not_or] at hnew
      by_cases hk : k = key
      · simp only [Table.set, hk, if_true, serials, List.flatMap_cons]
        refine List.nodup_append.mpr ⟨hc, h.2.1, ?_⟩
        rintro n hn m hm rfl
        exact (hnew n hn).2 hm
      · simp only [Table.set, hk, if_false, serials, List.flatMap_cons]
        refine List.nodup_append.mpr ⟨h.1, ih h.2.1 fun n hn => (hnew n hn).2, ?_⟩
        rintro n hn m hm rfl
        rcases mem_serials_set hm with hin | hin
        · exact (hnew n hin).1 hn
        · exact h.2.2 n hn n hin rfl

theorem map_serial_numberFrom (n : Nat) (ms : List Member) :
    (numberFrom n ms).map Member.serial = List.range' n ms.length := by
  induction ms generalizing n with
  | nil => rfl
  | cons m ms ih => simp [numberFrom, ih, List.range'_succ]

theorem serial_lt_freshSerial {table : ClassTable} {n : Nat} (h : n ∈ serials table) :
    n < freshSerial table := by
  have hbound : ∀ (ms : List Member) (start : Nat),
      start ≤ ms.foldl (fun n m => max n (m.serial + 1)) start ∧
        ∀ m ∈ ms, m.serial < ms.foldl (fun n m => max n (m.serial + 1)) start := by
    intro ms
    induction ms with
    | nil => simp
    | cons m ms ih =>
        intro start
        obtain ⟨hle, hlt⟩ := ih (max start (m.serial + 1))
        refine ⟨by simp only [List.foldl_cons]; omega, ?_⟩
        intro m' hm'
        rcases List.mem_cons.mp hm' with rfl | hmem
        · simp only [List.foldl_cons]
          omega
        · exact hlt m' hmem
  simp only [serials, List.mem_flatMap, List.mem_map] at h
  obtain ⟨entry, hentry, m, hm, rfl⟩ := h
  refine (hbound _ 1).2 m (List.mem_flatMap.mpr ⟨entry.2, ?_, hm⟩)
  exact List.mem_map_of_mem hentry

theorem unshared_insert {table : ClassTable} (h : Unshared table) (key : String) (c : ClassDoc) :
    Unshared (insert table key c) := by
  refine unshared_set h ?_ ?_
  · rw [map_serial_numberFrom]
    exact List.nodup_range'
  · intro n hn hmem
    rw [map_serial_numberFrom, List.mem_range'_1] at hn
    have := serial_lt_freshSerial hmem
    omega

theorem unshared_nil : Unshared [] := List.nodup_nil

end ApiPages.ClassTable
