import ApiPages.Value.Written

/-!
# What can be written out

A value is written out unless it is a whole number of more than 4300 digits, or holds one somewhere.
A row of values is written out one by one, and stops at the first that is not.
-/

namespace ApiPages.Value

/-- A whole number of more than 4300 digits, or something that holds one. -/
inductive TooLong : Value → Prop
  | int {n : Int} (h : 4300 < (Nat.toDigits 10 n.natAbs).length) : TooLong (.int n)
  | item {items : List Value} {v : Value} (hmem : v ∈ items) (h : TooLong v) :
    TooLong (.list items)
  | field {fields : List (String × Value)} {key : String} {v : Value} (hmem : (key, v) ∈ fields)
    (h : TooLong v) : TooLong (.record fields)
  | key {entries : List (Value × Value)} {k v : Value} (hmem : (k, v) ∈ entries) (h : TooLong k) :
    TooLong (.mapping entries)
  | entry {entries : List (Value × Value)} {k v : Value} (hmem : (k, v) ∈ entries)
    (h : TooLong v) : TooLong (.mapping entries)
  | first {a b : Value} (h : TooLong a) : TooLong (.pair a b)
  | second {a b : Value} (h : TooLong b) : TooLong (.pair a b)
  | element {items : List Value} {v : Value} (hmem : v ∈ items) (h : TooLong v) :
    TooLong (.set items)

mutual

theorem hasTooLong_iff (v : Value) : v.hasTooLong = true ↔ v.TooLong := by
  cases v with
  | number n =>
      cases n with
      | int n =>
          rw [hasTooLong, Number.isTooLong_int]
          exact ⟨.int, fun | .int h => h⟩
      | double d => exact iff_of_false Bool.false_ne_true nofun
  | list items =>
      rw [hasTooLong, anyTooLong_iff items]
      exact ⟨fun ⟨v, hmem, h⟩ => .item hmem h, fun | .item hmem h => ⟨_, hmem, h⟩⟩
  | record fields =>
      rw [hasTooLong, anyFieldTooLong_iff fields]
      exact ⟨fun ⟨_, _, hmem, h⟩ => .field hmem h, fun | .field hmem h => ⟨_, _, hmem, h⟩⟩
  | mapping entries =>
      rw [hasTooLong, anyEntryTooLong_iff entries]
      constructor
      · rintro ⟨k, v, hmem, h | h⟩
        · exact .key hmem h
        · exact .entry hmem h
      · rintro (_ | _ | _ | ⟨hmem, h⟩ | ⟨hmem, h⟩)
        · exact ⟨_, _, hmem, Or.inl h⟩
        · exact ⟨_, _, hmem, Or.inr h⟩
  | pair a b =>
      rw [hasTooLong, Bool.or_eq_true, hasTooLong_iff a, hasTooLong_iff b]
      constructor
      · rintro (h | h)
        · exact .first h
        · exact .second h
      · rintro (_ | _ | _ | _ | _ | h | h)
        · exact Or.inl h
        · exact Or.inr h
  | set items =>
      rw [hasTooLong, anyTooLong_iff items]
      exact ⟨fun ⟨v, hmem, h⟩ => .element hmem h, fun | .element hmem h => ⟨_, hmem, h⟩⟩
  | _ => exact iff_of_false Bool.false_ne_true nofun

theorem anyTooLong_iff (vs : List Value) : anyTooLong vs = true ↔ ∃ v ∈ vs, v.TooLong := by
  cases vs with
  | nil => simp [anyTooLong]
  | cons v vs =>
      simp [anyTooLong, hasTooLong_iff v, anyTooLong_iff vs]

theorem anyFieldTooLong_iff (fields : List (String × Value)) :
    anyFieldTooLong fields = true ↔ ∃ key v, (key, v) ∈ fields ∧ v.TooLong := by
  cases fields with
  | nil => simp [anyFieldTooLong]
  | cons field fields =>
      obtain ⟨key, v⟩ := field
      rw [anyFieldTooLong, Bool.or_eq_true, hasTooLong_iff v, anyFieldTooLong_iff fields]
      constructor
      · rintro (h | ⟨other, w, hmem, h⟩)
        · exact ⟨key, v, List.mem_cons_self, h⟩
        · exact ⟨other, w, List.mem_cons_of_mem _ hmem, h⟩
      · rintro ⟨other, w, hmem, h⟩
        rcases List.mem_cons.mp hmem with heq | hmem
        · cases heq
          exact Or.inl h
        · exact Or.inr ⟨other, w, hmem, h⟩

theorem anyEntryTooLong_iff (entries : List (Value × Value)) :
    anyEntryTooLong entries = true ↔ ∃ k v, (k, v) ∈ entries ∧ (k.TooLong ∨ v.TooLong) := by
  cases entries with
  | nil => simp [anyEntryTooLong]
  | cons entry entries =>
      obtain ⟨k, v⟩ := entry
      rw [anyEntryTooLong, Bool.or_eq_true, Bool.or_eq_true, hasTooLong_iff k, hasTooLong_iff v,
        anyEntryTooLong_iff entries]
      constructor
      · rintro (h | ⟨other, w, hmem, h⟩)
        · exact ⟨k, v, List.mem_cons_self, h⟩
        · exact ⟨other, w, List.mem_cons_of_mem _ hmem, h⟩
      · rintro ⟨other, w, hmem, h⟩
        rcases List.mem_cons.mp hmem with heq | hmem
        · cases heq
          exact Or.inl h
        · exact Or.inr ⟨other, w, hmem, h⟩

end

theorem mapM_written (vs : List Value) :
    vs.mapM written =
      if vs.any hasTooLong then .error .tooManyDigits else .ok (vs.map display) := by
  induction vs with
  | nil => rfl
  | cons v vs ih =>
      rw [List.mapM_cons, ih, written, List.any_cons]
      cases v.hasTooLong with
      | true => rfl
      | false =>
          cases vs.any hasTooLong with
          | true => rfl
          | false => rfl

end ApiPages.Value
