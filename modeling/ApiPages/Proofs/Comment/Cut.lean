import ApiPages.Comment.Segment
import Mathlib.Data.List.Basic

/-!
# Where a text is cut

A text is cut in front of each marker, and nowhere else: the head and the segments join back to the
text, and the places where the segments start are the places of the markers.
-/

namespace ApiPages

namespace Text

/-- The code points that count as blank. -/
def spaceCodes : List Nat :=
  List.range' 9 5 ++ List.range' 28 5 ++ [0x85, 0xA0, 0x1680] ++ List.range' 0x2000 11 ++
    [0x2028, 0x2029, 0x202F, 0x205F, 0x3000]

theorem toNat_mem_spaceCodes {c : Char} (h : isSpace c = true) : c.toNat ∈ spaceCodes := by
  simp only [isSpace, Bool.or_eq_true, Bool.and_eq_true, decide_eq_true_eq, beq_iff_eq] at h
  simp only [spaceCodes, List.mem_append, List.mem_range'_1, List.mem_cons, List.not_mem_nil,
    or_false]
  omega

theorem isTagName_eq_false_of_isSpace {c : Char} (h : isSpace c = true) : isTagName c = false := by
  have hall : ∀ n ∈ spaceCodes, isTagName (Char.ofNat n) = false := by decide +kernel
  rw [← Char.ofNat_toNat c]
  exact hall _ (toNat_mem_spaceCodes h)

theorem isTagName_of_isAlpha {c : Char} (h : c.isAlpha = true) : isTagName c = true := by
  have hascii : c.toNat < 128 := by
    rcases Bool.or_eq_true_iff.mp h with hupper | hlower
    · have hle : c.val ≤ 'Z'.val := (of_decide_eq_true hupper).2
      have : c.toNat ≤ 90 := UInt32.le_iff_toNat_le.mp hle
      omega
    · have hboth : (decide ('a'.val ≤ c.val) && decide (c.val ≤ 'z'.val)) = true := hlower
      have hle := of_decide_eq_true (Bool.and_eq_true_iff.mp hboth).2
      have : c.toNat ≤ 122 := UInt32.le_iff_toNat_le.mp hle
      omega
  simp [isTagName, isWord, hascii, Char.isAlphanum, h]

theorem plain_of_isTagName {c : Char} (h : isTagName c = true) : isSpace c = false ∧ c ≠ '@' := by
  constructor
  · cases hspace : isSpace c with
    | false => rfl
    | true =>
        rw [isTagName_eq_false_of_isSpace hspace] at h
        exact absurd h Bool.false_ne_true
  · rintro rfl
    exact absurd h (by decide)

end Text

namespace Comment

open Text (isTagName isSpace plain_of_isTagName isTagName_of_isAlpha)

/-- Whether a tag is marked at place `i` of a text: by an `@` behind a blank and in front of a
letter. In front of the text there is a blank or not, as `atBoundary` says. -/
def MarkerAt (atBoundary : Bool) (text : List Char) (i : Nat) : Prop :=
  text[i]? = some '@' ∧ (if i = 0 then atBoundary else text[i - 1]?.any isSpace) = true ∧
    text[i + 1]?.any Char.isAlpha = true

instance (atBoundary : Bool) (text : List Char) (i : Nat) :
    Decidable (MarkerAt atBoundary text i) :=
  inferInstanceAs (Decidable (_ ∧ _ ∧ _))

theorem startsName_eq (cs : List Char) : startsName cs = cs[0]?.any Char.isAlpha := by
  cases cs <;> rfl

theorem not_markerAt_nil {b : Bool} {i : Nat} : ¬ MarkerAt b [] i := by
  rintro ⟨hsign, -⟩
  simp at hsign

theorem markerAt_cons_zero {b : Bool} {c : Char} {cs : List Char} :
    MarkerAt b (c :: cs) 0 ↔ (b && c == '@' && startsName cs) = true := by
  simp [MarkerAt, startsName_eq]
  tauto

theorem markerAt_cons_succ {b : Bool} {c : Char} {cs : List Char} {i : Nat} :
    MarkerAt b (c :: cs) (i + 1) ↔ MarkerAt (isSpace c) cs i := by
  cases i <;> simp [MarkerAt]

theorem markerAt_name_append {name : List Char} (hname : ∀ c ∈ name, isTagName c = true)
    (rest : List Char) (i : Nat) :
    MarkerAt false (name ++ rest) i ↔ ∃ j, i = name.length + j ∧ MarkerAt false rest j := by
  induction name generalizing i with
  | nil => simp
  | cons c name ih =>
      obtain ⟨hc, hname⟩ := List.forall_mem_cons.mp hname
      obtain ⟨hspace, -⟩ := plain_of_isTagName hc
      rw [List.cons_append]
      cases i with
      | zero =>
          rw [markerAt_cons_zero]
          constructor
          · intro hmark
            simp at hmark
          · rintro ⟨j, hj, -⟩
            simp at hj
            omega
      | succ i =>
          rw [markerAt_cons_succ, hspace, ih hname i]
          simp only [List.length_cons]
          constructor
          · rintro ⟨j, rfl, hmark⟩
            exact ⟨j, by omega, hmark⟩
          · rintro ⟨j, hj, hmark⟩
            exact ⟨j, by omega, hmark⟩

theorem Segment.length_source (s : Segment) :
    s.source.length = 1 + s.pattern.length + s.body.length := by
  simp [source]
  omega

theorem markerAt_dropWhile (cs : List Char) (i : Nat) :
    MarkerAt false cs i ↔
      ∃ j, i = (cs.takeWhile isTagName).length + j ∧ MarkerAt false (cs.dropWhile isTagName) j := by
  have hname : ∀ c ∈ cs.takeWhile isTagName, isTagName c = true :=
    List.all_eq_true.mp List.all_takeWhile
  rw [← markerAt_name_append hname, List.takeWhile_append_dropWhile]

/-- Where segments start that stand one after another from place `n` on. -/
def starts (n : Nat) : List Segment → List Nat
  | [] => []
  | s :: later => n :: starts (n + s.source.length) later

theorem mem_starts_add {later : List Segment} {n k i : Nat} :
    i ∈ starts (k + n) later ↔ ∃ j, i = k + j ∧ j ∈ starts n later := by
  induction later generalizing n with
  | nil => simp [starts]
  | cons s later ih =>
      rw [starts, starts, Nat.add_assoc, List.mem_cons, ih]
      constructor
      · rintro (rfl | ⟨j, rfl, hj⟩)
        · exact ⟨n, rfl, List.mem_cons_self⟩
        · exact ⟨j, rfl, List.mem_cons_of_mem _ hj⟩
      · rintro ⟨j, rfl, hj⟩
        rcases List.mem_cons.mp hj with rfl | hj
        · exact Or.inl rfl
        · exact Or.inr ⟨j, rfl, hj⟩

/-- A text is cut into a head and segments, one for each marker. -/
structure Cut (atBoundary : Bool) (text head : List Char) (later : List Segment) : Prop where
  joined : head ++ later.flatMap Segment.source = text
  markers : ∀ i, MarkerAt atBoundary text i ↔ i ∈ starts head.length later
  /-- A name is the longest run of characters of a name behind the marker. -/
  named : ∀ s ∈ later, startsName s.pattern = true ∧
    s.pattern = (s.pattern ++ s.body).takeWhile isTagName

namespace Cut

theorem nil {b : Bool} : Cut b [] [] [] where
  joined := rfl
  markers _ := ⟨fun h => absurd h not_markerAt_nil, fun h => absurd h List.not_mem_nil⟩
  named _ hs := absurd hs List.not_mem_nil

theorem cons {b : Bool} {c : Char} {cs head : List Char} {later : List Segment}
    (hplain : ¬ (b && c == '@' && startsName cs) = true) (h : Cut (isSpace c) cs head later) :
    Cut b (c :: cs) (c :: head) later where
  joined := by rw [List.cons_append, h.joined]
  markers i := by
    rw [List.length_cons, Nat.add_comm, mem_starts_add]
    cases i with
    | zero =>
        rw [markerAt_cons_zero]
        refine ⟨fun hmark => absurd hmark hplain, ?_⟩
        rintro ⟨j, hj, -⟩
        omega
    | succ i =>
        rw [markerAt_cons_succ, h.markers]
        constructor
        · exact fun hi => ⟨i, Nat.add_comm _ _, hi⟩
        · rintro ⟨j, hj, hmem⟩
          obtain rfl : i = j := by omega
          exact hmem
  named := h.named

theorem startsName_takeWhile {cs : List Char} (h : startsName cs = true) :
    startsName (cs.takeWhile isTagName) = true := by
  cases cs with
  | nil => exact h
  | cons c cs =>
      rw [List.takeWhile_cons_of_pos (isTagName_of_isAlpha h)]
      exact h

/-- Behind the longest run of a name no front of the text goes on with the name. -/
theorem takeWhile_of_append_eq_dropWhile {cs body rest : List Char}
    (h : body ++ rest = cs.dropWhile isTagName) : body.takeWhile isTagName = [] := by
  cases body with
  | nil => rfl
  | cons c body =>
      have hne : cs.dropWhile isTagName ≠ [] := by
        rw [← h]
        exact List.cons_ne_nil _ _
      have hhead := List.head_dropWhile_not isTagName hne
      simp only [← h, List.cons_append, List.head_cons] at hhead
      rw [List.takeWhile_cons_of_neg (by simp [hhead])]

theorem segment {b : Bool} {cs body : List Char} {later : List Segment}
    (hmark : (b && '@' == '@' && startsName cs) = true)
    (h : Cut false (cs.dropWhile isTagName) body later) :
    Cut b ('@' :: cs) [] ({ pattern := cs.takeWhile isTagName, body } :: later) where
  joined := by
    rw [List.nil_append, List.flatMap_cons, Segment.source, List.cons_append, List.append_assoc,
      h.joined, List.takeWhile_append_dropWhile]
  markers i := by
    rw [List.length_nil, starts, List.mem_cons]
    cases i with
    | zero => exact ⟨fun _ => Or.inl rfl, fun _ => markerAt_cons_zero.mpr hmark⟩
    | succ i =>
        have hat : isSpace '@' = false := rfl
        have hlength := Segment.length_source { pattern := cs.takeWhile isTagName, body }
        dsimp only at hlength
        rw [markerAt_cons_succ, hat, markerAt_dropWhile, Nat.zero_add, hlength, mem_starts_add]
        constructor
        · rintro ⟨j, rfl, hj⟩
          exact Or.inr ⟨j, by omega, (h.markers j).mp hj⟩
        · rintro (hzero | ⟨j, hj, hmem⟩)
          · omega
          · exact ⟨j, by omega, (h.markers j).mpr hmem⟩
  named := by
    refine List.forall_mem_cons.mpr ⟨⟨?_, ?_⟩, h.named⟩
    · rw [Bool.and_eq_true] at hmark
      exact startsName_takeWhile hmark.2
    · rw [List.takeWhile_append_of_pos fun c hc => List.all_eq_true.mp List.all_takeWhile c hc,
        takeWhile_of_append_eq_dropWhile h.joined, List.append_nil]

end Cut

/-- **Cutting at the markers.** The pieces of a text join back to it, and it is cut in front of every
marker and nowhere else. -/
theorem cut_segments (b : Bool) (cs : List Char) :
    Cut b cs (segments b cs).1 (segments b cs).2 := by
  fun_induction segments b cs with
  | case1 b => exact .nil
  | case2 b c cs hmark body later hsegments ih =>
      rw [hsegments] at ih
      have hsign : c = '@' := by
        simp only [Bool.and_eq_true, beq_iff_eq] at hmark
        exact hmark.1.2
      subst hsign
      exact .segment hmark ih
  | case3 b c cs hplain head later hsegments ih =>
      rw [hsegments] at ih
      exact .cons hplain ih

end Comment

end ApiPages
