import ApiPages.Page.Fragment
import ApiPages.Text.Escape
import ApiPages.Value.Field
import Mathlib.Data.List.Forall2

/-!
# The marks of HTML

The characters that make markup of a text are its marks. Escaped text has none of them, so what is
put together of fixed pieces and escaped texts has the marks of the pieces.
-/

namespace ApiPages

namespace Text

/-- The characters that open and close tags, and quote the values in them. -/
def isMark (c : Char) : Bool :=
  c == '<' || c == '>' || c == '"' || c == '\''

/-- The marks of a text in their order. -/
def marks (s : String) : List Char :=
  s.toList.filter isMark

@[simp]
theorem marks_empty : marks "" = [] := rfl

@[simp]
theorem marks_append (a b : String) : marks (a ++ b) = marks a ++ marks b := by
  simp [marks, String.toList_append]

@[simp]
theorem marks_toString (s : String) : marks (toString s) = marks s := rfl

theorem marks_join (ss : List String) : marks (String.join ss) = ss.flatMap marks := by
  rw [marks, String.toList_join, List.filter_flatMap]
  rfl

theorem marks_join_congr {ss ts : List String} (h : List.Forall₂ (marks · = marks ·) ss ts) :
    marks (String.join ss) = marks (String.join ts) := by
  rw [marks_join, marks_join]
  induction h with
  | nil => rfl
  | cons hst _ ih => rw [List.flatMap_cons, List.flatMap_cons, hst, ih]

theorem filter_entity (c : Char) : (entity c).filter isMark = [] := by
  unfold entity
  split
  case h_6 hamp hlt hgt hquot hapos =>
    have hplain : isMark c = false := by simp_all [isMark]
    simp [hplain]
  all_goals rfl

/-- **Escaped text has no marks.** -/
@[simp]
theorem marks_escape (s : String) : marks (escape s) = [] := by
  rw [marks, escape_toList, List.filter_flatMap]
  exact List.flatMap_eq_nil_iff.mpr fun c _ => filter_entity c

theorem marks_append_ne_nil {a : String} (h : marks a ≠ []) (b : String) : marks (a ++ b) ≠ [] := by
  rw [marks_append]
  exact List.append_ne_nil_of_left_ne_nil h (marks b)

end Text

@[simp]
theorem Value.marks_escaped (v : Value) : Text.marks v.escaped = [] :=
  Text.marks_escape v.display

namespace Page

open Text (marks)

theorem marks_intercalate {sep : String} (hsep : marks sep = []) (ss : List String) :
    marks (sep.intercalate ss) = ss.flatMap marks := by
  induction ss with
  | nil => rw [String.intercalate_nil, Text.marks_empty, List.flatMap_nil]
  | cons s ss ih =>
      cases ss with
      | nil => simp
      | cons t ss =>
          rw [String.intercalate_cons_cons, Text.marks_append, Text.marks_append, hsep, ih,
            List.append_nil]
          exact List.flatMap_cons.symm

theorem marks_joinFragments (fragments : List String) :
    marks (joinFragments fragments) = fragments.flatMap marks := by
  rw [joinFragments, marks_intercalate (by decide)]
  induction fragments with
  | nil => rfl
  | cons s fragments ih =>
      by_cases hs : s = ""
      · rw [List.filter_cons_of_neg (by simpa using hs), ih, hs, List.flatMap_cons]
        rfl
      · rw [List.filter_cons_of_pos (by simpa using hs), List.flatMap_cons, List.flatMap_cons, ih]

/-! ### Texts of the same markup -/

/-- Two texts with the same marks, of which none is empty unless both are. -/
def SameMarkup (a b : String) : Prop :=
  marks a = marks b ∧ (marks a = [] → a = "" ∧ b = "")

namespace SameMarkup

variable {a b : String}

theorem empty : SameMarkup "" "" :=
  ⟨rfl, fun _ => ⟨rfl, rfl⟩⟩

theorem of_ne_nil (h : marks a = marks b) (hne : marks a ≠ []) : SameMarkup a b :=
  ⟨h, fun hnil => absurd hnil hne⟩

theorem eq_empty_iff (h : SameMarkup a b) : a = "" ↔ b = "" := by
  constructor
  · rintro rfl
    exact (h.2 rfl).2
  · rintro rfl
    exact (h.2 h.1).1

theorem joinFragments_eq_empty {ss : List String} (h : ∀ s ∈ ss, s = "") :
    joinFragments ss = "" := by
  have hnone : ss.filter (· ≠ "") = [] := by
    rw [List.filter_eq_nil_iff]
    simpa using h
  rw [joinFragments, hnone, String.intercalate_nil]

theorem joinFragments {ss ts : List String} (h : List.Forall₂ SameMarkup ss ts) :
    SameMarkup (joinFragments ss) (joinFragments ts) := by
  have hmarks := Text.marks_join_congr (h.imp fun _ _ hst => hst.1)
  rw [Text.marks_join, Text.marks_join] at hmarks
  rw [SameMarkup, marks_joinFragments, marks_joinFragments]
  refine ⟨hmarks, fun hnil => ?_⟩
  rw [List.flatMap_eq_nil_iff] at hnil
  have hempty : (∀ s ∈ ss, s = "") ∧ ∀ t ∈ ts, t = "" := by
    clear hmarks
    induction h with
    | nil => exact ⟨fun _ hs => absurd hs List.not_mem_nil, fun _ ht => absurd ht List.not_mem_nil⟩
    | cons hst _ ih =>
        obtain ⟨hs, hss⟩ := List.forall_mem_cons.mp hnil
        obtain ⟨hlater, hlater'⟩ := ih hss
        obtain ⟨hleft, hright⟩ := hst.2 hs
        exact ⟨List.forall_mem_cons.mpr ⟨hleft, hlater⟩, List.forall_mem_cons.mpr ⟨hright, hlater'⟩⟩
  exact ⟨joinFragments_eq_empty hempty.1, joinFragments_eq_empty hempty.2⟩

end SameMarkup

end Page

end ApiPages
