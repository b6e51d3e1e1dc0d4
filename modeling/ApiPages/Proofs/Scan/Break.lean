import ApiPages.Proofs.Scan.Chain
import ApiPages.Proofs.Text.Trim
import Mathlib.Data.List.TakeWhile

/-!
# Reading in front of a line break

A text is read alike with and without a line break behind it. No name, number, blank or mark reaches
over a line break, and where all that is left is taken, the break goes with the blanks around it.
After each step the two cursors stand at the same place, or both have come to the end.
-/

namespace ApiPages

/-! ### Patterns -/

/-- A pattern whose matches lie within the text and do not change with a line break behind it. -/
structure Pattern.IgnoresBreak (p : Pattern) : Prop where
  within : ∀ cs n, p cs = some n → n ≤ cs.length
  same : ∀ cs, p (cs ++ ['\n']) = p cs

namespace Pattern

/-- A run of characters ends in front of the break, unless it takes all of the text with it. -/
theorem takeWhile_append_break (p : Char → Bool) (cs : List Char) :
    (cs ++ ['\n']).takeWhile p = cs.takeWhile p ∨
      cs.takeWhile p = cs ∧ p '\n' = true ∧ (cs ++ ['\n']).takeWhile p = cs ++ ['\n'] := by
  rw [List.takeWhile_append]
  split
  · rename_i hlength
    have hall : cs.takeWhile p = cs := (List.takeWhile_prefix p).eq_of_length hlength
    cases hbreak : p '\n' with
    | false => simp [hbreak, hall]
    | true => exact Or.inr ⟨hall, rfl, by simp [hbreak]⟩
  · exact Or.inl rfl

theorem takeWhile_append_break_of_not {p : Char → Bool} (h : p '\n' = false) (cs : List Char) :
    (cs ++ ['\n']).takeWhile p = cs.takeWhile p := by
  rcases takeWhile_append_break p cs with hsame | ⟨-, hbreak, -⟩
  · exact hsame
  · simp [h] at hbreak

theorem ignoresBreak_run {p : Char → Bool} (h : p '\n' = false) : (run p).IgnoresBreak where
  within cs n hn := by
    obtain rfl := Option.some.inj hn
    exact (List.takeWhile_prefix p).length_le
  same cs := by rw [run, run, takeWhile_append_break_of_not h]

theorem ignoresBreak_run1 {p : Char → Bool} (h : p '\n' = false) : (run1 p).IgnoresBreak where
  within cs n hn := by
    have hlength := (List.takeWhile_prefix (l := cs) p).length_le
    rw [run1] at hn
    split at hn
    · cases hn
    · rename_i c taken htaken
      obtain rfl := Option.some.inj hn
      rwa [htaken] at hlength
  same cs := by rw [run1, run1, takeWhile_append_break_of_not h]

theorem ignoresBreak_char {p : Char → Bool} (h : p '\n' = false) : (char p).IgnoresBreak where
  within cs n hn := by
    cases cs with
    | nil => cases hn
    | cons c cs =>
        rw [char] at hn
        split at hn
        · obtain rfl := Option.some.inj hn
          simp
        · cases hn
  same cs := by
    cases cs with
    | nil => simp [char, h]
    | cons c cs => rfl

theorem isPrefixOf_append_break {word : List Char} (h : '\n' ∉ word) (cs : List Char) :
    word.isPrefixOf (cs ++ ['\n']) = word.isPrefixOf cs := by
  rw [Bool.eq_iff_iff, List.isPrefixOf_iff_prefix, List.isPrefixOf_iff_prefix,
    List.prefix_concat_iff]
  constructor
  · rintro (rfl | hprefix)
    · simp at h
    · exact hprefix
  · exact Or.inr

theorem ignoresBreak_literal {word : List Char} (h : '\n' ∉ word) :
    (literal word).IgnoresBreak where
  within cs n hn := by
    rw [literal] at hn
    split at hn
    · rename_i hprefix
      obtain rfl := Option.some.inj hn
      exact (List.isPrefixOf_iff_prefix.mp hprefix).length_le
    · cases hn
  same cs := by rw [literal, literal, isPrefixOf_append_break h]

theorem ignoresBreak_literalThen {word : List Char} {mark : Char} (h : '\n' ∉ word ++ [mark]) :
    (literalThen word mark).IgnoresBreak where
  within cs n hn := by
    rw [literalThen] at hn
    split at hn
    · rename_i hprefix
      obtain rfl := Option.some.inj hn
      have hlength := (List.isPrefixOf_iff_prefix.mp hprefix).length_le
      rwa [List.length_append] at hlength
    · have hword : '\n' ∉ word := fun hmem => h (List.mem_append_left _ hmem)
      exact (ignoresBreak_literal hword).within cs n hn
  same cs := by
    have hword : '\n' ∉ word := fun hmem => h (List.mem_append_left _ hmem)
    rw [literalThen, literalThen, isPrefixOf_append_break h, (ignoresBreak_literal hword).same]

theorem isIdent_break : Text.isIdent '\n' = false := by decide

theorem chainTail_append_break (cs : List Char) : chainTail (cs ++ ['\n']) = chainTail cs := by
  fun_induction chainTail cs with
  | case1 => simp [chainTail, isIdent_break]
  | case2 c hc => simp [chainTail, isIdent_break, hc]
  | case3 c hc => simp [chainTail, isIdent_break, hc]
  | case4 c d cs hc ih =>
      rw [List.cons_append, List.cons_append, chainTail, if_pos hc, ← List.cons_append, ih]
  | case5 c d cs hc hdot ih =>
      rw [List.cons_append, List.cons_append, chainTail, if_neg hc, if_pos hdot, ih]
  | case6 c d cs hc hdot =>
      rw [List.cons_append, List.cons_append, chainTail, if_neg hc, if_neg hdot]

theorem ignoresBreak_identChain : identChain.IgnoresBreak where
  within _ _ := le_of_identChain
  same cs := by
    cases cs with
    | nil => simp [identChain, isIdent_break]
    | cons c cs => rw [List.cons_append, identChain, identChain, chainTail_append_break]

theorem ignoresBreak_blanks : blanks.IgnoresBreak :=
  ignoresBreak_run rfl

theorem ignoresBreak_version : version.IgnoresBreak :=
  ignoresBreak_run1 (by decide)

end Pattern

/-! ### Cursors -/

/-- A cursor in the same text with a line break behind it: both stand at the same place, or both at
the end, and complain of the same things. -/
structure Cursor.Padded (c padded : Cursor) : Prop where
  rest : padded.rest = c.rest ++ ['\n'] ∨ c.rest = [] ∧ padded.rest = []
  complaints : padded.complaints = c.complaints

namespace Cursor

theorem padded_start (text : List Char) : Padded (start text) (start (text ++ ['\n'])) :=
  ⟨Or.inl rfl, rfl⟩

namespace Padded

variable {c padded : Cursor} (h : c.Padded padded)
include h

theorem complain (category : Category) (message : String) :
    Padded (c.complain category message) (padded.complain category message) := by
  refine ⟨h.rest, ?_⟩
  rw [Cursor.complain, Cursor.complain, h.complaints]

theorem skip {n : Nat} (hn : n ≤ c.rest.length) : Padded (c.skip n) (padded.skip n) := by
  refine ⟨?_, h.complaints⟩
  rcases h.rest with hrest | ⟨hc, hpadded⟩
  · have hdrop : (c.rest ++ ['\n']).drop n = c.rest.drop n ++ ['\n'] :=
      List.drop_append_of_le_length hn
    exact Or.inl ((congrArg (List.drop n) hrest).trans hdrop)
  · refine Or.inr ⟨?_, ?_⟩
    · simp [Cursor.skip, hc]
    · simp [Cursor.skip, hpadded]

theorem trim_rest : Text.trim padded.rest = Text.trim c.rest := by
  rcases h.rest with hrest | ⟨hc, hpadded⟩
  · rw [hrest, Text.trim_append_break]
  · rw [hc, hpadded]

theorem pattern_rest {p : Pattern} (hp : p.IgnoresBreak) : p padded.rest = p c.rest := by
  rcases h.rest with hrest | ⟨hc, hpadded⟩
  · rw [hrest, hp.same]
  · rw [hc, hpadded]

theorem take_rest {n : Nat} (hn : n ≤ c.rest.length) : padded.rest.take n = c.rest.take n := by
  rcases h.rest with hrest | ⟨hc, hpadded⟩
  · rw [hrest, List.take_append_of_le_length hn]
  · rw [hc, hpadded]

end Padded

theorem interior_append_break (depth : Nat) (cs : List Char) :
    interior depth (cs ++ ['\n']) = interior depth cs := by
  fun_induction interior depth cs with
  | case1 depth => rfl
  | case2 depth cs ih => simp [interior, ih]
  | case3 cs hopen => simp [interior]
  | case4 cs depth hopen ih => simp [interior, ih]
  | case5 depth c cs hopen hclose ih => simp [interior, hopen, hclose, ih]

theorem lt_of_interior {depth n : Nat} {cs : List Char} (h : interior depth cs = some n) :
    n < cs.length := by
  fun_induction interior depth cs generalizing n with
  | case1 depth => cases h
  | case3 cs hopen =>
      obtain rfl := Option.some.inj h
      exact Nat.succ_pos _
  | case2 depth cs ih | case4 cs depth hopen ih | case5 depth c cs hopen hclose ih =>
      obtain ⟨m, hm, rfl⟩ := Option.map_eq_some_iff.mp h
      exact Nat.succ_lt_succ (ih hm)

end Cursor

/-! ### Steps of reading -/

theorem Scan.accept_run (p : Char → Bool) (c : Cursor) :
    accept (.run p) c = (some (String.ofList (c.rest.takeWhile p)),
      c.skip (c.rest.takeWhile p).length) := by
  have htake : c.rest.take (c.rest.takeWhile p).length = c.rest.takeWhile p :=
    (List.prefix_iff_eq_take.mp (List.takeWhile_prefix p)).symm
  rw [accept, Pattern.run]
  dsimp only
  rw [htake]

/-- A step that reads the same with a line break behind the text. -/
def Scan.IgnoresBreak {α : Type} (m : Scan α) : Prop :=
  ∀ c padded, c.Padded padded → (m padded).1 = (m c).1 ∧ (m c).2.Padded (m padded).2

namespace Scan.IgnoresBreak

variable {α β : Type} {m : Scan α}

theorem pure (a : α) : IgnoresBreak (Pure.pure a : Scan α) :=
  fun _ _ h => ⟨rfl, h⟩

theorem bind {f : α → Scan β} (hm : m.IgnoresBreak) (hf : ∀ a, (f a).IgnoresBreak) :
    (m >>= f).IgnoresBreak := by
  intro c padded h
  obtain ⟨hvalue, hnext⟩ := hm c padded h
  have hlater := hf (m c).1 _ _ hnext
  change (f (m padded).1 (m padded).2).1 = (f (m c).1 (m c).2).1 ∧
    (f (m c).1 (m c).2).2.Padded (f (m padded).1 (m padded).2).2
  rw [hvalue]
  exact hlater

theorem ite_bind {n : Scan α} {f : α → Scan β} (cond : Prop) [Decidable cond]
    (hm : m.IgnoresBreak) (hn : n.IgnoresBreak) (hf : ∀ a, (f a).IgnoresBreak) :
    IgnoresBreak (if cond then m >>= f else n >>= f) := by
  split
  · exact hm.bind hf
  · exact hn.bind hf

theorem look {p : Pattern} (hp : p.IgnoresBreak) : (Scan.look p).IgnoresBreak :=
  fun _ _ h => ⟨congrArg Option.isSome (h.pattern_rest hp), h⟩

theorem complain (category : Category) (message : String) :
    (Scan.complain category message).IgnoresBreak :=
  fun _ _ h => ⟨rfl, h.complain category message⟩

theorem accept {p : Pattern} (hp : p.IgnoresBreak) : (Scan.accept p).IgnoresBreak := by
  intro c padded h
  rw [Scan.accept, Scan.accept, h.pattern_rest hp]
  cases hmatch : p c.rest with
  | none => exact ⟨rfl, h⟩
  | some n =>
      have hn := hp.within c.rest n hmatch
      dsimp only
      rw [h.take_rest hn]
      exact ⟨rfl, h.skip hn⟩

theorem blanks : Scan.blanks.IgnoresBreak :=
  (accept Pattern.ignoresBreak_blanks).bind fun _ => pure ()

theorem identChain : Scan.identChain.IgnoresBreak :=
  accept Pattern.ignoresBreak_identChain

theorem version : Scan.version.IgnoresBreak :=
  accept Pattern.ignoresBreak_version

theorem restOfLine : Scan.restOfLine.IgnoresBreak :=
  (accept (Pattern.ignoresBreak_run rfl)).bind fun _ => pure _

/-- A run may take all that is left, and then the break comes with it, but trimming drops it. -/
theorem trimmedRun (p : Char → Bool) : IgnoresBreak (do
    let text ← Scan.accept (.run p)
    return some (Text.trimmed (text.getD "")) : Scan (Option String)) := by
  intro c padded h
  have hrun : ∀ d : Cursor, (do
      let text ← Scan.accept (.run p)
      return some (Text.trimmed (text.getD "")) : Scan (Option String)) d =
        (some (String.ofList (Text.trim (d.rest.takeWhile p))),
          d.skip (d.rest.takeWhile p).length) := by
    intro d
    change (some (Text.trimmed (((Scan.accept (.run p) d).1).getD "")),
      (Scan.accept (.run p) d).2) = _
    rw [accept_run, Option.getD_some, Text.trimmed, String.toList_ofList]
  have hlength : (c.rest.takeWhile p).length ≤ c.rest.length :=
    (List.takeWhile_prefix p).length_le
  rw [hrun, hrun]
  rcases h.rest with hrest | ⟨hc, hpadded⟩
  · rw [hrest]
    rcases Pattern.takeWhile_append_break p c.rest with hsame | ⟨hall, -, hbreak⟩
    · rw [hsame]
      exact ⟨rfl, h.skip hlength⟩
    · rw [hall, hbreak, Text.trim_append_break]
      refine ⟨rfl, Or.inr ⟨?_, ?_⟩, h.complaints⟩
      · simp [Cursor.skip]
      · simp [Cursor.skip, hrest]
  · rw [hpadded, ← hc]
    exact ⟨rfl, h.skip hlength⟩

theorem typedef : Scan.typedef.IgnoresBreak := by
  intro c padded h
  rcases h.rest with hrest | ⟨hc, hpadded⟩
  · cases hc : c.rest with
    | nil =>
        rw [hc] at hrest
        rw [Scan.typedef, Scan.typedef, hc, hrest]
        exact ⟨rfl, h⟩
    | cons first inner =>
        by_cases hbrace : first = '{'
        · subst hbrace
          rw [hc, List.cons_append] at hrest
          rw [Scan.typedef, Scan.typedef, hc, hrest]
          simp only [Cursor.interior_append_break]
          cases hinterior : Cursor.interior 0 inner with
          | none =>
              dsimp only
              rw [Text.trim_append_break]
              refine ⟨rfl, Or.inr ⟨?_, ?_⟩, (h.complain _ _).complaints⟩
              · simp [Cursor.skip, Cursor.complain, hc]
              · simp [Cursor.skip, Cursor.complain, hrest]
          | some n =>
              have hn := Cursor.lt_of_interior hinterior
              have hlength : n + 2 ≤ c.rest.length := by
                rw [hc, List.length_cons]
                omega
              dsimp only
              rw [List.take_append_of_le_length (Nat.le_of_lt hn)]
              exact ⟨rfl, h.skip hlength⟩
        · rw [Scan.typedef, Scan.typedef, hrest, hc]
          simp [hbrace, h]
  · rw [Scan.typedef, Scan.typedef, hc, hpadded]
    exact ⟨rfl, h⟩

end Scan.IgnoresBreak

end ApiPages
