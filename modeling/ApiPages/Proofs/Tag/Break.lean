import ApiPages.Proofs.Scan.Break
import ApiPages.Tag.Standard

/-!
# Standard tags in front of a line break

Whatever text follows a standard tag, and however broken it is, the tag makes the same records and
complaints of it if a line break comes behind it.
-/

namespace ApiPages.Tag

open Scan (IgnoresBreak)

/-- A tag that reads the same with a line break behind its text. -/
def IgnoresBreak (t : Tag) : Prop :=
  ∀ position, (t.parse position).IgnoresBreak

theorem ignoresBreak_complainIf (y : Yield) (cond : Prop) [Decidable cond] (category : Category)
    (message : String) :
    Scan.IgnoresBreak
      (if cond then do Scan.complain category message; pure y else pure y) := by
  split
  · exact .bind (.complain category message) fun _ => .pure y
  · exact .pure y

/-! ### Flags and lines -/

theorem ignoresBreak_plainFlag (name : String) (scope : List String) :
    (plainFlag name scope).IgnoresBreak :=
  fun _ => .pure _

theorem ignoresBreak_since : since.IgnoresBreak := by
  intro position
  apply Scan.IgnoresBreak.bind .blanks
  intro _
  exact .bind .restOfLine fun _ => .pure _

theorem ignoresBreak_deprecated : deprecated.IgnoresBreak := by
  intro position
  apply Scan.IgnoresBreak.bind .blanks
  intro _
  apply Scan.IgnoresBreak.bind (.look (Pattern.ignoresBreak_char (by decide)))
  intro digit
  cases digit with
  | false => exact .pure _
  | true => exact .bind .version fun _ => .pure _

/-! ### Signatures -/

theorem ignoresBreak_scanDefault : Scan.IgnoresBreak scanDefault := by
  apply Scan.IgnoresBreak.bind (.accept (Pattern.ignoresBreak_char (by decide)))
  intro mark
  split
  · exact .bind .blanks fun _ => .trimmedRun _
  · exact .pure none

theorem ignoresBreak_scanBracketed (complaint : String) :
    Scan.IgnoresBreak (scanBracketed complaint) := by
  apply Scan.IgnoresBreak.bind .blanks
  intro _
  apply Scan.IgnoresBreak.bind .identChain
  intro name
  apply Scan.IgnoresBreak.bind .blanks
  intro _
  apply Scan.IgnoresBreak.bind ignoresBreak_scanDefault
  intro default
  apply Scan.IgnoresBreak.bind (.accept (Pattern.ignoresBreak_char (by decide)))
  intro close
  split
  · exact .bind (.complain _ _) fun _ => .pure _
  · exact .pure _

theorem ignoresBreak_param : param.IgnoresBreak := by
  intro position
  apply Scan.IgnoresBreak.bind .blanks
  intro _
  apply Scan.IgnoresBreak.bind .typedef
  intro type
  apply Scan.IgnoresBreak.bind .blanks
  intro _
  apply Scan.IgnoresBreak.bind (.accept (Pattern.ignoresBreak_char (by decide)))
  intro bracket
  dsimp only
  split
  · exact .bind (ignoresBreak_scanBracketed _) fun (name, default) =>
      ignoresBreak_complainIf _ _ _ _
  · exact .bind .identChain fun name => ignoresBreak_complainIf _ _ _ _

theorem ignoresBreak_returned : returned.IgnoresBreak := by
  intro position
  apply Scan.IgnoresBreak.bind .blanks
  intro _
  apply Scan.IgnoresBreak.bind .typedef
  intro type
  apply Scan.IgnoresBreak.bind .blanks
  intro _
  exact .bind (.accept (Pattern.ignoresBreak_literalThen (by decide))) fun _ => .pure _

theorem ignoresBreak_thrown : thrown.IgnoresBreak := by
  intro position
  apply Scan.IgnoresBreak.bind .blanks
  intro _
  exact .bind .typedef fun _ => .pure _

/-! ### Members -/

theorem ignoresBreak_requiredMark (f : Option String → Yield) (canRequire : Bool) :
    Scan.IgnoresBreak (if canRequire = true then do
        Scan.blanks
        let mark ← Scan.accept .requiredMark
        pure (f mark)
      else do
        let mark ← pure none
        pure (f mark)) := by
  split
  · apply Scan.IgnoresBreak.bind .blanks
    intro _
    exact .bind (.accept (Pattern.ignoresBreak_literal (by decide))) fun mark => .pure (f mark)
  · exact .pure (f none)

theorem ignoresBreak_parseMember (tagname : String) (hasDefault canRequire : Bool) :
    Scan.IgnoresBreak (parseMember tagname hasDefault canRequire) := by
  apply Scan.IgnoresBreak.bind .blanks
  intro _
  apply Scan.IgnoresBreak.bind .typedef
  intro type
  apply Scan.IgnoresBreak.bind .blanks
  intro _
  dsimp only
  refine .ite_bind _ (.accept (Pattern.ignoresBreak_char (by decide))) (.pure none)
    fun bracketed => ?_
  split
  · exact .bind (ignoresBreak_scanBracketed _) fun (name, default) =>
      ignoresBreak_requiredMark _ canRequire
  · exact .bind .identChain fun name => ignoresBreak_requiredMark _ canRequire

/-! ### Classes -/

theorem ignoresBreak_parseClassName (tagname complaint : String) :
    Scan.IgnoresBreak (parseClassName tagname complaint) := by
  apply Scan.IgnoresBreak.bind .blanks
  intro _
  apply Scan.IgnoresBreak.bind .identChain
  intro found
  cases found with
  | none => exact .bind (.complain _ _) fun _ => .pure _
  | some name => exact .pure _

theorem scanNames_of_none {c : Cursor} (h : (Scan.identChain (Scan.blanks c).2).1 = none) :
    scanNames c = ([], (Scan.identChain (Scan.blanks c).2).2) := by
  rw [scanNames]
  split
  · rename_i after hfirst
    rw [hfirst]
  · rename_i name after hfirst
    rw [hfirst] at h
    cases h

theorem scanNames_of_some {c : Cursor} {name : String}
    (h : (Scan.identChain (Scan.blanks c).2).1 = some name) :
    scanNames c = (name :: (scanNames (Scan.identChain (Scan.blanks c).2).2).1,
      (scanNames (Scan.identChain (Scan.blanks c).2).2).2) := by
  rw [scanNames]
  split
  · rename_i after hfirst
    rw [hfirst] at h
    cases h
  · rename_i other after hfirst
    have hafter : (Scan.identChain (Scan.blanks c).2).2 = after := congrArg Prod.snd hfirst
    rw [hfirst] at h
    obtain rfl := Option.some.inj h
    rw [hafter]

theorem ignoresBreak_scanNames : Scan.IgnoresBreak scanNames := by
  have hfirst : ∀ c padded, c.Padded padded →
      (Scan.identChain (Scan.blanks padded).2).1 = (Scan.identChain (Scan.blanks c).2).1 ∧
        (Scan.identChain (Scan.blanks c).2).2.Padded (Scan.identChain (Scan.blanks padded).2).2 :=
    Scan.IgnoresBreak.bind .blanks fun _ => .identChain
  intro c
  fun_induction scanNames c with
  | case1 c after h =>
      intro padded hpadded
      obtain ⟨hname, hafter⟩ := hfirst c padded hpadded
      rw [h] at hname hafter
      rw [scanNames_of_none hname]
      exact ⟨rfl, hafter⟩
  | case2 c name after h _ _ names last hnames ih =>
      intro padded hpadded
      obtain ⟨hname, hafter⟩ := hfirst c padded hpadded
      rw [h] at hname hafter
      obtain ⟨hsame, hlast⟩ := ih _ hafter
      rw [hnames] at hsame hlast
      rw [scanNames_of_some hname]
      exact ⟨congrArg (name :: ·) hsame, hlast⟩

theorem ignoresBreak_mixins : mixins.IgnoresBreak :=
  fun _ => .bind ignoresBreak_scanNames fun _ => .pure _

theorem ignoresBreak_standard : ∀ t ∈ standard, t.IgnoresBreak := by
  simp only [standard, List.forall_mem_cons]
  refine ⟨fun _ => ignoresBreak_parseMember _ _ _, fun _ => ignoresBreak_parseMember _ _ _,
    fun _ => ignoresBreak_parseMember _ _ _, fun _ => ignoresBreak_parseMember _ _ _,
    fun _ => ignoresBreak_parseMember _ _ _, fun _ => ignoresBreak_parseMember _ _ _,
    ignoresBreak_plainFlag _ _, ignoresBreak_plainFlag _ _, ignoresBreak_plainFlag _ _,
    ignoresBreak_since, ignoresBreak_deprecated, ignoresBreak_param, ignoresBreak_returned,
    ignoresBreak_thrown, ignoresBreak_plainFlag _ _,
    fun _ => ignoresBreak_parseClassName _ _, ignoresBreak_mixins,
    fun _ => ignoresBreak_parseClassName _ _, ?_⟩
  exact fun _ h => absurd h List.not_mem_nil

end ApiPages.Tag
