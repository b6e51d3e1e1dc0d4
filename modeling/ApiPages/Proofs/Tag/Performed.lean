import ApiPages.Proofs.Scan.Operations
import ApiPages.Proofs.Tag.Break

/-!
# What the standard tags do at a place

Every standard tag reads what follows it by performing operations one after another, and in no other
way. So whatever the text, the place stays within it and never goes back, and what a tag leaves
behind is exactly what it has not read.
-/

namespace ApiPages.Tag

open Scan (Composed Performs performAll Within)

theorem composed_complainIf (y : Yield) (cond : Prop) [Decidable cond] (category : Category)
    (message : String) :
    Composed (if cond then do Scan.complain category message; pure y else pure y) := by
  split
  · exact .bind (.complain category message) fun _ => .pure y
  · exact .pure y

/-! ### Flags and lines -/

theorem composed_since (position : Option SourceRef) : Composed (since.parse position) := by
  apply Composed.bind .blanks
  intro _
  exact .bind .restOfLine fun _ => .pure _

theorem composed_deprecated (position : Option SourceRef) :
    Composed (deprecated.parse position) := by
  apply Composed.bind .blanks
  intro _
  apply Composed.bind (.look .digit)
  intro digit
  cases digit with
  | false => exact .pure _
  | true => exact .bind .version fun _ => .pure _

/-! ### Signatures -/

theorem composed_scanDefault : Composed scanDefault := by
  apply Composed.bind (.accept .equals)
  intro mark
  split
  · exact .bind .blanks fun _ => .bind (.accept .toBracket) fun _ => .pure _
  · exact .pure none

theorem composed_scanBracketed (complaint : String) : Composed (scanBracketed complaint) := by
  apply Composed.bind .blanks
  intro _
  apply Composed.bind .identChain
  intro name
  apply Composed.bind .blanks
  intro _
  apply Composed.bind composed_scanDefault
  intro default
  apply Composed.bind (.accept .closeBracket)
  intro close
  split
  · exact .bind (.complain _ _) fun _ => .pure _
  · exact .pure _

theorem composed_parseParam : Composed parseParam := by
  apply Composed.bind .blanks
  intro _
  apply Composed.bind .typedef
  intro type
  apply Composed.bind .blanks
  intro _
  apply Composed.bind (.accept .openBracket)
  intro bracket
  dsimp only
  split
  · exact .bind (composed_scanBracketed _) fun (name, default) => composed_complainIf _ _ _ _
  · exact .bind .identChain fun name => composed_complainIf _ _ _ _

theorem composed_parseReturn : Composed parseReturn := by
  apply Composed.bind .blanks
  intro _
  apply Composed.bind .typedef
  intro type
  apply Composed.bind .blanks
  intro _
  exact .bind (.accept .returnWord) fun _ => .pure _

theorem composed_thrown (position : Option SourceRef) : Composed (thrown.parse position) := by
  apply Composed.bind .blanks
  intro _
  exact .bind .typedef fun _ => .pure _

/-! ### Members -/

theorem composed_requiredMark (f : Option String → Yield) (canRequire : Bool) :
    Composed (if canRequire = true then do
        Scan.blanks
        let mark ← Scan.accept .requiredMark
        pure (f mark)
      else do
        let mark ← pure none
        pure (f mark)) := by
  split
  · apply Composed.bind .blanks
    intro _
    exact .bind (.accept .requiredMark) fun mark => .pure (f mark)
  · exact .pure (f none)

theorem composed_parseMember (tagname : String) (hasDefault canRequire : Bool) :
    Composed (parseMember tagname hasDefault canRequire) := by
  apply Composed.bind .blanks
  intro _
  apply Composed.bind .typedef
  intro type
  apply Composed.bind .blanks
  intro _
  dsimp only
  refine .ite_bind _ (.accept .openBracket) (.pure none) fun bracketed => ?_
  split
  · exact .bind (composed_scanBracketed _) fun (name, default) =>
      composed_requiredMark _ canRequire
  · exact .bind .identChain fun name => composed_requiredMark _ canRequire

/-! ### Classes -/

theorem composed_parseClassName (tagname complaint : String) :
    Composed (parseClassName tagname complaint) := by
  apply Composed.bind .blanks
  intro _
  apply Composed.bind .identChain
  intro found
  cases found with
  | none => exact .bind (.complain _ _) fun _ => .pure _
  | some name => exact .pure _

/-- What is read behind a look for a name: further names, if there was one. -/
def scanFurther : Option String → Scan (List String)
  | some name => (name :: ·) <$> scanNames
  | none => pure []

theorem scanNames_eq :
    @Eq (Scan (List String)) scanNames
      (Scan.blanks >>= fun _ => Scan.identChain >>= scanFurther) := by
  funext c
  change scanNames c = scanFurther (Scan.identChain (Scan.blanks c).2).1
    (Scan.identChain (Scan.blanks c).2).2
  cases hname : (Scan.identChain (Scan.blanks c).2).1 with
  | none => exact scanNames_of_none hname
  | some name => exact scanNames_of_some hname

/-- Each look for a name but the last one moves the place on, so that there are only so many. -/
theorem composed_scanNames : Composed scanNames := by
  have hlook : ∀ c : Cursor, ∃ ops, Performs Scan.blanks c ops ∧
      ∃ more, Performs Scan.identChain (Scan.blanks c).2 more := by
    intro c
    obtain ⟨ops, hops⟩ := Composed.blanks c
    exact ⟨ops, hops, Composed.identChain _⟩
  intro c
  fun_induction scanNames c with
  | case1 c after h =>
      obtain ⟨ops, hblanks, more, hchain⟩ := hlook c
      rw [scanNames_eq]
      refine ⟨ops ++ (more ++ []), hblanks.bind (hchain.bind ?_)⟩
      rw [h]
      exact .pure [] after
  | case2 c name after h _ _ names last hnames ih =>
      obtain ⟨ops, hblanks, more, hchain⟩ := hlook c
      obtain ⟨later, hlater⟩ := ih
      rw [scanNames_eq]
      refine ⟨ops ++ (more ++ later), hblanks.bind (hchain.bind ?_)⟩
      rw [h]
      exact hlater.map (name :: ·)

theorem composed_standard : ∀ t ∈ standard, ∀ position, Composed (t.parse position) := by
  simp only [standard, List.forall_mem_cons]
  refine ⟨fun _ => composed_parseMember _ _ _, fun _ => composed_parseMember _ _ _,
    fun _ => composed_parseMember _ _ _, fun _ => composed_parseMember _ _ _,
    fun _ => composed_parseMember _ _ _, fun _ => composed_parseMember _ _ _,
    fun _ => .pure _, fun _ => .pure _, fun _ => .pure _, composed_since, composed_deprecated,
    fun _ => composed_parseParam, fun _ => composed_parseReturn, composed_thrown, fun _ => .pure _,
    fun _ => composed_parseClassName _ _, fun _ => .bind composed_scanNames fun _ => .pure _,
    fun _ => composed_parseClassName _ _, ?_⟩
  exact fun _ h => absurd h List.not_mem_nil

/-- **A place in a text stays in order, whatever is done there.** Behind any operations it lies
within the text and divides it in two, each further operation keeps its discipline, and however many
come, none moves it back. And every standard tag performs operations and does nothing else, so that
all of this holds on the way through its reading, and at its end. -/
theorem places_stay_in_order (text : List Char) :
    (∀ ops : List Scan.Operation,
      Within text (performAll (.start text) ops) ∧
      (∀ op : Scan.Operation, op.Disciplined (performAll (.start text) ops)) ∧
      ∀ later : List Scan.Operation,
        (performAll (.start text) ops).index ≤ (performAll (.start text) (ops ++ later)).index) ∧
    ∀ t ∈ standard, ∀ position, ∃ ops, Performs (t.parse position) (.start text) ops ∧
      (t.parse position (.start text)).2 = performAll (.start text) ops := by
  refine ⟨fun ops => ⟨Scan.within_performAll text ops, fun op => Scan.disciplined_perform op _,
    fun later => ?_⟩, fun t ht position => ?_⟩
  · rw [Scan.performAll_append]
    exact (Scan.ahead_performAll _ later).index_le
  · obtain ⟨ops, hops⟩ := composed_standard t ht position (.start text)
    exact ⟨ops, hops, hops.cursor_eq⟩

/-- A parameter with a type that is not closed. -/
def unclosedType : List Char :=
  " \x7bA\x7bb\x7d name\nmore".toList

/-- A type that is not closed takes everything, and the place is at the end of the text. -/
theorem unclosed_param_in_order : param ∈ standard ∧
    ∃ ops, Performs (param.parse none) (.start unclosedType) ops ∧
      (performAll (.start unclosedType) ops).index = 16 ∧
      (performAll (.start unclosedType) ops).rest = [] := by
  have hparam : param ∈ standard := by simp [standard]
  obtain ⟨ops, hops, hend⟩ := (places_stay_in_order unclosedType).2 param hparam none
  refine ⟨hparam, ops, hops, ?_⟩
  rw [← hend]
  decide +kernel

end ApiPages.Tag
