import ApiPages.Override
import ApiPages.Proofs.Text.Visible

/-!
# Documentation block by block

Documentation grows by blocks, each behind a blank line, and is trimmed at both ends every time. The
blanks in front of a block that starts with something else stay, so only the two ends of what is put
together are ever trimmed: the front of the text that was there first, and the end of each block
while it is the last one.
-/

namespace ApiPages

open Text (Visible)

/-! ### Blocks behind blank lines -/

/-- What stands between two blocks. -/
def blankLine : List Char :=
  ['\n', '\n']

/-- The block that the text in front of all others makes, if there is anything in it. -/
def openingBlock (doc : String) : List (List Char) :=
  if Text.isBlank doc.toList then [] else [Text.trimFront doc.toList]

/-- A block as it stays: without the blanks at its end. -/
def keptBlock (block : String) : List Char :=
  Text.trimEnd block.toList

theorem toList_addDoc {block : String} (h : Visible block.toList) (doc : String) :
    (addDoc doc block).toList =
      Text.joinWith blankLine (openingBlock doc ++ [keptBlock block]) := by
  have htrim : (addDoc doc block).toList =
      Text.trimFront (doc.toList ++ blankLine) ++ keptBlock block := by
    rw [addDoc, Text.trimmed_toList, String.toList_append, String.toList_append]
    exact Text.trim_append_visible h _
  rw [htrim, openingBlock, Text.trimFront, List.dropWhile_append]
  cases hblank : Text.isBlank doc.toList with
  | true =>
      have hnil : doc.toList.dropWhile Text.isSpace = [] := Text.trimFront_of_isBlank hblank
      rw [hnil, if_pos (by rfl), if_pos rfl, List.nil_append, Text.joinWith,
        List.intercalate_singleton]
      rfl
  | false =>
      have hne : doc.toList.dropWhile Text.isSpace ≠ [] := Text.trimFront_ne_nil hblank
      rw [if_neg (by simpa using hne), if_neg Bool.false_ne_true, List.singleton_append,
        Text.joinWith_cons, List.flatMap_singleton, List.append_assoc]
      rfl

theorem visible_addDoc {block : String} (h : Visible block.toList) (doc : String) :
    Visible (addDoc doc block).toList := by
  rw [toList_addDoc h, openingBlock]
  split
  · rw [List.nil_append, Text.joinWith, List.intercalate_singleton]
    exact Text.visible_trimEnd h
  · rename_i hblank
    obtain ⟨c, rest, hcons, hc⟩ := Text.visible_trimFront (Bool.not_eq_true _ ▸ hblank)
    rw [List.singleton_append, Text.joinWith_cons, hcons]
    exact ⟨c, _, rfl, hc⟩

/-- A text that starts with no blank is kept whole, its final blanks included. -/
theorem toList_addDoc_of_visible {doc block : String} (hdoc : Visible doc.toList)
    (hblock : Visible block.toList) :
    (addDoc doc block).toList = doc.toList ++ (blankLine ++ keptBlock block) := by
  rw [toList_addDoc hblock, openingBlock, hdoc.isBlank, if_neg Bool.false_ne_true,
    Text.trimFront_of_visible hdoc, List.singleton_append, Text.joinWith_cons,
    List.flatMap_singleton]

theorem toList_foldl_addDoc {blocks : List String} (h : ∀ block ∈ blocks, Visible block.toList)
    {doc : String} (hdoc : Visible doc.toList) :
    (blocks.foldl addDoc doc).toList =
      doc.toList ++ blocks.flatMap fun block => blankLine ++ keptBlock block := by
  induction blocks generalizing doc with
  | nil => rw [List.foldl_nil, List.flatMap_nil, List.append_nil]
  | cons block blocks ih =>
      obtain ⟨hblock, hblocks⟩ := List.forall_mem_cons.mp h
      rw [List.foldl_cons, ih hblocks (visible_addDoc hblock doc),
        toList_addDoc_of_visible hdoc hblock, List.flatMap_cons, List.append_assoc]

/-- **Blocks are put together with blank lines, and nothing is trimmed off an earlier one.** What
was there first loses the blanks at its front, or is left out if there is nothing else; each block
loses the blanks at its end, and however many blocks come later, they only go behind. -/
theorem addDoc_block_by_block {blocks : List String} (hne : blocks ≠ [])
    (hvisible : ∀ block ∈ blocks, Visible block.toList) (doc : String) :
    (blocks.foldl addDoc doc).toList =
        Text.joinWith blankLine (openingBlock doc ++ blocks.map keptBlock) ∧
      ∀ later : List String, (∀ block ∈ later, Visible block.toList) →
        ((blocks ++ later).foldl addDoc doc).toList =
          (blocks.foldl addDoc doc).toList ++
            later.flatMap fun block => blankLine ++ keptBlock block := by
  obtain ⟨first, rest, rfl⟩ := List.exists_cons_of_ne_nil hne
  obtain ⟨hfirst, hrest⟩ := List.forall_mem_cons.mp hvisible
  have hstart : Visible (addDoc doc first).toList := visible_addDoc hfirst doc
  refine ⟨?_, fun later hlater => ?_⟩
  · rw [List.foldl_cons, toList_foldl_addDoc hrest hstart, toList_addDoc hfirst, List.map_cons,
      Text.joinWith_append_cons _ _ _ (rest.map keptBlock), List.flatMap_map]
  · have hall : ∀ block ∈ rest ++ later, Visible block.toList :=
      List.forall_mem_append.mpr ⟨hrest, hlater⟩
    rw [List.cons_append, List.foldl_cons, List.foldl_cons, toList_foldl_addDoc hall hstart,
      toList_foldl_addDoc hrest hstart, List.flatMap_append, List.append_assoc]

/-- Blanks of several kinds at both ends of everything that is put together. -/
theorem addDoc_assorted :
    (["**One** \u2003\n", "Two\n\n three\t", "."] : List String) ≠ [] ∧
      (∀ block ∈ (["**One** \u2003\n", "Two\n\n three\t", "."] : List String),
        Visible block.toList) ∧
      (["**One** \u2003\n", "Two\n\n three\t", "."].foldl addDoc "\u3000 Intro \n").toList =
        "Intro \n\n\n**One**\n\nTwo\n\n three\n\n.".toList := by
  have hvisible : ∀ block ∈ (["**One** \u2003\n", "Two\n\n three\t", "."] : List String),
      Visible block.toList := by
    simp only [List.forall_mem_cons, List.not_mem_nil, false_implies, implies_true, and_true]
    exact ⟨⟨'*', _, rfl, rfl⟩, ⟨'T', _, rfl, rfl⟩, ⟨'.', _, rfl, rfl⟩⟩
  have hjoin := (addDoc_block_by_block (List.cons_ne_nil _ _) hvisible "\u3000 Intro \n").1
  refine ⟨List.cons_ne_nil _ _, hvisible, hjoin.trans ?_⟩
  decide +kernel

end ApiPages
