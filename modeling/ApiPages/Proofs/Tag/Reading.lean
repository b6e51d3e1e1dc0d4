import ApiPages.Proofs.Scan
import ApiPages.Proofs.Table
import ApiPages.Proofs.Tag.Shape
import ApiPages.Tag.Standard

/-!
# What the standard tags read

Whatever text follows a standard tag, its reader moves forward over the text, and every record that
it makes of it is sound. So is every record that a declaration gives rise to.
-/

namespace ApiPages.Tag

open Record (Sound)
open Scan (Reads)

/-- Nothing but sound records of the tag `key`. -/
def AllSound (key : String) (y : Yield) : Prop :=
  ∀ r ∈ y.records, Sound key r

namespace AllSound

variable {key : String}

theorem nothing : AllSound key .nothing :=
  fun _ h => absurd h List.not_mem_nil

theorem one {r : Record} (h : Sound key r) : AllSound key (.one r) :=
  List.forall_mem_singleton.mpr h

theorem many {f : String → Record} (h : ∀ name, Sound key (f name)) (names : List String) :
    AllSound key (.many (names.map f)) := by
  intro r hr
  obtain ⟨name, -, rfl⟩ := List.mem_map.mp hr
  exact h name

end AllSound

theorem reads_complainIf {P : Yield → Prop} {y : Yield} (h : P y) (cond : Prop) [Decidable cond]
    (category : Category) (message : String) :
    Reads P (if cond then do Scan.complain category message; pure y else pure y) := by
  split
  · exact .seq (.complain category message) fun _ => .pure h
  · exact .pure h

/-! ### Flags and lines -/

theorem sound_bare {key : String} (hneeded : Record.neededFields key = []) :
    Sound key [("tagname", .text key)] where
  tagname := rfl
  needed := by
    rw [hneeded]
    exact fun _ h => absurd h List.not_mem_nil
  name := Or.inl rfl
  doc := Or.inl rfl

theorem sound_since (version : String) :
    Sound "since" [("tagname", .text "since"), ("version", .text version)] where
  tagname := rfl
  needed := by
    intro field hfield
    obtain rfl : field = "version" := List.mem_singleton.mp hfield
    exact ⟨.text version, rfl⟩
  name := Or.inl rfl
  doc := Or.inl rfl

theorem reads_since (position : Option SourceRef) :
    Reads (AllSound "since") (since.parse position) := by
  apply Reads.seq .blanks
  intro _
  apply Reads.seq .restOfLine
  intro version
  exact .pure (.one (sound_since version))

theorem sound_deprecated (version : Option String) :
    Sound "deprecated" [("tagname", .text "deprecated"), ("version", .ofText? version),
      ("doc", multiline)] where
  tagname := rfl
  needed _ hfield := absurd hfield List.not_mem_nil
  name := Or.inl rfl
  doc := .text _

theorem reads_deprecated (position : Option SourceRef) :
    Reads (AllSound "deprecated") (deprecated.parse position) := by
  have hdone : ∀ version : Option String, Reads (AllSound "deprecated")
      (pure (.one [("tagname", .text "deprecated"), ("version", .ofText? version),
        ("doc", multiline)])) :=
    fun version => .pure (.one (sound_deprecated version))
  apply Reads.seq .blanks
  intro _
  apply Reads.seq (.look _)
  intro digit
  cases digit with
  | false => exact hdone none
  | true => exact .seq .version hdone

/-! ### Signatures -/

theorem reads_scanDefault : Reads (fun _ => True) scanDefault := by
  apply Reads.seq (.accept _)
  intro mark
  split
  · apply Reads.seq .blanks
    intro _
    exact .seq (.accept _) fun _ => .pure trivial
  · exact .pure trivial

theorem reads_scanBracketed (complaint : String) :
    Reads (fun _ => True) (scanBracketed complaint) := by
  apply Reads.seq .blanks
  intro _
  apply Reads.seq .identChain
  intro name
  apply Reads.seq .blanks
  intro _
  apply Reads.seq reads_scanDefault
  intro default
  apply Reads.seq (.accept _)
  intro close
  split
  · exact .seq (.complain _ _) fun _ => .pure trivial
  · exact .pure trivial

theorem sound_param (type name default : Option String) (optional : Bool) :
    Sound "params" ([("tagname", .text "params"), ("type", .ofText? type),
      ("optional", .bool optional), ("name", .ofText? name)] ++ defaultField default ++
      [("doc", multiline)]) where
  tagname := rfl
  needed _ hfield := absurd hfield List.not_mem_nil
  name := .ofText? name
  doc := by cases default <;> exact .text _

theorem reads_parseParam : Reads (AllSound "params") parseParam := by
  apply Reads.seq .blanks
  intro _
  apply Reads.seq .typedef
  intro type
  apply Reads.seq .blanks
  intro _
  apply Reads.seq (.accept _)
  intro bracket
  have hdone : ∀ name default : Option String,
      AllSound "params" (.one ([("tagname", .text "params"), ("type", .ofText? type),
        ("optional", .bool bracket.isSome), ("name", .ofText? name)] ++ defaultField default ++
        [("doc", multiline)])) :=
    fun name default => .one (sound_param type name default bracket.isSome)
  dsimp only
  split
  · exact .seq (reads_scanBracketed _) fun (name, default) =>
      reads_complainIf (hdone name default) _ _ _
  · exact .seq .identChain fun name => reads_complainIf (hdone name none) _ _ _

theorem sound_typed {key : String} (hneeded : ∀ field ∈ Record.neededFields key, field = "type")
    (type : Value) :
    Sound key [("tagname", .text key), ("type", type), ("doc", multiline)] where
  tagname := rfl
  needed := by
    intro field hfield
    obtain rfl := hneeded field hfield
    exact ⟨type, rfl⟩
  name := Or.inl rfl
  doc := .text _

theorem reads_parseReturn : Reads (AllSound "return") parseReturn := by
  have hneeded : ∀ field ∈ Record.neededFields "return", field = "type" := fun _ h =>
    absurd h List.not_mem_nil
  apply Reads.seq .blanks
  intro _
  apply Reads.seq .typedef
  intro type
  apply Reads.seq .blanks
  intro _
  exact .seq (.accept _) fun _ => .pure (.one (sound_typed hneeded _))

theorem reads_thrown (position : Option SourceRef) :
    Reads (AllSound "throws") (thrown.parse position) := by
  have hneeded : ∀ field ∈ Record.neededFields "throws", field = "type" := fun _ h =>
    List.mem_singleton.mp h
  apply Reads.seq .blanks
  intro _
  exact .seq .typedef fun _ => .pure (.one (sound_typed hneeded _))

/-! ### Members -/

/-- Fields with the name of a member, without a text and without the mark of a required one. -/
structure NameFields (fields : Record) : Prop where
  name : ∃ name, Table.get? fields "name" = some (.ofText? name)
  noDoc : Table.get? fields "doc" = none
  noMark : Table.get? fields "required" = none

theorem nameFields_bracketed (name default : Option String) :
    NameFields ([("name", .ofText? name)] ++ defaultField default ++ [("optional", .bool true)])
    where
  name := ⟨name, rfl⟩
  noDoc := by cases default <;> rfl
  noMark := by cases default <;> rfl

theorem sound_member {key : String} (hneeded : Record.neededFields key = []) (type : Value)
    {fields : Record} (hfields : NameFields fields) (required : Bool) :
    Sound key ([("tagname", .text key), ("type", type)] ++ fields ++
      (if required then [("required", .bool true)] else [])) where
  tagname := rfl
  needed := by
    rw [hneeded]
    exact fun _ h => absurd h List.not_mem_nil
  name := by
    obtain ⟨name, hname⟩ := hfields.name
    have hfront : Table.get? [("tagname", Value.text key), ("type", type)] "name" = none := rfl
    rw [Record.optional, Table.get?_append, Table.get?_append, hfront, hname]
    exact .ofText? name
  doc := by
    have hfront : Table.get? [("tagname", Value.text key), ("type", type)] "doc" = none := rfl
    rw [Record.optional, Table.get?_append, Table.get?_append, hfront, hfields.noDoc]
    cases required <;> exact Or.inl rfl

theorem reads_requiredMark {P : Yield → Prop} {f : Option String → Yield} (h : ∀ mark, P (f mark))
    (canRequire : Bool) :
    Reads P (if canRequire = true then do
        Scan.blanks
        let mark ← Scan.accept .requiredMark
        pure (f mark)
      else do
        let mark ← pure none
        pure (f mark)) := by
  split
  · apply Reads.seq .blanks
    intro _
    exact .seq (.accept _) fun mark => .pure (h mark)
  · exact .pure (h none)

theorem get?_required {fields : Record} (hfields : NameFields fields) (key : String) (type : Value)
    (required : Bool) :
    Table.get? ([("tagname", .text key), ("type", type)] ++ fields ++
      (if required then [("required", .bool true)] else [])) "required" =
        if required then some (.bool true) else none := by
  have hfront : Table.get? [("tagname", Value.text key), ("type", type)] "required" = none := rfl
  rw [Table.get?_append, Table.get?_append, hfront, hfields.noMark]
  cases required <;> rfl

theorem reads_parseMember {P : Yield → Prop} {key : String} (hasDefault canRequire : Bool)
    (hdone : ∀ type fields, NameFields fields → ∀ required : Bool,
      P (.one ([("tagname", .text key), ("type", type)] ++ fields ++
        (if required then [("required", .bool true)] else [])))) :
    Reads P (parseMember key hasDefault canRequire) := by
  apply Reads.seq .blanks
  intro _
  apply Reads.seq .typedef
  intro type
  apply Reads.seq .blanks
  intro _
  dsimp only
  refine .ite_bind (P := fun _ => True) _ (.accept _) (.pure trivial) fun bracketed _ => ?_
  split
  · exact .seq (reads_scanBracketed _) fun (name, default) =>
      reads_requiredMark (fun mark => hdone _ _ (nameFields_bracketed name default) mark.isSome)
        canRequire
  · exact .seq .identChain fun name =>
      reads_requiredMark
        (fun mark => hdone _ _ { name := ⟨name, rfl⟩, noDoc := rfl, noMark := rfl } mark.isSome)
        canRequire

/-! ### Classes -/

theorem reads_parseClassName {P : Yield → Prop} {key : String} (hnone : P .nothing)
    (hone : ∀ name, name ≠ "" → P (.one [("tagname", .text key), ("name", .text name)]))
    (complaint : String) : Reads P (parseClassName key complaint) := by
  apply Reads.seq .blanks
  intro _
  refine Reads.bind .identChain fun found hfound => ?_
  cases found with
  | none => exact .seq (.complain _ _) fun _ => .pure hnone
  | some name => exact .pure (hone name (hfound name rfl))

section ClassName

variable {key : String} (hneeded : Record.neededFields key = ["name"])
include hneeded

theorem sound_className (name : String) :
    Sound key [("tagname", .text key), ("name", .text name)] where
  tagname := rfl
  needed := by
    rw [hneeded]
    exact List.forall_mem_singleton.mpr ⟨.text name, rfl⟩
  name := .text name
  doc := Or.inl rfl

theorem allSound_declareClassName (v : Value) : AllSound key (declareClassName key v) := by
  unfold declareClassName
  split
  · split
    · exact .nothing
    · exact .one (sound_className hneeded _)
  · exact .nothing

end ClassName

theorem sound_mixinRecord (name : String) : Sound "mixins" (mixinRecord name) :=
  sound_className rfl name

theorem reads_scanNames : Reads (fun names => ∀ name ∈ names, name ≠ "") scanNames := by
  have hfirst : ∀ c, Cursor.Ahead c (Scan.identChain (Scan.blanks c).2).2 ∧
      ∀ name, (Scan.identChain (Scan.blanks c).2).1 = some name → name ≠ "" := fun c =>
    ⟨(Reads.blanks c).1.trans (Reads.identChain _).1, (Reads.identChain _).2⟩
  intro c
  fun_induction scanNames c with
  | case1 c after h =>
      have hahead := (hfirst c).1
      rw [h] at hahead
      exact ⟨hahead, fun _ hname => absurd hname List.not_mem_nil⟩
  | case2 c name after h hlen hlen' names last hnames ih =>
      obtain ⟨hahead, hname⟩ := hfirst c
      rw [h] at hahead hname
      rw [hnames] at ih
      exact ⟨hahead.trans ih.1, List.forall_mem_cons.mpr ⟨hname name rfl, ih.2⟩⟩

theorem reads_parseMixins {P : Yield → Prop} (hnone : P .nothing)
    (hmany : ∀ names : List String, (∀ name ∈ names, name ≠ "") →
      P (.many (names.map mixinRecord))) : Reads P parseMixins := by
  refine Reads.bind reads_scanNames fun names hnames => .pure ?_
  split
  · exact hnone
  · exact hmany names hnames

theorem allSound_declareMixins (v : Value) : AllSound "mixins" (declareMixins v) := by
  unfold declareMixins
  split
  · exact .one (sound_mixinRecord _)
  · exact .many sound_mixinRecord _
  · exact .many sound_mixinRecord _
  · exact .many sound_mixinRecord _
  · exact .many sound_mixinRecord _
  · exact .nothing

end ApiPages.Tag
