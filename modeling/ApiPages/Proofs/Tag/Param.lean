import ApiPages.Comment
import ApiPages.Proofs.Scan.Exact
import ApiPages.Proofs.Tag.Shape
import ApiPages.Proofs.Text.Trim
import ApiPages.Tag.Standard

/-!
# Parameters as they are written

A parameter that is written as a line of a comment is read as it was meant, whatever its type, its
default and its description say, as long as they keep to one line and to their brackets.
-/

namespace ApiPages

/-- Whether a parameter has to be given, and what it is otherwise. -/
inductive Presence where
  | required
  | optional
  | defaulting (default : String)

/-- A parameter as its author sees it. -/
structure Param where
  type : String
  name : String
  presence : Presence
  doc : String

namespace Param

def isOptional (p : Param) : Bool :=
  match p.presence with
  | .required => false
  | _ => true

def default? (p : Param) : Option String :=
  match p.presence with
  | .defaulting default => some default
  | _ => none

/-- The name, in brackets if the parameter is optional. -/
def shown (p : Param) : String :=
  match p.presence with
  | .required => p.name
  | .optional => "[" ++ p.name ++ "]"
  | .defaulting default => "[" ++ p.name ++ "=" ++ default ++ "]"

/-- What stands behind the name of the tag, the description aside. -/
def signature (p : Param) : String :=
  " \x7b" ++ p.type ++ "\x7d " ++ p.shown

/-- The record of a parameter with something for its description. -/
def fields (p : Param) (doc : Value) : Record :=
  [("tagname", .text "params"), ("type", .text p.type), ("optional", .bool p.isOptional),
    ("name", .text p.name)] ++ (p.default?.toList.map fun default => ("default", .text default)) ++
    [("doc", doc)]

def record (p : Param) : Record :=
  p.fields (.text p.doc)

/-- The parameter as it stands among the attributes of a method. -/
def value (p : Param) : Value :=
  .record [("name", .text p.name), ("type", .text p.type), ("optional", .bool p.isOptional),
    ("default", .ofText? p.default?), ("doc", .text p.doc)]

/-- A text on one line without blanks around it, in which no tag starts. -/
structure Tidy (s : String) : Prop where
  trimmed : Text.trimmed s = s
  oneLine : '\n' ∉ s.toList
  noTag : '@' ∉ s.toList

theorem tidy_iff {s : String} :
    Tidy s ↔ Text.trimmed s = s ∧ '\n' ∉ s.toList ∧ '@' ∉ s.toList :=
  ⟨fun h => ⟨h.trimmed, h.oneLine, h.noTag⟩, fun ⟨h, hline, htag⟩ => ⟨h, hline, htag⟩⟩

instance (s : String) : Decidable (Tidy s) :=
  decidable_of_iff' _ tidy_iff

/-- A parameter whose parts keep to their places in a line. -/
structure Plain (p : Param) : Prop where
  type : Tidy p.type
  balanced : Text.Balanced p.type.toList
  name : Pattern.IsChain p.name.toList
  default : ∀ default, p.default? = some default → Tidy default ∧ ']' ∉ default.toList
  doc : Tidy p.doc

/-! ### Reading a parameter -/

theorem Tidy.trim_eq {s : String} (h : Tidy s) : Text.trim s.toList = s.toList :=
  Text.trim_toList_eq h.trimmed

/-- No blank stands in front of a trimmed text, nor in front of a mark behind nothing. -/
theorem not_blank_of_trim {cs rest : List Char} (h : Text.trim cs = cs)
    (hrest : ∀ c ∈ rest.head?, c ≠ ' ' ∧ c ≠ '\t') :
    ∀ c ∈ (cs ++ rest).head?, c ≠ ' ' ∧ c ≠ '\t' := by
  cases cs with
  | nil => exact hrest
  | cons d cs =>
      have hsolid : Text.isSpace d = false := (Text.trim_eq_self_iff_ends.mp h).1 d rfl
      rintro c ⟨⟩
      constructor
      · rintro rfl
        cases hsolid
      · rintro rfl
        cases hsolid

section Reading

open Scan (Takes)

theorem stops_of_head {c : Char} (hc : Text.isIdent c = false) (hdot : c ≠ '.')
    (rest : List Char) : Pattern.Stops (c :: rest) := by
  rintro _ ⟨⟩
  exact ⟨hc, hdot⟩

variable {p : Param} (h : p.Plain)
include h

theorem takes_identChain {tail : List Char} (htail : Pattern.Stops tail) :
    Takes Scan.identChain p.name.toList tail (some p.name) := by
  have htakes := Takes.identChain h.name htail
  rwa [String.ofList_toList] at htakes

theorem not_blank_name (rest : List Char) :
    ∀ c ∈ (p.name.toList ++ rest).head?, c ≠ ' ' ∧ c ≠ '\t' ∧ c ≠ '[' := by
  obtain ⟨c, cs, hname, hc⟩ := h.name.exists_cons
  rw [hname]
  rintro _ ⟨⟩
  refine ⟨?_, ?_, ?_⟩ <;>
  · rintro rfl
    revert hc
    decide

theorem takes_scanDefault (tail : List Char) :
    Takes Tag.scanDefault ((p.default?.map fun default => '=' :: default.toList).getD [])
      (']' :: tail) p.default? := by
  cases hdefault : p.default? with
  | none => exact Takes.look (.accept_none rfl) (.pure none _)
  | some default =>
      obtain ⟨htidy, hclose⟩ := h.default default hdefault
      have hrun : Pattern.toBracket (default.toList ++ ']' :: tail) =
          some default.toList.length := by
        refine Pattern.run_append (fun c hc => ?_) (by simp)
        have hne : c ≠ ']' := fun heq => hclose (heq ▸ hc)
        simpa using hne
      have hblank : ∀ c ∈ (default.toList ++ ']' :: tail).head?, c ≠ ' ' ∧ c ≠ '\t' := by
        refine not_blank_of_trim htidy.trim_eq ?_
        rintro _ ⟨⟩
        decide
      have htrimmed : Text.trimmed ((some (String.ofList default.toList)).getD "") = default := by
        rw [Option.getD_some, String.ofList_toList, htidy.trimmed]
      change Takes _ (['='] ++ default.toList) _ _
      refine Takes.bind (.char rfl _) ?_
      refine Takes.look (.blanks (fun _ hc => absurd hc List.not_mem_nil) hblank) ?_
      refine Takes.last (.accept hrun) ?_
      rw [htrimmed]
      exact .pure (some default) _

theorem takes_scanBracketed (complaint : String) (tail : List Char) :
    Takes (Tag.scanBracketed complaint)
      (p.name.toList ++ ((p.default?.map fun default => '=' :: default.toList).getD [] ++ [']']))
      tail (some p.name, p.default?) := by
  have hblank : ∀ cs : List Char, ∀ c ∈ (p.name.toList ++ cs).head?, c ≠ ' ' ∧ c ≠ '\t' :=
    fun cs c hc => ⟨(not_blank_name h cs c hc).1, (not_blank_name h cs c hc).2.1⟩
  obtain ⟨c, cs, hnext, hident, hdot, hspace⟩ : ∃ c cs,
      (p.default?.map fun default => '=' :: default.toList).getD [] ++ [']'] ++ tail = c :: cs ∧
        Text.isIdent c = false ∧ c ≠ '.' ∧ c ≠ ' ' ∧ c ≠ '\t' := by
    cases p.default? with
    | none => exact ⟨']', tail, rfl, by decide⟩
    | some default => exact ⟨'=', default.toList ++ [']'] ++ tail, rfl, by decide⟩
  refine Takes.look (.blanks (fun _ hc => absurd hc List.not_mem_nil) ?_) ?_
  · rw [List.append_assoc]
    exact hblank _
  refine Takes.bind (takes_identChain h ?_) ?_
  · rw [hnext]
    exact stops_of_head hident hdot cs
  refine Takes.look (.blanks (fun _ hc => absurd hc List.not_mem_nil) ?_) ?_
  · rw [hnext]
    rintro _ ⟨⟩
    exact hspace
  refine Takes.bind (takes_scanDefault h tail) ?_
  refine Takes.last (.char rfl tail) ?_
  exact .pure _ tail

omit h in
theorem toList_signature : p.signature.toList =
    [' '] ++ (('{' :: p.type.toList ++ ['}']) ++ ([' '] ++ p.shown.toList)) := by
  simp [signature, String.toList_append]

omit h in
theorem toList_shown : p.shown.toList =
    if p.isOptional then
      ['['] ++ (p.name.toList ++
        ((p.default?.map fun default => '=' :: default.toList).getD [] ++ [']']))
    else p.name.toList := by
  rw [shown, isOptional, default?]
  cases p.presence with
  | required => rfl
  | optional => simp [String.toList_append]
  | defaulting default => simp [String.toList_append]

theorem name_ne_empty : p.name ≠ "" := by
  obtain ⟨c, cs, hname, -⟩ := h.name.exists_cons
  intro hempty
  rw [hempty] at hname
  cases hname

omit h in
theorem defaultField_eq (default : Option String) : Tag.defaultField default =
    default.toList.map fun default => ("default", .text default) := by
  cases default <;> rfl

/-- A parameter is read up to its description, with nothing to complain of. -/
theorem takes_parseParam {tail : List Char} (htail : tail = [] ∨ ∃ later, tail = ' ' :: later) :
    Takes Tag.parseParam p.signature.toList tail (.one (p.fields Tag.multiline)) := by
  have hstops : Pattern.Stops tail := by
    rcases htail with rfl | ⟨later, rfl⟩
    · rintro _ ⟨⟩
    · exact stops_of_head (by decide) (by decide) later
  have hshown : ∀ c ∈ (p.shown.toList ++ tail).head?, c ≠ ' ' ∧ c ≠ '\t' := by
    rw [toList_shown]
    split
    · rintro _ ⟨⟩
      decide
    · exact fun c hc => ⟨(not_blank_name h tail c hc).1, (not_blank_name h tail c hc).2.1⟩
  rw [toList_signature]
  refine Takes.bind (.blanks (by simp) (by rintro _ ⟨⟩; decide)) ?_
  refine Takes.bind (.typedef h.balanced _) ?_
  refine Takes.bind (.blanks (by simp) hshown) ?_
  rw [h.type.trim_eq, String.ofList_toList, toList_shown]
  cases hoptional : p.isOptional with
  | true =>
      refine Takes.bind (.char rfl _) ?_
      refine Takes.last (takes_scanBracketed h _ tail) ?_
      dsimp only
      rw [if_neg (by simpa using name_ne_empty h), defaultField_eq, fields, hoptional]
      exact .pure _ tail
  | false =>
      have hnone : p.default? = none := by
        rw [isOptional] at hoptional
        rw [default?]
        cases hpresence : p.presence <;> simp_all
      have hbracket : Pattern.openBracket (p.name.toList ++ tail) = none := by
        have hhead := not_blank_name h tail
        cases hname : p.name.toList ++ tail with
        | nil => rfl
        | cons c cs =>
            rw [hname] at hhead
            rw [Pattern.openBracket, Pattern.char, if_neg (by simpa using (hhead c rfl).2.2)]
      refine Takes.look (.accept_none hbracket) ?_
      refine Takes.last (takes_identChain h hstops) ?_
      refine Takes.look (.pure _ tail) ?_
      dsimp only
      rw [if_neg (by simpa using name_ne_empty h), defaultField_eq, fields, hoptional, hnone]
      exact .pure _ tail

/-- What stands behind the tag goes to one record, the description with it. -/
theorem routeTo_param {tail : List Char} (htail : tail = [] ∨ ∃ later, tail = ' ' :: later)
    (hdoc : Text.trim tail = p.doc.toList) (position : Option SourceRef) (pattern : List Char) :
    Comment.routeTo Tag.param position { pattern, body := p.signature.toList ++ tail } =
      .ok { records := [p.record] } := by
  have hparse : Tag.param.parse position (Cursor.start (p.signature.toList ++ tail)) =
      (.one (p.fields Tag.multiline),
        (Cursor.start (p.signature.toList ++ tail)).skip p.signature.toList.length) :=
    takes_parseParam h htail _ rfl
  have hrest : ((Cursor.start (p.signature.toList ++ tail)).skip p.signature.toList.length).rest =
      tail := List.drop_left
  rw [Comment.routeTo, hparse]
  dsimp only
  rw [hrest, hdoc, String.ofList_toList]
  rw [record, fields, fields]
  cases p.default? <;> rfl

omit h in
theorem mem_shown {c : Char} (hc : c ∈ p.shown.toList) : c ∈ ['[', ']', '='] ∨
    c ∈ p.name.toList ∨ ∃ default, p.default? = some default ∧ c ∈ default.toList := by
  rw [toList_shown] at hc
  split at hc
  · simp only [List.mem_append, List.mem_singleton] at hc
    rcases hc with rfl | hname | hdefault | rfl
    · exact Or.inl (by decide)
    · exact Or.inr (Or.inl hname)
    · cases hp : p.default? with
      | none => simp [hp] at hdefault
      | some default =>
          rw [hp, Option.map_some, Option.getD_some, List.mem_cons] at hdefault
          rcases hdefault with rfl | hmem
          · exact Or.inl (by decide)
          · exact Or.inr (Or.inr ⟨default, rfl, hmem⟩)
    · exact Or.inl (by decide)
  · exact Or.inr (Or.inl hc)

theorem mem_signature {c : Char} (hc : c ∈ p.signature.toList) :
    c ∈ [' ', '{', '}', '[', ']', '=', '.'] ∨ Text.isIdent c = true ∨ c ∈ p.type.toList ∨
      ∃ default, p.default? = some default ∧ c ∈ default.toList := by
  rw [toList_signature] at hc
  simp only [List.mem_append, List.mem_cons, List.not_mem_nil, or_false] at hc
  rcases hc with rfl | ((rfl | htype) | rfl) | rfl | hshown
  · exact Or.inl (by decide)
  · exact Or.inl (by decide)
  · exact Or.inr (Or.inr (Or.inl htype))
  · exact Or.inl (by decide)
  · exact Or.inl (by decide)
  · rcases mem_shown hshown with hmark | hname | hdefault
    · exact Or.inl (List.mem_of_mem_drop (i := 3) (List.mem_append_left ['.'] hmark))
    · rcases h.name.forall_mem c hname with hident | rfl
      · exact Or.inr (Or.inl hident)
      · exact Or.inl (by decide)
    · exact Or.inr (Or.inr (Or.inr hdefault))

end Reading

/-! ### Merging parameters -/

theorem documentedParam_record (p : Param) :
    .record (Tag.documentedParam [] p.record) = p.value := by
  obtain ⟨type, name, presence, doc⟩ := p
  have hdoc : (Value.text doc).or (.text "") = .text doc := by
    rw [Value.text_or, ite_eq_right_iff.mpr fun hempty => hempty.symm]
  cases presence <;> exact congrArg (fun v => Value.record [_, _, _, _, ("doc", v)]) hdoc

theorem mergeParams_records {ps : List Param} (hne : ps ≠ []) :
    Tag.mergeParams (ps.map record) [] = .ok (.list (ps.map value)) := by
  have hnames : ((ps.map record).all fun r => (Record.optional r "name").canName) = true := by
    rw [List.all_map, List.all_eq_true]
    exact fun _ _ => rfl
  rw [Tag.mergeParams, if_neg (by simpa using hne), List.nil_append, if_pos hnames, List.map_map]
  simp only [Function.comp_def, documentedParam_record]

theorem sound_record (p : Param) : Record.Sound "params" p.record where
  tagname := rfl
  needed _ hfield := absurd hfield List.not_mem_nil
  name := .text p.name
  doc := by
    obtain ⟨type, name, presence, doc⟩ := p
    cases presence <;> exact .text doc

end Param

end ApiPages
