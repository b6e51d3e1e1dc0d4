import ApiPages.Proofs.Registry
import ApiPages.Proofs.Tag.Param

/-!
# What is given back

The description of a value that is given back may start with the word that its tag says already,
and this word is left out. Nothing is asked of what stands behind the word, so a description that
only starts with the same letters loses them as well.
-/

namespace ApiPages

open Scan (Takes)

namespace Pattern

/-- What stands behind a word and its mark, or behind the word alone, at the front of a text; or
else the text. -/
def afterWord (word : List Char) (mark : Char) (cs : List Char) : List Char :=
  ((cs.dropPrefix? (word ++ [mark])).or (cs.dropPrefix? word)).getD cs

theorem eq_append_of_dropPrefix? {cs front rest : List Char}
    (h : cs.dropPrefix? front = some rest) : cs = front ++ rest := by
  obtain ⟨front', hcs, hfront⟩ := List.dropPrefix?_eq_some_iff.mp h
  rw [hcs, eq_of_beq hfront]

theorem not_prefix_of_dropPrefix? {cs front : List Char} (h : cs.dropPrefix? front = none) :
    ¬ front <+: cs := by
  rintro ⟨rest, rfl⟩
  rw [List.dropPrefix?_append_of_beq rest (beq_self_eq_true front)] at h
  cases h

theorem literal_append (word rest : List Char) :
    literal word (word ++ rest) = some word.length :=
  if_pos (List.isPrefixOf_iff_prefix.mpr (List.prefix_append word rest))

theorem literal_eq_none {word cs : List Char} (h : ¬ word <+: cs) : literal word cs = none :=
  if_neg fun hprefix => h (List.isPrefixOf_iff_prefix.mp hprefix)

theorem literalThen_append (word : List Char) (mark : Char) (rest : List Char) :
    literalThen word mark (word ++ [mark] ++ rest) = some (word.length + 1) :=
  if_pos (List.isPrefixOf_iff_prefix.mpr (List.prefix_append _ rest))

theorem literalThen_of_not_prefix {word cs : List Char} {mark : Char}
    (h : ¬ word ++ [mark] <+: cs) : literalThen word mark cs = literal word cs :=
  if_neg fun hprefix => h (List.isPrefixOf_iff_prefix.mp hprefix)

theorem takes_literalThen {word : List Char} (hword : word ≠ []) (mark : Char) (cs : List Char) :
    ∃ front found, front ++ afterWord word mark cs = cs ∧ (front = [] ↔ ¬ word <+: cs) ∧
      Takes (Scan.accept (literalThen word mark)) front (afterWord word mark cs) found := by
  rw [afterWord]
  cases hmark : cs.dropPrefix? (word ++ [mark]) with
  | some rest =>
      obtain rfl := eq_append_of_dropPrefix? hmark
      refine ⟨word ++ [mark], _, rfl, by simp, .accept ?_⟩
      rw [literalThen_append, List.length_append, List.length_singleton]
  | none =>
      have hliteral := literalThen_of_not_prefix (not_prefix_of_dropPrefix? hmark)
      cases hrest : cs.dropPrefix? word with
      | some rest =>
          obtain rfl := eq_append_of_dropPrefix? hrest
          have hsome := hliteral.trans (literal_append word rest)
          exact ⟨word, _, rfl, by simp [hword], .accept hsome⟩
      | none =>
          have hnot := not_prefix_of_dropPrefix? hrest
          have hnone := hliteral.trans (literal_eq_none hnot)
          exact ⟨[], none, rfl, by simp [hnot], .accept_none hnone⟩

end Pattern

namespace Returned

/-- What is written behind the tag: a type in braces, and a description. -/
def body (type doc : String) : String :=
  " \x7b" ++ type ++ "\x7d " ++ doc

/-- The record of a value that is given back. Without a type it may be anything. -/
def record (type : String) (doc : Value) : Record :=
  [("tagname", .text "return"), ("type", .text (if type = "" then "Object" else type)),
    ("doc", doc)]

/-- A description behind the word that says once more that something is returned. -/
def afterReturn (doc : String) : String :=
  String.ofList (Pattern.afterWord "return".toList '.' doc.toList)

theorem toList_body (type doc : String) : (body type doc).toList =
    [' '] ++ (('{' :: type.toList ++ ['}']) ++ ([' '] ++ doc.toList)) := by
  simp [body, String.toList_append]

theorem takes_returnWord (doc : String) :
    ∃ front found, front ++ (afterReturn doc).toList = doc.toList ∧
      (front = [] ↔ ¬ "return".toList <+: doc.toList) ∧
      Takes (Scan.accept .returnWord) front (afterReturn doc).toList found := by
  rw [afterReturn, String.toList_ofList]
  exact Pattern.takes_literalThen (by decide) '.' doc.toList

theorem trimmed_afterReturn_eq_iff {doc : String} (hdoc : Text.trimmed doc = doc) :
    Text.trimmed (afterReturn doc) = doc ↔ ¬ "return".toList <+: doc.toList := by
  obtain ⟨front, -, hfront, hnone, -⟩ := takes_returnWord doc
  rw [← hnone]
  constructor
  · intro heq
    have hlength := (Text.trim_sublist (afterReturn doc).toList).length_le
    rw [← Text.trimmed_toList, heq, ← hfront, List.length_append] at hlength
    exact List.length_eq_zero_iff.mp (by omega)
  · rintro rfl
    rw [List.nil_append, String.toList_inj] at hfront
    rw [hfront, hdoc]

section Reading

variable {type doc : String} (htype : Text.trimmed type = type)
  (hbalanced : Text.Balanced type.toList) (hdoc : Text.trimmed doc = doc)
include htype hbalanced hdoc

theorem takes_parseReturn :
    ∃ front, front ++ (afterReturn doc).toList = (body type doc).toList ∧
      Takes Tag.parseReturn front (afterReturn doc).toList
        (.one (record type Tag.multiline)) := by
  have hsolid : ∀ c ∈ (doc.toList ++ []).head?, c ≠ ' ' ∧ c ≠ '\t' :=
    Param.not_blank_of_trim (Text.trim_toList_eq hdoc) (by simp)
  obtain ⟨word, found, hword, -, htakes⟩ := takes_returnWord doc
  refine ⟨[' '] ++ (('{' :: type.toList ++ ['}']) ++ ([' '] ++ word)), ?_, ?_⟩
  · rw [toList_body, ← hword]
    simp
  · refine Takes.bind (.blanks (by simp) (by rintro _ ⟨⟩; decide)) ?_
    refine Takes.bind (.typedef hbalanced _) ?_
    refine Takes.bind (.blanks (by simp) ?_) ?_
    · rwa [hword, ← List.append_nil doc.toList]
    rw [Text.trim_toList_eq htype, String.ofList_toList, Value.ofText?, Value.text_or]
    exact Takes.last htakes (.pure _ _)

theorem parse_returned (position : Option SourceRef) :
    ∃ cursor, Tag.returned.parse position (Cursor.start (body type doc).toList) =
        (.one (record type Tag.multiline), cursor) ∧
      cursor.complaints = [] ∧ cursor.rest = (afterReturn doc).toList ∧
      cursor.consumed ++ cursor.rest = (body type doc).toList := by
  obtain ⟨front, hfront, htakes⟩ := takes_parseReturn htype hbalanced hdoc
  refine ⟨_, htakes _ hfront.symm, rfl, ?_, Cursor.text_skip _ _⟩
  rw [Cursor.skip, Cursor.start, ← hfront]
  exact List.drop_left

theorem routeTo_returned (position : Option SourceRef) (pattern : List Char) :
    Comment.routeTo Tag.returned position { pattern, body := (body type doc).toList } =
      .ok { records := [record type (.text (Text.trimmed (afterReturn doc)))] } := by
  obtain ⟨cursor, hparse, hcomplaints, hrest, -⟩ :=
    parse_returned htype hbalanced hdoc position
  have hquiet : cursor.warnings position = [] := by rw [Cursor.warnings, hcomplaints]; rfl
  rw [Comment.routeTo, hparse]
  dsimp only
  rw [hrest, hquiet]
  rfl

/-- **What is said of a value that is given back.** The type is read as it was written, and the
description goes to the record, behind the word `return` and its dot if it starts with these. So it
is kept whole exactly if it does not start with those letters, be they a word or not. -/
theorem route_returned {reg : Registry} (hreg : Registry.ofTags Tag.standard = .ok reg)
    {pattern : String} (hpattern : pattern ∈ Tag.returned.patterns)
    (position : Option SourceRef) :
    (∃ cursor, Tag.returned.parse position (Cursor.start (body type doc).toList) =
        (.one (record type Tag.multiline), cursor) ∧
      cursor.complaints = [] ∧ cursor.rest = (afterReturn doc).toList ∧
      cursor.consumed ++ cursor.rest = (body type doc).toList) ∧
    Comment.route reg position { pattern := pattern.toList, body := (body type doc).toList } =
      .ok { records := [record type (.text (Text.trimmed (afterReturn doc)))] } ∧
    (Text.trimmed (afterReturn doc) = doc ↔ ¬ "return".toList <+: doc.toList) := by
  have hfind : reg.findByPattern (String.ofList pattern.toList) = some Tag.returned := by
    rw [String.ofList_toList]
    exact (Registry.findByPattern_eq_some_iff hreg).mpr ⟨by simp [Tag.standard], hpattern⟩
  refine ⟨parse_returned htype hbalanced hdoc position, ?_, trimmed_afterReturn_eq_iff hdoc⟩
  rw [Comment.route, hfind]
  exact routeTo_returned htype hbalanced hdoc position _

end Reading

theorem route_sum :
    ∃ reg, Registry.ofTags Tag.standard = .ok reg ∧
      Comment.route reg none
          { pattern := "returns".toList, body := (body "" "The sum, returned late.").toList } =
        .ok { records := [record "" (.text "The sum, returned late.")] } := by
  obtain ⟨reg, hreg⟩ : ∃ reg, Registry.ofTags Tag.standard = .ok reg := ⟨_, rfl⟩
  have hpattern : "returns" ∈ Tag.returned.patterns := by decide
  have htype : Text.trimmed "" = "" := by decide +kernel
  have hbalanced : Text.Balanced "".toList := by decide +kernel
  have hdoc : Text.trimmed "The sum, returned late." = "The sum, returned late." := by
    decide +kernel
  obtain ⟨-, hroute, hkept⟩ := route_returned htype hbalanced hdoc hreg hpattern none
  rw [hkept.mpr (by decide +kernel)] at hroute
  exact ⟨reg, hreg, hroute⟩

/-- A description that starts with `returned` loses the front of this word. -/
theorem route_cuts_returned :
    Text.Balanced "Number".toList ∧ Text.trimmed "Number" = "Number" ∧
      Text.trimmed "returned value" = "returned value" ∧
      "returned value".toList.takeWhile (fun c => !Text.isSpace c) = "returned".toList ∧
      ∃ cursor,
        Tag.returned.parse none (Cursor.start (body "Number" "returned value").toList) =
          (.one (record "Number" Tag.multiline), cursor) ∧
        Text.trim cursor.rest = "ed value".toList ∧
        Text.trim cursor.rest ≠ "returned value".toList ∧
        Comment.routeTo Tag.returned none
            { pattern := "return".toList, body := (body "Number" "returned value").toList } =
          .ok { records := [record "Number" (.text "ed value")] } := by
  have htype : Text.trimmed "Number" = "Number" := by decide +kernel
  have hbalanced : Text.Balanced "Number".toList := by decide +kernel
  have hdoc : Text.trimmed "returned value" = "returned value" := by decide +kernel
  have hcut : Text.trimmed (afterReturn "returned value") = "ed value" := by decide +kernel
  obtain ⟨cursor, hparse, -, hrest, -⟩ := parse_returned htype hbalanced hdoc none
  have hroute := routeTo_returned htype hbalanced hdoc none "return".toList
  have hleft : Text.trim cursor.rest = "ed value".toList := by
    rw [hrest, ← Text.trimmed_toList, hcut]
  rw [hcut] at hroute
  refine ⟨hbalanced, htype, hdoc, by decide +kernel, cursor, hparse, hleft, ?_, hroute⟩
  rw [hleft]
  decide

end Returned

end ApiPages
