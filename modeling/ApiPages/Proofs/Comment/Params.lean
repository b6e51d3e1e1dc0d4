import ApiPages.Proofs.Comment.Decorated
import ApiPages.Proofs.Comment.Joined
import ApiPages.Proofs.Merge.Again
import ApiPages.Proofs.Tag.Param

/-!
# Lists of parameters

A comment that has a line for each parameter is cut at the starts of those lines. Each line is read
as the parameter that it was written for, up to the blanks that stripping takes off the last one,
and merging hands the parameters on in their order.
-/

namespace ApiPages

open Text (isSpace isTagName)

theorem Text.isSpace_eq_false_of_isIdent {c : Char} (h : isIdent c = true) : isSpace c = false := by
  cases hspace : isSpace c with
  | false => rfl
  | true =>
      have hall : ∀ n ∈ spaceCodes, isIdent (Char.ofNat n) = false := by decide +kernel
      have hident := hall c.toNat (toNat_mem_spaceCodes hspace)
      rw [Char.ofNat_toNat, h] at hident
      cases hident

namespace Comment

/-! ### Cutting texts without tags -/

theorem segments_of_not_mem {cs : List Char} (h : '@' ∉ cs) (b : Bool) :
    segments b cs = (cs, []) := by
  induction cs generalizing b with
  | nil => rw [segments]
  | cons c cs ih =>
      obtain ⟨hc, hcs⟩ := List.ne_and_not_mem_of_not_mem_cons h
      have hplain : ¬ (b && c == '@' && startsName cs) = true := by simp [Ne.symm hc]
      rw [segments, if_neg hplain, ih hcs]

theorem segments_append_of_not_mem {cs : List Char} (h : '@' ∉ cs) {c : Char} (hc : c ≠ '@')
    (b : Bool) (rest : List Char) :
    segments b (cs ++ c :: rest) =
      (cs ++ c :: (segments (isSpace c) rest).1, (segments (isSpace c) rest).2) := by
  induction cs generalizing b with
  | nil =>
      have hplain : ¬ (b && c == '@' && startsName rest) = true := by simp [hc]
      rw [List.nil_append, segments, if_neg hplain, List.nil_append]
  | cons d cs ih =>
      obtain ⟨hd, hcs⟩ := List.ne_and_not_mem_of_not_mem_cons h
      have hplain : ¬ (b && d == '@' && startsName (cs ++ c :: rest)) = true := by
        simp [Ne.symm hd]
      rw [List.cons_append, segments, if_neg hplain, ih hcs]
      rfl

end Comment

namespace Param

/-- The line that a parameter is written on. -/
def line (p : Param) : String :=
  "@param" ++ p.signature ++ " " ++ p.doc

/-- The comment with a line for each parameter. -/
def comment (ps : List Param) : String :=
  "/**\n" ++ String.join (ps.map fun p => " * " ++ p.line ++ "\n") ++ " */"

/-- The text of such a comment, with the break that ends the last line. -/
def text (ps : List Param) : List Char :=
  ps.flatMap fun p => p.line.toList ++ ['\n']

theorem toList_line (p : Param) :
    p.line.toList = '@' :: ("param".toList ++ (p.signature.toList ++ ' ' :: p.doc.toList)) := by
  simp [line, String.toList_append]

theorem toList_comment (ps : List Param) :
    (comment ps).toList = Comment.decorated (ps.map fun p => p.line.toList) := by
  simp [comment, Comment.decorated, String.toList_append, String.toList_join, List.flatMap_map]

section Written

variable {p : Param} (h : p.Plain)
include h

theorem not_mem_signature {c : Char} (hc : c ∉ [' ', '{', '}', '[', ']', '=', '.'])
    (hident : Text.isIdent c = false)
    (htidy : ∀ s, Tidy s → c ∉ s.toList) : c ∉ p.signature.toList := by
  intro hmem
  rcases mem_signature h hmem with hmark | hname | htype | ⟨default, hdefault, hmem⟩
  · exact hc hmark
  · rw [hident] at hname
    cases hname
  · exact htidy p.type h.type htype
  · exact htidy default (h.default default hdefault).1 hmem

theorem noTag_signature : '@' ∉ p.signature.toList :=
  not_mem_signature h (by decide) (by decide) fun _ hs => hs.noTag

theorem oneLine_line : '\n' ∉ p.line.toList := by
  have hsignature : '\n' ∉ p.signature.toList :=
    not_mem_signature h (by decide) (by decide) fun _ hs => hs.oneLine
  rw [toList_line]
  simp [hsignature, h.doc.oneLine]

theorem dropTrailing_signature :
    Text.dropTrailing isSpace p.signature.toList = p.signature.toList := by
  have hfinal : ∀ front final : List Char, final ≠ [] → (∀ c ∈ final, isSpace c = false) →
      Text.dropTrailing isSpace (front ++ final) = front ++ final := by
    intro front final hne hsolid
    have hself := Text.dropTrailing_eq_self hsolid
    rw [Text.dropTrailing_append_of_ne_nil (by rwa [hself]), hself]
  rw [toList_signature, toList_shown]
  cases p.isOptional with
  | true =>
      simp only [if_true, ← List.append_assoc]
      refine hfinal _ [']'] (List.cons_ne_nil _ _) fun c hc => ?_
      obtain rfl := List.mem_singleton.mp hc
      rfl
  | false =>
      have hname : p.name.toList ≠ [] := by
        obtain ⟨c, cs, hname, -⟩ := h.name.exists_cons
        rw [hname]
        exact List.cons_ne_nil c cs
      simp only [Bool.false_eq_true, if_false, ← List.append_assoc]
      refine hfinal _ p.name.toList hname fun c hc => ?_
      rcases h.name.forall_mem c hc with hident | rfl
      · exact Text.isSpace_eq_false_of_isIdent hident
      · rfl

end Written

/-- A segment that was written for a parameter: behind the signature stands nothing or the
description. -/
def Written (p : Param) (s : Comment.Segment) : Prop :=
  ∃ tail, s = { pattern := "param".toList, body := p.signature.toList ++ tail } ∧
    (tail = [] ∨ ∃ later, tail = ' ' :: later) ∧ Text.trim tail = p.doc.toList

theorem segments_param (p : Param) (rest : List Char) :
    Comment.segments true ('@' :: ("param".toList ++ (p.signature.toList ++ rest))) = ([], {
      pattern := "param".toList
      body := (Comment.segments false (p.signature.toList ++ rest)).1 } ::
        (Comment.segments false (p.signature.toList ++ rest)).2) := by
  have hname : ∀ c ∈ "param".toList, isTagName c = true := List.all_eq_true.mp (by decide)
  have hblank : isTagName ' ' = false := by decide
  rw [Comment.segments_mark rfl, List.takeWhile_append_of_pos hname,
    List.dropWhile_append_of_pos hname, toList_signature]
  simp [hblank]

/-- What is left behind a signature when the blanks at the end of the text are taken off. -/
theorem exists_tail {p : Param} (h : p.Plain) :
    ∃ tail, Text.dropTrailing isSpace (' ' :: p.doc.toList ++ ['\n']) = tail ∧
      (tail = [] ∨ ∃ later, tail = ' ' :: later) ∧ Text.trim tail = p.doc.toList ∧ '@' ∉ tail := by
  have hdoc := h.doc.trim_eq
  rw [Text.dropTrailing_concat rfl]
  by_cases hempty : p.doc.toList = []
  · rw [hempty]
    exact ⟨[], rfl, Or.inl rfl, rfl, List.not_mem_nil⟩
  · have htrailing := (Text.trim_eq_self_iff.mp hdoc).2
    have happend := Text.dropTrailing_append_of_ne_nil (by rwa [htrailing]) [' ']
    rw [htrailing] at happend
    refine ⟨' ' :: p.doc.toList, happend, Or.inr ⟨p.doc.toList, rfl⟩, ?_, ?_⟩
    · rw [Text.trim_cons rfl, hdoc]
    · simp [h.doc.noTag]

theorem exists_segments {ps : List Param} (hplain : ∀ p ∈ ps, p.Plain) (hne : ps ≠ []) :
    ∃ later, Comment.segments true (Text.dropTrailing isSpace (text ps)) = ([], later) ∧
      List.Forall₂ Written ps later := by
  induction ps with
  | nil => exact absurd rfl hne
  | cons p ps ih =>
      obtain ⟨hp, hps⟩ := List.forall_mem_cons.mp hplain
      have htag := noTag_signature hp
      cases ps with
      | nil =>
          obtain ⟨tail, htail, hshape, hdoc, htagTail⟩ := exists_tail hp
          have hcut : Text.dropTrailing isSpace (text [p]) =
              '@' :: ("param".toList ++ (p.signature.toList ++ tail)) := by
            have hsplit : text [p] = ('@' :: "param".toList ++ p.signature.toList) ++
                (' ' :: p.doc.toList ++ ['\n']) := by
              simp [text, toList_line]
            have hsignature := dropTrailing_signature hp
            have hfront := Text.dropTrailing_append_of_ne_nil
              (by rw [hsignature, toList_signature]; exact List.cons_ne_nil _ _)
              ('@' :: "param".toList)
            rw [hsignature] at hfront
            rw [hsplit, Text.dropTrailing_append_of_eq hfront, htail]
            simp
          have hnone : '@' ∉ p.signature.toList ++ tail := by
            simp [htag, htagTail]
          refine ⟨_, ?_, .cons ⟨tail, rfl, hshape, hdoc⟩ .nil⟩
          rw [hcut, segments_param, Comment.segments_of_not_mem hnone]
      | cons q ps =>
          obtain ⟨later, hsegments, hwritten⟩ := ih hps (List.cons_ne_nil q ps)
          have hrest : Text.dropTrailing isSpace (text (q :: ps)) ≠ [] := by
            intro hnil
            rw [hnil, Comment.segments] at hsegments
            cases hsegments
            cases hwritten
          have hcut : Text.dropTrailing isSpace (text (p :: q :: ps)) = '@' :: ("param".toList ++
              (p.signature.toList ++
                (' ' :: p.doc.toList ++ '\n' :: Text.dropTrailing isSpace (text (q :: ps))))) := by
            rw [text, List.flatMap_cons, ← text, Text.dropTrailing_append_of_ne_nil hrest,
              toList_line]
            simp
          have hnone : '@' ∉ p.signature.toList ++ ' ' :: p.doc.toList := by
            simp [htag, hp.doc.noTag]
          refine ⟨_, ?_, .cons ⟨' ' :: p.doc.toList ++ ['\n'], rfl, ?_, ?_⟩ hwritten⟩
          · have hbreak : isSpace '\n' = true := rfl
            rw [hcut, segments_param, ← List.append_assoc,
              Comment.segments_append_of_not_mem hnone (by decide), hbreak, hsegments]
            simp
          · exact Or.inr ⟨p.doc.toList ++ ['\n'], rfl⟩
          · rw [Text.trim_concat rfl, Text.trim_cons rfl, hp.doc.trim_eq]

/-! ### Reading the comment -/

section Reading

variable {reg : Registry} (hreg : Registry.ofTags Tag.standard = .ok reg)
  {ps : List Param} (hplain : ∀ p ∈ ps, p.Plain)
include hreg hplain

theorem mapM_route {later : List Comment.Segment} (h : List.Forall₂ Written ps later)
    (position : Option SourceRef) :
    later.mapM (Comment.route reg position) =
      .ok (ps.map fun p => { records := [p.record] }) := by
  have hfind : reg.findByPattern "param" = some Tag.param := by
    cases hreg
    rfl
  induction h with
  | nil => rfl
  | @cons p s ps later hwritten _ ih =>
      obtain ⟨hp, hps⟩ := List.forall_mem_cons.mp hplain
      obtain ⟨tail, rfl, hshape, hdoc⟩ := hwritten
      have hroute := routeTo_param hp hshape hdoc position "param".toList
      rw [List.mapM_cons, Comment.route, String.ofList_toList, hfind]
      dsimp only
      rw [hroute, ih hps]
      rfl

omit hreg hplain in
theorem addDocs_records (hne : ps ≠ []) :
    Occurrences.addDocs {} (ps.map record) =
      .ok { doc := [(.text "params", ps.map record)] } := by
  have hlater : ∀ (ps : List Param) (rs : List Record),
      Occurrences.addDocs { doc := [(.text "params", rs)] } (ps.map record) =
        .ok { doc := [(.text "params", rs ++ ps.map record)] } := by
    intro ps
    induction ps with
    | nil => exact fun rs => by rw [List.map_nil, List.append_nil]; rfl
    | cons p ps ih =>
        intro rs
        have hstep := ih (rs ++ [p.record])
        rw [List.append_assoc, List.singleton_append] at hstep
        exact hstep
  obtain ⟨p, ps, rfl⟩ := List.exists_cons_of_ne_nil hne
  exact hlater ps [p.record]

theorem parse_comment (hne : ps ≠ []) (position : Option SourceRef) :
    ∃ parsed notes, Comment.parse reg (comment ps) position = .ok parsed notes ∧
      parsed.doc = "" ∧ notes.filterMap Note.warning? = [] ∧
      parsed.occurrences = [(.text "params", ps.map record)] := by
  obtain ⟨later, hsegments, hwritten⟩ := exists_segments hplain hne
  have hlines : ∀ l ∈ ps.map fun p => p.line.toList, '\n' ∉ l := by
    intro l hl
    obtain ⟨p, hp, rfl⟩ := List.mem_map.mp hl
    exact oneLine_line (hplain p hp)
  have hstrip : Comment.strip (comment ps).toList = Text.dropTrailing isSpace (text ps) := by
    obtain ⟨p, ps, rfl⟩ := List.exists_cons_of_ne_nil hne
    rw [toList_comment, Comment.strip_decorated hlines, List.flatMap_map, Text.trim,
      Text.trimWhile, ← text]
    have hfirst : (text (p :: ps)).dropWhile isSpace = text (p :: ps) := by
      rw [text, List.flatMap_cons, toList_line]
      rfl
    rw [hfirst]
  rw [← hstrip] at hsegments
  have hrouted := mapM_route hreg hplain hwritten position
  have hrecords : (ps.map fun p => ({ records := [p.record] } : Comment.Routed)).flatMap
      Comment.Routed.records = ps.map record := by
    rw [List.flatMap_map]
    exact List.map_eq_flatMap.symm
  have hdocs : (ps.map fun p => ({ records := [p.record] } : Comment.Routed)).flatMap
      Comment.Routed.docs = [] := by
    simp [List.flatMap_map]
  have hwarnings : (ps.map fun p => ({ records := [p.record] } : Comment.Routed)).flatMap
      Comment.Routed.warnings = [] := by
    simp [List.flatMap_map]
  have hraw := addDocs_records hne
  rw [← hrecords] at hraw
  refine ⟨_, _, Comment.parse_eq_ok hsegments hrouted hraw, ?_, ?_, ?_⟩
  · rw [hdocs]
    rfl
  · rw [Comment.filterMap_warning?, hwarnings]
  · dsimp only
    rw [hrecords]

/-! ### Merging what was read -/

omit hplain in
/-- Merging a method that has these records alone gives it these parameters. -/
theorem get?_params_merge (hne : ps ≠ []) {m m' : Member} (hkind : m.kind.isMethodLike = true)
    (hraw : m.raw = { doc := [(.text "params", ps.map record)] }) {notes : List Note}
    (h : m.merge reg = .ok m' notes) :
    Table.get? m'.attributes "params" = some (.list (ps.map value)) := by
  obtain ⟨outcome, _, _, hrun, hend⟩ := Report.bind_eq_ok h
  cases hend
  have hname : Name.text "params" ∈ m.raw.tagnames := by
    rw [hraw]
    exact List.mem_cons_self
  have htag : Merge.tagFor reg m.subject.kind (.text "params") = some Tag.param := by
    have hfind : reg.findByTagname "params" = some Tag.param := by
      cases hreg
      rfl
    have hcovers : Tag.param.covers (.member m.kind) = true := by
      revert hkind
      cases m.kind <;> decide
    rw [Merge.tagFor, Registry.findByName]
    exact Option.filter_eq_some_iff.mpr ⟨hfind, hcovers⟩
  obtain ⟨v, hmerge, hv⟩ :=
    Merge.holds_run (Registry.settles_standard hreg) hrun _ hname Tag.param htag
  rw [hraw] at hmerge
  obtain rfl := Except.ok.inj ((mergeParams_records hne).symm.trans hmerge)
  exact hv.resolve_left (by simp)

omit hreg hplain in
theorem ready_params {m : Member} (hattributes : m.attributes.Formed)
    (hraw : m.raw = { doc := [(.text "params", ps.map record)] }) : m.Ready where
  attributes := hattributes
  raw := by
    rw [hraw]
    refine ⟨fun key r hr => ?_, Groups.sound_nil⟩
    by_cases hkey : key = "params"
    · subst hkey
      obtain ⟨p, -, rfl⟩ := List.mem_map.mp hr
      exact sound_record p
    · have hother : Groups.of [(.text "params", ps.map record)] (.text key) = [] := by
        simp [Groups.of, Table.get?, Ne.symm hkey]
      rw [hother] at hr
      exact absurd hr List.not_mem_nil

/-- **Lists of parameters survive.** Parameters that keep to their places in a line, written one to
a line in a comment, are read as they were meant: the comment has no other text and no fault, and
its records are the parameters in their order. A method with these records and no others can be
merged, and has the same parameters in the same order among its attributes. -/
theorem params_roundtrip (hne : ps ≠ []) (position : Option SourceRef) :
    ∃ parsed notes, Comment.parse reg (comment ps) position = .ok parsed notes ∧
      parsed.doc = "" ∧ notes.filterMap Note.warning? = [] ∧
      parsed.occurrences = [(.text "params", ps.map record)] ∧
      ∀ m : Member, m.kind.isMethodLike = true → m.raw = { doc := parsed.occurrences } →
        (m.attributes.Formed → ∃ m' notes, m.merge reg = .ok m' notes) ∧
        ∀ m' notes, m.merge reg = .ok m' notes →
          Table.get? m'.attributes "params" = some (.list (ps.map value)) := by
  obtain ⟨parsed, notes, hparse, hdoc, hwarnings, hoccurrences⟩ :=
    parse_comment hreg hplain hne position
  refine ⟨parsed, notes, hparse, hdoc, hwarnings, hoccurrences, fun m hkind hraw => ?_⟩
  rw [hoccurrences] at hraw
  refine ⟨fun hattributes => ?_, fun m' notes h => get?_params_merge hreg hne hkind hraw h⟩
  obtain ⟨m', notes, hmerge, -⟩ :=
    Member.merge_ends (Registry.sturdy_standard hreg) (ready_params hattributes hraw)
  exact ⟨m', notes, hmerge⟩

end Reading

/-- Parameters with braces in a type, with the marks of other places in a default, and with nothing
to say. -/
def assorted : List Param := [
  { type := "\x7bx: Number, y: Number\x7d", name := "point", presence := .required
    doc := "The corner [in pixels], a = b." },
  { type := "String/String[]", name := "config.align", presence := .defaulting "[\x7bc=d"
    doc := "" },
  { type := "", name := "$el-id", presence := .optional, doc := "\x7d" }]

theorem plain_assorted : ∀ p ∈ assorted, p.Plain := by
  intro p hp
  rcases List.mem_cons.mp hp with rfl | hp
  · exact {
      type := by decide +kernel
      balanced := by decide +kernel
      name := .of_all ["point".toList] (by decide) (by decide)
      default := nofun
      doc := by decide +kernel }
  rcases List.mem_cons.mp hp with rfl | hp
  · exact {
      type := by decide +kernel
      balanced := by decide +kernel
      name := .of_all ["config".toList, "align".toList] (by decide) (by decide)
      default := by rintro _ ⟨⟩; decide +kernel
      doc := by decide +kernel }
  obtain rfl := List.mem_singleton.mp hp
  exact {
    type := by decide +kernel
    balanced := by decide +kernel
    name := .of_all ["$el-id".toList] (by decide) (by decide)
    default := nofun
    doc := by decide +kernel }

theorem params_roundtrip_assorted : ∃ reg, Registry.ofTags Tag.standard = .ok reg ∧
    assorted ≠ [] ∧ (∀ p ∈ assorted, p.Plain) ∧
    ∃ parsed notes, Comment.parse reg (comment assorted) none = .ok parsed notes ∧
      parsed.doc = "" ∧ notes.filterMap Note.warning? = [] ∧
      parsed.occurrences = [(.text "params", assorted.map record)] ∧
      ∀ m : Member, m.kind.isMethodLike = true → m.raw = { doc := parsed.occurrences } →
        (m.attributes.Formed → ∃ m' notes, m.merge reg = .ok m' notes) ∧
        ∀ m' notes, m.merge reg = .ok m' notes →
          Table.get? m'.attributes "params" = some (.list (assorted.map value)) := by
  obtain ⟨reg, hreg⟩ : ∃ reg, Registry.ofTags Tag.standard = .ok reg := ⟨_, rfl⟩
  have hne : assorted ≠ [] := List.cons_ne_nil _ _
  exact ⟨reg, hreg, hne, plain_assorted, params_roundtrip hreg plain_assorted hne none⟩

end Param

end ApiPages
