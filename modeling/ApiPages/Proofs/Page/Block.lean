import ApiPages.Proofs.Page
import ApiPages.Proofs.Page.Section
import Mathlib.Data.List.Perm.Basic

/-!
# The blocks of a page

A page is put together of pieces: where a section opens and closes, the titles of its views, and one
block for each member. What a page says about members it keeps by their ids. Where these are
distinct the block of each member says what was made of that member.
-/

namespace ApiPages.Page

/-- A member with formatted attributes, and the HTML of its tags. -/
structure Shown where
  member : Member
  tags : String

def Shows (reg : Registry) (f : Formatter) (m : Member) (s : Shown) : Prop :=
  s.member = { m with attributes := s.member.attributes } ∧
    render reg f (.member m.kind) m.attributes = (s.member.attributes, .ok s.tags)

inductive Piece where
  | opening (type : MemberType)
  | title (text : String)
  | block (s : Shown)
  | closing

namespace Piece

def shown? : Piece → Option Shown
  | block s => some s
  | _ => none

/-- The piece as it stands on the page. The block of a member has its kind, id and name, and then
its documentation and the HTML of its tags. -/
def text (f : Formatter) : Piece → String
  | opening type =>
    s!"  <div class=\"members-section\" id=\"{Text.escape type.name}\">\n" ++
      s!"    <h2 class=\"members-title\">{Text.escape type.title}</h2>\n"
  | title text => s!"    <h3 class=\"members-subtitle\">{Text.escape text}</h3>\n"
  | block s =>
    s!"    <div class=\"member\" id=\"{s.member.kind.word}-{Text.escape s.member.id}\">\n" ++
      s!"      <h4 class=\"member-name\">{Text.escape s.member.name}</h4>\n" ++
      s!"      <div class=\"description\">{f.format s.member.doc ++ s.tags}</div>\n" ++
      "    </div>\n"
  | closing => "  </div>\n"

end Piece

/-- The page of a class above its sections. -/
def head (f : Formatter) (c : ClassDoc) (tags : String) : String :=
  s!"<div class=\"class-doc\" id=\"{Text.escape c.name}\">\n" ++
    s!"  <h1>{Text.escape c.name}</h1>\n" ++
    (if tags = "" then "" else s!"  <div class=\"tags\">{tags}</div>\n") ++
    s!"  <div class=\"doc-contents\">{f.format c.doc}</div>\n"

theorem join_singleton (s : String) : String.join [s] = s := by
  rw [String.join_cons, String.join_nil, String.append_empty]

theorem join_flatMap {α : Type} (g : α → List String) (xs : List α) :
    String.join (xs.flatMap g) = String.join (xs.map fun x => String.join (g x)) := by
  induction xs with
  | nil => rfl
  | cons x xs ih =>
      rw [List.flatMap_cons, String.join_append, ih, List.map_cons, String.join_cons]

/-! ### Pieces of sections -/

section Pieces

variable (of : Member → Shown)

def viewPieces (v : View) : List Piece :=
  (if v.showTitle then [.title v.title] else []) ++ v.members.map fun m => .block (of m)

def sectionPieces (s : Section) : List Piece :=
  .opening s.type :: s.views.flatMap (viewPieces of) ++ [.closing]

theorem shown_viewPieces (v : View) :
    (viewPieces of v).filterMap Piece.shown? = v.members.map of := by
  rw [viewPieces, List.filterMap_append, List.filterMap_map]
  have htitle : (if v.showTitle then [Piece.title v.title] else []).filterMap Piece.shown? = [] := by
    split <;> rfl
  rw [htitle, List.nil_append, ← List.filterMap_eq_map]
  rfl

theorem shown_sectionPieces (s : Section) :
    (sectionPieces of s).filterMap Piece.shown? = s.members.map of := by
  rw [sectionPieces, List.cons_append, List.filterMap_cons_none rfl, List.filterMap_append,
    List.filterMap_flatMap, Section.members, List.map_flatMap]
  simp only [shown_viewPieces]
  exact List.append_nil _

variable {of} {f : Formatter} {known : Descriptions}

theorem text_viewPieces {v : View}
    (h : ∀ m ∈ v.members, memberBlock known m = (Piece.block (of m)).text f) :
    viewBlock known v = String.join ((viewPieces of v).map (Piece.text f)) := by
  have hblocks : v.members.map (memberBlock known) =
      (v.members.map fun m => Piece.block (of m)).map (Piece.text f) := by
    rw [List.map_map]
    exact List.map_congr_left h
  have htitle : (if v.showTitle then
        s!"    <h3 class=\"members-subtitle\">{Text.escape v.title}</h3>\n" else "") =
      String.join ((if v.showTitle then [Piece.title v.title] else []).map (Piece.text f)) := by
    split
    · rw [List.map_singleton, join_singleton]
      rfl
    · rfl
  rw [viewPieces, List.map_append, String.join_append, ← hblocks, ← htitle]
  rfl

theorem text_sectionPieces {s : Section}
    (h : ∀ m ∈ s.members, memberBlock known m = (Piece.block (of m)).text f) :
    sectionBlock known s = String.join ((sectionPieces of s).map (Piece.text f)) := by
  have hviews : s.views.map (viewBlock known) =
      s.views.map fun v => String.join ((viewPieces of v).map (Piece.text f)) := by
    apply List.map_congr_left
    intro v hv
    apply text_viewPieces
    intro m hm
    exact h m (List.mem_flatMap.mpr ⟨v, hv, hm⟩)
  have hpieces : String.join ((s.views.flatMap (viewPieces of)).map (Piece.text f)) =
      String.join (s.views.map (viewBlock known)) := by
    rw [List.map_flatMap, join_flatMap, hviews]
  rw [sectionPieces, List.cons_append, List.map_cons, List.map_append, String.join_cons,
    String.join_append, hpieces, List.map_singleton, join_singleton]
  unfold sectionBlock
  rw [String.append_assoc]
  rfl

variable (of) in
/-- The pieces of a page, between its head and its end. -/
def piecesOf (ss : List Section) : List Piece :=
  ss.flatMap (sectionPieces of)

theorem shown_piecesOf (ss : List Section) :
    (piecesOf of ss).filterMap Piece.shown? = (ss.flatMap Section.members).map of := by
  rw [piecesOf, List.filterMap_flatMap, List.map_flatMap]
  simp only [shown_sectionPieces]

theorem layout_eq {c : ClassDoc} {tags : String} {ss : List Section}
    (h : ∀ m ∈ ss.flatMap Section.members,
      memberBlock known m = (Piece.block (of m)).text f) :
    layout c.name (f.format c.doc) tags known ss =
      head f c tags ++ String.join ((piecesOf of ss).map (Piece.text f)) ++ "</div>" := by
  have hsections : ss.map (sectionBlock known) =
      ss.map fun s => String.join ((sectionPieces of s).map (Piece.text f)) := by
    apply List.map_congr_left
    intro s hs
    apply text_sectionPieces
    intro m hm
    exact h m (List.mem_flatMap.mpr ⟨s, hs, hm⟩)
  unfold layout head
  rw [hsections, piecesOf, List.map_flatMap, join_flatMap]

end Pieces

/-! ### What is said of each member -/

section Describing

variable {reg : Registry} {f : Formatter}

theorem describe_shows {ms shown : List Member} {known described : Descriptions}
    (h : describe reg f ms known = (shown, .ok described)) (hids : (ms.map Member.id).Nodup) :
    ∃ es, List.Forall₂ (Shows reg f) ms es ∧ shown = es.map Shown.member ∧
      ∀ e ∈ es, Table.get? described e.member.id = some (f.format e.member.doc ++ e.tags) := by
  induction ms generalizing known shown with
  | nil =>
      cases h
      exact ⟨[], .nil, rfl, fun _ he => absurd he List.not_mem_nil⟩
  | cons m ms ih =>
      obtain ⟨hnew, hids⟩ := List.nodup_cons.mp hids
      rw [describe] at h
      split at h
      · cases h
      · rename_i attributes html hrender
        obtain ⟨rfl, hresult⟩ := Prod.mk.inj h
        obtain ⟨es, hes, hshown, hsaid⟩ := ih (Prod.ext rfl hresult) hids
        have hframe := describe_frame f (Prod.ext rfl hresult) hnew
        refine ⟨⟨{ m with attributes }, html⟩ :: es, .cons ⟨rfl, hrender⟩ hes, ?_, ?_⟩
        · exact congrArg _ hshown
        · refine List.forall_mem_cons.mpr ⟨?_, hsaid⟩
          rw [hframe, Table.get?_set, if_pos rfl]

end Describing

/-! ### The order of the members -/

def switch (key : String) (b : Bool) (attributes : Record) : Bool :=
  (Record.optional attributes key).truthy == b

/-- How the members of a kind are divided. -/
def groups : MemberKind → List (Record → Bool)
  | .cfg => [switch "required" true, switch "required" false]
  | .property => [switch "static" false, switch "static" true]
  | .method => [switch "static" false, switch "static" true]
  | _ => [fun _ => true]

/-- Members kind by kind, those of one kind group by group, and those of one group as they come. -/
def inOrder (ms : List Member) : List Member :=
  MemberKind.all.flatMap fun kind => (groups kind).flatMap fun group =>
    (ms.filter (·.kind = kind)).filter fun m => group m.attributes

theorem perm_groups (kind : MemberKind) (ms : List Member) :
    ((groups kind).flatMap fun group => ms.filter fun m => group m.attributes).Perm ms := by
  have hapart : (groups kind).Pairwise fun group other =>
      ∀ m : Member, group m.attributes = true → other m.attributes = false := by
    cases kind <;> simp [groups, switch]
  refine (perm_flatMap_filter hapart ms).trans ?_
  rw [List.filter_eq_self.mpr]
  intro m _
  cases kind <;> simp [groups, switch]

theorem perm_inOrder (ms : List Member) : (inOrder ms).Perm ms := by
  have hapart : MemberKind.all.Pairwise fun i j =>
      ∀ m : Member, decide (m.kind = i) = true → decide (m.kind = j) = false := by
    have hne : MemberKind.all.Pairwise (· ≠ ·) := by decide
    refine hne.imp fun hij m hi => ?_
    rw [decide_eq_true_eq] at hi
    rw [hi, decide_eq_false_iff_not]
    exact hij
  have hkinds : ms.filter (fun m => MemberKind.all.any fun kind => m.kind = kind) = ms :=
    List.filter_eq_self.mpr fun m _ => by cases m.kind <;> rfl
  calc
    (inOrder ms).Perm (MemberKind.all.flatMap fun kind => ms.filter (·.kind = kind)) :=
      .flatMap_left _ fun kind _ => perm_groups kind _
    List.Perm _ (ms.filter fun m => MemberKind.all.any fun kind => m.kind = kind) :=
      perm_flatMap_filter hapart ms
    _ = ms := hkinds

/-- A section that shows the members of a kind group by group. -/
def Arranges (type : MemberType) (kind : MemberKind) : Prop :=
  type.name = kind.word ∧ ∀ ms, (split type ms).flatMap View.members =
    (groups kind).flatMap fun group => ms.filter fun m => group m.attributes

theorem arranges_of_nil {type : MemberType} {kind : MemberKind} (hname : type.name = kind.word)
    (h : type.subsections = []) (hgroups : groups kind = [fun _ => true]) :
    Arranges type kind := by
  refine ⟨hname, fun ms => ?_⟩
  rw [split_of_nil h, hgroups, List.flatMap_singleton, List.flatMap_singleton]
  simp

theorem arranges_of_subsections {type : MemberType} {kind : MemberKind}
    (hname : type.name = kind.word) (hne : type.subsections ≠ [])
    (h : type.subsections.map Subsection.accepts = groups kind) : Arranges type kind := by
  refine ⟨hname, fun ms => ?_⟩
  rw [flatMap_members_split hne, ← h, List.flatMap_map]

theorem flatMap_members_sectionOf (c : ClassDoc) (types : List MemberType) :
    (types.filterMap (sectionOf c)).flatMap Section.members =
      types.flatMap fun type =>
        (split type (c.members.filter fun m => m.kind.word == type.name)).flatMap View.members := by
  induction types with
  | nil => rfl
  | cons type types ih =>
      rw [List.filterMap_cons, List.flatMap_cons, ← ih]
      cases hsection : sectionOf c type with
      | some s =>
          obtain ⟨-, rfl⟩ := sectionOf_eq_some hsection
          rfl
      | none =>
          have hany := isSome_sectionOf c type
          rw [hsection, Option.isSome_none, eq_comm, List.any_eq_false] at hany
          have hnone : (split type []).flatMap View.members = [] := by
            by_cases hempty : type.subsections = []
            · rw [split_of_nil hempty]
              rfl
            · rw [flatMap_members_split hempty]
              simp
          rw [List.filter_eq_nil_iff.mpr hany, hnone, List.nil_append]

section Standard

variable {reg : Registry} (hreg : Registry.ofTags Tag.standard = .ok reg)
include hreg

theorem arranges_standard : List.Forall₂ Arranges reg.sections MemberKind.all := by
  have haccepts : ∀ (s : Subsection) (key : String) (b : Bool), s.wanted = [(key, .bool b)] →
      s.accepts = switch key b := by
    intro s key b h
    funext attributes
    exact Subsection.accepts_of_wanted h attributes
  have hpair : ∀ (s t : Subsection) (key : String) (b : Bool), s.wanted = [(key, .bool b)] →
      t.wanted = [(key, .bool !b)] →
      [s, t].map Subsection.accepts = [switch key b, switch key !b] := by
    intro s t key b hs ht
    rw [List.map_cons, List.map_singleton, haccepts s key b hs, haccepts t key _ ht]
  rw [sections_standard hreg]
  refine .cons ?_ (.cons ?_ (.cons ?_ (.cons ?_ (.cons ?_ (.cons ?_ .nil)))))
  · exact arranges_of_subsections rfl (List.cons_ne_nil _ _) (hpair _ _ "required" true rfl rfl)
  · exact arranges_of_subsections rfl (List.cons_ne_nil _ _) (hpair _ _ "static" false rfl rfl)
  · exact arranges_of_subsections rfl (List.cons_ne_nil _ _) (hpair _ _ "static" false rfl rfl)
  · exact arranges_of_nil rfl rfl rfl
  · exact arranges_of_nil rfl rfl rfl
  · exact arranges_of_nil rfl rfl rfl

theorem members_sections (c : ClassDoc) :
    (sections reg c).flatMap Section.members = inOrder c.members := by
  have harranges := arranges_standard hreg
  rw [sections, flatMap_members_sectionOf, inOrder]
  generalize reg.sections = types, MemberKind.all = kinds at harranges
  induction harranges with
  | nil => rfl
  | @cons type kind types kinds h _ ih =>
      have hkind : (fun m : Member => m.kind.word == type.name) =
          fun m => decide (m.kind = kind) := by
        funext m
        rw [h.1, Bool.eq_iff_iff, beq_iff_eq, decide_eq_true_eq]
        exact ⟨MemberKind.word_injective, congrArg MemberKind.word⟩
      rw [List.flatMap_cons, List.flatMap_cons, ih, h.2, hkind]

end Standard

/-! ### Pages of classes -/

/-- A page of a class that is put together of pieces, among them one block for each member: its own
documentation, and the HTML of its own tags. The blocks stand in the order of the sections. -/
structure Composed (reg : Registry) (f : Formatter) (c : ClassDoc) (page : String)
    (shown : List Shown) (pieces : List Piece) : Prop where
  page : ∃ attributes tags, render reg f .cls c.attributes = (attributes, .ok tags) ∧
    page = head f c tags ++ String.join (pieces.map (Piece.text f)) ++ "</div>"
  members : List.Forall₂ (Shows reg f) c.members shown
  blocks : (pieces.filterMap Piece.shown?).Perm shown
  order : (pieces.filterMap Piece.shown?).map Shown.member = inOrder (shown.map Shown.member)

theorem map_id_of_shows {reg : Registry} {f : Formatter} {ms : List Member} {es : List Shown}
    (h : List.Forall₂ (Shows reg f) ms es) : ms.map Member.id = es.map fun e => e.member.id := by
  apply Except.map_eq_of_forall₂
  refine h.imp fun m e hshows => ?_
  rw [hshows.1]

theorem exists_blocks {f : Formatter} {known : Descriptions} {es : List Shown}
    (hids : (es.map fun e => e.member.id).Nodup)
    (hsaid : ∀ e ∈ es, Table.get? known e.member.id = some (f.format e.member.doc ++ e.tags)) :
    ∃ of : Member → Shown, (∀ m, (of m).member = m) ∧ (∀ e ∈ es, of e.member = e) ∧
      ∀ e ∈ es, memberBlock known e.member = (Piece.block (of e.member)).text f := by
  let tags : Table String String := es.map fun e => (e.member.id, e.tags)
  have hkeys : (Table.keys tags).Nodup := by
    rw [Table.keys, List.map_map]
    exact hids
  have hof : ∀ e ∈ es, Shown.mk e.member ((Table.get? tags e.member.id).getD "") = e := by
    intro e he
    have hmem : (e.member.id, e.tags) ∈ tags := List.mem_map_of_mem he
    rw [Table.get?_of_mem hkeys hmem, Option.getD_some]
  refine ⟨fun m => ⟨m, (Table.get? tags m.id).getD ""⟩, fun _ => rfl, hof, fun e he => ?_⟩
  dsimp only
  rw [hof e he]
  unfold memberBlock Piece.text
  rw [hsaid e he, Option.getD_some]

theorem ofClass_composed {reg : Registry} (hreg : Registry.ofTags Tag.standard = .ok reg)
    {f : Formatter} {c shown : ClassDoc} {page : String} (hids : c.memberIds.Nodup)
    (h : ofClass reg f c = (shown, .ok page)) :
    ∃ es pieces, Composed reg f c page es pieces := by
  rw [ofClass] at h
  split at h
  · cases h
  · rename_i members known hdescribe
    split at h
    · cases h
    · rename_i attributes tags hrender
      obtain ⟨rfl, hpage⟩ := Prod.mk.inj h
      obtain ⟨es, hes, rfl, hsaid⟩ := describe_shows hdescribe hids
      obtain ⟨of, hmember, hof, hblock⟩ :=
        exists_blocks (map_id_of_shows hes ▸ hids) hsaid
      let c' : ClassDoc := { c with members := es.map Shown.member, attributes }
      have hmembers := members_sections hreg c'
      have hblocks : ∀ m ∈ (sections reg c').flatMap Section.members,
          memberBlock known m = (Piece.block (of m)).text f := by
        intro m hm
        rw [hmembers, (perm_inOrder _).mem_iff] at hm
        obtain ⟨e, he, rfl⟩ := List.mem_map.mp hm
        exact hblock e he
      have hshown : (piecesOf of (sections reg c')).filterMap Piece.shown? =
          (inOrder (es.map Shown.member)).map of := by
        rw [shown_piecesOf, hmembers]
      have hback : (es.map Shown.member).map of = es := by
        rw [List.map_map]
        exact (List.map_congr_left hof).trans (List.map_id _)
      refine ⟨es, piecesOf of (sections reg c'), ⟨attributes, tags, hrender, ?_⟩, hes, ?_, ?_⟩
      · rw [← layout_eq hblocks]
        exact (Except.ok.inj hpage).symm
      · rw [hshown]
        exact ((perm_inOrder _).map of).trans (.of_eq hback)
      · rw [hshown, List.map_map]
        exact (List.map_congr_left fun m _ => hmember m).trans (List.map_id _)

end ApiPages.Page
