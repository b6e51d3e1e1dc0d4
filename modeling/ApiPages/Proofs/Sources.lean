import ApiPages.Declaration
import ApiPages.Proofs.Comment.Kept

/-!
# Where raw records come from

The raw records of a class or member are read from comments and declarations. With sturdy tags that
always succeeds, and the records are sound, whatever the comments and declarations say.
-/

namespace ApiPages

open Record (Sound)

/-- Records each of which is sound for the name under which it is filed. -/
def Groups.Sound (groups : Groups) : Prop :=
  ∀ key, ∀ r ∈ groups.of (.text key), Record.Sound key r

theorem Groups.sound_nil : Groups.Sound [] :=
  fun _ _ h => absurd h List.not_mem_nil

theorem Groups.Sound.add {groups : Groups} (h : groups.Sound) {key : String} {r : Record}
    (hr : Record.Sound key r) : Groups.Sound (groups.add (.text key) r) := by
  intro other q hq
  rw [Groups.of_add] at hq
  split at hq
  · rename_i heq
    cases heq
    rcases List.mem_append.mp hq with hq | hq
    · exact h key q hq
    · rw [List.mem_singleton.mp hq]
      exact hr
  · exact h other q hq

/-- Raw records that are sound on both sides. -/
structure Occurrences.Sound (raw : Occurrences) : Prop where
  doc : raw.doc.Sound
  code : raw.code.Sound

theorem Occurrences.sound_empty : Occurrences.Sound {} where
  doc := Groups.sound_nil
  code := Groups.sound_nil

theorem Occurrences.addCodes_ok {raw : Occurrences} (h : raw.Sound) {rs : List Record}
    (hrs : ∀ r ∈ rs, ∃ key, Record.Sound key r) :
    ∃ raw', addCodes raw rs = .ok raw' ∧ raw'.Sound := by
  refine Except.foldlM_ok (fun raw r hr hraw => ?_) h
  obtain ⟨key, hsound⟩ := hrs r hr
  refine ⟨{ raw with code := raw.code.add (.text key) r }, ?_, hraw.doc, hraw.code.add hsound⟩
  rw [addCode, hsound.tagname_eq]
  rfl

/-- A registry that finds its tags by what they claim, all of them sturdy. -/
structure Registry.Sturdy (reg : Registry) : Prop where
  indexed : reg.Indexed
  tags : ∀ t ∈ reg.tags, t.Sturdy

theorem Registry.sturdy_standard {reg : Registry} (h : ofTags Tag.standard = .ok reg) :
    reg.Sturdy where
  indexed := indexed_ofTags h
  tags := by
    rw [tags_ofTags h]
    exact Tag.sturdy_standard

theorem Declaration.sound_recordsOf {t : Tag} (ht : t.Sturdy) (declaration : Record) :
    ∀ r ∈ recordsOf t declaration, Sound t.key r := by
  rw [recordsOf]
  split
  · exact ht.declare _
  · intro r hr
    exact ht.declarationDefault r (Option.mem_toList.mp hr)

section Reading

variable {reg : Registry} (hreg : reg.Sturdy)
include hreg

theorem Registry.Sturdy.ofPattern {pattern : String} {t : Tag}
    (h : reg.findByPattern pattern = some t) : t.Sturdy :=
  hreg.tags t (hreg.indexed.byPattern pattern t (Table.mem_of_get? h))

theorem Registry.Sturdy.ofDeclaration {t : Tag} (h : t ∈ reg.declarationTags) : t.Sturdy := by
  obtain ⟨⟨key, u⟩, hu, rfl⟩ := List.mem_map.mp h
  exact hreg.tags u (hreg.indexed.byDeclaration key u hu)

theorem Comment.parse_forall {P : String → Record → Prop}
    (hset : ∀ key r text, P key r → P key (Table.set r "doc" (.text text)))
    (hread : ∀ t ∈ reg.tags, ∀ position body,
      ∀ r ∈ (t.parse position (Cursor.start body)).1.records, P t.key r)
    (comment : String) (position : Option SourceRef) :
    (parse reg comment position).Ends fun parsed => parsed.occurrences.Sound ∧
      ∀ key, ∀ r ∈ parsed.occurrences.of (.text key), P key r := by
  obtain ⟨head, later, routed, raw, -, hfates, hfiled, hparse⟩ :=
    exists_parse_eq_ok (fun _ _ h => (hreg.ofPattern h).orderly) comment position
  have hall : ∀ key, ∀ r ∈ Groups.of raw (.text key), Sound key r ∧ P key r := by
    intro key r hr
    rw [hfiled, List.mem_filter, decide_eq_true_eq] at hr
    obtain ⟨part, hpart, hmem⟩ := List.mem_flatMap.mp hr.1
    obtain ⟨s, -, hfate⟩ := Except.exists_of_mem_right hfates part hpart
    have hmade : ∃ other, Sound other r ∧ P other r := by
      refine hfate.forall_records (P := fun r => ∃ other, Sound other r ∧ P other r) ?_ ?_ r hmem
      · rintro r text ⟨other, hsound, hP⟩
        exact ⟨other, hsound.set_doc text, hset other r text hP⟩
      · intro t ht r hr
        refine ⟨t.key, ((hreg.ofPattern ht).parse position _).2 r hr, ?_⟩
        exact hread t (hreg.indexed.byPattern _ t (Table.mem_of_get? ht)) position s.body r hr
    obtain ⟨other, hsound, hP⟩ := hmade
    have hkey := hsound.tagname_eq.symm.trans hr.2
    cases hkey
    exact ⟨hsound, hP⟩
  exact ⟨_, _, hparse, fun key r hr => (hall key r hr).1, fun key r hr => (hall key r hr).2⟩

theorem Comment.parse_ok (comment : String) (position : Option SourceRef) :
    (parse reg comment position).Ends fun parsed => parsed.occurrences.Sound := by
  obtain ⟨parsed, notes, hparse, hsound, -⟩ := parse_forall hreg (P := fun _ _ => True)
    (fun _ _ _ _ => trivial) (fun _ _ _ _ _ _ => trivial) comment position
  exact ⟨parsed, notes, hparse, hsound⟩

theorem Declaration.apply_ok (c : ClassDoc) (declaration : Record) (hraw : c.raw.Sound) :
    (apply reg c declaration).Ends fun c' => c'.raw.Sound := by
  have hrecords : ∀ r ∈ reg.declarationTags.flatMap fun t => recordsOf t declaration,
      ∃ key, Sound key r := by
    intro r hr
    obtain ⟨t, ht, hr⟩ := List.mem_flatMap.mp hr
    exact ⟨t.key, sound_recordsOf (hreg.ofDeclaration ht) declaration r hr⟩
  exact (Report.Ends.ofExcept (Occurrences.addCodes_ok hraw hrecords)).bind fun raw hsound =>
    .seq (.progress _ _ _) (.pure hsound)

end Reading

/-- Raw records that come from comments and declarations alone. -/
inductive Sourced (reg : Registry) : Occurrences → Prop
  | empty : Sourced reg {}
  | comment {raw : Occurrences} {comment : String} {position : Option SourceRef}
      {parsed : Comment.Parsed} {notes : List Note} (hraw : Sourced reg raw)
      (hparse : Comment.parse reg comment position = .ok parsed notes) :
      Sourced reg { raw with doc := parsed.occurrences }
  | declaration {c c' : ClassDoc} {declaration : Record} {notes : List Note}
      (hraw : Sourced reg c.raw) (happly : Declaration.apply reg c declaration = .ok c' notes) :
      Sourced reg c'.raw

theorem Sourced.sound {reg : Registry} (hreg : reg.Sturdy) {raw : Occurrences}
    (h : Sourced reg raw) : raw.Sound := by
  induction h with
  | empty => exact Occurrences.sound_empty
  | @comment raw comment position parsed notes _ hparse ih =>
      obtain ⟨parsed', notes', hparse', hsound⟩ := Comment.parse_ok hreg comment position
      rw [hparse] at hparse'
      cases hparse'
      exact ⟨hsound, ih.code⟩
  | @declaration c c' declaration notes _ happly ih =>
      obtain ⟨d, notes', happly', hsound⟩ := Declaration.apply_ok hreg c declaration ih
      rw [happly] at happly'
      cases happly'
      exact hsound

end ApiPages
