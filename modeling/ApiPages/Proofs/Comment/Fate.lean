import ApiPages.Comment
import ApiPages.Proofs.Scan

/-!
# What becomes of a segment

A segment goes to one of three places: to the documentation as it stands, or with what its tag
leaves over of it to the documentation or to a record.
-/

namespace ApiPages

/-- A tag that only moves forward over the text it reads, and that says of each of its records what
it is to be filed under. -/
structure Tag.Orderly (t : Tag) : Prop where
  forward : ∀ position body,
    (Cursor.start body).Ahead (t.parse position (Cursor.start body)).2
  tagged : ∀ position body, ∀ r ∈ (t.parse position (Cursor.start body)).1.records,
    ∃ name, Record.tagname r = .ok name

theorem Record.tagname_set_doc (r : Record) (v : Value) :
    Record.tagname (Table.set r "doc" v) = Record.tagname r := by
  rw [tagname, tagname, Table.get?_set, if_neg (by decide)]

namespace Comment

/-- A record that comes too late to get the text of its tag. -/
def silence (r : Record) : Record :=
  if awaitsText r then Table.set r "doc" (.text "") else r

theorem attach_nil_text (rs : List Record) : attach "" rs = rs.map silence := by
  induction rs with
  | nil => rfl
  | cons r rs ih =>
      rw [attach, List.map_cons, silence, ih]
      split <;> rfl

theorem attach_append {before after : List Record} {r : Record}
    (hbefore : ∀ q ∈ before, awaitsText q = false) (hr : awaitsText r = true) (text : String) :
    attach text (before ++ r :: after) =
      before ++ Table.set r "doc" (.text text) :: after.map silence := by
  induction before with
  | nil => rw [List.nil_append, List.nil_append, attach, if_pos hr, attach_nil_text]
  | cons q before ih =>
      obtain ⟨hq, hbefore⟩ := List.forall_mem_cons.mp hbefore
      rw [List.cons_append, List.cons_append, attach, if_neg (by simp [hq]), ih hbefore]

section Fate

variable (reg : Registry) (position : Option SourceRef) (s : Segment)

/-- What becomes of a segment: nobody knows its tag, no record of its tag asks for text, or `r` is
the first one that does. -/
inductive Fate : Routed → Prop
  | unknown (hnone : reg.findByPattern (String.ofList s.pattern) = none) :
      Fate {
        docs := [s.source]
        warnings := [{
          category := .tag
          message := "Unsupported tag: @" ++ String.ofList s.pattern
          position }] }
  | unclaimed {t : Tag} {yield : Yield} {cursor : Cursor}
      (hsome : reg.findByPattern (String.ofList s.pattern) = some t)
      (hparse : t.parse position (Cursor.start s.body) = (yield, cursor))
      (hbody : cursor.consumed ++ cursor.rest = s.body)
      (hnone : ∀ r ∈ yield.records, awaitsText r = false) :
      Fate {
        docs := [cursor.rest]
        records := yield.records
        warnings := cursor.warnings position }
  | claimed {t : Tag} {yield : Yield} {cursor : Cursor} {before after : List Record} {r : Record}
      (hsome : reg.findByPattern (String.ofList s.pattern) = some t)
      (hparse : t.parse position (Cursor.start s.body) = (yield, cursor))
      (hbody : cursor.consumed ++ cursor.rest = s.body)
      (hrecords : yield.records = before ++ r :: after)
      (hbefore : ∀ q ∈ before, awaitsText q = false) (hr : awaitsText r = true) :
      Fate {
        docs := []
        records := before ++
          Table.set r "doc" (.text (String.ofList (Text.trim cursor.rest))) :: after.map silence
        warnings := cursor.warnings position }

variable {reg position s}

theorem route_fate (hreg : ∀ pattern t, reg.findByPattern pattern = some t → t.Orderly) :
    ∃ routed, route reg position s = .ok routed ∧ Fate reg position s routed := by
  rw [route]
  cases htag : reg.findByPattern (String.ofList s.pattern) with
  | none => exact ⟨routeUnknown position s, rfl, .unknown htag⟩
  | some t =>
      obtain ⟨hforward, htagged⟩ := hreg _ t htag
      have hbody := (hforward position s.body).text_eq
      have hrecords := htagged position s.body
      obtain ⟨yield, cursor, hparse⟩ :
          ∃ yield cursor, t.parse position (Cursor.start s.body) = (yield, cursor) := ⟨_, _, rfl⟩
      rw [hparse] at hbody hrecords
      dsimp only at hbody hrecords ⊢
      rw [routeTo, hparse]
      dsimp only
      have hall : yield.records.all (fun r => Table.contains r "tagname") = true := by
        rw [List.all_eq_true]
        intro r hr
        obtain ⟨name, hname⟩ := hrecords r hr
        rw [Record.tagname] at hname
        rw [Table.contains]
        cases hget : Table.get? r "tagname" with
        | none => simp [hget] at hname
        | some v => rfl
      rw [if_pos hall]
      cases hfind : yield.records.find? awaitsText with
      | none =>
          have hnone : ∀ r ∈ yield.records, awaitsText r = false := by
            simpa using hfind
          rw [if_neg (by simpa using hnone)]
          exact ⟨_, rfl, .unclaimed htag hparse hbody hnone⟩
      | some r =>
          obtain ⟨hr, before, after, hsplit, hbefore⟩ := List.find?_eq_some_iff_append.mp hfind
          have hany : yield.records.any awaitsText = true :=
            List.any_eq_true.mpr ⟨r, by simp [hsplit], hr⟩
          have hbefore' : ∀ q ∈ before, awaitsText q = false := by
            simpa using hbefore
          rw [if_pos hany]
          refine ⟨_, rfl, ?_⟩
          rw [hsplit, attach_append hbefore' hr]
          exact .claimed htag hparse hbody hsplit hbefore' hr

theorem Fate.forall_records {P : Record → Prop} {routed : Routed}
    (hset : ∀ r text, P r → P (Table.set r "doc" (.text text)))
    (hrecords : ∀ t, reg.findByPattern (String.ofList s.pattern) = some t →
      ∀ r ∈ (t.parse position (Cursor.start s.body)).1.records, P r)
    (h : Fate reg position s routed) : ∀ r ∈ routed.records, P r := by
  cases h with
  | unknown hnone => exact fun _ hr => absurd hr List.not_mem_nil
  | unclaimed hsome hparse hbody hnone =>
      have hyield := hrecords _ hsome
      rw [hparse] at hyield
      exact hyield
  | claimed hsome hparse hbody hsplit hbefore hr =>
      have hyield := hrecords _ hsome
      rw [hparse] at hyield
      dsimp only at hyield
      rw [hsplit, List.forall_mem_append, List.forall_mem_cons] at hyield
      obtain ⟨hbefore, hclaimed, hafter⟩ := hyield
      refine List.forall_mem_append.mpr ⟨hbefore, List.forall_mem_cons.mpr ⟨?_, ?_⟩⟩
      · exact hset _ _ hclaimed
      · intro q hq
        obtain ⟨r, hr, rfl⟩ := List.mem_map.mp hq
        rw [silence]
        split
        · exact hset _ _ (hafter r hr)
        · exact hafter r hr

end Fate

end Comment

end ApiPages
