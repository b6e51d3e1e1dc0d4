import ApiPages.Proofs.Override.Overlay
import ApiPages.Proofs.Table

/-!
# Members under one id

What the overrides of a class make of its members can be told id by id. The first definer of an id
brings the member, the class itself before its overrides; whoever defines it again adds
documentation and places to it. `told` follows one id through all definers, and entering members
one by one keeps in step with it.
-/

namespace ApiPages.ClassDoc

/-- The members that overrides bring, each with the name by which its override is quoted. -/
def contributions (os : List ClassDoc) : List (String × Member) :=
  os.flatMap fun o => o.members.map fun m => (o.shownName, m)

theorem map_snd_contributions (os : List ClassDoc) :
    (contributions os).map Prod.snd = os.flatMap ClassDoc.members := by
  simp [contributions, List.map_flatMap, Function.comp_def]

/-- Enters what an override brings among the members of a class. -/
def receive (owner : String) (ms : List Member) (entry : String × Member) : List Member :=
  enterMember entry.1 owner ms entry.2

theorem foldl_overlaidBy_members (os : List ClassDoc) (c : ClassDoc) :
    (os.foldl overlaidBy c).members = (contributions os).foldl (receive c.name) c.members := by
  induction os generalizing c with
  | nil => rfl
  | cons o os ih =>
      have hsplit : contributions (o :: os) =
          o.members.map (fun m => (o.shownName, m)) ++ contributions os := rfl
      rw [List.foldl_cons, ih, hsplit, List.foldl_append, List.foldl_map]
      rfl

/-- What is brought under one id. -/
def under (id : String) (entries : List (String × Member)) : List (String × Member) :=
  entries.filter (·.2.id == id)

/-- A member below all that is brought under its id. -/
def amended (m : Member) (entries : List (String × Member)) : Member :=
  entries.foldl (fun m entry => patchMember entry.1 m entry.2) m

/-- The member that one id comes to in a class with the members `ms`. -/
def told (owner : String) (ms : List Member) (entries : List (String × Member)) (id : String) :
    Option Member :=
  match ms.find? (·.id == id), under id entries with
  | some own, later => some (amended own later)
  | none, first :: later => some (amended (adoptMember first.1 owner first.2) later)
  | none, [] => none

theorem filter_id_eq_toList {ms : List Member} (hids : (ms.map Member.id).Nodup) (id : String) :
    ms.filter (·.id == id) = (ms.find? (·.id == id)).toList := by
  induction ms with
  | nil => rfl
  | cons m ms ih =>
      rw [List.map_cons, List.nodup_cons] at hids
      by_cases hm : m.id = id
      · have hrest : ms.filter (·.id == id) = [] := by
          rw [List.filter_eq_nil_iff]
          intro m' hm' heq
          refine hids.1 (List.mem_map.mpr ⟨m', hm', ?_⟩)
          rw [hm]
          simpa using heq
        simp [hm, hrest]
      · simpa [hm] using ih hids.2

theorem find?_id_of_mem {ms : List Member} (hids : (ms.map Member.id).Nodup) {m : Member}
    (hm : m ∈ ms) : ms.find? (·.id == m.id) = some m := by
  have hmem : m ∈ ms.filter (·.id == m.id) := List.mem_filter.mpr ⟨hm, by simp⟩
  rw [filter_id_eq_toList hids, Option.mem_toList] at hmem
  exact hmem

/-! ### Entering one member -/

section Enter

variable {name owner : String} {ms : List Member} {theirs : Member}

theorem modifyLast_eq_map {id : String} (f : Member → Member) (hids : (ms.map Member.id).Nodup) :
    modifyLast (·.id == id) f ms = ms.map fun m => if m.id = id then f m else m := by
  induction ms with
  | nil => rfl
  | cons m ms ih =>
      rw [List.map_cons, List.nodup_cons] at hids
      have hrest : ∀ (hm : m.id = id), ∀ m' ∈ ms, m'.id ≠ id := fun hm m' hm' heq =>
        hids.1 (List.mem_map.mpr ⟨m', hm', heq.trans hm.symm⟩)
      rw [modifyLast, ih hids.2, List.map_cons]
      by_cases hm : m.id = id
      · have hlast : ms.any (·.id == id) = false := by simpa using hrest hm
        have hsame : (ms.map fun m => if m.id = id then f m else m) = ms := by
          conv_rhs => rw [← List.map_id ms]
          exact List.map_congr_left fun m' hm' => if_neg (hrest hm m' hm')
        simp [hm, hlast, hsame]
      · simp [hm]

theorem enterMember_of_mem (hids : (ms.map Member.id).Nodup) (h : theirs.id ∈ ms.map Member.id) :
    enterMember name owner ms theirs =
      ms.map fun m => if m.id = theirs.id then patchMember name m theirs else m := by
  have hany : ms.any (·.id == theirs.id) = true := by
    simpa [List.any_eq_true] using h
  rw [enterMember, if_pos hany, modifyLast_eq_map _ hids]

theorem enterMember_of_not_mem (h : theirs.id ∉ ms.map Member.id) :
    enterMember name owner ms theirs = ms ++ [adoptMember name owner theirs] := by
  have hany : ¬ ms.any (·.id == theirs.id) = true := by
    simpa [List.any_eq_true] using h
  rw [enterMember, if_neg hany]

theorem map_id_enterMember (name owner : String) (ms : List Member) (theirs : Member) :
    (enterMember name owner ms theirs).map Member.id =
      ms.map Member.id ++ if theirs.id ∈ ms.map Member.id then [] else [theirs.id] := by
  by_cases h : theirs.id ∈ ms.map Member.id
  · have hany : ms.any (·.id == theirs.id) = true := by
      simpa [List.any_eq_true] using h
    rw [enterMember, if_pos hany, map_modifyLast, if_pos h, List.append_nil]
    exact fun _ => rfl
  · rw [enterMember_of_not_mem h, if_neg h, List.map_append]
    rfl

theorem nodup_ids_enterMember (hids : (ms.map Member.id).Nodup) :
    ((enterMember name owner ms theirs).map Member.id).Nodup := by
  rw [map_id_enterMember]
  split
  · simpa using hids
  · rename_i h
    refine List.nodup_append.mpr ⟨hids, List.nodup_singleton _, ?_⟩
    rintro id hid id' hid' rfl
    exact h (List.mem_singleton.mp hid' ▸ hid)

end Enter

/-! ### Following one id -/

section Told

variable {owner : String} {ms : List Member} {entries : List (String × Member)}

theorem amended_concat (m : Member) (entries : List (String × Member)) (entry : String × Member) :
    amended m (entries ++ [entry]) = patchMember entry.1 (amended m entries) entry.2 := by
  simp [amended]

theorem under_concat_of_eq {entry : String × Member} {id : String} (h : entry.2.id = id) :
    under id (entries ++ [entry]) = under id entries ++ [entry] := by
  simp [under, h]

theorem under_concat_of_ne {entry : String × Member} {id : String} (h : entry.2.id ≠ id) :
    under id (entries ++ [entry]) = under id entries := by
  simp [under, h]

theorem told_concat_of_ne {entry : String × Member} {id : String} (h : entry.2.id ≠ id) :
    told owner ms (entries ++ [entry]) id = told owner ms entries id := by
  rw [told, told, under_concat_of_ne h]

theorem told_concat_of_eq {entry : String × Member} {id : String} (h : entry.2.id = id) :
    told owner ms (entries ++ [entry]) id =
      some (match told owner ms entries id with
        | some m => patchMember entry.1 m entry.2
        | none => adoptMember entry.1 owner entry.2) := by
  rw [told, told, under_concat_of_eq h]
  cases ms.find? (·.id == id) with
  | some own => simp [amended_concat]
  | none =>
      cases under id entries with
      | nil => rfl
      | cons first later => simp [amended_concat]

theorem told_eq_none_iff {id : String} :
    told owner ms entries id = none ↔ id ∉ ms.map Member.id ∧ id ∉ entries.map (·.2.id) := by
  have hunder : under id entries = [] ↔ id ∉ entries.map (·.2.id) := by
    simp [under, List.filter_eq_nil_iff]
  have hfind : ms.find? (·.id == id) = none ↔ id ∉ ms.map Member.id := by
    simp [List.find?_eq_none]
  rw [← hunder, ← hfind, told]
  cases ms.find? (·.id == id) <;> cases under id entries <;> simp

/-- The ids of the class come first, and then each new one where it was first brought. -/
theorem map_id_foldl_receive (owner : String) (ms : List Member)
    (entries : List (String × Member)) :
    (entries.foldl (receive owner) ms).map Member.id =
      ms.map Member.id ++
        ((entries.map (·.2.id)).filter (· ∉ ms.map Member.id)).eraseDups := by
  induction entries using List.reverseRecOn with
  | nil => simp
  | append_singleton entries entry ih =>
      rw [List.foldl_append, List.foldl_cons, List.foldl_nil, receive, map_id_enterMember, ih,
        List.append_assoc, List.map_append, List.filter_append]
      generalize ms.map Member.id = known
      refine congrArg _ ?_
      by_cases hown : entry.2.id ∈ known
      · simp [hown]
      · have hnew : ([entry].map (·.2.id)).filter (· ∉ known) = [entry.2.id] := by simp [hown]
        rw [hnew, Table.eraseDups_concat]
        simp only [List.mem_append, List.mem_eraseDups, hown, false_or]

theorem mem_ids_foldl_receive {id : String} :
    id ∈ (entries.foldl (receive owner) ms).map Member.id ↔
      id ∈ ms.map Member.id ∨ id ∈ entries.map (·.2.id) := by
  rw [map_id_foldl_receive, List.mem_append, List.mem_eraseDups, List.mem_filter]
  by_cases h : id ∈ ms.map Member.id <;> simp [h]

theorem nodup_ids_foldl_receive (hids : (ms.map Member.id).Nodup) :
    ((entries.foldl (receive owner) ms).map Member.id).Nodup := by
  induction entries generalizing ms with
  | nil => exact hids
  | cons entry entries ih => exact ih (nodup_ids_enterMember hids)

/-- **Id by id.** Entering all that overrides bring gives each id the member that it comes to. -/
theorem told_of_mem_foldl_receive (hids : (ms.map Member.id).Nodup)
    (entries : List (String × Member)) :
    ∀ m ∈ entries.foldl (receive owner) ms, told owner ms entries m.id = some m := by
  induction entries using List.reverseRecOn with
  | nil =>
      intro m hm
      simp [told, find?_id_of_mem hids hm, under, amended]
  | append_singleton entries entry ih =>
      intro m hm
      rw [List.foldl_append, List.foldl_cons, List.foldl_nil, receive] at hm
      by_cases hin : entry.2.id ∈ (entries.foldl (receive owner) ms).map Member.id
      · rw [enterMember_of_mem (nodup_ids_foldl_receive hids) hin] at hm
        obtain ⟨before, hbefore, rfl⟩ := List.mem_map.mp hm
        by_cases hid : before.id = entry.2.id
        · rw [if_pos hid]
          have hsame : (patchMember entry.1 before entry.2).id = before.id := rfl
          rw [hsame, told_concat_of_eq hid.symm, ih before hbefore]
        · rw [if_neg hid, told_concat_of_ne (Ne.symm hid), ih before hbefore]
      · rw [enterMember_of_not_mem hin] at hm
        rcases List.mem_append.mp hm with hbefore | hnew
        · have hid : entry.2.id ≠ m.id := fun heq => hin (heq ▸ List.mem_map_of_mem hbefore)
          rw [told_concat_of_ne hid, ih m hbefore]
        · obtain rfl := List.mem_singleton.mp hnew
          have hnone : told owner ms entries entry.2.id = none := by
            rw [told_eq_none_iff]
            rw [mem_ids_foldl_receive, not_or] at hin
            exact hin
          have hid : (adoptMember entry.1 owner entry.2).id = entry.2.id := rfl
          rw [hid, told_concat_of_eq rfl, hnone]

/-! ### What a member that an id comes to looks like -/

/-- The documentation of a member behind what an override says about it. -/
def noteOn (doc : String) (entry : String × Member) : String :=
  addDoc doc (if entry.2.doc ≠ "" then s!"**From override {entry.1}:** {entry.2.doc}"
    else s!"**Overridden in {entry.1}.**")

theorem patchMember_doc (name : String) (m theirs : Member) :
    (patchMember name m theirs).doc = noteOn m.doc (name, theirs) := by
  by_cases h : theirs.doc = "" <;> simp [patchMember, noteOn, overriddenDoc, h]

theorem amended_frame (m : Member) (entries : List (String × Member)) :
    amended m entries =
      { m with
        doc := entries.foldl noteOn m.doc
        files := m.files ++ entries.flatMap (·.2.files) } := by
  induction entries generalizing m with
  | nil => simp [amended]
  | cons entry entries ih =>
      have hstep : amended m (entry :: entries) = amended (patchMember entry.1 m entry.2) entries :=
        rfl
      rw [hstep, ih, List.foldl_cons, List.flatMap_cons, patchMember_doc]
      simp [patchMember]

theorem flatMap_files_under (id : String) (entries : List (String × Member)) :
    (under id entries).flatMap (·.2.files) =
      ((entries.map Prod.snd).filter (·.id == id)).flatMap Member.files := by
  rw [under, List.filter_map, List.flatMap_map]
  rfl

theorem find?_id_map_snd (id : String) (entries : List (String × Member)) :
    (entries.map Prod.snd).find? (·.id == id) = (under id entries).head?.map Prod.snd := by
  rw [under, List.head?_filter, List.find?_map]
  rfl

end Told

end ApiPages.ClassDoc
