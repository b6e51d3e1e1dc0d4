import ApiPages.Proofs.Declaration
import ApiPages.Proofs.Tag.Settled

/-!
# Tags that name classes

What a class is derived from, what is mixed into it and which class it patches is said by names. The
records of these tags come to the first of the names, or to each name once.
-/

namespace ApiPages

open Record (name?)

namespace Tag

/-! ### What names come to -/

theorem required_of_name? {r : Record} {s : String} (h : r.name? = some s) :
    Record.required r "name" = .ok (.text s) := by
  rw [Record.required, Record.name?_eq_some_iff.mp h]

theorem addNew_map_text (names : List String) (name : String) :
    addNew (names.map .text) (.text name) =
      (names ++ if name ∈ names then [] else [name]).map .text := by
  have hany : (names.map Value.text).any (·.same (.text name)) = decide (name ∈ names) := by
    rw [List.any_map, Bool.eq_iff_iff, List.any_eq_true, decide_eq_true_eq]
    simp [Value.same]
  rw [addNew, hany]
  by_cases h : name ∈ names <;> simp [h]

/-- Names gathered one by one are listed where they first occur. -/
theorem foldl_addNew (names : List String) :
    (names.map Value.text).foldl addNew [] = names.eraseDups.map .text := by
  induction names using List.reverseRecOn with
  | nil => rfl
  | append_singleton names name ih =>
      rw [List.map_append, List.foldl_append, ih, Table.eraseDups_concat]
      refine (addNew_map_text names.eraseDups name).trans ?_
      simp only [List.mem_eraseDups]

/-- Classes are called by the first of several names. -/
theorem mergeClassName_eq {docs code rs : List Record} (hfirst : firstOf docs code = rs.head?)
    (h : ∀ r ∈ rs, ∃ s, r.name? = some s) :
    mergeClassName docs code = .ok (.ofText? (rs.filterMap name?).head?) := by
  rw [mergeClassName, hfirst]
  cases rs with
  | nil => rfl
  | cons r rs =>
      obtain ⟨s, hs⟩ := h r List.mem_cons_self
      rw [List.filterMap_cons_some hs]
      cases r with
      | nil => cases hs
      | cons field r => exact required_of_name? hs

theorem mapM_required_name {rs : List Record} (h : ∀ r ∈ rs, ∃ s, r.name? = some s) :
    rs.mapM (fun r => Record.required r "name") = .ok ((rs.filterMap name?).map .text) := by
  induction rs with
  | nil => rfl
  | cons r rs ih =>
      obtain ⟨⟨s, hs⟩, hrs⟩ := List.forall_mem_cons.mp h
      rw [List.mapM_cons, required_of_name? hs, ih hrs, List.filterMap_cons_some hs]
      rfl

theorem mergeMixins_eq {docs code : List Record} (h : ∀ r ∈ docs ++ code, ∃ s, r.name? = some s) :
    mergeMixins docs code = .ok (match (docs ++ code).filterMap name? with
      | [] => .null
      | names => .list (names.eraseDups.map .text)) := by
  rw [mergeMixins, mapM_required_name h]
  change Except.ok (if _ then _ else Value.list _) = _
  rw [foldl_addNew]
  cases (docs ++ code).filterMap name? <;> rfl

end Tag

/-! ### Names in comments -/

/-- The tags whose records name classes. -/
def namingKeys : List String :=
  ["extends", "mixins", "override"]

/-- Nothing but records with a name that is not empty. -/
def AllNamed (y : Yield) : Prop :=
  ∀ r ∈ y.records, ∃ s, s ≠ "" ∧ r.name? = some s

theorem Tag.reads_className (tagname complaint : String) :
    Scan.Reads AllNamed (parseClassName tagname complaint) := by
  refine reads_parseClassName (fun _ h => absurd h List.not_mem_nil) (fun s hs => ?_) complaint
  exact List.forall_mem_singleton.mpr ⟨s, hs, rfl⟩

theorem Tag.reads_mixins : Scan.Reads AllNamed parseMixins := by
  refine reads_parseMixins (fun _ h => absurd h List.not_mem_nil) fun names hnames r hr => ?_
  obtain ⟨s, hs, rfl⟩ := List.mem_map.mp hr
  exact ⟨s, hnames s hs, rfl⟩

theorem Tag.reads_named : ∀ t ∈ standard, t.key ∈ namingKeys →
    ∀ position, Scan.Reads AllNamed (t.parse position) := by
  intro t ht hkey position
  have hunique : ∀ u ∈ standard, t.key = u.key → t = u := fun u hu heq =>
    List.inj_on_of_nodup_map nodup_keys_standard ht hu heq
  have htag : t = ancestor ∨ t = mixins ∨ t = override := by
    simp only [namingKeys, List.mem_cons, List.not_mem_nil, or_false] at hkey
    exact hkey.imp (hunique ancestor (by simp [standard]))
      (Or.imp (hunique mixins (by simp [standard])) (hunique override (by simp [standard])))
  rcases htag with rfl | rfl | rfl
  · exact reads_className _ _
  · exact reads_mixins
  · exact reads_className _ _

/-- Comments name classes by texts that are not empty. -/
theorem Comment.named_parse {reg : Registry} (hreg : Registry.ofTags Tag.standard = .ok reg)
    (comment : String) (position : Option SourceRef) :
    (parse reg comment position).Ends fun parsed => parsed.occurrences.Sound ∧
      ∀ key ∈ namingKeys, ∀ r ∈ parsed.occurrences.of (.text key),
        ∃ s, s ≠ "" ∧ r.name? = some s := by
  have hset : ∀ (key : String) (r : Record) text,
      (key ∈ namingKeys → ∃ s, s ≠ "" ∧ r.name? = some s) → key ∈ namingKeys →
        ∃ s, s ≠ "" ∧ name? (Table.set r "doc" (.text text)) = some s := by
    intro key r text h hkey
    rw [name?, Table.get?_set, if_neg (by decide)]
    exact h hkey
  have hread : ∀ t ∈ reg.tags, ∀ position body,
      ∀ r ∈ (t.parse position (Cursor.start body)).1.records, t.key ∈ namingKeys →
        ∃ s, s ≠ "" ∧ r.name? = some s := by
    intro t ht position body r hr hkey
    rw [Registry.tags_ofTags hreg] at ht
    exact (Tag.reads_named t ht hkey position (Cursor.start body)).2 r hr
  obtain ⟨parsed, notes, hparse, hsound, hnamed⟩ :=
    parse_forall (Registry.sturdy_standard hreg)
      (P := fun key r => key ∈ namingKeys → ∃ s, s ≠ "" ∧ r.name? = some s)
      hset hread comment position
  exact ⟨parsed, notes, hparse, hsound, fun key hkey r hr => hnamed key r hr hkey⟩

end ApiPages
