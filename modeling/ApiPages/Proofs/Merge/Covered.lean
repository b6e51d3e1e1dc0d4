import ApiPages.Proofs.Merge.Stored

/-!
# Tags of other kinds

A tag has a scope, and the records of a tag that does not cover the kind of a class or member are
not merged. So they can be taken away beforehand: what merging finds out stays the same.
-/

namespace ApiPages.Merge

variable (reg : Registry)

/-- Raw records without those of tags that do not belong to a kind. -/
def covered (kind : Kind) (raw : Occurrences) : Occurrences where
  doc := raw.doc.filter fun group => (tagFor reg kind group.1).isSome
  code := raw.code.filter fun group => (tagFor reg kind group.1).isSome

theorem of_filter {p : Name → Bool} {name : Name} (h : p name = true) (groups : Groups) :
    Groups.of (groups.filter fun group => p group.1) name = groups.of name := by
  rw [Groups.of, Table.get?_filter_key, if_pos h, Groups.of]

theorem tagnames_covered (kind : Kind) (raw : Occurrences) :
    (covered reg kind raw).tagnames =
      raw.tagnames.filter fun name => (tagFor reg kind name).isSome := by
  have hkeys : ∀ groups : Groups,
      Table.keys (groups.filter fun group => (tagFor reg kind group.1).isSome) =
        (Table.keys groups).filter fun name => (tagFor reg kind name).isSome := by
    intro groups
    rw [Table.keys, Table.keys, List.filter_map]
    rfl
  have hcontains : ∀ name, (tagFor reg kind name).isSome = true →
      Table.contains (covered reg kind raw).doc name = Table.contains raw.doc name := by
    intro name hname
    rw [Table.contains, Table.contains, covered,
      Table.get?_filter_key (fun name => (tagFor reg kind name).isSome), if_pos hname]
  rw [Occurrences.tagnames, Occurrences.tagnames, List.filter_append, List.filter_filter]
  refine congrArg₂ (· ++ ·) (hkeys raw.doc) ?_
  rw [covered, hkeys, List.filter_filter]
  refine List.filter_congr fun name _ => ?_
  cases hname : (tagFor reg kind name).isSome with
  | false => simp
  | true => simpa [covered] using hcontains name hname

theorem run_covered {s : Subject} {raw : Occurrences} {outcome : Outcome} {notes : List Note}
    (h : run reg s raw = .ok outcome notes) :
    ∃ notes', run reg s (covered reg s.kind raw) = .ok outcome notes' := by
  obtain ⟨state, hmerge, hprocess⟩ := run_eq_ok h
  have hstep : (fun state name => if (tagFor reg s.kind name).isSome then
      mergeTagname reg s (covered reg s.kind raw) state name else pure state) =
        mergeTagname reg s raw := by
    funext state name
    cases htag : tagFor reg s.kind name with
    | none =>
        have hskip : mergeTagname reg s raw state name = .ok state := by rw [mergeTagname, htag]
        rw [hskip]
        rfl
    | some t =>
        have hname : (tagFor reg s.kind name).isSome = true := by rw [htag, Option.isSome_some]
        rw [Option.isSome_some, if_pos rfl, mergeTagname, mergeTagname, htag, covered,
          of_filter (p := fun name => (tagFor reg s.kind name).isSome) hname,
          of_filter (p := fun name => (tagFor reg s.kind name).isSome) hname]
  have hcovered : (covered reg s.kind raw).tagnames.foldlM
      (mergeTagname reg s (covered reg s.kind raw)) { attributes := s.attributes } = .ok state := by
    rw [tagnames_covered, List.foldlM_filter, hstep, hmerge]
  have hends : (run reg s (covered reg s.kind raw)).Ends (· = outcome) := by
    refine .seq (.forM_warn _) (.bind (.ofExcept ⟨state, hcovered, rfl⟩) ?_)
    rintro _ rfl
    exact .ofExcept ⟨outcome, hprocess, rfl⟩
  obtain ⟨_, notes', hrun, rfl⟩ := hends
  exact ⟨notes', hrun⟩

end ApiPages.Merge
