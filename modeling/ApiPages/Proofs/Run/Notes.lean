import ApiPages.Comment
import ApiPages.Declaration
import ApiPages.Proofs.Logged
import ApiPages.Proofs.Override.Warned
import ApiPages.Run

/-!
# The notes of a run

Whatever is read, merged or overridden, all that is noted of it are warnings and messages that
matter less than a warning. So a reader who looks at nothing below a warning has the warnings, and
nothing else.
-/

namespace ApiPages

/-- A warning, or a message that matters less than one. -/
def Note.Mild : Note → Prop
  | .warning _ => True
  | .progress level _ _ => level.rank < Level.warning.rank

theorem Note.filter_message {p : Message → Bool} (hwarning : ∀ w, p (Note.warning w).message = true)
    (hprogress : ∀ level stage text, level.rank < Level.warning.rank →
      p (Note.progress level stage text).message = false)
    {notes : List Note} (h : ∀ n ∈ notes, n.Mild) :
    (notes.map Note.message).filter p =
      (notes.filterMap Note.warning?).map fun w => (Note.warning w).message := by
  induction notes with
  | nil => rfl
  | cons n notes ih =>
      obtain ⟨hn, hnotes⟩ := List.forall_mem_cons.mp h
      rw [List.map_cons]
      cases n with
      | warning w =>
          rw [List.filter_cons_of_pos (hwarning w), ih hnotes]
          rfl
      | progress level stage text =>
          rw [List.filter_cons_of_neg (by simp [hprogress level stage text hn]), ih hnotes]
          rfl

/-- A report that leaves nothing but mild notes. -/
def Report.Mild {α : Type} (r : Report α) : Prop :=
  ∀ a notes, r = .ok a notes → ∀ n ∈ notes, n.Mild

namespace Report.Mild

variable {α β γ : Type}

theorem bind {r : Report α} {f : α → Report β} (hr : r.Mild) (hf : ∀ a, (f a).Mild) :
    (r >>= f).Mild := by
  intro b notes h
  obtain ⟨a, first, later, ha, hb, rfl⟩ := exists_notes_of_bind h
  exact List.forall_mem_append.mpr ⟨hr a first ha, hf a b later hb⟩

theorem ofExcept (x : Except Fault α) : (Report.ofExcept x).Mild := by
  intro a notes h
  rw [notes_of_ofExcept h]
  exact fun n hn => absurd hn List.not_mem_nil

theorem fail (fault : Fault) : (Report.fail fault : Report α).Mild :=
  ofExcept (.error fault)

theorem pure (a : α) : (Pure.pure a : Report α).Mild :=
  ofExcept (.ok a)

theorem map {r : Report α} (hr : r.Mild) (f : α → β) : (f <$> r).Mild := by
  rw [map_eq_pure_bind]
  exact hr.bind fun a => pure (f a)

theorem note {n : Note} (h : n.Mild) : (Report.note n).Mild := by
  rintro a notes ⟨⟩
  exact List.forall_mem_singleton.mpr h

theorem progress {level : Level} (h : level.rank < Level.warning.rank) (stage message : String) :
    (Report.progress level stage message).Mild :=
  note h

theorem warnAll (ws : List Warning) : (ws.forM Report.warn).Mild := by
  intro a notes h
  rw [forM_warn] at h
  obtain ⟨⟩ := h
  exact List.forall_mem_map.mpr fun w _ => trivial

theorem mapM {f : α → Report β} (h : ∀ x, (f x).Mild) (xs : List α) : (xs.mapM f).Mild := by
  induction xs with
  | nil => exact pure []
  | cons x xs ih =>
      rw [List.mapM_cons]
      exact (h x).bind fun y => ih.bind fun ys => pure (y :: ys)

theorem foldlM {f : β → α → Report β} (h : ∀ b x, (f b x).Mild) (xs : List α) (b : β) :
    (xs.foldlM f b).Mild := by
  induction xs generalizing b with
  | nil => exact pure b
  | cons x xs ih =>
      rw [List.foldlM_cons]
      exact (h b x).bind ih

end Report.Mild

/-! ### Stage by stage -/

section Stages

variable (reg : Registry)

theorem Comment.mild_parse (comment : String) (position : Option SourceRef) :
    (parse reg comment position).Mild := by
  refine (Report.Mild.ofExcept _).bind fun routed => ?_
  refine (Report.Mild.ofExcept _).bind fun raw => ?_
  refine (Report.Mild.warnAll _).bind fun _ => ?_
  exact (Report.Mild.progress (by decide) _ _).bind fun _ => .pure _

theorem Member.mild_readComment (comment : String) (m : Member) :
    (m.readComment reg comment).Mild :=
  (Comment.mild_parse reg comment m.position).bind fun _ => .pure _

theorem ClassDoc.mild_readComment (comment : String) (c : ClassDoc) :
    (c.readComment reg comment).Mild :=
  (Comment.mild_parse reg comment c.position).bind fun _ => .pure _

theorem Declaration.mild_apply (c : ClassDoc) (declaration : Record) :
    (apply reg c declaration).Mild := by
  refine (Report.Mild.ofExcept _).bind fun raw => ?_
  exact (Report.Mild.progress (by decide) _ _).bind fun _ => .pure _

theorem Merge.mild_run (s : Subject) (raw : Occurrences) : (run reg s raw).Mild := by
  refine (Report.Mild.warnAll _).bind fun _ => ?_
  exact (Report.Mild.ofExcept _).bind fun state => .ofExcept _

theorem Member.mild_merge (m : Member) : (m.merge reg).Mild :=
  (Merge.mild_run reg m.subject m.raw).bind fun _ => .pure _

theorem ClassDoc.mild_merge (c : ClassDoc) : (c.merge reg).Mild :=
  (Merge.mild_run reg c.subject c.raw).bind fun _ =>
    (Report.Mild.mapM (Member.mild_merge reg) c.members).bind fun _ => .pure _

namespace ClassTable

theorem mild_process (table : ClassTable) (o : ClassDoc) : (process table o).Mild := by
  intro result notes h
  obtain ⟨target, -, rfl⟩ := process_eq_ok h
  exact List.forall_mem_map.mpr fun w _ => trivial

theorem mild_processKey (table : ClassTable) (key : String) : (processKey table key).Mild := by
  rw [processKey]
  split
  · exact mild_process table _
  · exact .fail _

theorem mild_processAll (table : ClassTable) (external : List String) :
    (processAll table external).Mild := by
  rw [processAll, applyAll, report_applyKeys]
  refine (Report.Mild.foldlM (fun t key => ?_) _ table).bind fun _ => ?_
  · exact (mild_processKey t key).map Prod.fst
  · exact (Report.Mild.progress (by decide) _ _).bind fun _ => .pure _

end ClassTable

theorem Run.mild_stages (table : ClassTable) (external : List String) :
    (stages reg table external).Mild := by
  refine (Report.Mild.progress (by decide) _ _).bind fun _ => ?_
  have hentry : ∀ entry, (mergeEntry reg entry).Mild := fun entry =>
    (entry.2.mild_merge reg).bind fun _ => .pure _
  refine (Report.Mild.mapM hentry table).bind fun merged => ?_
  refine (ClassTable.mild_processAll merged external).bind fun _ => ?_
  exact (Report.Mild.warnAll _).bind fun _ => .pure _

end Stages

/-! ### Logs -/

namespace Log

/-- A log in which nothing but mild notes stands. -/
def Mild (log : Log) : Prop :=
  ∀ n ∈ log.notes, n.Mild

theorem Mild.add {log : Log} (h : log.Mild) {notes : List Note} (hnotes : ∀ n ∈ notes, n.Mild) :
    (log.add notes).Mild :=
  List.forall_mem_append.mpr ⟨h, fun n hn => hnotes n (List.mem_filter.mp hn).1⟩

theorem Mild.record {α : Type} {log next : Log} (h : log.Mild) {r : Report α} (hr : r.Mild) {a : α}
    (hrecord : log.record r = .ok (a, next)) : next.Mild := by
  cases r with
  | fail fault => cases hrecord
  | ok b notes =>
      cases hrecord
      exact h.add (hr a notes rfl)

theorem mild_withDisabled {words : List String} {log : Log} (h : withDisabled words = .ok log) :
    log.Mild := by
  obtain ⟨categories, -, hlog⟩ := Except.bind_eq_ok_iff.mp h
  cases hlog
  rw [Mild, without, notes_foldl_disable]
  exact fun n hn => absurd hn List.not_mem_nil

end Log

end ApiPages
