import ApiPages.Comment
import ApiPages.Declaration
import ApiPages.Proofs.Except
import ApiPages.Proofs.Logged
import ApiPages.Proofs.Report
import ApiPages.Run

/-!
# The stages of a run, with a log at hand

Each stage in the order in which its warnings come up: a segment of a comment is complained about
before its records are looked at, a tagname before its records are merged, and an override when its
turn comes. So where a stage fails, what it had to warn of until then is in the log. Each stage
follows the report of the same name, and none of them looks at what is disabled.
-/

namespace ApiPages

namespace Logged

variable {α β : Type}

theorem Follows.warnAll (ws : List Warning) :
    (ws.forM Logged.warn).Follows (ws.forM Report.warn) :=
  .forM (fun w => .note (.warning w)) ws

theorem Blind.warnAll {disabled : List Category} (ws : List Warning) :
    (ws.forM Logged.warn).Blind disabled :=
  .forM (fun w => .note (.warning w)) ws

/-- A step that may fail, behind the warnings that come up in front of it. -/
def warned (ws : List Warning) (x : Except Fault α) : Logged α := do
  ws.forM Logged.warn
  Logged.ofExcept x

theorem Blind.warned {disabled : List Category} (ws : List Warning) (x : Except Fault α) :
    (warned ws x).Blind disabled :=
  (Blind.warnAll ws).bind fun _ => .ofExcept x

/-- A report with all its warnings in front, whether or not it fails behind them. -/
def toldFirst (ws : List Warning) (x : Except Fault α) : Report α := do
  ws.forM Report.warn
  Report.ofExcept x

theorem toldFirst_error (ws : List Warning) (fault : Fault) :
    (toldFirst ws (.error fault) : Report α) = .fail fault := by
  rw [toldFirst, Report.forM_warn]
  rfl

theorem toldFirst_ok (ws : List Warning) (a : α) :
    toldFirst ws (.ok a) = .ok a (ws.map Note.warning) := by
  rw [toldFirst, Report.forM_warn, Report.ofExcept, Report.ok_bind, Report.after_ok,
    List.append_nil]

theorem toldFirst_bind (ws later : List Warning) (x : Except Fault α) (f : α → Except Fault β) :
    (toldFirst ws x >>= fun a => toldFirst later (f a)) = toldFirst (ws ++ later) (x >>= f) := by
  cases x with
  | error fault => rw [toldFirst_error]; exact (toldFirst_error _ fault).symm
  | ok a =>
      change _ = toldFirst (ws ++ later) (f a)
      rw [toldFirst_ok, Report.ok_bind]
      cases f a with
      | error fault => rw [toldFirst_error, toldFirst_error, Report.after_fail]
      | ok b => rw [toldFirst_ok, toldFirst_ok, Report.after_ok, List.map_append]

/-- Steps with warnings in front of each follow the report that has all warnings in front. -/
theorem Follows.foldlM_warned (f : β → α → Except Fault β) (ws : α → List Warning) (xs : List α)
    (b : β) :
    (xs.foldlM (fun b x => warned (ws x) (f b x)) b).Follows
      (toldFirst (xs.flatMap ws) (xs.foldlM f b)) := by
  induction xs generalizing b with
  | nil => exact .pure b
  | cons x xs ih =>
      rw [List.foldlM_cons, List.foldlM_cons, List.flatMap_cons, ← toldFirst_bind]
      exact ((Follows.warnAll (ws x)).bind fun _ => .ofExcept _).bind fun b => ih b

theorem toldFirst_bind_pure (ws : List Warning) (x : Except Fault α) (f : α → β) :
    (toldFirst ws x >>= fun a => pure (f a)) = toldFirst ws (x >>= fun a => pure (f a)) := by
  have hbind := toldFirst_bind ws [] x fun a => .ok (f a)
  rw [List.append_nil] at hbind
  exact hbind

theorem Follows.mapM_warned (f : α → Except Fault β) (ws : α → List Warning) (xs : List α) :
    (xs.mapM fun x => warned (ws x) (f x)).Follows (toldFirst (xs.flatMap ws) (xs.mapM f)) := by
  induction xs with
  | nil => exact .pure []
  | cons x xs ih =>
      rw [List.mapM_cons, List.mapM_cons, List.flatMap_cons, ← toldFirst_bind]
      refine ((Follows.warnAll (ws x)).bind fun _ => .ofExcept _).bind fun y => ?_
      rw [← toldFirst_bind_pure]
      exact ih.bind fun ys => .pure (y :: ys)

end Logged

/-! ### Comments -/

namespace Comment

/-- What there is to complain about in a segment. -/
def complaints (reg : Registry) (position : Option SourceRef) (s : Segment) : List Warning :=
  match reg.findByPattern (String.ofList s.pattern) with
  | none => (routeUnknown position s).warnings
  | some t => (t.parse position (Cursor.start s.body)).2.warnings position

def parseLogged (reg : Registry) (comment : String) (position : Option SourceRef) :
    Logged Parsed := do
  let (head, later) := segments true (strip comment.toList)
  let routed ← later.mapM fun s => Logged.warned (complaints reg position s) (route reg position s)
  let records := routed.flatMap Routed.records
  let raw ← Logged.ofExcept (Occurrences.addDocs {} records)
  Logged.progress .debug "doc_parser" s!"Parsed {records.length} tag records"
  return {
    doc := String.ofList (joinDocs (head :: routed.flatMap Routed.docs))
    occurrences := raw.doc }

variable (reg : Registry) (comment : String) (position : Option SourceRef)

theorem warnings_of_route {s : Segment} {routed : Routed}
    (h : route reg position s = .ok routed) : routed.warnings = complaints reg position s := by
  rw [route] at h
  rw [complaints]
  cases hfind : reg.findByPattern (String.ofList s.pattern) with
  | none =>
      simp only [hfind] at h
      obtain rfl := Except.ok.inj h
      rfl
  | some t =>
      simp only [hfind, routeTo] at h
      obtain ⟨yield, cursor, hparse⟩ :
          ∃ yield cursor, t.parse position (Cursor.start s.body) = (yield, cursor) := ⟨_, _, rfl⟩
      dsimp only
      rw [hparse] at h ⊢
      dsimp only at h
      split at h
      · split at h
        · obtain rfl := Except.ok.inj h
          rfl
        · obtain rfl := Except.ok.inj h
          rfl
      · cases h

theorem warnings_of_mapM_route {later : List Segment} {routed : List Routed}
    (h : later.mapM (route reg position) = .ok routed) :
    routed.flatMap Routed.warnings = later.flatMap (complaints reg position) := by
  induction later generalizing routed with
  | nil =>
      obtain rfl := Except.ok.inj h
      rfl
  | cons s later ih =>
      rw [List.mapM_cons] at h
      obtain ⟨part, hpart, h⟩ := Except.bind_eq_ok_iff.mp h
      obtain ⟨parts, hparts, h⟩ := Except.bind_eq_ok_iff.mp h
      obtain rfl := Except.ok.inj h
      rw [List.flatMap_cons, List.flatMap_cons, warnings_of_route reg position hpart, ih hparts]

theorem follows_parse :
    (parseLogged reg comment position).Follows (parse reg comment position) := by
  have hparse : parse reg comment position = (do
      let (head, later) := segments true (strip comment.toList)
      let routed ← Logged.toldFirst (later.flatMap (complaints reg position))
        (later.mapM (route reg position))
      let records := routed.flatMap Routed.records
      let raw ← Report.ofExcept (Occurrences.addDocs {} records)
      Report.progress .debug "doc_parser" s!"Parsed {records.length} tag records"
      return {
        doc := String.ofList (joinDocs (head :: routed.flatMap Routed.docs))
        occurrences := raw.doc }) := by
    rw [parse]
    obtain ⟨head, later, hsegments⟩ :
      ∃ head later, segments true (strip comment.toList) = (head, later) := ⟨_, _, rfl⟩
    rw [hsegments]
    dsimp only
    cases hrouted : later.mapM (route reg position) with
    | error fault => rw [Logged.toldFirst_error]; rfl
    | ok routed =>
        rw [Logged.toldFirst_ok, ← warnings_of_mapM_route reg position hrouted, Report.ok_bind]
        cases hraw : Occurrences.addDocs {} (routed.flatMap Routed.records) with
        | error fault =>
            simp [Report.ofExcept, hraw]
        | ok raw =>
            simp [Report.ofExcept, hraw, Report.forM_warn, Report.progress, Report.note]
  rw [hparse]
  refine (Logged.Follows.mapM_warned _ _ _).bind fun routed => ?_
  refine (Logged.Follows.ofExcept _).bind fun raw => ?_
  exact (Logged.Follows.note _).bind fun _ => .pure _

theorem blind_parse (disabled : List Category) :
    (parseLogged reg comment position).Blind disabled := by
  refine .bind (.mapM (fun s => .warned _ _) _) fun routed => ?_
  refine .bind (.ofExcept _) fun raw => ?_
  exact .bind (.note _) fun _ => .pure _

end Comment

/-! ### Declarations -/

namespace Declaration

def applyLogged (reg : Registry) (c : ClassDoc) (declaration : Record) : Logged ClassDoc := do
  let records := reg.declarationTags.flatMap fun t => recordsOf t declaration
  let raw ← Logged.ofExcept (c.raw.addCodes records)
  Logged.progress .debug "declaration" s!"Parsed declaration of {c.name}"
  return { c with raw }

variable (reg : Registry) (c : ClassDoc) (declaration : Record)

theorem follows_apply : (applyLogged reg c declaration).Follows (apply reg c declaration) :=
  (Logged.Follows.ofExcept _).bind fun _ => (Logged.Follows.note _).bind fun _ => .pure _

theorem blind_apply (disabled : List Category) : (applyLogged reg c declaration).Blind disabled :=
  (Logged.Blind.ofExcept _).bind fun _ => (Logged.Blind.note _).bind fun _ => .pure _

end Declaration

/-! ### Merging -/

namespace Merge

def runLogged (reg : Registry) (s : Subject) (raw : Occurrences) : Logged Outcome := do
  let state ← raw.tagnames.foldlM
    (fun state name => Logged.warned (complaint reg s raw name).toList
      (mergeTagname reg s raw state name)) { attributes := s.attributes }
  Logged.ofExcept ((reg.pluginsFor s.kind).foldlM (processTag s state.selected)
    { attributes := state.attributes })

variable (reg : Registry) (s : Subject) (raw : Occurrences)

theorem follows_run : (runLogged reg s raw).Follows (run reg s raw) := by
  have hrun : run reg s raw = (do
      let state ← Logged.toldFirst
        (raw.tagnames.flatMap fun name => (complaint reg s raw name).toList)
        (raw.tagnames.foldlM (mergeTagname reg s raw) { attributes := s.attributes })
      Report.ofExcept ((reg.pluginsFor s.kind).foldlM (processTag s state.selected)
        { attributes := state.attributes })) := by
    rw [run, Logged.toldFirst, List.filterMap_eq_flatMap_toList, bind_assoc]
  rw [hrun]
  exact (Logged.Follows.foldlM_warned _ _ _ _).bind fun state => .ofExcept _

theorem blind_run (disabled : List Category) : (runLogged reg s raw).Blind disabled :=
  .bind (.foldlM (fun _ _ => .warned _ _) _ _) fun _ => .ofExcept _

end Merge

section Entities

variable (reg : Registry)

def Member.mergeLogged (m : Member) : Logged Member := do
  let outcome ← Merge.runLogged reg m.subject m.raw
  return { m with attributes := outcome.attributes }

def ClassDoc.mergeLogged (c : ClassDoc) : Logged ClassDoc := do
  let outcome ← Merge.runLogged reg c.subject c.raw
  let members ← c.members.mapM (Member.mergeLogged reg)
  return { c.absorb outcome with members }

theorem Member.follows_merge (m : Member) : (m.mergeLogged reg).Follows (m.merge reg) :=
  (Merge.follows_run reg m.subject m.raw).bind fun _ => .pure _

theorem ClassDoc.follows_merge (c : ClassDoc) : (c.mergeLogged reg).Follows (c.merge reg) :=
  (Merge.follows_run reg c.subject c.raw).bind fun _ =>
    (Logged.Follows.mapM (Member.follows_merge reg) c.members).bind fun _ => .pure _

theorem Member.blind_merge (m : Member) (disabled : List Category) :
    (m.mergeLogged reg).Blind disabled :=
  (Merge.blind_run reg m.subject m.raw disabled).bind fun _ => .pure _

theorem ClassDoc.blind_merge (c : ClassDoc) (disabled : List Category) :
    (c.mergeLogged reg).Blind disabled :=
  (Merge.blind_run reg c.subject c.raw disabled).bind fun _ =>
    (Logged.Blind.mapM (fun m => m.blind_merge reg disabled) c.members).bind fun _ => .pure _

end Entities

/-! ### Overrides -/

namespace ClassTable

def applyKeyLogged (table : ClassTable) (key : String) : Logged ClassTable :=
  Logged.ofReport (Prod.fst <$> processKey table key)

def processAllLogged (table : ClassTable) (external : List String) :
    Logged (ClassTable × List String) := do
  let keys := overrideKeys table
  let patched ← keys.foldlM applyKeyLogged table
  Logged.progress .debug "overrides" s!"Applied {keys.length} override classes"
  return (patched.filter fun entry => !keys.contains entry.1, recordKeys external keys)

theorem follows_processAll (table : ClassTable) (external : List String) :
    (processAllLogged table external).Follows (processAll table external) := by
  rw [processAll, applyAll, report_applyKeys]
  refine (Logged.Follows.foldlM (fun _ _ => .ofReport _) _ table).bind fun patched => ?_
  exact (Logged.Follows.note _).bind fun _ => .pure _

theorem blind_processAll (table : ClassTable) (external : List String)
    (disabled : List Category) : (processAllLogged table external).Blind disabled := by
  refine .bind (.foldlM (fun _ _ => .ofReport _) _ _) fun patched => ?_
  exact .bind (.note _) fun _ => .pure _

theorem foldlM_applyKeyLogged (table : ClassTable) (keys : List String) (log : Log) :
    (keys.foldlM applyKeyLogged table) log =
      (match (applyKeys table keys).fault with
        | none => .ok (applyKeys table keys).table
        | some fault => .error fault, log.add (applyKeys table keys).notes) := by
  induction keys generalizing table log with
  | nil =>
      rw [applyKeys, Log.add_nil]
      rfl
  | cons key keys ih =>
      rw [List.foldlM_cons, Logged.bind_apply, applyKeyLogged, applyKeys]
      cases processKey table key with
      | fail fault =>
          rw [Log.add_nil]
          rfl
      | ok result notes =>
          change (keys.foldlM applyKeyLogged result.1) (log.add (notes ++ [])) = _
          rw [ih, List.append_nil, Log.add_append]

/-- Where an override stops the run, the log has what had come up until then. -/
theorem processAllLogged_of_fault {table : ClassTable} {fault : Fault}
    (h : (applyAll table).fault = some fault) (external : List String) (log : Log) :
    processAllLogged table external log = (.error fault, log.add (applyAll table).notes) := by
  rw [processAllLogged, Logged.bind_apply, foldlM_applyKeyLogged, ← applyAll, h]

end ClassTable

end ApiPages
