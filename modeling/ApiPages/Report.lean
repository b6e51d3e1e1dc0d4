import ApiPages.Warning

namespace ApiPages

inductive Level where
  | debug
  | info
  | warning
  | error
  | critical
  deriving DecidableEq, Repr

/-- Something worth telling about a run: a warning, or a message of one of its stages. -/
inductive Note where
  | warning (w : Warning)
  | progress (level : Level) (stage message : String)
  deriving DecidableEq, Repr

def Note.warning? : Note → Option Warning
  | .warning w => some w
  | .progress .. => none

/-- A result together with the notes made on the way to it, or the fault that prevents it. -/
inductive Report (α : Type) where
  | fail (fault : Fault)
  | ok (value : α) (notes : List Note)

namespace Report

variable {α β γ : Type}

def after (earlier : List Note) : Report α → Report α
  | .fail fault => .fail fault
  | .ok a notes => .ok a (earlier ++ notes)

def andThen (r : Report α) (f : α → Report β) : Report β :=
  match r with
  | .fail fault => .fail fault
  | .ok a notes => (f a).after notes

instance : Monad Report where
  pure a := .ok a []
  bind := andThen

def ofExcept : Except Fault α → Report α
  | .ok a => .ok a []
  | .error fault => .fail fault

def note (n : Note) : Report Unit :=
  .ok () [n]

def warn (w : Warning) : Report Unit :=
  note (.warning w)

def progress (level : Level) (stage message : String) : Report Unit :=
  note (.progress level stage message)

theorem pure_eq (a : α) : (pure a : Report α) = .ok a [] := rfl

@[simp]
theorem fail_bind (fault : Fault) (f : α → Report β) : (Report.fail fault >>= f) = .fail fault :=
  rfl

@[simp]
theorem ok_bind (a : α) (notes : List Note) (f : α → Report β) :
    (Report.ok a notes >>= f) = (f a).after notes := rfl

@[simp]
theorem after_fail (earlier : List Note) (fault : Fault) :
    (Report.fail fault : Report α).after earlier = .fail fault := rfl

@[simp]
theorem after_ok (earlier notes : List Note) (a : α) :
    (Report.ok a notes).after earlier = .ok a (earlier ++ notes) := rfl

@[simp]
theorem after_nil (r : Report α) : r.after [] = r := by
  cases r <;> rfl

theorem after_append (first second : List Note) (r : Report α) :
    r.after (first ++ second) = (r.after second).after first := by
  cases r <;> simp [after]

theorem after_bind (earlier : List Note) (r : Report α) (f : α → Report β) :
    (r.after earlier >>= f) = (r >>= f).after earlier := by
  cases r with
  | fail fault => rfl
  | ok a notes => simp [after_append]

theorem bind_pure_self (r : Report α) : (r >>= fun a => pure (id a)) = r := by
  cases r with
  | fail fault => rfl
  | ok a notes => simp [pure_eq]

theorem bind_bind (r : Report α) (f : α → Report β) (g : β → Report γ) :
    (r >>= f >>= g) = r >>= fun a => f a >>= g := by
  cases r with
  | fail fault => rfl
  | ok a notes => simp [after_bind]

instance : LawfulMonad Report :=
  LawfulMonad.mk' Report bind_pure_self (fun _ _ => after_nil _) bind_bind

end Report

end ApiPages
