import Mathlib.Data.List.Forall2

/-!
# Runs that end well

A sequence of steps that may fail ends well if each of its steps does, and what every step keeps is
kept by the whole.
-/

namespace ApiPages.Except

variable {ε α β : Type}

theorem bind_eq_ok_iff {m : Except ε α} {f : α → Except ε β} {b : β} :
    (m >>= f) = .ok b ↔ ∃ a, m = .ok a ∧ f a = .ok b := by
  cases m with
  | error fault => exact ⟨fun h => (nomatch h), fun ⟨_, h, _⟩ => (nomatch h)⟩
  | ok a => exact ⟨fun h => ⟨a, rfl, h⟩, fun ⟨_, ha, h⟩ => Except.ok.inj ha ▸ h⟩

theorem bind_eq_error_iff {m : Except ε α} {f : α → Except ε β} {fault : ε} :
    (m >>= f) = .error fault ↔ m = .error fault ∨ ∃ a, m = .ok a ∧ f a = .error fault := by
  cases m with
  | error other =>
      constructor
      · intro h
        cases h
        exact Or.inl rfl
      · rintro (h | ⟨_, ha, -⟩)
        · cases h
          rfl
        · cases ha
  | ok a =>
      refine ⟨fun h => Or.inr ⟨a, rfl, h⟩, ?_⟩
      rintro (h | ⟨_, ha, h⟩)
      · cases h
      · exact Except.ok.inj ha ▸ h

theorem bind_ok {m : Except ε α} {f : α → Except ε β} {a : α} (hm : m = .ok a)
    (hf : ∃ b, f a = .ok b) : ∃ b, (m >>= f) = .ok b := by
  obtain ⟨b, hb⟩ := hf
  exact ⟨b, bind_eq_ok_iff.mpr ⟨a, hm, hb⟩⟩

theorem mapM_ok {f : α → Except ε β} {R : α → β → Prop} {xs : List α}
    (h : ∀ x ∈ xs, ∃ y, f x = .ok y ∧ R x y) :
    ∃ ys, xs.mapM f = .ok ys ∧ List.Forall₂ R xs ys := by
  induction xs with
  | nil => exact ⟨[], rfl, .nil⟩
  | cons x xs ih =>
      obtain ⟨y, hy, hR⟩ := h x List.mem_cons_self
      obtain ⟨ys, hys, hRs⟩ := ih fun z hz => h z (List.mem_cons_of_mem _ hz)
      refine ⟨y :: ys, ?_, .cons hR hRs⟩
      rw [List.mapM_cons, hy, hys]
      rfl

theorem map_eq_of_forall₂ {γ : Type} {f : α → γ} {g : β → γ} {xs : List α} {ys : List β}
    (h : List.Forall₂ (fun x y => f x = g y) xs ys) : xs.map f = ys.map g := by
  rw [← List.forall₂_eq_eq_eq, List.forall₂_map_left_iff, List.forall₂_map_right_iff]
  exact h

theorem mapM_eq_ok_map {f : α → Except ε β} {g : α → β} {xs : List α}
    (h : ∀ x ∈ xs, f x = .ok (g x)) : xs.mapM f = .ok (xs.map g) := by
  obtain ⟨ys, hys, hall⟩ := mapM_ok (R := fun x y => g x = y) fun x hx => ⟨g x, h x hx, rfl⟩
  rw [hys, map_eq_of_forall₂ (g := id) hall, List.map_id]

theorem exists_of_mem_right {R : α → β → Prop} {xs : List α} {ys : List β}
    (h : List.Forall₂ R xs ys) : ∀ y ∈ ys, ∃ x ∈ xs, R x y := by
  induction h with
  | nil => exact fun _ hy => absurd hy List.not_mem_nil
  | @cons x _ xs _ hR _ ih =>
      refine List.forall_mem_cons.mpr ⟨⟨x, List.mem_cons_self, hR⟩, fun y hy => ?_⟩
      obtain ⟨z, hz, hR⟩ := ih y hy
      exact ⟨z, List.mem_cons_of_mem x hz, hR⟩

/-- Two maps over lists that correspond end well together, and with results that correspond. -/
theorem mapM_ok₂ {γ δ : Type} {f : α → Except ε γ} {g : β → Except ε δ} {R : α → β → Prop}
    {S : γ → δ → Prop} {xs : List α} {ys : List β} (hxs : List.Forall₂ R xs ys)
    (h : ∀ x y, R x y → ∃ a b, f x = .ok a ∧ g y = .ok b ∧ S a b) :
    ∃ as bs, xs.mapM f = .ok as ∧ ys.mapM g = .ok bs ∧ List.Forall₂ S as bs := by
  induction hxs with
  | nil => exact ⟨[], [], rfl, rfl, .nil⟩
  | @cons x y xs ys hxy _ ih =>
      obtain ⟨a, b, ha, hb, hab⟩ := h x y hxy
      obtain ⟨as, bs, has, hbs, hall⟩ := ih
      refine ⟨a :: as, b :: bs, ?_, ?_, .cons hab hall⟩
      · rw [List.mapM_cons, ha, has]
        rfl
      · rw [List.mapM_cons, hb, hbs]
        rfl

theorem mapM_ok_forall {f : α → Except ε β} {P : β → Prop} {xs : List α}
    (h : ∀ x ∈ xs, ∃ y, f x = .ok y ∧ P y) : ∃ ys, xs.mapM f = .ok ys ∧ ∀ y ∈ ys, P y := by
  obtain ⟨ys, hys, hall⟩ := mapM_ok (R := fun _ y => P y) h
  refine ⟨ys, hys, fun y hy => ?_⟩
  obtain ⟨_, -, hP⟩ := exists_of_mem_right hall y hy
  exact hP

theorem foldlM_ok {f : β → α → Except ε β} {I : β → Prop} {xs : List α} {b : β}
    (h : ∀ b x, x ∈ xs → I b → ∃ b', f b x = .ok b' ∧ I b') (hb : I b) :
    ∃ b', xs.foldlM f b = .ok b' ∧ I b' := by
  induction xs generalizing b with
  | nil => exact ⟨b, rfl, hb⟩
  | cons x xs ih =>
      obtain ⟨b', hstep, hb'⟩ := h b x List.mem_cons_self hb
      obtain ⟨last, hlast, hI⟩ := ih (fun b z hz => h b z (List.mem_cons_of_mem _ hz)) hb'
      refine ⟨last, ?_, hI⟩
      rw [List.foldlM_cons, hstep]
      exact hlast

theorem foldlM_invariant {f : β → α → Except ε β} {I : β → Prop} {xs : List α} {b last : β}
    (hrun : xs.foldlM f b = .ok last) (h : ∀ b x b', f b x = .ok b' → I b → I b') (hb : I b) :
    I last := by
  induction xs generalizing b with
  | nil => exact Except.ok.inj hrun ▸ hb
  | cons x xs ih =>
      rw [List.foldlM_cons] at hrun
      obtain ⟨b', hstep, hrun⟩ := bind_eq_ok_iff.mp hrun
      exact ih hrun (h b x b' hstep hb)

theorem foldlM_eq_ok_iff {f : β → α → Except ε β} {P : α → Prop}
    (h : ∀ b x, (∃ b', f b x = .ok b') ↔ P x) {xs : List α} {b : β} :
    (∃ last, xs.foldlM f b = .ok last) ↔ ∀ x ∈ xs, P x := by
  induction xs generalizing b with
  | nil => exact ⟨fun _ _ hx => absurd hx List.not_mem_nil, fun _ => ⟨b, rfl⟩⟩
  | cons x xs ih =>
      rw [List.foldlM_cons, List.forall_mem_cons]
      constructor
      · rintro ⟨last, hrun⟩
        obtain ⟨b', hstep, hrun⟩ := bind_eq_ok_iff.mp hrun
        exact ⟨(h b x).mp ⟨b', hstep⟩, ih.mp ⟨last, hrun⟩⟩
      · rintro ⟨hx, hxs⟩
        obtain ⟨b', hstep⟩ := (h b x).mpr hx
        exact bind_ok hstep (ih.mpr hxs)

/-! ### Where a sequence of steps fails -/

theorem foldlM_eq_error_iff {f : β → α → Except ε β} {xs : List α} {b : β} {fault : ε} :
    xs.foldlM f b = .error fault ↔ ∃ before x after b', xs = before ++ x :: after ∧
      before.foldlM f b = .ok b' ∧ f b' x = .error fault := by
  induction xs generalizing b with
  | nil =>
      refine ⟨fun h => (nomatch h), ?_⟩
      rintro ⟨before, x, after, b', hxs, -⟩
      simp at hxs
  | cons x xs ih =>
      rw [List.foldlM_cons, bind_eq_error_iff]
      constructor
      · rintro (h | ⟨next, hstep, h⟩)
        · exact ⟨[], x, xs, b, rfl, rfl, h⟩
        · obtain ⟨before, y, after, b', rfl, hbefore, hfault⟩ := ih.mp h
          refine ⟨x :: before, y, after, b', rfl, ?_, hfault⟩
          rw [List.foldlM_cons]
          exact bind_eq_ok_iff.mpr ⟨next, hstep, hbefore⟩
      · rintro ⟨before, y, after, b', hxs, hbefore, hfault⟩
        cases before with
        | nil =>
            obtain ⟨rfl, rfl⟩ := List.cons.inj hxs
            exact Or.inl (Except.ok.inj hbefore ▸ hfault)
        | cons z before =>
            obtain ⟨rfl, rfl⟩ := List.cons.inj hxs
            rw [List.foldlM_cons] at hbefore
            obtain ⟨next, hstep, hbefore⟩ := bind_eq_ok_iff.mp hbefore
            exact Or.inr ⟨next, hstep, ih.mpr ⟨before, y, after, b', rfl, hbefore, hfault⟩⟩

theorem mapM_eq_ok_iff {f : α → Except ε β} {xs : List α} :
    (∃ ys, xs.mapM f = .ok ys) ↔ ∀ x ∈ xs, ∃ y, f x = .ok y := by
  constructor
  · rintro ⟨ys, h⟩
    induction xs generalizing ys with
    | nil => exact fun _ hx => absurd hx List.not_mem_nil
    | cons x xs ih =>
        rw [List.mapM_cons] at h
        obtain ⟨y, hy, h⟩ := bind_eq_ok_iff.mp h
        obtain ⟨later, hlater, -⟩ := bind_eq_ok_iff.mp h
        exact List.forall_mem_cons.mpr ⟨⟨y, hy⟩, ih later hlater⟩
  · intro h
    obtain ⟨ys, hys, -⟩ := mapM_ok_forall (P := fun _ => True) fun x hx =>
      (h x hx).imp fun _ hy => ⟨hy, trivial⟩
    exact ⟨ys, hys⟩

theorem mapM_eq_error_iff {f : α → Except ε β} {xs : List α} {fault : ε} :
    xs.mapM f = .error fault ↔ ∃ before x after, xs = before ++ x :: after ∧
      (∀ y ∈ before, ∃ b, f y = .ok b) ∧ f x = .error fault := by
  induction xs with
  | nil =>
      refine ⟨fun h => (nomatch h), ?_⟩
      rintro ⟨before, x, after, hxs, -⟩
      simp at hxs
  | cons x xs ih =>
      rw [List.mapM_cons, bind_eq_error_iff]
      constructor
      · rintro (h | ⟨y, hy, h⟩)
        · exact ⟨[], x, xs, rfl, fun _ hy => absurd hy List.not_mem_nil, h⟩
        · rcases bind_eq_error_iff.mp h with h | ⟨ys, -, h⟩
          · obtain ⟨before, z, after, rfl, hbefore, hfault⟩ := ih.mp h
            exact ⟨x :: before, z, after, rfl, List.forall_mem_cons.mpr ⟨⟨y, hy⟩, hbefore⟩, hfault⟩
          · cases h
      · rintro ⟨before, z, after, hxs, hbefore, hfault⟩
        cases before with
        | nil =>
            obtain ⟨rfl, rfl⟩ := List.cons.inj hxs
            exact Or.inl hfault
        | cons w before =>
            obtain ⟨rfl, rfl⟩ := List.cons.inj hxs
            obtain ⟨⟨y, hy⟩, hbefore⟩ := List.forall_mem_cons.mp hbefore
            have hlater := ih.mpr ⟨before, z, after, rfl, hbefore, hfault⟩
            exact Or.inr ⟨y, hy, bind_eq_error_iff.mpr (Or.inl hlater)⟩

/-! ### Runs that end alike -/

/-- Both runs fail, or both end well with results that are related. -/
inductive Agree (R : α → β → Prop) : Except ε α → Except ε β → Prop
  | ok {a : α} {b : β} (h : R a b) : Agree R (.ok a) (.ok b)
  | error (fault fault' : ε) : Agree R (.error fault) (.error fault')

namespace Agree

variable {γ δ : Type} {R : α → β → Prop} {S : γ → δ → Prop}

theorem of_ok_iff {x : Except ε α} {y : Except ε β} (hends : (∃ a, x = .ok a) ↔ ∃ b, y = .ok b)
    (h : ∀ a b, x = .ok a → y = .ok b → R a b) : Agree R x y := by
  cases x with
  | error fault =>
      cases y with
      | error fault' => exact .error fault fault'
      | ok b =>
          obtain ⟨_, hx⟩ := hends.mpr ⟨b, rfl⟩
          cases hx
  | ok a =>
      obtain ⟨b, rfl⟩ := hends.mp ⟨a, rfl⟩
      exact .ok (h a b rfl rfl)

theorem bind {x : Except ε α} {y : Except ε β} {f : α → Except ε γ} {g : β → Except ε δ}
    (h : Agree R x y) (hf : ∀ a b, R a b → Agree S (f a) (g b)) : Agree S (x >>= f) (y >>= g) := by
  cases h with
  | ok hR => exact hf _ _ hR
  | error fault fault' => exact .error fault fault'

theorem foldlM {f : α → γ → Except ε α} {g : β → γ → Except ε β} {xs : List γ} {a : α} {b : β}
    (h : ∀ a b, ∀ x ∈ xs, R a b → Agree R (f a x) (g b x)) (hR : R a b) :
    Agree R (xs.foldlM f a) (xs.foldlM g b) := by
  induction xs generalizing a b with
  | nil => exact .ok hR
  | cons x xs ih =>
      rw [List.foldlM_cons, List.foldlM_cons]
      refine (h a b x List.mem_cons_self hR).bind fun a' b' hR' => ?_
      exact ih (fun a b z hz => h a b z (List.mem_cons_of_mem _ hz)) hR'

end Agree

end ApiPages.Except
