import Mathlib.Data.List.Forall2

/-!
Traversals of lists that end at the first error. One succeeds when each item does (`mapM_eq_ok`),
else its error is that of the first item that fails (`mapM_eq_error`). Two traversals of related
lists agree when their steps do (`Agree.mapM`), which is how two whole runs are compared.
-/

namespace TreeOutline.Traversal

variable {ε α β γ δ : Type}

theorem bind_eq_ok {x : Except ε α} {f : α → Except ε β} {b : β} :
    x >>= f = .ok b ↔ ∃ a, x = .ok a ∧ f a = .ok b := by
  cases x <;> simp [bind, Except.bind]

theorem bind_eq_error {x : Except ε α} {f : α → Except ε β} {e : ε} :
    x >>= f = .error e ↔ x = .error e ∨ ∃ a, x = .ok a ∧ f a = .error e := by
  cases x <;> simp [bind, Except.bind]

theorem map_eq_ok {x : Except ε α} {f : α → β} {b : β} :
    x.map f = .ok b ↔ ∃ a, x = .ok a ∧ f a = b := by
  cases x <;> simp [Except.map]

theorem map_eq_error {x : Except ε α} {f : α → β} {e : ε} :
    x.map f = .error e ↔ x = .error e := by
  cases x <;> simp [Except.map]

theorem mapError_eq_ok {ε' : Type} {x : Except ε α} {f : ε → ε'} {a : α} :
    x.mapError f = .ok a ↔ x = .ok a := by
  cases x <;> simp [Except.mapError]

theorem mapError_eq_error {ε' : Type} {x : Except ε α} {f : ε → ε'} {e' : ε'} :
    x.mapError f = .error e' ↔ ∃ e, x = .error e ∧ f e = e' := by
  cases x <;> simp [Except.mapError]

theorem exists_map_eq_ok {x : Except ε α} {f : α → β} :
    (∃ b, x.map f = .ok b) ↔ ∃ a, x = .ok a := by
  cases x <;> simp [Except.map]

/-! ## One traversal -/

/-- The first item on which `f` fails gives the error `e`. -/
def FirstError (f : α → Except ε β) (xs : List α) (e : ε) : Prop :=
  ∃ before x after, xs = before ++ x :: after ∧ (∀ y ∈ before, ∃ b, f y = .ok b) ∧ f x = .error e

theorem not_firstError_nil (f : α → Except ε β) (e : ε) : ¬ FirstError f [] e := by
  rintro ⟨before, x, after, h, -⟩
  simp at h

theorem firstError_cons {f : α → Except ε β} {x : α} {xs : List α} {e : ε} :
    FirstError f (x :: xs) e ↔ f x = .error e ∨ (∃ b, f x = .ok b) ∧ FirstError f xs e := by
  refine ⟨fun h => ?_, fun h => ?_⟩
  · obtain ⟨before, y, after, h, hbefore, hy⟩ := h
    rcases List.cons_eq_append_iff.1 h with ⟨rfl, hx⟩ | ⟨before', rfl, rfl⟩
    · obtain ⟨rfl, -⟩ := List.cons.inj hx
      exact .inl hy
    · exact .inr ⟨hbefore x (by simp), before', y, after, rfl,
        fun z hz => hbefore z (by simp [hz]), hy⟩
  · rcases h with hx | ⟨hx, before, y, after, rfl, hbefore, hy⟩
    · exact ⟨[], x, xs, rfl, by simp, hx⟩
    · refine ⟨x :: before, y, after, rfl, ?_, hy⟩
      intro z hz
      rcases List.mem_cons.1 hz with rfl | hz
      · exact hx
      · exact hbefore z hz

theorem mapM_eq_ok {f : α → Except ε β} {xs : List α} {ys : List β} :
    xs.mapM f = .ok ys ↔ List.Forall₂ (fun x y => f x = .ok y) xs ys := by
  induction xs generalizing ys with
  | nil => cases ys <;> simp [pure, Except.pure]
  | cons x xs ih =>
    rw [List.mapM_cons, List.forall₂_cons_left_iff]
    simp only [bind_eq_ok, ih]
    refine ⟨fun h => ?_, fun h => ?_⟩
    · obtain ⟨y, hx, zs, hxs, h⟩ := h
      cases h
      exact ⟨y, zs, hx, hxs, rfl⟩
    · obtain ⟨y, zs, hx, hxs, rfl⟩ := h
      exact ⟨y, hx, zs, hxs, rfl⟩

theorem exists_of_mem_right {R : α → β → Prop} {xs : List α} {ys : List β}
    (h : List.Forall₂ R xs ys) {y : β} (hy : y ∈ ys) : ∃ x ∈ xs, R x y := by
  induction h with
  | nil => cases hy
  | cons hxy _ ih =>
    rcases List.mem_cons.1 hy with rfl | hy
    · exact ⟨_, List.mem_cons_self, hxy⟩
    · obtain ⟨x, hx, hxy⟩ := ih hy
      exact ⟨x, List.mem_cons_of_mem _ hx, hxy⟩

theorem exists_mapM_eq_ok {f : α → Except ε β} {xs : List α} :
    (∃ ys, xs.mapM f = .ok ys) ↔ ∀ x ∈ xs, ∃ y, f x = .ok y := by
  simp only [mapM_eq_ok]
  induction xs with
  | nil => simp
  | cons x xs ih =>
    simp only [List.forall₂_cons_left_iff, List.forall_mem_cons, ← ih]
    refine ⟨fun h => ?_, fun h => ?_⟩
    · obtain ⟨ys, y, zs, hx, hxs, -⟩ := h
      exact ⟨⟨y, hx⟩, zs, hxs⟩
    · obtain ⟨⟨y, hx⟩, zs, hxs⟩ := h
      exact ⟨y :: zs, y, zs, hx, hxs, rfl⟩

theorem mapM_eq_error {f : α → Except ε β} {xs : List α} {e : ε} :
    xs.mapM f = .error e ↔ FirstError f xs e := by
  induction xs with
  | nil => simp [pure, Except.pure, not_firstError_nil]
  | cons x xs ih =>
    rw [List.mapM_cons, firstError_cons, bind_eq_error, ← ih]
    refine or_congr_right ?_
    simp [bind_eq_error, pure, Except.pure]

/-- The first item with a fault has the fault `e`. -/
def FirstOf (Fault : α → ε → Prop) (xs : List α) (e : ε) : Prop :=
  ∃ before x after, xs = before ++ x :: after ∧ (∀ y ∈ before, ∀ fault, ¬ Fault y fault) ∧ Fault x e

theorem exists_eq_ok_iff {x : Except ε α} : (∃ a, x = .ok a) ↔ ∀ e, x ≠ .error e := by
  cases x <;> simp

theorem firstError_iff {f : α → Except ε β} {Fault : α → ε → Prop} {xs : List α}
    (hf : ∀ x ∈ xs, ∀ e, f x = .error e ↔ Fault x e) {e : ε} :
    FirstError f xs e ↔ FirstOf Fault xs e := by
  unfold FirstError FirstOf
  simp only [exists_eq_ok_iff]
  refine exists_congr fun before => exists_congr fun x => exists_congr fun after => ?_
  refine and_congr_right fun hxs => and_congr ?_ (hf x (by simp [hxs]) e)
  refine forall₂_congr fun y hy => forall_congr' fun fault => not_congr (hf y ?_ fault)
  simp [hxs, hy]

/-- Items read one after another, and what they read as once more. -/
theorem mapM_of_mapM_eq_ok {f : α → Except ε β} {g : β → Except ε γ} {xs : List α} {ys : List β}
    (h : xs.mapM f = .ok ys) : ys.mapM g = xs.mapM fun x => f x >>= g := by
  induction xs generalizing ys with
  | nil =>
    cases h
    rfl
  | cons x xs ih =>
    rw [List.mapM_cons] at h
    obtain ⟨y, hy, h⟩ := bind_eq_ok.1 h
    obtain ⟨ys, hys, h⟩ := bind_eq_ok.1 h
    cases h
    rw [List.mapM_cons, List.mapM_cons, hy, ih hys]
    rfl

/-- What results are put together to may be put together half by half. -/
theorem map_mapM_append {f : α → Except ε β} {g : List β → List γ}
    (hg : ∀ a b, g (a ++ b) = g a ++ g b) (xs ys : List α) :
    ((xs ++ ys).mapM f).map g =
      ((xs.mapM f).map g >>= fun a => ((ys.mapM f).map g).map fun b => a ++ b) := by
  rw [List.mapM_append]
  cases xs.mapM f with
  | error e => rfl
  | ok a =>
    cases ys.mapM f with
    | error e => rfl
    | ok b => exact congrArg Except.ok (hg a b)

/-! ## Two traversals -/

/-- Two results are one error, or values that `R` relates. -/
inductive Agree (R : α → β → Prop) : Except ε α → Except ε β → Prop
  | ok {a : α} {b : β} (h : R a b) : Agree R (.ok a) (.ok b)
  | error (e : ε) : Agree R (.error e) (.error e)

namespace Agree

variable {R : α → β → Prop} {S : γ → δ → Prop}

theorem of_eq {R : α → α → Prop} (hR : ∀ a, R a a) {x y : Except ε α} (h : x = y) :
    Agree R x y := by
  subst h
  cases x with
  | ok a => exact .ok (hR a)
  | error e => exact .error e

theorem eq {x y : Except ε α} (h : Agree Eq x y) : x = y := by
  cases h with
  | ok h => rw [h]
  | error e => rfl

theorem exists_eq_ok {x : Except ε α} {b : β} (h : Agree R x (.ok b)) :
    ∃ a, x = .ok a ∧ R a b := by
  cases h with
  | ok h => exact ⟨_, rfl, h⟩

theorem bind {x : Except ε α} {y : Except ε β} {f : α → Except ε γ} {g : β → Except ε δ}
    (h : Agree R x y) (hfg : ∀ a b, R a b → Agree S (f a) (g b)) :
    Agree S (x >>= f) (y >>= g) := by
  cases h with
  | ok h => exact hfg _ _ h
  | error e => exact .error e

theorem map {x : Except ε α} {y : Except ε β} {f : α → γ} {g : β → δ}
    (h : Agree R x y) (hfg : ∀ a b, R a b → S (f a) (g b)) : Agree S (x.map f) (y.map g) := by
  cases h with
  | ok h => exact .ok (hfg _ _ h)
  | error e => exact .error e

theorem mapM {f : α → Except ε γ} {g : β → Except ε δ} {xs : List α} {ys : List β}
    (h : List.Forall₂ R xs ys) (hfg : ∀ a b, R a b → Agree S (f a) (g b)) :
    Agree (List.Forall₂ S) (xs.mapM f) (ys.mapM g) := by
  induction h with
  | nil => exact .ok .nil
  | cons hab _ ih =>
    rw [List.mapM_cons, List.mapM_cons]
    refine (hfg _ _ hab).bind fun _ _ hcd => ih.bind fun _ _ hcds => ?_
    exact .ok (.cons hcd hcds)

end Agree

end TreeOutline.Traversal
