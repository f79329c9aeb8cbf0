import Mathlib.Data.List.Forall2

/-!
# Results and errors

A computation in two parts gives a result when both parts do, and one over a list when it does so
for every element. Otherwise it gives the first error.
-/

namespace PascalTokens

variable {ε α β : Type} {f : α → Except ε β}

theorem bind_eq_ok {x : Except ε α} {b : β} : (x >>= f) = .ok b ↔ ∃ a, x = .ok a ∧ f a = .ok b := by
  cases x <;> simp [bind, Except.bind]

theorem bind_eq_error {x : Except ε α} {e : ε} :
    (x >>= f) = .error e ↔ x = .error e ∨ ∃ a, x = .ok a ∧ f a = .error e := by
  cases x <;> simp [bind, Except.bind]

theorem mapM_eq_ok {xs : List α} {ys : List β} :
    xs.mapM f = .ok ys ↔ List.Forall₂ (fun x y => f x = .ok y) xs ys := by
  induction xs generalizing ys with
  | nil => cases ys <;> simp [pure, Except.pure]
  | cons x xs ih =>
    rw [List.mapM_cons, List.forall₂_cons_left_iff, bind_eq_ok]
    simp only [bind_eq_ok, ih, pure, Except.pure, Except.ok.injEq, exists_and_left, @eq_comm _ _ ys]

/-- The error is that of the first element that has one. -/
theorem mapM_eq_error {xs : List α} {e : ε} :
    xs.mapM f = .error e ↔ ∃ before x after, xs = before ++ x :: after ∧
      (∀ y ∈ before, ∃ z, f y = .ok z) ∧ f x = .error e := by
  induction xs with
  | nil => simp [pure, Except.pure]
  | cons x xs ih =>
    rw [List.mapM_cons, bind_eq_error]
    constructor
    · rintro (first | ⟨y, first, later⟩)
      · exact ⟨[], x, xs, rfl, by simp, first⟩
      · simp only [bind_eq_error, pure, Except.pure, reduceCtorEq, and_false, exists_false,
          or_false] at later
        obtain ⟨before, z, after, rfl, fine, fault⟩ := ih.mp later
        exact ⟨x :: before, z, after, rfl, List.forall_mem_cons.mpr ⟨⟨y, first⟩, fine⟩, fault⟩
    · rintro ⟨before, z, after, same, fine, fault⟩
      cases before with
      | nil =>
        cases same
        exact .inl fault
      | cons _ before =>
        cases same
        obtain ⟨⟨y, first⟩, fine⟩ := List.forall_mem_cons.mp fine
        have later := ih.mpr ⟨before, _, after, rfl, fine, fault⟩
        exact .inr ⟨y, first, bind_eq_error.mpr (.inl later)⟩

end PascalTokens
