import Mathlib.LinearAlgebra.Matrix.ToLinearEquiv

/-!
# Systems of linear equations

A system has a square matrix and a vector. Two systems are the same if they have the same solutions
for every multiple of their vectors (`LinearSystem.Same`): then they have the same
solutions, and the one has a regular matrix if the other does. Rows may be exchanged, and multiples
of one added to another.
-/

namespace EmeraldExchange

/-- **A system of linear equations.** -/
structure LinearSystem (n : ℕ) (K : Type*) where
  a : Fin n → Fin n → K
  b : Fin n → K

namespace LinearSystem

variable {n : ℕ} {K : Type*} [Field K]

/-- What is left of an equation, for a multiple of the right side. -/
def residual (s : LinearSystem n K) (x : Fin n → K) (t : K) (r : Fin n) : K :=
  ∑ c, s.a r c * x c - t * s.b r

/-- A solution, for a multiple of the right side. -/
def Solves (s : LinearSystem n K) (x : Fin n → K) (t : K) : Prop := ∀ r, s.residual x t r = 0

/-- **Systems with the same solutions**, for every multiple of their right sides. -/
def Same (s s' : LinearSystem n K) : Prop := ∀ x t, s.Solves x t ↔ s'.Solves x t

/-- Only zero solves the system with zeros on the right. -/
def Regular (s : LinearSystem n K) : Prop := ∀ x, s.Solves x 0 → x = 0

def swap (i j : Fin n) (s : LinearSystem n K) : LinearSystem n K where
  a r := s.a (Equiv.swap i j r)
  b r := s.b (Equiv.swap i j r)

variable {s s' s'' : LinearSystem n K} {x : Fin n → K} {t : K} {r p : Fin n}

theorem Same.refl (s : LinearSystem n K) : Same s s := fun _ _ => Iff.rfl

theorem Same.trans (h : Same s s') (h' : Same s' s'') : Same s s'' :=
  fun x t => (h x t).trans (h' x t)

theorem Same.regular (h : Same s s') (hs : s.Regular) : s'.Regular :=
  fun x hx => hs x ((h x 0).mpr hx)

theorem solves_iff : s.Solves x t ↔ ∀ r, ∑ c, s.a r c * x c = t * s.b r :=
  forall_congr' fun _ => sub_eq_zero

theorem regular_iff : s.Regular ↔ (Matrix.of s.a).det ≠ 0 := by
  have hsolves : ∀ x, s.Solves x 0 ↔ (Matrix.of s.a).mulVec x = 0 := by
    intro x
    rw [solves_iff, funext_iff]
    simp only [zero_mul]
    rfl
  rw [Ne, ← Matrix.exists_mulVec_eq_zero_iff]
  simp only [Regular, hsolves, ne_eq, not_exists, not_and, not_imp_not]

def form (s : LinearSystem n K) (x : Fin n → K) : K := ∑ r, x r * ∑ c, s.a r c * x c

theorem regular_of_form (h : ∀ x, s.form x = 0 → x = 0) : s.Regular := by
  intro x hx
  refine h x (Finset.sum_eq_zero fun r _ => ?_)
  rw [solves_iff.mp hx r, zero_mul, mul_zero]

theorem residual_swap (i j : Fin n) :
    (s.swap i j).residual x t r = s.residual x t (Equiv.swap i j r) := rfl

/-- **Rows may be exchanged.** -/
theorem same_swap (i j : Fin n) : Same s (s.swap i j) := by
  intro x t
  constructor
  · intro h r
    rw [residual_swap]
    exact h _
  · intro h r
    have hr := h (Equiv.swap i j r)
    rwa [residual_swap, Equiv.swap_apply_self] at hr

/-- **A multiple of a row may be subtracted from another.** -/
theorem same_of_subtract {f : K} (hne : r ≠ p)
    (hrow : ∀ x t, s'.residual x t r = s.residual x t r - f * s.residual x t p)
    (hothers : ∀ i, i ≠ r → ∀ x t, s'.residual x t i = s.residual x t i) : Same s s' := by
  intro x t
  constructor
  · intro h i
    by_cases hi : i = r
    · rw [hi, hrow, h r, h p, mul_zero, sub_zero]
    · rw [hothers i hi, h i]
  · intro h i
    by_cases hi : i = r
    · have hp := h p
      rw [hothers p hne.symm] at hp
      have hr := h r
      rwa [hrow, hp, mul_zero, sub_zero, ← hi] at hr
    · rw [← hothers i hi]
      exact h i

end LinearSystem

end EmeraldExchange
