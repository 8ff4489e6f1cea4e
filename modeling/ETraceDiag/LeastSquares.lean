import Mathlib.Algebra.Order.BigOperators.Ring.Finset
import Mathlib.LinearAlgebra.Matrix.ToLin

/-!
# Least squares

A least squares solution has the smallest sum of squared residuals. Where an equation can be
solved, the least squares solutions are the solutions, and a matrix of full column rank leaves
only one.
-/

namespace LeastSquares

open Matrix

variable {K n c r : Type*} [Field K] [LinearOrder K] [IsStrictOrderedRing K]
  [Fintype n] [Fintype c] [Fintype r]

/-- The sum of the squared residuals of `X * C` against `Y`. -/
def residual (X : Matrix n c K) (Y : Matrix n r K) (C : Matrix c r K) : K :=
  ∑ i, ∑ j, ((X*C) i j-Y i j)^2

def IsLeastSquares (X : Matrix n c K) (Y : Matrix n r K) (C : Matrix c r K) : Prop :=
  ∀ C' : Matrix c r K, residual X Y C ≤ residual X Y C'

theorem residual_nonneg (X : Matrix n c K) (Y : Matrix n r K) (C : Matrix c r K) :
    0 ≤ residual X Y C :=
  Finset.sum_nonneg fun _ _ => Finset.sum_nonneg fun _ _ => sq_nonneg _

theorem residual_eq_zero_iff {X : Matrix n c K} {Y : Matrix n r K} {C : Matrix c r K} :
    residual X Y C = 0 ↔ X*C = Y := by
  rw [residual,Finset.sum_eq_zero_iff_of_nonneg fun _ _ => Finset.sum_nonneg fun _ _ => sq_nonneg _]
  constructor
  · intro h
    ext i j
    have hrow := h i (Finset.mem_univ i)
    rw [Finset.sum_eq_zero_iff_of_nonneg fun _ _ => sq_nonneg _] at hrow
    exact sub_eq_zero.mp (pow_eq_zero_iff two_ne_zero |>.mp (hrow j (Finset.mem_univ j)))
  · rintro rfl i -
    exact Finset.sum_eq_zero fun j _ => by rw [sub_self,zero_pow two_ne_zero]

/-- A solution is a least squares solution. -/
theorem IsLeastSquares.of_eq {X : Matrix n c K} {Y : Matrix n r K} {C : Matrix c r K}
    (h : X*C = Y) : IsLeastSquares X Y C := by
  intro C'
  rw [residual_eq_zero_iff.mpr h]
  exact residual_nonneg X Y C'

/-- Where there is a solution, a least squares solution is one. -/
theorem IsLeastSquares.eq {X : Matrix n c K} {Y : Matrix n r K} {C C₀ : Matrix c r K}
    (h : IsLeastSquares X Y C) (h₀ : X*C₀ = Y) : X*C = Y := by
  have hle := h C₀
  rw [residual_eq_zero_iff.mpr h₀] at hle
  exact residual_eq_zero_iff.mp (le_antisymm hle (residual_nonneg X Y C))

/-- With full column rank the least squares solution is the solution. -/
theorem IsLeastSquares.unique {X : Matrix n c K} {Y : Matrix n r K} {C C₀ : Matrix c r K}
    (hX : LinearIndependent K X.col) (h : IsLeastSquares X Y C) (h₀ : X*C₀ = Y) : C = C₀ := by
  have hmul : X*C = X*C₀ := (h.eq h₀).trans h₀.symm
  ext i j
  have hcol : X *ᵥ C.col j = X *ᵥ C₀.col j := by
    funext k
    exact congrFun (congrFun hmul k) j
  exact congrFun (mulVec_injective_iff.mpr hX hcol) i

end LeastSquares
