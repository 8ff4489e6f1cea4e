import ETraceDiag.LeastSquares
import Mathlib.Algebra.Order.Field.Rat
import Mathlib.Algebra.QuadraticAlgebra.Basic
import Mathlib.Data.Matrix.ColumnRowPartitioned
import Mathlib.Tactic.FinCases
import Mathlib.Tactic.LinearCombination
import Mathlib.Tactic.Ring

/-!
# The complex linear fit

`_fit_complex_linear` and `_pred_high` of `detection/fits_adapter.py`, with exact arithmetic over
any ordered field. The columns of the real design matrix are told apart by their block instead of
by their number.
-/

namespace ETraceDiag
namespace ComplexFit

open LeastSquares Matrix

/-- The complex numbers over a field. -/
abbrev Cx (K : Type*) [Ring K] := QuadraticAlgebra K (-1) 0

variable {K n l h : Type*} [Field K]

/-- `[Re(low), Im(low), 1]`. -/
def design (low : Matrix n l (Cx K)) : Matrix n ((l ⊕ l) ⊕ Unit) K :=
  fromCols (fromCols (low.map QuadraticAlgebra.re) (low.map QuadraticAlgebra.im)) fun _ _ => 1

@[simp] theorem design_re (low : Matrix n l (Cx K)) (k : n) (j : l) :
    design low k (.inl (.inl j)) = (low k j).re := rfl

@[simp] theorem design_im (low : Matrix n l (Cx K)) (k : n) (j : l) :
    design low k (.inl (.inr j)) = (low k j).im := rfl

@[simp] theorem design_one (low : Matrix n l (Cx K)) (k : n) :
    design low k (.inr ()) = 1 := rfl

/-- `[Re(high), Im(high)]`. -/
def target (high : Matrix n h (Cx K)) : Matrix n (h ⊕ h) K :=
  fromCols (high.map QuadraticAlgebra.re) (high.map QuadraticAlgebra.im)

/-- `_fit_complex_linear`. Of the coefficients of the imaginary parts only the intercepts are
read. -/
def fitComplexLinear
    (lstsq : Matrix n ((l ⊕ l) ⊕ Unit) K → Matrix n (h ⊕ h) K → Matrix ((l ⊕ l) ⊕ Unit) (h ⊕ h) K)
    (low : Matrix n l (Cx K)) (high : Matrix n h (Cx K)) : Matrix h l (Cx K) × (h → Cx K) :=
  let coef := lstsq (design low) (target high)
  let Wr : Matrix h l K := fun i j => coef (.inl (.inl j)) (.inl i)
  let Wi : Matrix h l K := fun i j => coef (.inl (.inr j)) (.inl i)
  let br : h → K := fun i => coef (.inr ()) (.inl i)
  let bi : h → K := fun i => coef (.inr ()) (.inr i)
  (fun i j => ⟨Wr i j,Wi i j⟩,fun i => ⟨br i,bi i⟩)

/-- `_pred_high`: `low @ W.T + b`. -/
def predHigh {m : Type*} [Fintype l] (low : Matrix m l (Cx K)) (W : Matrix h l (Cx K))
    (b : h → Cx K) : Matrix m h (Cx K) :=
  low*Wᵀ+replicateRow m b

/-! ## Real and imaginary parts -/

theorem re_sum {ι : Type*} (s : Finset ι) (f : ι → Cx K) : (∑ i ∈ s, f i).re = ∑ i ∈ s, (f i).re :=
  map_sum (⟨⟨QuadraticAlgebra.re,rfl⟩,fun _ _ => rfl⟩ : Cx K →+ K) f s

theorem im_sum {ι : Type*} (s : Finset ι) (f : ι → Cx K) : (∑ i ∈ s, f i).im = ∑ i ∈ s, (f i).im :=
  map_sum (⟨⟨QuadraticAlgebra.im,rfl⟩,fun _ _ => rfl⟩ : Cx K →+ K) f s

variable [Fintype l]

theorem predHigh_re {m : Type*} (low : Matrix m l (Cx K)) (W : Matrix h l (Cx K)) (b : h → Cx K)
    (k : m) (i : h) : (predHigh low W b k i).re =
      ∑ j, ((low k j).re*(W i j).re-(low k j).im*(W i j).im)+(b i).re := by
  rw [predHigh,Matrix.add_apply,Matrix.mul_apply,QuadraticAlgebra.re_add,re_sum]
  refine congrArg (·+_) (Finset.sum_congr rfl fun j _ => ?_)
  rw [QuadraticAlgebra.re_mul,Matrix.transpose_apply]
  ring

theorem predHigh_im {m : Type*} (low : Matrix m l (Cx K)) (W : Matrix h l (Cx K)) (b : h → Cx K)
    (k : m) (i : h) : (predHigh low W b k i).im =
      ∑ j, ((low k j).re*(W i j).im+(low k j).im*(W i j).re)+(b i).im := by
  rw [predHigh,Matrix.add_apply,Matrix.mul_apply,QuadraticAlgebra.im_add,im_sum]
  refine congrArg (·+_) (Finset.sum_congr rfl fun j _ => ?_)
  rw [QuadraticAlgebra.im_mul,Matrix.transpose_apply]
  ring

/-- The real coefficients of a complex map: the imaginary parts count with the other sign in the
real parts of the values. -/
def coefficients (W : Matrix h l (Cx K)) (b : h → Cx K) :
    Matrix ((l ⊕ l) ⊕ Unit) (h ⊕ h) K
  | .inl (.inl j), .inl i => (W i j).re
  | .inl (.inr j), .inl i => -(W i j).im
  | .inr (), .inl i => (b i).re
  | .inl (.inl j), .inr i => (W i j).im
  | .inl (.inr j), .inr i => (W i j).re
  | .inr (), .inr i => (b i).im

theorem design_mul_coefficients (low : Matrix n l (Cx K)) (W : Matrix h l (Cx K))
    (b : h → Cx K) : design low*coefficients W b = target (predHigh low W b) := by
  ext k i
  rw [Matrix.mul_apply,Fintype.sum_sum_type,Fintype.sum_sum_type]
  cases i with
  | inl i =>
    change _ = (predHigh low W b k i).re
    rw [predHigh_re]
    simp [coefficients,sub_eq_add_neg,Finset.sum_add_distrib]
  | inr i =>
    change _ = (predHigh low W b k i).im
    rw [predHigh_im]
    simp [coefficients,Finset.sum_add_distrib]

/-! ## What the fit recovers -/

section Recovery

variable [LinearOrder K] [IsStrictOrderedRing K] [Fintype n] [Fintype h]

/-- The conjugate map. -/
def conjugate (W : Matrix h l (Cx K)) : Matrix h l (Cx K) := fun i j => ⟨(W i j).re,-(W i j).im⟩

/-- The fit of a complex map gives the conjugate of its matrix, and its vector. -/
theorem fitComplexLinear_eq
    {lstsq : Matrix n ((l ⊕ l) ⊕ Unit) K → Matrix n (h ⊕ h) K → Matrix ((l ⊕ l) ⊕ Unit) (h ⊕ h) K}
    {low : Matrix n l (Cx K)} (hrank : LinearIndependent K (design low).col)
    (W₀ : Matrix h l (Cx K)) (b₀ : h → Cx K)
    (hlstsq : IsLeastSquares (design low) (target (predHigh low W₀ b₀))
      (lstsq (design low) (target (predHigh low W₀ b₀)))) :
    fitComplexLinear lstsq low (predHigh low W₀ b₀) = (conjugate W₀,b₀) := by
  have hcoef := hlstsq.unique hrank (design_mul_coefficients low W₀ b₀)
  rw [fitComplexLinear,hcoef]
  rfl

/-- The fitted map predicts what the map does, for any number of rows. -/
def Recovers (W₀ : Matrix h l (Cx K)) (b₀ : h → Cx K) (fit : Matrix h l (Cx K) × (h → Cx K)) :
    Prop :=
  ∀ (m : ℕ) (low : Matrix (Fin m) l (Cx K)), predHigh low fit.1 fit.2 = predHigh low W₀ b₀

omit [LinearOrder K] [IsStrictOrderedRing K] [Fintype h] in
theorem recovers_iff_eq [DecidableEq l] (W₀ W : Matrix h l (Cx K)) (b₀ : h → Cx K) :
    Recovers W₀ b₀ (W,b₀) ↔ W = W₀ := by
  constructor
  · intro hall
    ext1 i j
    have hunit := congrFun (congrFun (hall 1 (replicateRow (Fin 1) (Pi.single j 1))) 0) i
    simpa [predHigh,Matrix.mul_apply,Pi.single_apply] using hunit
  · rintro rfl m low
    rfl

/-- The fit recovers a complex map exactly when its matrix is real. -/
theorem fit_recovers_iff
    {lstsq : Matrix n ((l ⊕ l) ⊕ Unit) K → Matrix n (h ⊕ h) K → Matrix ((l ⊕ l) ⊕ Unit) (h ⊕ h) K}
    {low : Matrix n l (Cx K)} (hrank : LinearIndependent K (design low).col)
    (W₀ : Matrix h l (Cx K)) (b₀ : h → Cx K)
    (hlstsq : IsLeastSquares (design low) (target (predHigh low W₀ b₀))
      (lstsq (design low) (target (predHigh low W₀ b₀)))) :
    Recovers W₀ b₀ (fitComplexLinear lstsq low (predHigh low W₀ b₀)) ↔
      ∀ i j, (W₀ i j).im = 0 := by
  classical
  rw [fitComplexLinear_eq hrank W₀ b₀ hlstsq,recovers_iff_eq]
  constructor
  · intro heq i j
    have him : -(W₀ i j).im = (W₀ i j).im :=
      congrArg QuadraticAlgebra.im (congrFun (congrFun heq i) j)
    exact self_eq_neg.mp him.symm
  · intro hreal
    ext1 i j
    refine QuadraticAlgebra.ext rfl ?_
    rw [conjugate,hreal,neg_zero]

end Recovery

/-- Three rows with one coefficient: 0, 1 and i. -/
def threeRows : Matrix (Fin 3) (Fin 1) (Cx ℚ) := fun k _ => ![⟨0,0⟩,⟨1,0⟩,⟨0,1⟩] k

theorem linearIndependent_threeRows : LinearIndependent ℚ (design threeRows).col := by
  rw [Fintype.linearIndependent_iff]
  intro g hg
  have hrow (k : Fin 3) : g (.inl (.inl 0))*(threeRows k 0).re+
      g (.inl (.inr 0))*(threeRows k 0).im+g (.inr ()) = 0 := by
    have hk := congrFun hg k
    simpa [Fintype.sum_sum_type,Matrix.col_apply] using hk
  have h0 : g (.inr ()) = 0 := by simpa [threeRows] using hrow 0
  have h1 : g (.inl (.inl 0)) = 0 := by simpa [threeRows,h0] using hrow 1
  have h2 : g (.inl (.inr 0)) = 0 := by simpa [threeRows,h0] using hrow 2
  rintro ((j | j) | _)
  · rwa [Subsingleton.elim j 0]
  · rwa [Subsingleton.elim j 0]
  · exact h0

/-- Multiplication with a number. -/
def times (z : Cx ℚ) : Matrix (Fin 1) (Fin 1) (Cx ℚ) := fun _ _ => z

def fitTimes (z : Cx ℚ) : Matrix (Fin 1) (Fin 1) (Cx ℚ) × (Fin 1 → Cx ℚ) :=
  fitComplexLinear (fun _ _ => coefficients (times z) 0) threeRows
    (predHigh threeRows (times z) 0)

/-- The real factor 2 is recovered. -/
theorem double_recovered : Recovers (times ⟨2,0⟩) 0 (fitTimes ⟨2,0⟩) :=
  (fit_recovers_iff linearIndependent_threeRows (times ⟨2,0⟩) 0
    (.of_eq (design_mul_coefficients threeRows (times ⟨2,0⟩) 0))).mpr fun _ _ => rfl

/-- The factor i is not: the fit has -i in its place. -/
theorem turn_not_recovered :
    LinearIndependent ℚ (design threeRows).col ∧
      IsLeastSquares (design threeRows) (target (predHigh threeRows (times ⟨0,1⟩) 0))
        (coefficients (times ⟨0,1⟩) 0) ∧
      ¬ Recovers (times ⟨0,1⟩) 0 (fitTimes ⟨0,1⟩) := by
  have hlstsq := IsLeastSquares.of_eq (design_mul_coefficients threeRows (times ⟨0,1⟩) 0)
  refine ⟨linearIndependent_threeRows,hlstsq,fun h => ?_⟩
  have hfit : fitTimes ⟨0,1⟩ = (conjugate (times ⟨0,1⟩),0) :=
    fitComplexLinear_eq linearIndependent_threeRows (times ⟨0,1⟩) 0 hlstsq
  rw [hfit,recovers_iff_eq] at h
  have him := congrArg QuadraticAlgebra.im (congrFun (congrFun h 0) 0)
  exact absurd him (by decide +kernel)

end ComplexFit
end ETraceDiag
