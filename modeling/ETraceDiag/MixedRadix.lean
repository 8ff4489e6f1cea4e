import Mathlib.Algebra.BigOperators.Group.List.Basic
import Mathlib.Algebra.Order.BigOperators.GroupWithZero.List
import Mathlib.Algebra.Order.Ring.Int
import Mathlib.Order.Lattice

/-!
# Mixed radices

Digits of different radices make up one number, the last digit being that of the ones. Different
digits make up different numbers, and these are below the product of the radices.
-/

namespace MixedRadix

variable {ι : Type*} (radix digit : ι → ℤ)

def value : List ι → ℤ
  | [] => 0
  | i::is => digit i*(is.map radix).prod+value is

/-- Digits are below their radices. -/
def Digits (is : List ι) : Prop := ∀ i ∈ is, 0 ≤ digit i ∧ digit i < radix i

variable {radix digit} {digit' : ι → ℤ} {is js : List ι}

theorem Digits.of_cons {i : ι} (h : Digits radix digit (i::is)) : Digits radix digit is :=
  fun j hj => h j (List.mem_cons_of_mem i hj)

/-- What is below a radix is the rest. -/
theorem mul_add_inj {c q q' r r' : ℤ} (hr : 0 ≤ r ∧ r < c) (hr' : 0 ≤ r' ∧ r' < c) :
    q*c+r = q'*c+r' ↔ q = q' ∧ r = r' := by
  constructor
  · intro heq
    have hq : (q*c+r)/c = q := by
      rw [Int.add_comm,Int.add_mul_ediv_right _ _ (by omega),Int.ediv_eq_zero_of_lt hr.1 hr.2,
        zero_add]
    have hq' : (q'*c+r')/c = q' := by
      rw [Int.add_comm,Int.add_mul_ediv_right _ _ (by omega),Int.ediv_eq_zero_of_lt hr'.1 hr'.2,
        zero_add]
    have hsame : q = q' := by rw [← hq,heq,hq']
    subst hsame
    exact ⟨rfl,by omega⟩
  · rintro ⟨rfl,rfl⟩
    rfl

theorem mul_add_lt {c n q r : ℤ} (hq : 0 ≤ q ∧ q < n) (hr : 0 ≤ r ∧ r < c) :
    0 ≤ q*c+r ∧ q*c+r < n*c := by
  have hc : 0 ≤ c := hr.1.trans hr.2.le
  have hlow := mul_nonneg hq.1 hc
  have hhigh := mul_le_mul_of_nonneg_right (show q+1 ≤ n by omega) hc
  rw [add_mul,one_mul] at hhigh
  omega

theorem value_lt (h : Digits radix digit is) :
    0 ≤ value radix digit is ∧ value radix digit is < (is.map radix).prod := by
  induction is with
  | nil => exact ⟨le_refl 0,Int.one_pos⟩
  | cons i is ih =>
    rw [value,List.map_cons,List.prod_cons]
    exact mul_add_lt (h i List.mem_cons_self) (ih h.of_cons)

theorem value_inj (h : Digits radix digit is) (h' : Digits radix digit' is) :
    value radix digit is = value radix digit' is ↔ ∀ i ∈ is, digit i = digit' i := by
  induction is with
  | nil => simp [value]
  | cons i is ih =>
    rw [value,value,mul_add_inj (value_lt h.of_cons) (value_lt h'.of_cons),
      ih h.of_cons h'.of_cons,List.forall_mem_cons]

theorem value_append : value radix digit (is++js) =
    value radix digit is*(js.map radix).prod+value radix digit js := by
  induction is with
  | nil => simp [value]
  | cons i is ih =>
    rw [List.cons_append,value,ih,value,List.map_append,List.prod_append,add_mul,mul_assoc,
      add_assoc]

end MixedRadix
