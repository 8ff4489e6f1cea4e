import ETraceDiag.AlignedGrid
import ETraceDiag.DetectorFeedback
import Mathlib.Tactic.Linarith

/-!
# Floats and statistics

What the detectors compute with numpy, and an exact arithmetic that has it all but square roots.
-/

namespace ETraceDiag

open AlignedGrid (NanFloat)
open AlignedGrid.NanFloat (isNan)
open DetectorFeedback (Calibration pyMax pyMin)

/-- The operations; `lit m e` of the calibration is m/10^e. -/
class NumPy (F : Type) extends AlignedGrid.NanFloat F, Calibration F, Div F where
  isZero : F → Bool
  isFinite : F → Bool
  abs : F → F
  median : List F → F
  mean : List F → F
  std : List F → F
  quantile : List F → F → F

namespace NumPy

section Code

variable {F : Type} [NumPy F]

/-- `x or 1.0`. -/
def orOne (x : F) : F := if isZero x then Calibration.lit 1 0 else x

/-- `np.maximum` and `np.minimum`: what is not a number wins. -/
def npMax (a b : F) : F := if isNan a then a else if isNan b then b else pyMax a b

def npMin (a b : F) : F := if isNan a then a else if isNan b then b else pyMin a b

/-- The median of the distances from `m`. -/
def madAround (xs : List F) (m : F) : F := median (xs.map fun x => abs (x-m))

end Code

/-! ## Exact arithmetic -/

/-- An operation on two numbers; of what is not a number nothing becomes one. -/
def lift₂ (op : ℚ → ℚ → Option ℚ) : Option ℚ → Option ℚ → Option ℚ
  | some a, some b => op a b
  | _, _ => none

def sorted (xs : List ℚ) : List ℚ := xs.mergeSort fun a b => a ≤ b

/-- The value at a position of a sorted list, between two elements if need be. -/
def atPosition (xs : List ℚ) (pos : ℚ) : Option ℚ := do
  let below ← (sorted xs)[pos.floor.toNat]?
  let above := ((sorted xs)[pos.floor.toNat+1]?).getD below
  pure (below+(pos-pos.floor)*(above-below))

/-- All the numbers, if there is at least one element and no other than numbers. -/
def numbers (xs : List (Option ℚ)) : Option (List ℚ) :=
  if xs.isEmpty then none else xs.mapM id

/-- Numbers and none. The deviation of samples that are not all the same is left out. -/
instance : NumPy (Option ℚ) where
  add := lift₂ fun a b => some (a+b)
  sub := lift₂ fun a b => some (a-b)
  mul := lift₂ fun a b => some (a*b)
  div := lift₂ fun a b => if b = 0 then none else some (a/b)
  lt a b := ∃ x ∈ a, ∃ y ∈ b, x < y
  decLt a b := match a,b with
    | some x,some y => decidable_of_iff (x < y) (by simp)
    | none,_ => .isFalse (by simp)
    | some _,none => .isFalse (by simp)
  lit m e := some (mkRat m (10^e))
  isZero a := a = some 0
  isFinite := Option.isSome
  abs := Option.map fun a => |a|
  median xs := do
    let ns ← numbers xs
    atPosition ns (((ns.length : ℚ)-1)/(1+1))
  mean xs := do
    let ns ← numbers xs
    pure (ns.sum/ns.length)
  std xs := do
    let ns ← numbers xs
    if ns.all (· = ns.headD 0) then pure 0 else none
  quantile xs q := do
    let ns ← numbers xs
    atPosition ns (((ns.length : ℚ)-1)*(← q))

section Exact

variable (a b : ℚ)

@[simp] theorem some_add_some : some a+some b = some (a+b) := rfl
@[simp] theorem some_sub_some : some a-some b = some (a-b) := rfl
@[simp] theorem some_mul_some : some a*some b = some (a*b) := rfl
@[simp] theorem abs_some : NumPy.abs (some a) = some |a| := rfl

theorem some_div_some (hb : b ≠ 0) : some a/some b = some (a/b) := if_neg hb

@[simp] theorem lit_eq (m e : ℕ) :
    (Calibration.lit m e : Option ℚ) = some (m/(10 : ℚ)^e) := by
  change some (mkRat m (10^e)) = _
  rw [Rat.mkRat_eq_div,Nat.cast_pow,Nat.cast_ofNat,Int.cast_natCast]

@[simp] theorem some_lt_some : (Calibration.toLT (F:=Option ℚ)).lt (some a) (some b) ↔ a < b := by
  change (∃ x ∈ some a, ∃ y ∈ some b, x < y) ↔ _
  simp

@[simp] theorem isNan_some : isNan (some a) = false := rfl

@[simp] theorem pyMax_some : pyMax (some a) (some b) = some (max a b) := by
  rw [pyMax,max_def_lt]
  simp only [some_lt_some]
  split <;> rfl

@[simp] theorem pyMin_some : pyMin (some a) (some b) = some (min a b) := by
  rw [pyMin,min_comm,min_def_lt]
  simp only [some_lt_some]
  split <;> rfl

theorem numbers_map_some {qs : List ℚ} (h : qs ≠ []) : numbers (qs.map some) = some qs := by
  have hmap : ∀ qs : List ℚ, (qs.map some).mapM id = some qs := by
    intro qs
    induction qs with
    | nil => rfl
    | cons q qs ih => simp [List.mapM_cons,ih]
  rw [numbers,if_neg (by simpa using h),hmap]

theorem atPosition_replicate {n : ℕ} {q pos : ℚ} (h : pos.floor.toNat < n) :
    atPosition (List.replicate n q) pos = some q := by
  have hsorted : sorted (List.replicate n q) = List.replicate n q :=
    List.perm_replicate.mp (List.mergeSort_perm _ _)
  have habove : ((List.replicate n q)[pos.floor.toNat+1]?).getD q = q := by
    rw [List.getElem?_replicate]
    split <;> rfl
  rw [atPosition,hsorted,List.getElem?_replicate,if_pos h]
  simp [habove]

/-- The median of copies of a number is the number. -/
theorem median_replicate (n : ℕ) (q : ℚ) :
    NumPy.median (List.replicate (n+1) (some q)) = some q := by
  have hmiddle : (((n+1 : ℕ) : ℚ)-1)/(1+1) < (n+1 : ℕ) := by
    push_cast
    linarith [Nat.cast_nonneg (α:=ℚ) n]
  have hfloor : ((((n+1 : ℕ) : ℚ)-1)/(1+1)).floor.toNat < n+1 := by
    rw [Int.toNat_lt' (by omega)]
    exact Rat.floor_lt_iff.mpr hmiddle
  have hnumbers := numbers_map_some (List.cons_ne_nil q (List.replicate n q))
  rw [← List.replicate_succ,List.map_replicate] at hnumbers
  change (numbers (List.replicate (n+1) (some q))).bind _ = _
  rw [hnumbers,Option.bind_some,List.length_replicate]
  exact atPosition_replicate hfloor

theorem madAround_replicate (n : ℕ) (q : ℚ) :
    madAround (List.replicate (n+1) (some q)) (some q) = some 0 := by
  rw [madAround,List.map_replicate,some_sub_some,abs_some,sub_self,abs_zero,median_replicate]

end Exact

end NumPy
end ETraceDiag
