import ETraceDiag.ConfigSources
import ETraceDiag.FloatingPoint
import Mathlib.Tactic.NormNum

/-!
# The doubles of the collector

The conversions and literals of `double` round as its operations do; a cast to an integer cuts
the fraction off.
-/

namespace ETraceDiag
namespace Doubles

open ConfigSources JsonGet FloatingPoint Floating

class IeeeDouble (F : Type) extends Double F, Add F, Mul F, Div F, Floating F where
  ofInt_eq : ∀ i : ℤ, value (Number.ofInt i : F) = some (rounding.round i)
  lit_eq : ∀ n d : ℕ, value (Double.lit n d : F) = some (rounding.round (n/(10^d : ℕ)))
  toUInt64_eq : ∀ {x : F} {r : ℝ}, value x = some (r : EReal) → 0 ≤ r → r < (2^64 : ℕ) →
    (Number.toUInt64 x).toNat = ⌊r⌋₊

variable {F : Type} [IeeeDouble F]

theorem lt_iff_of_value {x y : F} {a b : EReal} (hx : value x = some a) (hy : value y = some b) :
    x < y ↔ a < b := by
  rw [lt_iff,hx,hy]
  simp

theorem exact_zpow {k : ℤ} (hlo : -1022 ≤ k) (hhi : k ≤ 1023) :
    (rounding F).Exact (2^k) := (rounding F).exact_two_pow hlo hhi

theorem within_lit {n d : ℕ} {lo hi : ℝ} (hlo : (rounding F).Exact lo)
    (hhi : (rounding F).Exact hi) (h₁ : lo ≤ n/10^d) (h₂ : (n : ℝ)/10^d ≤ hi) :
    Within (Double.lit n d : F) lo hi :=
  within_of_round (by rw [IeeeDouble.lit_eq,Nat.cast_pow,Nat.cast_ofNat]) hlo hhi h₁ h₂

theorem value_lit {n d : ℕ} {a : ℝ} (ha : (rounding F).Exact a) (h : (n : ℝ)/10^d = a) :
    value (Double.lit n d : F) = some (a : EReal) := by
  rw [IeeeDouble.lit_eq,Nat.cast_pow,Nat.cast_ofNat,h,ha]

theorem value_zero : value (Double.lit 0 0 : F) = some ((0 : ℝ) : EReal) :=
  value_lit (rounding F).exact_zero (by norm_num)

theorem value_one : value (Double.lit 1 0 : F) = some ((1 : ℝ) : EReal) :=
  value_lit (rounding F).exact_one (by norm_num)

theorem lit_isNumber (n d : ℕ) : IsNumber (Double.lit n d : F) := by
  rw [IsNumber,IeeeDouble.lit_eq]
  exact Option.some_ne_none _

theorem within_ofU64 (n : UInt64) : Within (Number.ofInt n.toNat : F) 0 (2^(64 : ℤ)) := by
  refine within_of_round (IeeeDouble.ofInt_eq _) (rounding F).exact_zero
    (exact_zpow (by decide) (by decide)) ?_ ?_
  · exact_mod_cast Nat.zero_le n.toNat
  · exact_mod_cast n.toNat_lt.le

theorem billion_within : Within (Double.lit 1000000000 0 : F) (2^(29 : ℤ)) (2^(30 : ℤ)) :=
  within_lit (exact_zpow (by decide) (by decide)) (exact_zpow (by decide) (by decide))
    (by norm_num) (by norm_num)

/-- Exact numbers, and one value that is none; that one is what `strtod` makes of `nan`. -/
inductive Decimal
  | nan
  | number (q : ℚ)

namespace Decimal

def map₂ (f : ℚ → ℚ → ℚ) : Decimal → Decimal → Decimal
  | number p,number q => number (f p q)
  | _,_ => nan

protected def blt : Decimal → Decimal → Bool
  | number p,number q => p < q
  | _,_ => false

protected noncomputable def value : Decimal → Option EReal
  | nan => none
  | number q => some ((q : ℝ) : EReal)

instance : LT Decimal := ⟨fun x y => Decimal.blt x y = true⟩
instance : Add Decimal := ⟨map₂ (·+·)⟩
instance : Mul Decimal := ⟨map₂ (·*·)⟩
instance : Div Decimal := ⟨map₂ (·/·)⟩

instance : Double Decimal where
  ofInt i := number (mkRat i 1)
  toUInt64 | number q => UInt64.ofInt q.floor | nan => 0
  toUInt32 | number q => UInt32.ofInt q.floor | nan => 0
  decLt x y := inferInstanceAs (Decidable (Decimal.blt x y = true))
  lit n d := number (mkRat n (10^d))
  strtod s := if s = "nan" then some nan else none

noncomputable def exactRounding : Rounding where
  round := fun a => (a : EReal)
  mono := fun _ _ h => EReal.coe_le_coe_iff.mpr h
  zero := EReal.coe_zero
  two_pow := fun _ _ _ => rfl

theorem eq_number {x : Decimal} {a : ℝ} (h : Decimal.value x = some (a : EReal)) :
    ∃ q : ℚ, x = number q ∧ (q : ℝ) = a := by
  cases x with
  | nan => cases h
  | number q => exact ⟨q,rfl,EReal.coe_injective (Option.some.inj h)⟩

noncomputable instance : IeeeDouble Decimal where
  value := Decimal.value
  rounding := exactRounding
  lt_iff x y := by
    cases x with
    | nan => exact iff_of_false (fun h => by cases h) fun ⟨_,h,_⟩ => by cases h
    | number p =>
      cases y with
      | nan => exact iff_of_false (fun h => by cases h) fun ⟨_,_,_,h,_⟩ => by cases h
      | number q =>
        have hlt : number p < number q ↔ p < q := decide_eq_true_iff
        rw [hlt]
        simp [Decimal.value]
  add_eq hx hy := by
    obtain ⟨p,rfl,rfl⟩ := eq_number hx
    obtain ⟨q,rfl,rfl⟩ := eq_number hy
    exact congrArg (fun r : ℝ => some (r : EReal)) (Rat.cast_add p q)
  mul_eq hx hy := by
    obtain ⟨p,rfl,rfl⟩ := eq_number hx
    obtain ⟨q,rfl,rfl⟩ := eq_number hy
    exact congrArg (fun r : ℝ => some (r : EReal)) (Rat.cast_mul p q)
  div_eq hx hy _ := by
    obtain ⟨p,rfl,rfl⟩ := eq_number hx
    obtain ⟨q,rfl,rfl⟩ := eq_number hy
    exact congrArg (fun r : ℝ => some (r : EReal)) (Rat.cast_div p q)
  ofInt_eq i := by
    refine congrArg (fun r : ℝ => some (r : EReal)) ?_
    rw [Rat.mkRat_one]
    exact Rat.cast_intCast i
  lit_eq n d := by
    refine congrArg (fun r : ℝ => some (r : EReal)) ?_
    rw [Rat.mkRat_eq_div]
    push_cast
    rfl
  toUInt64_eq hx h₀ h₁ := by
    obtain ⟨q,rfl,rfl⟩ := eq_number hx
    have hfloor : ⌊(q : ℝ)⌋ = q.floor := Rat.floor_cast q
    have hnonneg : 0 ≤ q.floor := hfloor ▸ Int.floor_nonneg.mpr h₀
    have hlt : q.floor < 2^64 := hfloor ▸ Int.floor_lt.mpr (by exact_mod_cast h₁)
    have hcast : (UInt64.ofInt q.floor).toNat = q.floor.toNat := by
      rw [UInt64.ofInt,Int.emod_eq_of_lt hnonneg hlt,UInt64.toNat_ofNat',
        Nat.mod_eq_of_lt (by omega)]
    rw [← Int.floor_toNat,hfloor]
    exact hcast

end Decimal

end Doubles
end ETraceDiag
