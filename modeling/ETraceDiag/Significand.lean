import Mathlib.Algebra.Order.Ring.Nat

/-!
# Rounding to 53 significant bits

A natural number is rounded to the nearest one whose binary form has 53 significant bits, a tie
to the even one, as a double-precision operation rounds its exact result.
-/

namespace Significand

/-- What the last of the 53 bits is worth. -/
def ulp (p : ℕ) : ℕ := 2^(p.log2-52)

def round53 (p : ℕ) : ℕ :=
  let u := ulp p
  if 2*(p%u) < u ∨ 2*(p%u) = u ∧ p/u%2 = 0 then p/u*u else (p/u+1)*u

theorem ulp_pos (p : ℕ) : 0 < ulp p := Nat.two_pow_pos _

theorem lt_ulp_mul (p : ℕ) : p < ulp p*2^53 := by
  rw [ulp,← Nat.pow_add]
  exact Nat.lt_log2_self.trans_le (Nat.pow_le_pow_right (by decide) (by omega))

theorem log2_lt {p b : ℕ} (h : p < 2^(b+1)) : p.log2 ≤ b := by
  by_cases hp : p = 0
  · simp [hp]
  · exact Nat.le_of_lt_succ ((Nat.log2_lt hp).mpr h)

theorem ulp_dvd {p b : ℕ} (h : p < 2^(b+53)) : ulp p ∣ 2^b :=
  Nat.pow_dvd_pow 2 (by have := log2_lt (b:=b+52) h; omega)

theorem ulp_le {p b : ℕ} (h : p < 2^(b+53)) : ulp p ≤ 2^b :=
  Nat.le_of_dvd (Nat.two_pow_pos b) (ulp_dvd h)

/-- The result is off by half a unit at most. -/
theorem round53_bounds (p : ℕ) :
    2*p ≤ 2*round53 p+ulp p ∧ 2*round53 p ≤ 2*p+ulp p := by
  have hp : p/ulp p*ulp p+p%ulp p = p := Nat.div_add_mod' p (ulp p)
  have hr : p%ulp p < ulp p := Nat.mod_lt _ (ulp_pos p)
  rw [round53]
  split
  · omega
  · rw [Nat.add_mul,Nat.one_mul]
    omega

theorem ulp_dvd_round53 (p : ℕ) : ulp p ∣ round53 p := by
  rw [round53]
  split <;> exact Dvd.intro_left _ rfl

/-- A multiple of the unit that is nearer than half a unit is the result. -/
theorem round53_of_near {p m : ℕ} (hm : ulp p ∣ m) (hlow : 2*p < 2*m+ulp p)
    (hhigh : 2*m < 2*p+ulp p) : round53 p = m := by
  obtain ⟨c,rfl⟩ := hm
  have hu := ulp_pos p
  obtain ⟨d,hd⟩ := ulp_dvd_round53 p
  obtain ⟨hle,hge⟩ := round53_bounds p
  rw [hd] at hle hge ⊢
  rcases Nat.lt_trichotomy c d with h | rfl | h
  · have hstep : ulp p*(c+1) ≤ ulp p*d := Nat.mul_le_mul_left _ h
    rw [Nat.mul_add,Nat.mul_one] at hstep
    omega
  · rfl
  · have hstep : ulp p*(d+1) ≤ ulp p*c := Nat.mul_le_mul_left _ h
    rw [Nat.mul_add,Nat.mul_one] at hstep
    omega

theorem round53_of_dvd {p : ℕ} (h : ulp p ∣ p) : round53 p = p :=
  round53_of_near h (by have := ulp_pos p; omega) (by have := ulp_pos p; omega)

/-- Small numbers are exact. -/
theorem round53_of_lt {p : ℕ} (h : p < 2^53) : round53 p = p :=
  round53_of_dvd ((ulp_dvd (b:=0) h).trans (one_dvd p))

end Significand
