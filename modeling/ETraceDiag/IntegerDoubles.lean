import ETraceDiag.Significand
import Mathlib.Algebra.Order.Ring.Int
import Mathlib.Algebra.Ring.Parity
import Mathlib.Data.Nat.Factorization.Basic

/-!
# Whole numbers as doubles

The whole numbers that are double-precision numbers, and the one that a whole number is rounded to.
-/

namespace IntegerDoubles

open Significand

/-- At most 53 bits are significant, and the first of them stands for less than 2^1024. -/
def IsDouble (n : ℤ) : Prop :=
  (∃ m k : ℕ, m < 2^53 ∧ n.natAbs = m*2^k) ∧ n.natAbs.log2 < 1024

/-- The double that is nearest to a number, unless the number is beyond all of them. -/
def toDouble (n : ℤ) : Option ℤ :=
  if (round53 n.natAbs).log2 < 1024 then some (n.sign*round53 n.natAbs) else none

theorem log2_mono {a b : ℕ} (h : a ≤ b) : a.log2 ≤ b.log2 := log2_lt (h.trans_lt Nat.lt_log2_self)

theorem ulp_dvd_iff {p : ℕ} : ulp p ∣ p ↔ ∃ m k : ℕ, m < 2^53 ∧ p = m*2^k := by
  constructor
  · rintro ⟨m,hm⟩
    refine ⟨m,p.log2-52,?_,by rw [Nat.mul_comm]; exact hm⟩
    have hlt := lt_ulp_mul p
    rw [hm,← hm] at hlt
    exact Nat.lt_of_mul_lt_mul_left (a:=ulp p) (hm ▸ hlt)
  · rintro ⟨m,k,hm,rfl⟩
    refine Dvd.dvd.mul_left (ulp_dvd ?_) m
    rw [Nat.add_comm,Nat.pow_add]
    exact Nat.mul_lt_mul_of_pos_right hm (Nat.two_pow_pos k)

theorem round53_eq_self_iff {p : ℕ} : round53 p = p ↔ ulp p ∣ p :=
  ⟨fun h => by have := ulp_dvd_round53 p; rwa [h] at this,round53_of_dvd⟩

/-- What has been rounded has 53 significant bits. -/
theorem round53_significant (p : ℕ) : ∃ m k : ℕ, m < 2^53 ∧ round53 p = m*2^k := by
  obtain ⟨c,hc⟩ := ulp_dvd_round53 p
  have hle : c ≤ 2^53 := by
    have hbound := (round53_bounds p).2
    have hp := lt_ulp_mul p
    rw [hc] at hbound
    by_contra hgt
    have hmul : ulp p*(2^53+1) ≤ ulp p*c := Nat.mul_le_mul_left _ (Nat.lt_of_not_le hgt)
    rw [Nat.mul_add,Nat.mul_one] at hmul
    have hpos := ulp_pos p
    omega
  rcases Nat.lt_or_eq_of_le hle with hlt | rfl
  · exact ⟨c,p.log2-52,hlt,by rw [hc,Nat.mul_comm]; rfl⟩
  · exact ⟨1,p.log2-52+53,by decide,by rw [hc,Nat.one_mul,Nat.pow_add]; rfl⟩

/-- Rounding keeps exactly the doubles. -/
theorem toDouble_eq_self_iff {n : ℤ} : toDouble n = some n ↔ IsDouble n := by
  rw [toDouble,IsDouble,← ulp_dvd_iff,← round53_eq_self_iff]
  constructor
  · intro h
    split at h
    · next hlt =>
      have hself : round53 n.natAbs = n.natAbs := by
        rcases eq_or_ne n 0 with rfl | hn
        · rfl
        · have habs := congrArg Int.natAbs (Option.some.inj h)
          rwa [Int.natAbs_mul,Int.natAbs_sign_of_ne_zero hn,Nat.one_mul,Int.natAbs_natCast] at habs
      exact ⟨hself,hself ▸ hlt⟩
    · cases h
  · rintro ⟨hself,hlt⟩
    rw [hself,if_pos hlt,Int.sign_mul_natAbs]

/-- What a number is rounded to is a double. -/
theorem isDouble_of_toDouble {n r : ℤ} (h : toDouble n = some r) : IsDouble r := by
  rw [toDouble] at h
  split at h
  · next hlt =>
    obtain rfl := Option.some.inj h
    rcases eq_or_ne n 0 with rfl | hn
    · rw [Int.sign_zero,Int.zero_mul]
      exact ⟨⟨0,0,by decide,rfl⟩,by decide⟩
    · rw [IsDouble,Int.natAbs_mul,Int.natAbs_sign_of_ne_zero hn,Nat.one_mul,Int.natAbs_natCast]
      exact ⟨round53_significant _,hlt⟩
  · cases h

/-- A factor of a double is a double. -/
theorem IsDouble.of_mul {n c : ℤ} (hc : c ≠ 0) (h : IsDouble (n*c)) : IsDouble n := by
  obtain ⟨⟨m,k,hm,heq⟩,hlt⟩ := h
  have hcpos : 0 < c.natAbs := Int.natAbs_pos.mpr hc
  rw [Int.natAbs_mul] at heq hlt
  refine ⟨?_,(log2_mono (Nat.le_mul_of_pos_right _ hcpos)).trans_lt hlt⟩
  rcases Nat.eq_zero_or_pos n.natAbs with hzero | hpos
  · exact ⟨0,0,by decide,by rw [hzero]; rfl⟩
  · obtain ⟨a,o,hodd,ho⟩ := Nat.exists_eq_two_pow_mul_odd hpos.ne'
    have hmpos : 0 < m := by
      rcases Nat.eq_zero_or_pos m with rfl | hmpos
      · rw [Nat.zero_mul] at heq
        exact absurd heq (Nat.mul_pos hpos hcpos).ne'
      · exact hmpos
    have hdvd : o ∣ m*2^k := by
      rw [← heq,ho]
      exact Dvd.dvd.mul_right (Dvd.intro_left _ rfl) _
    have hcop : Nat.Coprime o (2^k) := (Nat.coprime_two_right.mpr hodd).pow_right k
    have hle := Nat.le_of_dvd hmpos (hcop.dvd_of_dvd_mul_right hdvd)
    exact ⟨o,a,hle.trans_lt hm,by rw [ho,Nat.mul_comm]⟩

/-- Small numbers are doubles. -/
theorem isDouble_of_lt {n : ℤ} (h : n.natAbs < 2^53) : IsDouble n :=
  ⟨⟨n.natAbs,0,h,(Nat.mul_one _).symm⟩,(log2_lt (b:=52) h).trans_lt (by decide)⟩

end IntegerDoubles
