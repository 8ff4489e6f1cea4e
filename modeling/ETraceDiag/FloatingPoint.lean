import Mathlib.Data.EReal.Operations

/-!
# Floating-point numbers

A value of a floating-point type is not a number, infinite or real; comparisons with what is not
a number are false, and an operation on real numbers rounds the exact result. Which way it rounds
is open.
-/

namespace FloatingPoint

/-- Rounding keeps the order, and the powers of two that have normal exponents. -/
structure Rounding where
  round : ℝ → EReal
  mono : Monotone round
  zero : round 0 = 0
  two_pow : ∀ k : ℤ, -1022 ≤ k → k ≤ 1023 → round (2^k) = ((2^k : ℝ) : EReal)

/-- What the operations of a floating-point type compute; nothing is not a number. -/
class Floating (F : Type) [LT F] [Add F] [Mul F] [Div F] where
  value : F → Option EReal
  rounding : Rounding
  lt_iff : ∀ x y, x < y ↔ ∃ a ∈ value x, ∃ b ∈ value y, a < b
  add_eq : ∀ {x y} {a b : ℝ}, value x = some a → value y = some b →
    value (x+y) = some (rounding.round (a+b))
  mul_eq : ∀ {x y} {a b : ℝ}, value x = some a → value y = some b →
    value (x*y) = some (rounding.round (a*b))
  div_eq : ∀ {x y} {a b : ℝ}, value x = some a → value y = some b → b ≠ 0 →
    value (x/y) = some (rounding.round (a/b))

namespace Rounding

variable (ρ : Rounding)

/-- A real number that is its own rounding. -/
def Exact (a : ℝ) : Prop := ρ.round a = a

theorem exact_zero : ρ.Exact 0 := by rw [Exact,ρ.zero,EReal.coe_zero]

theorem exact_two_pow {k : ℤ} (hlo : -1022 ≤ k) (hhi : k ≤ 1023) : ρ.Exact (2^k) :=
  ρ.two_pow k hlo hhi

theorem exact_one : ρ.Exact 1 := by
  have h := ρ.exact_two_pow (k:=0) (by decide) (by decide)
  rwa [zpow_zero] at h

variable {ρ}

/-- Between exact numbers rounding stays real and between them. -/
theorem round_between {lo hi a : ℝ} (hlo : ρ.Exact lo) (hhi : ρ.Exact hi) (h₁ : lo ≤ a)
    (h₂ : a ≤ hi) : ∃ b : ℝ, ρ.round a = b ∧ lo ≤ b ∧ b ≤ hi := by
  have hle : (lo : EReal) ≤ ρ.round a := hlo ▸ ρ.mono h₁
  have hge : ρ.round a ≤ (hi : EReal) := hhi ▸ ρ.mono h₂
  have hbot : ρ.round a ≠ ⊥ := ne_of_gt ((EReal.bot_lt_coe lo).trans_le hle)
  have htop : ρ.round a ≠ ⊤ := ne_of_lt (hge.trans_lt (EReal.coe_lt_top hi))
  have hb : ρ.round a = ((ρ.round a).toReal : EReal) := (EReal.coe_toReal htop hbot).symm
  refine ⟨(ρ.round a).toReal,hb,?_,?_⟩
  · rw [hb] at hle
    exact EReal.coe_le_coe_iff.mp hle
  · rw [hb] at hge
    exact EReal.coe_le_coe_iff.mp hge

/-- What is smaller than a real result is real as well. -/
theorem round_le {a b s : ℝ} (ha : 0 ≤ a) (hab : a ≤ b) (hs : ρ.round b = s) :
    ∃ r : ℝ, ρ.round a = r ∧ 0 ≤ r ∧ r ≤ s := by
  have hle : (0 : EReal) ≤ ρ.round a := ρ.zero ▸ ρ.mono ha
  have hge : ρ.round a ≤ (s : EReal) := hs ▸ ρ.mono hab
  have hbot : ρ.round a ≠ ⊥ := ne_of_gt (EReal.bot_lt_zero.trans_le hle)
  have htop : ρ.round a ≠ ⊤ := ne_of_lt (hge.trans_lt (EReal.coe_lt_top s))
  have hr : ρ.round a = ((ρ.round a).toReal : EReal) := (EReal.coe_toReal htop hbot).symm
  refine ⟨(ρ.round a).toReal,hr,EReal.toReal_nonneg hle,?_⟩
  rw [hr] at hge
  exact EReal.coe_le_coe_iff.mp hge

end Rounding

namespace Floating

variable {F : Type} [LT F] [Add F] [Mul F] [Div F] [Floating F]

def IsNumber (x : F) : Prop := value x ≠ none

/-- A real number between the bounds. -/
def Within (x : F) (lo hi : ℝ) : Prop := ∃ a : ℝ, value x = some (a : EReal) ∧ lo ≤ a ∧ a ≤ hi

theorem Within.isNumber {x : F} {lo hi : ℝ} (h : Within x lo hi) : IsNumber x := by
  obtain ⟨a,ha,-⟩ := h
  rw [IsNumber,ha]
  exact Option.some_ne_none _

theorem Within.mono {x : F} {lo hi lo' hi' : ℝ} (h : Within x lo hi) (hlo : lo' ≤ lo)
    (hhi : hi ≤ hi') : Within x lo' hi' := by
  obtain ⟨a,ha,h₁,h₂⟩ := h
  exact ⟨a,ha,hlo.trans h₁,h₂.trans hhi⟩

/-- A result whose exact value lies between exact numbers. -/
theorem within_of_round {x : F} {a lo hi : ℝ} (hx : value x = some ((rounding F).round a))
    (hlo : (rounding F).Exact lo) (hhi : (rounding F).Exact hi) (h₁ : lo ≤ a) (h₂ : a ≤ hi) :
    Within x lo hi := by
  obtain ⟨b,hb,hbounds⟩ := Rounding.round_between hlo hhi h₁ h₂
  exact ⟨b,by rw [hx,hb],hbounds⟩

theorem Within.add {x y : F} {l h l' h' lo hi : ℝ} (hx : Within x l h) (hy : Within y l' h')
    (hlo : (rounding F).Exact lo) (hhi : (rounding F).Exact hi) (h₁ : lo ≤ l+l')
    (h₂ : h+h' ≤ hi) : Within (x+y) lo hi := by
  obtain ⟨a,ha,hal,hah⟩ := hx
  obtain ⟨b,hb,hbl,hbh⟩ := hy
  exact within_of_round (add_eq ha hb) hlo hhi (h₁.trans (add_le_add hal hbl))
    ((add_le_add hah hbh).trans h₂)

theorem Within.mul {x y : F} {l h l' h' lo hi : ℝ} (hx : Within x l h) (hy : Within y l' h')
    (hl : 0 ≤ l) (hl' : 0 ≤ l') (hlo : (rounding F).Exact lo) (hhi : (rounding F).Exact hi)
    (h₁ : lo ≤ l*l') (h₂ : h*h' ≤ hi) : Within (x*y) lo hi := by
  obtain ⟨a,ha,hal,hah⟩ := hx
  obtain ⟨b,hb,hbl,hbh⟩ := hy
  have ha₀ : 0 ≤ a := hl.trans hal
  have hb₀ : 0 ≤ b := hl'.trans hbl
  exact within_of_round (mul_eq ha hb) hlo hhi (h₁.trans (mul_le_mul hal hbl hl' ha₀))
    ((mul_le_mul hah hbh hb₀ (ha₀.trans hah)).trans h₂)

theorem Within.div {x y : F} {l h l' h' lo hi : ℝ} (hx : Within x l h) (hy : Within y l' h')
    (hl : 0 ≤ l) (hl' : 0 < l') (hlo : (rounding F).Exact lo) (hhi : (rounding F).Exact hi)
    (h₁ : lo ≤ l/h') (h₂ : h/l' ≤ hi) : Within (x/y) lo hi := by
  obtain ⟨a,ha,hal,hah⟩ := hx
  obtain ⟨b,hb,hbl,hbh⟩ := hy
  have ha₀ : 0 ≤ a := hl.trans hal
  have hb₀ : 0 < b := hl'.trans_le hbl
  exact within_of_round (div_eq ha hb hb₀.ne') hlo hhi (h₁.trans (div_le_div₀ ha₀ hal hb₀ hbh))
    ((div_le_div₀ (ha₀.trans hah) hah hl' hbl).trans h₂)

/-- Numbers are put in order by their values. -/
theorem isStrictWeakOrder_gt {s : Set F} (h : ∀ x ∈ s, IsNumber x) :
    IsStrictWeakOrder s fun x y => y.1 < x.1 := by
  have hvalue : ∀ x : s, ∃ a, value x.1 = some a := fun x =>
    Option.ne_none_iff_exists'.mp (h x.1 x.2)
  choose v hv using hvalue
  have hlt : ∀ x y : s, y.1 < x.1 ↔ v y < v x := by
    intro x y
    rw [lt_iff,hv,hv]
    simp
  exact
    { irrefl := fun x hx => lt_irrefl _ ((hlt x x).mp hx)
      trans := fun x y z hxy hyz => (hlt x z).mpr (((hlt y z).mp hyz).trans ((hlt x y).mp hxy))
      incomp_trans := by
        intro x y z hxy hyz
        simp only [hlt,not_lt] at *
        exact ⟨hxy.1.trans hyz.1,hyz.2.trans hxy.2⟩ }

end Floating

end FloatingPoint
