import ETraceDiag.ConfigReload
import ETraceDiag.Doubles
import ETraceDiag.TargetSelector
import Mathlib.Tactic.NormNum

/-!
# What Sanitize promises

The ranges of `Sanitize`, and what `Probe` and `Evaluate` compute in doubles from the keys that
have been sanitized. `ClampD` compares twice, and a value that is not a number passes through.
-/

namespace ETraceDiag
namespace ConfigBounds

open ConfigSources JsonGet FloatingPoint Floating Doubles
open TargetSelector (Weights ProcAgg)

variable {F : Type} [IeeeDouble F]

/-! ## The ranges -/

/-- The least and the greatest value of a key; two of them are other keys. -/
def bounds (c : Config F) : (k : Key) → Option (k.kind.Val F × k.kind.Val F)
  | .baseHostIntervalMs => some ((100 : UInt64),(60000 : UInt64))
  | .baseFeatureIntervalMs => some ((100 : UInt64),(60000 : UInt64))
  | .fineIntervalMs => some ((10 : UInt64),(5000 : UInt64))
  | .deepFineIntervalMs => some ((5 : UInt64),(1000 : UInt64))
  | .deepDumpIntervalMs => some ((100 : UInt64),(60000 : UInt64))
  | .profileFreqHz => some ((1 : UInt64),(10000 : UInt64))
  | .offcpuSampleRate => some ((1 : UInt32),(100000 : UInt32))
  | .iofileSampleRate => some ((1 : UInt32),(1000000 : UInt32))
  | .overheadIntervalMs => some ((100 : UInt64),(60000 : UInt64))
  | .preAnomalySeconds => some ((1 : UInt64),(3600 : UInt64))
  | .postAnomalySeconds => some ((1 : UInt64),(3600 : UInt64))
  | .ringBacklogSeconds => some ((1 : UInt64),(3600 : UInt64))
  | .endDebounceSamples => some ((1 : UInt32),(1000 : UInt32))
  | .endGraceSeconds => some ((0 : UInt64),(3600 : UInt64))
  | .maxTargets => some ((1 : UInt32),(1024 : UInt32))
  | .minTargets => some ((1 : UInt32),c .maxTargets)
  | .perProcThreads => some ((1 : UInt32),(256 : UInt32))
  | .concurrencyFactor => some (Double.lit 5 1,Double.lit 64 0)
  | .evalIntervalMs => some ((1000 : UInt64),(3600000 : UInt64))
  | .windowSeconds => some ((1 : UInt64),(3600 : UInt64))
  | .enterRank => some ((1 : UInt32),(1024 : UInt32))
  | .leaveRank => some (c .enterRank,(4096 : UInt32))
  | .holdPeriods => some ((1 : UInt32),(1000 : UInt32))
  | .minResidencySeconds => some ((0 : UInt64),(36000 : UInt64))
  | .weightCpu | .weightSwitch | .weightIo | .weightFault | .weightLock =>
    some (Double.lit 0 0,Double.lit 1 0)
  | .deepGpuIntervalMs => some ((10 : UInt64),(5000 : UInt64))
  | .netEventSampleRate => some ((1 : UInt32),(100000 : UInt32))
  | _ => none

def Between : {κ : Kind} → κ.Val F → κ.Val F → κ.Val F → Prop
  | .u64,lo,hi,v => lo ≤ v ∧ v ≤ hi
  | .u32,lo,hi,v => lo ≤ v ∧ v ≤ hi
  | .double,lo,hi,v => ∃ a ∈ value lo, ∃ b ∈ value hi, ∃ x ∈ value v, a ≤ x ∧ x ≤ b
  | _,_,_,_ => True

def InRange (c : Config F) (k : Key) : Prop :=
  match bounds c k with
  | some (lo,hi) => Between lo hi (c k)
  | none => True

/-- A double is a number. -/
def Numeric : {κ : Kind} → κ.Val F → Prop
  | .double,x => IsNumber x
  | _,_ => True

/-- Every double of the configuration is a number. -/
def Numbers (c : Config F) : Prop := ∀ k : Key, Numeric (c k)

/-! ## Computations in doubles -/

/-- What `Probe` rounds up: `(double)eff_cpus*concurrency_factor`. -/
def concurrency (c : Config F) (effCpus : UInt32) : F :=
  Number.ofInt effCpus.toNat*c .concurrencyFactor

/-- `(uint32_t)ceil(x)` has a value. -/
def Convertible (x : F) : Prop := ∃ r : ℝ, value x = some (r : EReal) ∧ 0 ≤ ⌈r⌉ ∧ ⌈r⌉ < 2^32

def weights (c : Config F) : Weights F where
  cpu := c .weightCpu
  swch := c .weightSwitch
  io := c .weightIo
  fault := c .weightFault
  lock := c .weightLock

/-- The length of the window; one that is not positive counts as a second. -/
def windowSeconds (windowNs : UInt64) : F :=
  let w := Number.ofInt windowNs.toNat/Double.lit 1000000000 0
  if Double.lit 0 0 < w then w else Double.lit 1 0

def sat (v : F) : F := clamp (Double.lit 0 0) (Double.lit 1 0) v

/-- A growth in the window for each second. -/
def rate (windowNs n : UInt64) : F := Number.ofInt n.toNat/windowSeconds windowNs

/-- `ComputeScore`. -/
def computeScore (w : Weights F) (windowNs : UInt64) (a : ProcAgg) : F :=
  let cpuUtil := sat (Number.ofInt a.onCpuNs.toNat/(windowSeconds windowNs*Double.lit 1000000000 0))
  w.cpu*cpuUtil+w.swch*sat (rate windowNs a.sw/Double.lit 10000 0)+
    w.io*((sat (rate windowNs a.ioOps/Double.lit 10000 0)+
      sat (rate windowNs a.ioBytes/Double.lit 1073741824 0))/Double.lit 2 0)+
    w.fault*sat (rate windowNs a.faults/Double.lit 10000 0)+
    w.lock*sat (rate windowNs a.lock/Double.lit 1000 0)

/-- What `Sanitize` is to leave: every key in its range, nothing more to sanitize, and the doubles
of `Probe`, on a machine of at most 2²⁵ processors, and of `Evaluate` as the code needs them. -/
structure Safe (c : Config F) : Prop where
  ranges : ∀ k, InRange c k
  idempotent : sanitize c = c
  probe : ∀ effCpus : UInt32, effCpus.toNat ≤ 2^25 → Convertible (concurrency c effCpus)
  compare : ∀ (windowNs : UInt64) (procs : List ProcAgg),
    IsStrictWeakOrder {x : F | x ∈ procs.map (computeScore (weights c) windowNs)}
      fun x y => y.1 < x.1

/-! ## Clamps -/

section Clamp

open Std

theorem clamp_between {α : Type} [LE α] [LT α] [DecidableLT α] [IsLinearOrder α]
    [LawfulOrderLT α] {lo hi v : α} (h : lo ≤ hi) : lo ≤ clamp lo hi v ∧ clamp lo hi v ≤ hi := by
  rw [clamp]
  split
  · exact ⟨le_refl lo,h⟩
  · next hlo =>
    split
    · exact ⟨h,le_refl hi⟩
    · next hhi => exact ⟨not_lt.mp hlo,not_lt.mp hhi⟩

theorem clamp_clamp {α : Type} [LT α] [DecidableLT α] {lo hi : α} (hlo : ¬ lo < lo)
    (hhi : ¬ hi < hi) (h : ¬ hi < lo) (v : α) : clamp lo hi (clamp lo hi v) = clamp lo hi v := by
  by_cases h₁ : v < lo
  · have hv : clamp lo hi v = lo := if_pos h₁
    rw [hv,clamp,if_neg hlo,if_neg h]
  · by_cases h₂ : hi < v
    · have hv : clamp lo hi v = hi := by rw [clamp,if_neg h₁,if_pos h₂]
      rw [hv,clamp,if_neg h,if_neg hhi]
    · have hv : clamp lo hi v = v := by rw [clamp,if_neg h₁,if_neg h₂]
      rw [hv,hv]

end Clamp

theorem not_lt_of_not_number {x : F} (h : ¬ IsNumber x) (y : F) : ¬ x < y ∧ ¬ y < x := by
  rw [IsNumber,not_not] at h
  rw [lt_iff,lt_iff,h]
  simp

/-- `ClampD` returns what is not a number. -/
theorem clamp_of_not_number {v : F} (h : ¬ IsNumber v) (lo hi : F) : clamp lo hi v = v := by
  rw [clamp,if_neg (not_lt_of_not_number h lo).1,if_neg (not_lt_of_not_number h hi).2]

theorem clamp_within {lo hi v : F} {a b : ℝ} (hlo : value lo = some (a : EReal))
    (hhi : value hi = some (b : EReal)) (hab : a ≤ b) (hv : IsNumber v) :
    Within (clamp lo hi v) a b := by
  obtain ⟨x,hx⟩ := Option.ne_none_iff_exists'.mp hv
  rw [clamp]
  split
  · exact ⟨a,hlo,le_refl a,hab⟩
  · next h₁ =>
    rw [lt_iff_of_value hx hlo,not_lt] at h₁
    split
    · exact ⟨b,hhi,hab,le_refl b⟩
    · next h₂ =>
      rw [lt_iff_of_value hhi hx,not_lt] at h₂
      have hreal : x = (x.toReal : EReal) :=
        (EReal.coe_toReal (ne_of_lt (h₂.trans_lt (EReal.coe_lt_top b)))
          (ne_of_gt ((EReal.bot_lt_coe a).trans_le h₁))).symm
      refine ⟨x.toReal,by rw [← hreal,hx],?_,?_⟩
      · exact EReal.coe_le_coe_iff.mp (hreal ▸ h₁)
      · exact EReal.coe_le_coe_iff.mp (hreal ▸ h₂)

/-! ## Sizes -/

theorem value_half : value (Double.lit 5 1 : F) = some (((2 : ℝ)^(-1 : ℤ) : ℝ) : EReal) :=
  value_lit (exact_zpow (by decide) (by decide)) (by norm_num)

theorem value_sixtyFour : value (Double.lit 64 0 : F) = some (((2 : ℝ)^(6 : ℤ) : ℝ) : EReal) :=
  value_lit (exact_zpow (by decide) (by decide)) (by norm_num)

/-- A clamped number is between 0 and 1. -/
theorem sat_within {v : F} (h : IsNumber v) : Within (sat v) 0 1 :=
  clamp_within value_zero value_one zero_le_one h

/-- A window is neither zero nor infinite. -/
theorem windowSeconds_within (windowNs : UInt64) :
    Within (windowSeconds windowNs : F) (2^(-30 : ℤ)) (2^(35 : ℤ)) := by
  have hone : Within (Double.lit 1 0 : F) (2^(-30 : ℤ)) (2^(35 : ℤ)) :=
    ⟨1,value_one,by norm_num,by norm_num⟩
  dsimp only [windowSeconds]
  split
  · next hpos =>
    by_cases hzero : windowNs.toNat = 0
    · -- a window without length is not positive
      obtain ⟨b,hb,hb₀,-⟩ := (billion_within (F:=F))
      have hb₁ : b ≠ 0 := ne_of_gt (lt_of_lt_of_le (by positivity) hb₀)
      have hofInt : value (Number.ofInt windowNs.toNat : F) = some ((0 : ℝ) : EReal) := by
        rw [IeeeDouble.ofInt_eq,hzero]
        exact congrArg some (by simpa using (rounding F).zero)
      have hquot := div_eq hofInt hb hb₁
      rw [zero_div,(rounding F).zero] at hquot
      rw [lt_iff_of_value value_zero hquot] at hpos
      exact absurd hpos (lt_irrefl _)
    · have hn : Within (Number.ofInt windowNs.toNat : F) 1 (2^(64 : ℤ)) := by
        refine within_of_round (IeeeDouble.ofInt_eq _) (rounding F).exact_one
          (exact_zpow (by decide) (by decide)) ?_ ?_
        · exact_mod_cast Nat.one_le_iff_ne_zero.mpr hzero
        · exact_mod_cast windowNs.toNat_lt.le
      exact hn.div billion_within zero_le_one (by positivity)
        (exact_zpow (by decide) (by decide)) (exact_zpow (by decide) (by decide))
        (by norm_num) (by norm_num)
  · exact hone

theorem rate_within (windowNs n : UInt64) : Within (rate windowNs n : F) 0 (2^(94 : ℤ)) :=
  (within_ofU64 n).div (windowSeconds_within windowNs) (le_refl 0) (by positivity)
    (rounding F).exact_zero (exact_zpow (by decide) (by decide)) (by positivity) (by norm_num)

theorem sat_rate_within (windowNs n : UInt64) {m : ℕ} (h₁ : 1 ≤ m) (h₂ : m ≤ 2^30) :
    Within (sat (rate windowNs n/(Double.lit m 0 : F))) 0 1 := by
  have hm : Within (Double.lit m 0 : F) 1 (2^(30 : ℤ)) := by
    refine within_lit (rounding F).exact_one (exact_zpow (by decide) (by decide)) ?_ ?_
    · rw [pow_zero,div_one]
      exact_mod_cast h₁
    · rw [pow_zero,div_one]
      exact_mod_cast h₂
  have hquot : Within (rate windowNs n/(Double.lit m 0 : F)) 0 (2^(94 : ℤ)) :=
    (rate_within windowNs n).div hm (le_refl 0) zero_lt_one (rounding F).exact_zero
      (exact_zpow (by decide) (by decide)) (by positivity) (by norm_num)
  exact sat_within hquot.isNumber

theorem cpuUtil_within (windowNs n : UInt64) :
    Within (sat (Number.ofInt n.toNat/(windowSeconds windowNs*Double.lit 1000000000 0) : F)) 0
      1 := by
  have hns : Within (windowSeconds windowNs*Double.lit 1000000000 0 : F) (2^(-1 : ℤ))
      (2^(65 : ℤ)) :=
    (windowSeconds_within windowNs).mul billion_within (by positivity) (by positivity)
      (exact_zpow (by decide) (by decide)) (exact_zpow (by decide) (by decide)) (by norm_num)
      (by norm_num)
  have hquot : Within (Number.ofInt n.toNat/(windowSeconds windowNs*Double.lit 1000000000 0) : F) 0
      (2^(65 : ℤ)) :=
    (within_ofU64 n).div hns (le_refl 0) (by positivity) (rounding F).exact_zero
      (exact_zpow (by decide) (by decide)) (by positivity) (by norm_num)
  exact sat_within hquot.isNumber

/-- A weight of a part that is between 0 and 1. -/
theorem within_weigh {w x : F} (hw : Within w 0 1) (hx : Within x 0 1) : Within (w*x) 0 1 :=
  hw.mul hx (le_refl 0) (le_refl 0) (rounding F).exact_zero (rounding F).exact_one (by norm_num)
    (by norm_num)

theorem within_sum {x y : F} {k : ℤ} (hx : Within x 0 (2^k)) (hy : Within y 0 1) (h₀ : 0 ≤ k)
    (h₁ : k ≤ 1022) : Within (x+y) 0 (2^(k+1)) := by
  refine hx.add hy (rounding F).exact_zero (exact_zpow (by omega) (by omega)) (by norm_num) ?_
  have hone : (1 : ℝ) ≤ 2^k := one_le_zpow₀ (by norm_num) h₀
  rw [zpow_add_one₀ (by norm_num)]
  linarith

/-- Weights between 0 and 1 give a score that is a number. -/
theorem computeScore_isNumber {w : Weights F} (hcpu : Within w.cpu 0 1) (hswch : Within w.swch 0 1)
    (hio : Within w.io 0 1) (hfault : Within w.fault 0 1) (hlock : Within w.lock 0 1)
    (windowNs : UInt64) (a : ProcAgg) : IsNumber (computeScore w windowNs a) := by
  have hhalf : Within ((sat (rate windowNs a.ioOps/Double.lit 10000 0)+
      sat (rate windowNs a.ioBytes/Double.lit 1073741824 0))/(Double.lit 2 0 : F)) 0 1 := by
    have hsum : Within (sat (rate windowNs a.ioOps/(Double.lit 10000 0 : F))+
        sat (rate windowNs a.ioBytes/Double.lit 1073741824 0)) 0 (2^(1 : ℤ)) :=
      (sat_rate_within windowNs a.ioOps (by decide) (by decide)).add
        (sat_rate_within windowNs a.ioBytes (by decide) (by decide)) (rounding F).exact_zero
        (exact_zpow (by decide) (by decide)) (by norm_num) (by norm_num)
    have htwo : Within (Double.lit 2 0 : F) (2^(1 : ℤ)) (2^(1 : ℤ)) :=
      within_lit (exact_zpow (by decide) (by decide)) (exact_zpow (by decide) (by decide))
        (by norm_num) (by norm_num)
    exact hsum.div htwo (le_refl 0) (by positivity) (rounding F).exact_zero (rounding F).exact_one
      (by norm_num) (by norm_num)
  have h₀ : Within (w.cpu*sat (Number.ofInt a.onCpuNs.toNat/
      (windowSeconds windowNs*Double.lit 1000000000 0))) 0 (2^(0 : ℤ)) :=
    (within_weigh hcpu (cpuUtil_within windowNs a.onCpuNs)).mono (le_refl 0) (by norm_num)
  have h₁ := within_sum h₀ (within_weigh hswch
    (sat_rate_within windowNs a.sw (m:=10000) (by decide) (by decide))) (by decide) (by decide)
  have h₂ := within_sum h₁ (within_weigh hio hhalf) (by decide) (by decide)
  have h₃ := within_sum h₂ (within_weigh hfault
    (sat_rate_within windowNs a.faults (m:=10000) (by decide) (by decide))) (by decide) (by decide)
  have h₄ := within_sum h₃ (within_weigh hlock
    (sat_rate_within windowNs a.lock (m:=1000) (by decide) (by decide))) (by decide) (by decide)
  exact h₄.isNumber

/-- At most 2²⁵ processors times at most 64 fit in 32 bits. -/
theorem concurrency_convertible {c : Config F} {effCpus : UInt32}
    (hfew : effCpus.toNat ≤ 2^25)
    (hfactor : Within (c .concurrencyFactor) (2^(-1 : ℤ)) (2^(6 : ℤ))) :
    Convertible (concurrency c effCpus) := by
  have hcpus : Within (Number.ofInt effCpus.toNat : F) 0 (2^(25 : ℤ)) := by
    refine within_of_round (IeeeDouble.ofInt_eq _) (rounding F).exact_zero
      (exact_zpow (by decide) (by decide)) ?_ ?_
    · exact_mod_cast Nat.zero_le effCpus.toNat
    · exact_mod_cast hfew
  have hproduct : Within (concurrency c effCpus) 0 (2^(31 : ℤ)) :=
    hcpus.mul hfactor (le_refl 0) (by positivity) (rounding F).exact_zero
      (exact_zpow (by decide) (by decide)) (by norm_num) (by norm_num)
  obtain ⟨r,hr,hlo,hhi⟩ := hproduct
  refine ⟨r,hr,Int.ceil_nonneg hlo,?_⟩
  have hceil : ⌈r⌉ ≤ 2^31 := Int.ceil_le.mpr (hhi.trans (by norm_num))
  exact lt_of_le_of_lt hceil (by norm_num)

/-! ## Sanitized configurations -/

theorem between_of_within {lo hi v : F} {a b : ℝ} (hlo : value lo = some (a : EReal))
    (hhi : value hi = some (b : EReal)) (h : Within v a b) : Between (κ:=.double) lo hi v := by
  obtain ⟨r,hr,h₁,h₂⟩ := h
  exact ⟨a,hlo,b,hhi,r,hr,EReal.coe_le_coe_iff.mpr h₁,EReal.coe_le_coe_iff.mpr h₂⟩

/-- Only numbers come out of a clamp between its bounds. -/
theorem isNumber_of_between {lo hi v : F} (h : Between (κ:=.double) lo hi (clamp lo hi v)) :
    IsNumber v := by
  obtain ⟨-,-,-,-,x,hx,-⟩ := h
  by_contra hv
  rw [clamp_of_not_number hv] at hx
  exact hv (by rw [IsNumber,hx]; exact Option.some_ne_none x)

theorem weight_within {v : F} (h : IsNumber v) :
    Within (clamp (Double.lit 0 0) (Double.lit 1 0) v) 0 1 := sat_within h

theorem factor_within {v : F} (h : IsNumber v) :
    Within (clamp (Double.lit 5 1) (Double.lit 64 0) v) (2^(-1 : ℤ)) (2^(6 : ℤ)) :=
  clamp_within value_half value_sixtyFour (by norm_num) h

omit [IeeeDouble F] in
theorem one_le_maxTargets (c : Config F) : 1 ≤ maxTargets c := (clamp_between (by decide)).1

omit [IeeeDouble F] in
theorem enterRank_le (c : Config F) : enterRank c ≤ 4096 :=
  Std.le_trans (clamp_between (by decide : (1 : UInt32) ≤ 1024)).2 (by decide)

theorem inRange_sanitize {c : Config F} (h : Numbers c) (k : Key) : InRange (sanitize c) k := by
  have hweight : ∀ v : F, IsNumber v → Between (κ:=.double) (Double.lit 0 0) (Double.lit 1 0)
      (clamp (Double.lit 0 0) (Double.lit 1 0) v) :=
    fun v hv => between_of_within value_zero value_one (weight_within hv)
  have hk := h k
  cases k with
  | minTargets => exact clamp_between (one_le_maxTargets c)
  | leaveRank => exact clamp_between (enterRank_le c)
  | concurrencyFactor =>
    exact between_of_within value_half value_sixtyFour (factor_within hk)
  | weightCpu | weightSwitch | weightIo | weightFault | weightLock =>
    exact hweight _ hk
  | _ =>
    first
    | exact trivial
    | exact clamp_between (of_decide_eq_true rfl)

theorem numbers_of_inRange {c : Config F} (h : ∀ k, InRange (sanitize c) k) : Numbers c := by
  intro k
  have hk := h k
  cases k with
  | concurrencyFactor | weightCpu | weightSwitch | weightIo | weightFault | weightLock =>
    exact isNumber_of_between hk
  | _ => exact trivial

theorem clamp_clamp_double {lo hi : F} {a b : ℝ} (hlo : value lo = some (a : EReal))
    (hhi : value hi = some (b : EReal)) (hab : a ≤ b) (v : F) :
    clamp lo hi (clamp lo hi v) = clamp lo hi v := by
  refine clamp_clamp ?_ ?_ ?_ v
  · rw [lt_iff_of_value hlo hlo]
    exact lt_irrefl _
  · rw [lt_iff_of_value hhi hhi]
    exact lt_irrefl _
  · rw [lt_iff_of_value hhi hlo,EReal.coe_lt_coe_iff]
    exact not_lt.mpr hab

/-- Sanitizing twice is sanitizing once, also of what is not a number. -/
theorem sanitize_sanitize (c : Config F) : sanitize (sanitize c) = sanitize c := by
  have hint : ∀ {lo hi : UInt32} (v : UInt32), lo ≤ hi →
      clamp lo hi (clamp lo hi v) = clamp lo hi v := fun v h =>
    clamp_clamp Std.lt_irrefl Std.lt_irrefl (Std.not_lt.mpr h) v
  have hweight : ∀ v : F, clamp (Double.lit 0 0) (Double.lit 1 0)
      (clamp (Double.lit 0 0) (Double.lit 1 0) v) = clamp (Double.lit 0 0) (Double.lit 1 0) v :=
    clamp_clamp_double value_zero value_one zero_le_one
  have htargets : maxTargets (sanitize c) = maxTargets c := hint _ (by decide)
  have hrank : enterRank (sanitize c) = enterRank c := hint _ (by decide)
  funext k
  rw [sanitize,sanitizeKey_congr htargets hrank]
  cases k with
  | minTargets => exact hint _ (one_le_maxTargets c)
  | leaveRank => exact hint _ (enterRank_le c)
  | concurrencyFactor =>
    dsimp only [sanitize,sanitizeKey]
    exact clamp_clamp_double value_half value_sixtyFour (by norm_num) _
  | weightCpu | weightSwitch | weightIo | weightFault | weightLock =>
    dsimp only [sanitize,sanitizeKey]
    exact hweight _
  | adapter | outputDir | gpuSource =>
    dsimp only [sanitize,sanitizeKey]
    split <;> simp_all
  | _ =>
    dsimp only [sanitize,sanitizeKey]
    first
    | exact clamp_clamp (of_decide_eq_true rfl) (of_decide_eq_true rfl) (of_decide_eq_true rfl) _
    | rfl

theorem safe_sanitize_iff (c : Config F) : Safe (sanitize c) ↔ Numbers c := by
  constructor
  · exact fun h => numbers_of_inRange h.ranges
  · intro h
    refine ⟨inRange_sanitize h,sanitize_sanitize c,fun effCpus hfew => ?_,fun windowNs procs => ?_⟩
    · exact concurrency_convertible hfew (factor_within (h .concurrencyFactor))
    · refine isStrictWeakOrder_gt fun x hx => ?_
      obtain ⟨a,-,rfl⟩ := List.mem_map.mp hx
      exact computeScore_isNumber (weight_within (h .weightCpu)) (weight_within (h .weightSwitch))
        (weight_within (h .weightIo)) (weight_within (h .weightFault))
        (weight_within (h .weightLock)) windowNs a

theorem numbers_sanitize {c : Config F} (h : Numbers c) : Numbers (sanitize c) := by
  intro k
  have hk := h k
  cases k with
  | concurrencyFactor => exact (factor_within hk).isNumber
  | weightCpu | weightSwitch | weightIo | weightFault | weightLock =>
    exact (weight_within hk).isNumber
  | _ => exact trivial

/-! ## Starting and reloading -/

/-- No source gives a double something that is not a number. -/
def SourcesNumeric (cl : CommandLine) (env : Environment) (file : File F) : Prop :=
  ∀ k : Key, ∀ x ∈ given? cl env file k, Numeric x

theorem numbers_defaultConfig : Numbers (defaultConfig : Config F) := by
  intro k
  by_cases hk : k = .outputDir
  · subst hk
    exact trivial
  · rw [defaultConfig,Function.update_of_ne hk]
    cases k with
    | concurrencyFactor | weightCpu | weightSwitch | weightIo | weightFault | weightLock =>
      exact lit_isNumber _ _
    | _ => exact trivial

variable {cl : CommandLine} {env : Environment} {file : File F}

theorem numeric_of_value? {k : Key} {d : k.kind.Val F} (hd : cl.value? k = some d)
    (x : k.kind.Val F) : Numeric x := by
  cases k with
  | outputDir => exact trivial
  | _ => cases hd

theorem numbers_fresh_iff : Numbers (fresh cl env file) ↔ SourcesNumeric cl env file := by
  refine forall_congr' fun k => ?_
  rw [fresh]
  cases hd : (cl.value? k : Option (k.kind.Val F)) with
  | some d => exact iff_of_true (numeric_of_value? hd _) fun x _ => numeric_of_value? hd x
  | none =>
    rw [Option.getD_none]
    cases given? cl env file k with
    | none => exact iff_of_true (numbers_defaultConfig k) fun x hx => by cases hx
    | some x => simp

/-- A start that finds its file ends with a configuration. -/
theorem start_of_usable (h : Usable cl file) :
    start cl env file = some (sanitize (fresh cl env file)) := by
  cases hstart : start cl env file with
  | some c => rw [(start_eq_some hstart).2]
  | none =>
    rw [start,Option.map_eq_none_iff] at hstart
    rcases h with hconfig | ⟨j,hj,hreadable⟩
    · rw [if_neg (by rw [hconfig]; decide)] at hstart
      cases hstart
    · split at hstart
      · rw [hj,Option.bind_some,(mergeConfig_eq defaultConfig j).1 hreadable] at hstart
        cases hstart
      · cases hstart

/-- A file that cannot be used leaves the base as it is. -/
theorem reload_of_unusable (h : ¬ Usable cl file) (base : Config F) :
    reload cl env base file = sanitize (applyEnvOverrides env base) := by
  rw [reload]
  split
  · cases hj : file.json? with
    | none => rfl
    | some j =>
      have hreadable : ¬ Readable j := fun hr => h (Or.inr ⟨j,hj,hr⟩)
      rw [Option.bind_some,(mergeConfig_eq base j).2 hreadable]
      rfl
  · rfl

/-- A reload keeps numbers when the sources give numbers. -/
theorem safe_reload_iff {base : Config F} (hbase : Numbers base)
    (henv : ∀ k : Key, ∀ x ∈ envValue? (F:=F) env k, Numeric x) :
    Safe (reload cl env base file) ↔ (Usable cl file → SourcesNumeric cl env file) := by
  by_cases husable : Usable cl file
  · rw [reload_eq husable,safe_sanitize_iff]
    have hkey : Numbers (fun k => (given? cl env file k).getD (base k)) ↔
        SourcesNumeric cl env file := by
      refine forall_congr' fun k => ?_
      dsimp only
      cases given? cl env file k with
      | none => exact iff_of_true (hbase k) fun x hx => by cases hx
      | some x => simp
    rw [hkey]
    exact ⟨fun h _ => h,fun h => h husable⟩
  · rw [reload_of_unusable husable,safe_sanitize_iff]
    refine iff_of_true (fun k => ?_) fun h => absurd h husable
    rw [applyEnvOverrides]
    cases hx : (envValue? env k : Option (k.kind.Val F)) with
    | none => exact hbase k
    | some x => exact henv k x hx

theorem numeric_envValue? (h : SourcesNumeric cl env file) (k : Key) :
    ∀ x ∈ envValue? env k, Numeric (F:=F) x := by
  intro x hx
  refine h k x ?_
  rw [given?,Option.mem_def.mp hx]
  rfl

/-- The configurations of a start and of every reload are safe exactly when no file that is read
and no variable of the environment gives a double that is not a number. -/
theorem safe_iff (cl : CommandLine) (env : Environment) (file : File F) (files : List (File F)) :
    (∀ initial, start cl env file = some initial → ∀ before after, files = before++after →
      Safe (reloads cl env initial before)) ↔
      (Usable cl file → SourcesNumeric cl env file ∧
        ∀ new ∈ files, Usable cl new → SourcesNumeric cl env new) := by
  constructor
  · intro h husable
    have hstart := @start_of_usable F _ cl env file husable
    have hnumeric : SourcesNumeric cl env file := by
      rw [← numbers_fresh_iff,← safe_sanitize_iff]
      exact h _ hstart [] files rfl
    refine ⟨hnumeric,fun new hnew => ?_⟩
    obtain ⟨before,after,hfiles⟩ := List.append_of_mem hnew
    have hsafe := h _ hstart (before++[new]) after (by rw [hfiles,List.append_assoc]; rfl)
    rw [reloads_concat] at hsafe
    exact (safe_reload_iff (numbers_sanitize (numbers_fresh_iff.mpr hnumeric))
      (numeric_envValue? hnumeric)).mp hsafe
  · intro h initial hinitial before after hfiles
    obtain ⟨husable,rfl⟩ := start_eq_some hinitial
    obtain ⟨hnumeric,hnew⟩ := h husable
    have hfresh : Numbers (fresh cl env file) := numbers_fresh_iff.mpr hnumeric
    rcases List.eq_nil_or_concat before with rfl | ⟨earlier,new,rfl⟩
    · exact (safe_sanitize_iff _).mpr hfresh
    · rw [List.concat_eq_append] at hfiles ⊢
      rw [reloads_concat]
      have hmem : new ∈ files := by
        rw [hfiles]
        exact List.mem_append_left _ (List.mem_append_right _ List.mem_cons_self)
      exact (safe_reload_iff (numbers_sanitize hfresh) (numeric_envValue? hnumeric)).mpr
        (hnew new hmem)

/-! ## A factor that is not a number -/

/-- `ETRACE_DIAG_TARGETS_CONCURRENCY_FACTOR=nan`. -/
def nanFactor : Environment := fun name =>
  if name = "ETRACE_DIAG_TARGETS_CONCURRENCY_FACTOR" then some "nan" else none

/-- The factor is not a number after the start, and `Probe` converts it. -/
theorem nanFactor_not_safe :
    ¬ ∀ (cl : CommandLine) (env : Environment) (file : File Decimal) (c : Config Decimal),
      start cl env file = some c → Safe c := by
  intro h
  have hstart : (start ⟨false,""⟩ nanFactor (File.unreadable : File Decimal)).map
      (fun c => match c .concurrencyFactor with | .nan => true | .number _ => false) =
        some true := by
    decide +kernel
  obtain ⟨c,hc,hnan⟩ := Option.map_eq_some_iff.mp hstart
  obtain ⟨r,hr,-⟩ := (h _ _ _ c hc).probe 1 (by decide)
  have hfactor : c .concurrencyFactor = (Decimal.nan : Decimal) := by
    cases hx : c .concurrencyFactor with
    | nan => rfl
    | number q => rw [hx] at hnan; cases hnan
  rw [concurrency,hfactor] at hr
  cases hr

end ConfigBounds
end ETraceDiag
