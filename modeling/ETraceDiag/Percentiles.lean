import Mathlib.Data.Nat.Log
import ETraceDiag.DeepDump
import ETraceDiag.EpisodeMaps
import ETraceDiag.RankBins
import ETraceDiag.Significand

/-!
# Percentiles of the latency histograms

The BPF programs bin every latency with `add_hist13` or `add_hist64`; `PercentileUs` walks the
bins and gives the lower edge of one of them. The results say when that edge is the one below
the latency of the wanted rank.
-/

namespace ETraceDiag
namespace Percentiles

open RankBins Significand EpisodeMaps
open DeepDump (DumpFloat percentileLoop percentileUs)

/-- The two histograms, with the arguments that the callers of `PercentileUs` give. -/
inductive Shape
  | hist13
  | hist64
  deriving DecidableEq,Repr

def Shape.bins : Shape → ℕ
  | .hist13 => 13
  | .hist64 => 64

def Shape.baseNs : Shape → ℕ
  | .hist13 => 256
  | .hist64 => 1

def Shape.factor : Shape → ℕ
  | .hist13 => 4
  | .hist64 => 2

def Shape.bin : Shape → ℕ → ℕ
  | .hist13 => base4Bin
  | .hist64 => log2lBin

/-- `q`: 0.50 and 0.99. -/
inductive Level
  | p50
  | p99
  deriving DecidableEq,Repr

def Level.percent : Level → ℕ
  | .p50 => 50
  | .p99 => 99

/-! ## add_hist13 and add_hist64 -/

/-- `hist[bin(ns)]++`. -/
def Shape.addHist (sh : Shape) (hist : List UInt32) (ns : UInt64) : List UInt32 :=
  hist.modify (sh.bin ns.toNat) (·+1)

def Shape.histOf (sh : Shape) (xs : List UInt64) : List UInt32 :=
  xs.foldl sh.addHist (List.replicate sh.bins 0)

/-! ## PercentileUs before the conversion to float -/

/-- The double nearest to `q` percent, `q` from 50 to 99, as a multiple of 2^-53. -/
def literal (q : ℕ) : ℕ := (q*2^53+50)/100

/-- `(u64)((double)total * q)`. -/
def quantile (total : UInt64) (q : ℕ) : UInt64 :=
  UInt64.ofNat (round53 (round53 total.toNat*literal q)/2^53)

/-- The edge that `PercentileUs` divides by 1000, 0 where it gives `0.0f`. -/
def percentileNs (quantile : UInt64 → ℕ → UInt64) (hist : List UInt32) (baseNs factor : UInt64)
    (q : ℕ) : UInt64 :=
  let total := hist.foldl (fun t h => t+h.toUInt64) 0
  if total = 0 then 0
  else
    let target := quantile total q
    let target := if target = 0 then 1 else target
    (percentileLoop factor target baseNs 0 hist).getD 0

/-- `PercentileUs` converts that edge. -/
theorem percentileUs_eq {F : Type} [DumpFloat F]
    (hzero : (DumpFloat.nsToUs 0 : F) = SqlTable.Double.zero) (hist : List UInt32)
    (baseNs factor : UInt64) (q : ℕ) : (percentileUs hist baseNs factor q : F) =
      DumpFloat.nsToUs (percentileNs (DumpFloat.quantile F) hist baseNs factor q) := by
  simp only [percentileUs,percentileNs]
  split
  · exact hzero.symm
  · split
    · next lo h => rw [h,Option.getD_some]
    · next h => rw [h,Option.getD_none,hzero]

def Shape.percentile (sh : Shape) (l : Level) (xs : List UInt64) : UInt64 :=
  percentileNs quantile (sh.histOf xs) (UInt64.ofNat sh.baseNs) (UInt64.ofNat sh.factor) l.percent

/-! ## The contract -/

/-- `max(1, floor(n*q))`. -/
def Level.rank (l : Level) (n : ℕ) : ℕ := max 1 (n*l.percent/100)

def Shape.edge (sh : Shape) (i : ℕ) : ℕ := sh.baseNs*sh.factor^i

/-- The value is the lower edge of a bin that has `x` in it; the last bin has no upper edge. -/
def Shape.Below (sh : Shape) (value x : ℕ) : Prop :=
  ∃ i < sh.bins, value = sh.edge i ∧ sh.edge i ≤ x ∧ (i+1 < sh.bins → x < sh.edge (i+1))

/-- The latency of that rank. -/
def Level.latency (l : Level) (xs : List UInt64) : Option ℕ :=
  ranked (xs.map UInt64.toNat) (l.rank xs.length)

/-- `PercentileUs` gives the edge below the latency of the rank, and 0 when there is none. -/
structure Shape.Brackets (sh : Shape) (l : Level) (xs : List UInt64) : Prop where
  empty : xs = [] → sh.percentile l xs = 0
  below : ∀ x, l.latency xs = some x → sh.Below (sh.percentile l xs).toNat x

/-! ## When it holds -/

def Shape.exactCounts (sh : Shape) (xs : List UInt64) : List ℕ :=
  counts sh.bin sh.bins (xs.map UInt64.toNat)

/-- The counts as a `u32` keeps them. -/
def Shape.cutCounts (sh : Shape) (xs : List UInt64) : List ℕ :=
  (sh.exactCounts xs).map (· % 2^32)

/-- Cutting the counts to 32 bits does not move the rank to another bin. -/
def Shape.SameBin (sh : Shape) (l : Level) (xs : List UInt64) : Prop :=
  reach (l.rank (sh.cutCounts xs).sum) 0 (sh.cutCounts xs) =
    reach (l.rank xs.length) 0 (sh.exactCounts xs)

/-! ## The bins -/

theorem shiftLoop_eq {bits limit : ℕ} (hlimit : limit = 2^bits) (hbits : 0 < bits) (fuel : ℕ) :
    ∀ v b, shiftLoop bits limit fuel v b = b+min fuel (Nat.log limit v) := by
  have hone : 1 < limit := by
    rw [hlimit]
    exact Nat.one_lt_two_pow (Nat.pos_iff_ne_zero.mp hbits)
  induction fuel with
  | zero => intro v b; simp [shiftLoop]
  | succ fuel ih =>
    intro v b
    rw [shiftLoop]
    split
    · next hv => simp [Nat.log_of_lt hv]
    · next hv =>
      have hpos : 0 < Nat.log limit v := Nat.log_pos hone (Nat.le_of_not_lt hv)
      rw [ih,Nat.shiftRight_eq_div_pow,← hlimit,Nat.log_div_base]
      omega

/-- A bin is a logarithm, cut at the last bin. -/
theorem Shape.bin_eq (sh : Shape) (x : ℕ) :
    sh.bin x = min (sh.bins-1) (Nat.log sh.factor (x/sh.baseNs)) := by
  cases sh with
  | hist13 =>
    simp only [Shape.bin,Shape.bins,Shape.factor,Shape.baseNs,base4Bin]
    split
    · next hx => simp [Nat.div_eq_of_lt hx]
    · have hloop := shiftLoop_eq (show 4 = 2^2 from rfl) (by decide) 30 (x >>> 8) 0
      rw [hloop,Nat.shiftRight_eq_div_pow]
      simp only [Nat.reducePow]
      split <;> omega
  | hist64 =>
    simp only [Shape.bin,Shape.bins,Shape.factor,Shape.baseNs,log2lBin,Nat.div_one]
    split
    · next hx => simp [Nat.log_of_lt hx]
    · have hloop := shiftLoop_eq (show 2 = 2^1 from rfl) (by decide) 63 x 0
      rw [hloop]
      split <;> omega

theorem Shape.bin_lt (sh : Shape) (x : ℕ) : sh.bin x < sh.bins := by
  rw [sh.bin_eq]
  cases sh <;> simp only [Shape.bins] <;> omega

theorem Shape.monotone_bin (sh : Shape) : Monotone sh.bin := by
  intro x y hxy
  rw [sh.bin_eq,sh.bin_eq]
  exact min_le_min_left _ (Nat.log_mono_right (Nat.div_le_div_right hxy))

theorem Shape.one_lt_factor (sh : Shape) : 1 < sh.factor := by cases sh <;> decide

theorem Shape.baseNs_pos (sh : Shape) : 0 < sh.baseNs := by cases sh <;> decide

theorem Shape.edge_strictMono (sh : Shape) : StrictMono sh.edge := by
  refine strictMono_nat_of_lt_succ fun i => ?_
  exact Nat.mul_lt_mul_of_pos_left (Nat.pow_lt_pow_succ sh.one_lt_factor) sh.baseNs_pos

theorem Shape.baseNs_le_edge (sh : Shape) (i : ℕ) : sh.baseNs ≤ sh.edge i :=
  Nat.le_mul_of_pos_right _ (Nat.pow_pos (Nat.lt_of_succ_lt sh.one_lt_factor))

/-- From the base on, the bins are the intervals between the edges. -/
theorem Shape.bin_interval (sh : Shape) {x : ℕ} (hx : sh.baseNs ≤ x) :
    sh.edge (sh.bin x) ≤ x ∧ (sh.bin x+1 < sh.bins → x < sh.edge (sh.bin x+1)) := by
  have hq : x/sh.baseNs ≠ 0 := (Nat.div_pos hx sh.baseNs_pos).ne'
  rw [sh.bin_eq]
  constructor
  · have hpow : sh.factor^min (sh.bins-1) (Nat.log sh.factor (x/sh.baseNs)) ≤ x/sh.baseNs :=
      Nat.pow_le_of_le_log hq (Nat.min_le_right _ _)
    exact (Nat.mul_le_mul_left _ hpow).trans (Nat.mul_div_le _ _)
  · intro hlast
    have hmin : min (sh.bins-1) (Nat.log sh.factor (x/sh.baseNs)) =
        Nat.log sh.factor (x/sh.baseNs) := by omega
    rw [hmin,Shape.edge,Nat.mul_comm,← Nat.div_lt_iff_lt_mul sh.baseNs_pos]
    exact Nat.lt_pow_succ_log_self sh.one_lt_factor _

/-- A value below `x` is the edge of the bin of `x`. -/
theorem Shape.below_iff (sh : Shape) (value x : ℕ) :
    sh.Below value x ↔ sh.baseNs ≤ x ∧ value = sh.edge (sh.bin x) := by
  constructor
  · rintro ⟨i,hi,rfl,hlow,hhigh⟩
    have hx : sh.baseNs ≤ x := (sh.baseNs_le_edge i).trans hlow
    obtain ⟨hlow',hhigh'⟩ := sh.bin_interval hx
    have hbin := sh.bin_lt x
    refine ⟨hx,congrArg sh.edge ?_⟩
    rcases Nat.lt_trichotomy i (sh.bin x) with h | h | h
    · have hnext := hhigh (by omega)
      have hle : sh.edge (i+1) ≤ sh.edge (sh.bin x) := sh.edge_strictMono.monotone h
      omega
    · exact h
    · have hnext := hhigh' (by omega)
      have hle : sh.edge (sh.bin x+1) ≤ sh.edge i := sh.edge_strictMono.monotone h
      omega
  · rintro ⟨hx,rfl⟩
    obtain ⟨hlow,hhigh⟩ := sh.bin_interval hx
    exact ⟨sh.bin x,sh.bin_lt x,rfl,hlow,hhigh⟩

/-! ## The counts -/

theorem getElem?_foldl_addHist (sh : Shape) (i : ℕ) (xs : List UInt64) : ∀ hist : List UInt32,
    (xs.foldl sh.addHist hist)[i]?.map UInt32.toNat = hist[i]?.map fun h =>
      (h.toNat+(xs.map UInt64.toNat).countP fun x => sh.bin x = i) % 2^32 := by
  induction xs with
  | nil =>
    intro hist
    refine congrArg (Option.map · hist[i]?) (funext fun h => ?_)
    exact (Nat.mod_eq_of_lt h.toNat_lt).symm
  | cons x xs ih =>
    intro hist
    rw [List.foldl_cons,ih,Shape.addHist,List.getElem?_modify,Option.map_eq_map,Option.map_map]
    refine congrArg (Option.map · hist[i]?) (funext fun h => ?_)
    simp only [Function.comp_apply,List.map_cons,List.countP_cons,decide_eq_true_eq]
    split
    · rw [UInt32.toNat_add,Nat.mod_add_mod]
      congr 1
      simp
      omega
    · rfl

theorem map_toNat_histOf (sh : Shape) (xs : List UInt64) :
    (sh.histOf xs).map UInt32.toNat = sh.cutCounts xs := by
  refine List.ext_getElem? fun i => ?_
  rw [List.getElem?_map,Shape.histOf,getElem?_foldl_addHist,Shape.cutCounts,Shape.exactCounts,
    counts,List.getElem?_map,List.getElem?_map,List.getElem?_replicate]
  by_cases hi : i < sh.bins
  · rw [if_pos hi,List.getElem?_range hi]
    simp
  · rw [if_neg hi,List.getElem?_eq_none (by simpa using hi)]
    rfl

theorem sum_exactCounts (sh : Shape) (xs : List UInt64) :
    (sh.exactCounts xs).sum = xs.length := by
  rw [Shape.exactCounts,sum_counts]
  have hall : (fun x => decide (sh.bin x < sh.bins)) = fun _ => true :=
    funext fun x => decide_eq_true (sh.bin_lt x)
  rw [hall,List.countP_true,List.length_map]

theorem length_cutCounts (sh : Shape) (xs : List UInt64) :
    (sh.cutCounts xs).length = sh.bins := by
  simp [Shape.cutCounts,Shape.exactCounts,counts]

/-- The bins of a histogram never add up to 2^38. -/
theorem sum_cutCounts_lt (sh : Shape) (xs : List UInt64) :
    (sh.cutCounts xs).sum < 2^38 := by
  have hbin : ∀ c ∈ sh.cutCounts xs, c ≤ 2^32-1 := by
    intro c hc
    obtain ⟨d,_,rfl⟩ := List.mem_map.mp hc
    have := Nat.mod_lt d (by decide : 2^32 > 0)
    omega
  have hsum := List.sum_le_card_nsmul _ _ hbin
  rw [length_cutCounts,nsmul_eq_mul,Nat.cast_id] at hsum
  cases sh <;> simp only [Shape.bins] at hsum <;> omega

/-! ## PercentileUs -/

theorem toNat_foldl_add (hist : List UInt32) : ∀ acc : UInt64,
    acc.toNat+(hist.map UInt32.toNat).sum < 2^64 →
      (hist.foldl (fun t h => t+h.toUInt64) acc).toNat =
        acc.toNat+(hist.map UInt32.toNat).sum := by
  induction hist with
  | nil => intro acc _; rfl
  | cons h hist ih =>
    intro acc hlt
    rw [List.map_cons,List.sum_cons] at hlt ⊢
    have hadd : (acc+h.toUInt64).toNat = acc.toNat+h.toNat := by
      rw [UInt64.toNat_add,UInt32.toNat_toUInt64]
      omega
    rw [List.foldl_cons,ih _ (by omega),hadd]
    omega

/-- The loop stops at the bin that reaches the target and gives its edge. -/
theorem percentileLoop_eq (factor target : UInt64) (hist : List UInt32) : ∀ lo acc : UInt64,
    acc.toNat+(hist.map UInt32.toNat).sum < 2^64 →
      (percentileLoop factor target lo acc hist).map UInt64.toNat =
        (reach target.toNat acc.toNat (hist.map UInt32.toNat)).map fun i =>
          lo.toNat*factor.toNat^i % 2^64 := by
  induction hist with
  | nil => intro lo acc _; rfl
  | cons h hist ih =>
    intro lo acc hlt
    rw [List.map_cons,List.sum_cons] at hlt
    have hadd : (acc+h.toUInt64).toNat = acc.toNat+h.toNat := by
      rw [UInt64.toNat_add,UInt32.toNat_toUInt64]
      omega
    rw [percentileLoop,List.map_cons,reach]
    simp only [UInt64.le_iff_toNat_le,hadd]
    split
    · simp [Nat.mod_eq_of_lt lo.toNat_lt]
    · rw [ih _ _ (by omega),hadd,Option.map_map]
      refine congrArg (Option.map · _) (funext fun i => ?_)
      rw [Function.comp_apply,UInt64.toNat_mul,Nat.mod_mul_mod,pow_succ factor.toNat i,
        Nat.mul_assoc,Nat.mul_comm factor.toNat]

theorem edge_lt (sh : Shape) {i : ℕ} (hi : i < sh.bins) : sh.edge i < 2^64 := by
  have hle : sh.edge i ≤ sh.edge (sh.bins-1) := sh.edge_strictMono.monotone (by omega)
  refine hle.trans_lt ?_
  cases sh <;> decide

/-- `(u64)((double)total * q)` is exact for a total that the bins can reach. -/
theorem toNat_quantile {total : UInt64} (h : total.toNat < 2^38) (l : Level) :
    (quantile total l.percent).toNat = total.toNat*l.percent/100 := by
  have hconv : round53 total.toNat = total.toNat := round53_of_lt (h.trans (by decide))
  suffices hdiv : round53 (total.toNat*literal l.percent)/2^53 = total.toNat*l.percent/100 by
    have hlt : total.toNat*l.percent/100 < 2^64 := by
      cases l <;> simp only [Level.percent] <;> omega
    rw [quantile,hconv,UInt64.toNat_ofNat',hdiv,Nat.mod_eq_of_lt hlt]
  generalize total.toNat = n at h
  have hp : n*literal l.percent < 2^(38+53) := by
    refine (Nat.mul_lt_mul'' h ?_).trans_eq (Nat.pow_add 2 38 53).symm
    cases l <;> decide
  have hulp := ulp_le hp
  cases l with
  | p50 =>
    have hexact : round53 (n*2^52) = n*2^52 := by
      refine round53_of_dvd (((ulp_dvd (b:=38) ?_).trans (Nat.pow_dvd_pow 2 ?_)).trans
        (Nat.dvd_mul_left _ _))
      · omega
      · decide
    have hliteral : literal Level.p50.percent = 2^52 := by decide
    rw [hliteral,hexact,Level.percent]
    omega
  | p99 =>
    have hliteral : literal Level.p99.percent = 8917127262193582 := by decide
    rw [hliteral] at hp hulp ⊢
    rw [Level.percent]
    by_cases hwhole : 100 ∣ n
    · -- the product is just below a whole number, which has 53 bits
      obtain ⟨t,rfl⟩ := hwhole
      have hunit := lt_ulp_mul (100*t*8917127262193582)
      have hround : round53 (100*t*8917127262193582) = 99*t*2^53 := by
        refine round53_of_near ?_ ?_ ?_
        · exact ((ulp_dvd hp).trans (Nat.pow_dvd_pow 2 (by decide))).trans (Nat.dvd_mul_left _ _)
        · have := ulp_pos (100*t*8917127262193582)
          omega
        · have := ulp_pos (100*t*8917127262193582)
          omega
      rw [hround]
      omega
    · -- the product is a hundredth away from a whole number, far more than half a unit
      obtain ⟨hlow,hhigh⟩ := round53_bounds (n*8917127262193582)
      have hsplit : 100*(n*99/100)+n*99%100 = n*99 := Nat.div_add_mod _ _
      have hrest : 1 ≤ n*99%100 ∧ n*99%100 ≤ 99 := by omega
      refine Nat.div_eq_of_lt_le ?_ ?_
      · omega
      · omega

theorem Level.rank_pos (l : Level) (n : ℕ) : 0 < l.rank n := Nat.le_max_left _ _

/-- The value is the edge of the bin that the walk over the cut counts stops in. -/
theorem toNat_percentile (sh : Shape) (l : Level) (xs : List UInt64) :
    (sh.percentile l xs).toNat =
      ((reach (l.rank (sh.cutCounts xs).sum) 0 (sh.cutCounts xs)).map sh.edge).getD 0 := by
  have hsum := sum_cutCounts_lt sh xs
  have hcut := map_toNat_histOf sh xs
  have htotal : ((sh.histOf xs).foldl (fun t (h : UInt32) => t+h.toUInt64) (0 : UInt64)).toNat =
      (sh.cutCounts xs).sum := by
    rw [toNat_foldl_add _ _ (by rw [hcut,UInt64.toNat_zero]; omega),hcut,UInt64.toNat_zero,
      Nat.zero_add]
  simp only [Shape.percentile,percentileNs]
  generalize (sh.histOf xs).foldl (fun t (h : UInt32) => t+h.toUInt64) (0 : UInt64) =
    total at htotal ⊢
  by_cases hzero : total = 0
  · have hnone : reach (l.rank (sh.cutCounts xs).sum) 0 (sh.cutCounts xs) = none := by
      refine Option.eq_none_iff_forall_ne_some.mpr fun i hi => ?_
      obtain ⟨_,_,hreach⟩ := (reach_eq_some_iff _ (l.rank_pos _)).mp hi
      have hle := ((sh.cutCounts xs).take_sublist (i+1)).sum_le_sum fun _ _ => Nat.zero_le _
      rw [← htotal,hzero] at hle hreach
      have hpos := l.rank_pos (0 : UInt64).toNat
      rw [UInt64.toNat_zero] at hle hpos hreach
      omega
    rw [if_pos hzero,hnone]
    rfl
  · have htarget : (if quantile total l.percent = 0 then 1 else quantile total l.percent).toNat =
        l.rank (sh.cutCounts xs).sum := by
      have hquantile := toNat_quantile (by omega : total.toNat < 2^38) l
      rw [Level.rank,← htotal]
      split
      · next h =>
        rw [h,UInt64.toNat_zero] at hquantile
        rw [← hquantile]
        rfl
      · next h =>
        rw [← UInt64.toNat_inj,UInt64.toNat_zero] at h
        rw [hquantile] at h ⊢
        omega
    have hloop := percentileLoop_eq (UInt64.ofNat sh.factor)
      (if quantile total l.percent = 0 then 1 else quantile total l.percent) (sh.histOf xs)
      (UInt64.ofNat sh.baseNs) 0 (by rw [hcut,UInt64.toNat_zero]; omega)
    rw [htarget,hcut,UInt64.toNat_zero] at hloop
    rw [if_neg hzero]
    cases hreach : reach (l.rank (sh.cutCounts xs).sum) 0 (sh.cutCounts xs) with
    | none =>
      rw [hreach,Option.map_none,Option.map_eq_none_iff] at hloop
      rw [hloop]
      rfl
    | some i =>
      have hi : i < sh.bins := by
        rw [← length_cutCounts sh xs]
        exact ((reach_eq_some_iff _ (l.rank_pos _)).mp hreach).1
      have hconst : (UInt64.ofNat sh.baseNs).toNat = sh.baseNs ∧
          (UInt64.ofNat sh.factor).toNat = sh.factor := by cases sh <;> decide
      rw [hreach,Option.map_some,hconst.1,hconst.2,← Shape.edge,Nat.mod_eq_of_lt (edge_lt sh hi),
        Option.map_eq_some_iff] at hloop
      obtain ⟨lo,hlo,hedge⟩ := hloop
      rw [hlo,Option.getD_some,hedge]
      rfl

theorem latency_eq_none_iff (l : Level) (xs : List UInt64) : l.latency xs = none ↔ xs = [] := by
  rw [Level.latency,ranked_eq_none_iff,List.length_map,← List.length_eq_zero_iff]
  have hpercent : l.percent ≤ 99 := by cases l <;> decide
  have hle : xs.length*l.percent ≤ xs.length*99 := Nat.mul_le_mul_left _ hpercent
  rw [Level.rank]
  omega

/-- The exact counts reach the rank in the bin of its latency. -/
theorem reach_exactCounts (sh : Shape) {l : Level} {xs : List UInt64} {x : ℕ}
    (hx : l.latency xs = some x) :
    reach (l.rank xs.length) 0 (sh.exactCounts xs) = some (sh.bin x) :=
  reach_counts sh.monotone_bin sh.bin_lt (l.rank_pos _) hx

/-- Bins that have counted less than 2^32 latencies each keep the rank. -/
theorem sameBin_of_counts_lt {sh : Shape} {xs : List UInt64}
    (h : ∀ c ∈ sh.exactCounts xs, c < 2^32) (l : Level) : sh.SameBin l xs := by
  have hcut : sh.cutCounts xs = sh.exactCounts xs := by
    rw [Shape.cutCounts,List.map_congr_left fun c hc => Nat.mod_eq_of_lt (h c hc),List.map_id']
  rw [Shape.SameBin,hcut,sum_exactCounts]

theorem sameBin_nil (sh : Shape) (l : Level) : sh.SameBin l [] :=
  sameBin_of_counts_lt (by cases sh <;> decide) l

/-- `PercentileUs` brackets the latency of the rank exactly when that latency is not below the
base and the rank is not moved by counts of 2^32 and more. -/
theorem brackets_iff (sh : Shape) (l : Level) (xs : List UInt64) :
    sh.Brackets l xs ↔ (∀ x, l.latency xs = some x → sh.baseNs ≤ x) ∧ sh.SameBin l xs := by
  cases hx : l.latency xs with
  | none =>
    obtain rfl := (latency_eq_none_iff l xs).mp hx
    refine iff_of_true ⟨fun _ => ?_,fun x h => ?_⟩ ⟨nofun,sameBin_nil sh l⟩
    · cases sh <;> rfl
    · rw [hx] at h
      cases h
  | some x =>
    have hne : xs ≠ [] := fun h => by
      rw [(latency_eq_none_iff l xs).mpr h] at hx
      cases hx
    have hexact := reach_exactCounts sh hx
    have hvalue := toNat_percentile sh l xs
    constructor
    · rintro ⟨_,hbelow⟩
      obtain ⟨hbase,hedge⟩ := (sh.below_iff _ _).mp (hbelow x hx)
      refine ⟨fun y hy => Option.some.inj hy ▸ hbase,?_⟩
      rw [hedge] at hvalue
      rw [Shape.SameBin,hexact]
      have hpos : 0 < sh.edge (sh.bin x) := sh.baseNs_pos.trans_le (sh.baseNs_le_edge _)
      cases hreach : reach (l.rank (sh.cutCounts xs).sum) 0 (sh.cutCounts xs) with
      | none =>
        rw [hreach] at hvalue
        exact absurd hvalue hpos.ne'
      | some i =>
        rw [hreach] at hvalue
        rw [sh.edge_strictMono.injective hvalue]
    · rintro ⟨hbase,hsame⟩
      refine ⟨fun h => absurd h hne,fun y hy => ?_⟩
      obtain rfl : x = y := Option.some.inj (hx.symm.trans hy)
      rw [Shape.SameBin,hexact] at hsame
      rw [hsame] at hvalue
      exact (sh.below_iff _ _).mpr ⟨hbase x rfl,hvalue⟩

/-- A wait of 100 nanoseconds is put below 256. -/
theorem shortWait_not_brackets :
    ¬ ∀ (sh : Shape) (l : Level) (xs : List UInt64), sh.Brackets l xs := by
  intro h
  have hbelow := (h .hist13 .p50 [100]).below 100 (by decide)
  exact absurd ((Shape.below_iff _ _ _).mp hbelow).1 (by decide)

end Percentiles
end ETraceDiag
