import ETraceDiag.Doubles
import ETraceDiag.FeatureJson
import ETraceDiag.TargetSelector
import Mathlib.Algebra.BigOperators.Group.Finset.Basic
import Mathlib.Algebra.Order.BigOperators.Group.Finset

/-!
# The counters of the targets

`BuildEbpfCounters` reads the counters of a thread from the maps, and its CPU time from the
process table as long as the map has none. The table counts from the start of the thread, the map
from the moment it was first watched.
-/

namespace ETraceDiag
namespace FeatureCounters

open ConfigSources JsonGet FloatingPoint Floating Doubles FeatureJson
open ProcessTable (ProcessRow)
open TargetSelector (row?)

/-- What the maps have of a thread, summed over the CPUs. -/
structure KernelSums where
  switches : Option (UInt64 × UInt64) := none
  blockIo : Option (UInt64 × UInt64) := none
  faults : Option (UInt64 × UInt64) := none
  lockSt : Option (UInt64 × UInt64) := none
  onCpuNs : Option UInt64 := none

/-- `std::sort` with the greater CPU time first; which of two equal entries is first is open. -/
structure StatsSort where
  sort : List EbpfPerTidStats → List EbpfPerTidStats
  perm : ∀ ts, (sort ts).Perm ts
  sorted : ∀ ts, (sort ts).Pairwise fun a b => b.onCpuNs ≤ a.onCpuNs

/-- What a call finds. -/
structure Tick where
  tsNs : UInt64
  members : Finset UInt32
  order : HashOrder UInt32
  table : List ProcessRow
  sums : UInt32 → KernelSums
  sorting : StatsSort

section Build

variable (F : Type) [IeeeDouble F] (clkTck : Int64)

/-- What is cast to nanoseconds: `ticks*1e9/ticks_per_s`. -/
def scaled (ticks : UInt64) : F :=
  Number.ofInt ticks.toNat*Double.lit 1000000000 0/Number.ofInt clkTck.toInt

def ticksNs (ticks : UInt64) : UInt64 :=
  if Double.lit 0 0 < (Number.ofInt clkTck.toInt : F) then Number.toUInt64 (scaled F clkTck ticks)
  else 0

/-- The CPU time of a thread in the process table. -/
def clockNs (t : Tick) (tid : UInt32) : UInt64 :=
  match row? t.table tid with
  | some r => ticksNs F clkTck (r.utime+r.stime)
  | none => 0

def stats (t : Tick) (tid : UInt32) : EbpfPerTidStats :=
  let k := t.sums tid
  let onCpu := k.onCpuNs.getD 0
  { tid := tid
    onCpuNs := if onCpu = 0 then clockNs F clkTck t tid else onCpu
    nrSwVol := (k.switches.map Prod.fst).getD 0
    nrSwInvol := (k.switches.map Prod.snd).getD 0
    ioOps := (k.blockIo.map Prod.fst).getD 0
    ioBytes := (k.blockIo.map Prod.snd).getD 0
    pfMinor := (k.faults.map Prod.fst).getD 0
    pfMajor := (k.faults.map Prod.snd).getD 0
    lockWaits := (k.lockSt.map Prod.fst).getD 0
    lockLatNs := (k.lockSt.map Prod.snd).getD 0 }

/-- One pass of the loop over the members. -/
def addStats (c : EbpfCounters) (t : EbpfPerTidStats) : EbpfCounters :=
  { c with
    onCpuNsTotal := c.onCpuNsTotal+t.onCpuNs
    switchTotal := c.switchTotal+(t.nrSwVol+t.nrSwInvol)
    ioOpsTotal := c.ioOpsTotal+t.ioOps
    ioBytesTotal := c.ioBytesTotal+t.ioBytes
    minorFaultsTotal := c.minorFaultsTotal+t.pfMinor
    majorFaultsTotal := c.majorFaultsTotal+t.pfMajor
    lockWaitsTotal := c.lockWaitsTotal+t.lockWaits
    perTid := c.perTid++[t] }

def buildEbpfCounters (t : Tick) : EbpfCounters :=
  let c := ((t.order.enum t.members).map (stats F clkTck t)).foldl addStats { tsNs := t.tsNs }
  { c with perTid := t.sorting.sort c.perTid }

end Build

/-! ## The cumulative fields -/

inductive Counter
  | onCpuNs | nrSwVol | nrSwInvol | ioOps | ioBytes | pfMinor | pfMajor | lockWaits | lockLatNs
  deriving DecidableEq

namespace Counter

def field : Counter → EbpfPerTidStats → UInt64
  | onCpuNs => EbpfPerTidStats.onCpuNs
  | nrSwVol => EbpfPerTidStats.nrSwVol
  | nrSwInvol => EbpfPerTidStats.nrSwInvol
  | ioOps => EbpfPerTidStats.ioOps
  | ioBytes => EbpfPerTidStats.ioBytes
  | pfMinor => EbpfPerTidStats.pfMinor
  | pfMajor => EbpfPerTidStats.pfMajor
  | lockWaits => EbpfPerTidStats.lockWaits
  | lockLatNs => EbpfPerTidStats.lockLatNs

/-- The counter in the kernel; one that is missing has counted nothing. -/
def kernel : Counter → KernelSums → UInt64
  | onCpuNs,k => k.onCpuNs.getD 0
  | nrSwVol,k => (k.switches.map Prod.fst).getD 0
  | nrSwInvol,k => (k.switches.map Prod.snd).getD 0
  | ioOps,k => (k.blockIo.map Prod.fst).getD 0
  | ioBytes,k => (k.blockIo.map Prod.snd).getD 0
  | pfMinor,k => (k.faults.map Prod.fst).getD 0
  | pfMajor,k => (k.faults.map Prod.snd).getD 0
  | lockWaits,k => (k.lockSt.map Prod.fst).getD 0
  | lockLatNs,k => (k.lockSt.map Prod.snd).getD 0

end Counter

/-- A time of a thread in the process table; no row is no time. -/
def time (field : ProcessRow → UInt64) (t : Tick) (tid : UInt32) : UInt64 :=
  ((row? t.table tid).map field).getD 0

/-- The thread is a member at both ticks, and neither its counters in the kernel nor its times go
back. -/
structure Steady (t t' : Tick) (tid : UInt32) : Prop where
  before : tid ∈ t.members
  after : tid ∈ t'.members
  kernel : ∀ c : Counter, c.kernel (t.sums tid) ≤ c.kernel (t'.sums tid)
  utime : time ProcessRow.utime t tid ≤ time ProcessRow.utime t' tid
  stime : time ProcessRow.stime t tid ≤ time ProcessRow.stime t' tid

section Keeps

variable (F : Type) [IeeeDouble F] (clkTck : Int64)

/-- From one tick to the next nothing that is cumulative goes back: no field of a steady thread,
and not the total of members that are the same and all steady. -/
structure Keeps (t t' : Tick) : Prop where
  thread : ∀ tid, Steady t t' tid → ∀ e ∈ (buildEbpfCounters F clkTck t).perTid,
    ∀ e' ∈ (buildEbpfCounters F clkTck t').perTid, e.tid = tid → e'.tid = tid →
      ∀ c : Counter, c.field e ≤ c.field e'
  total : t.members = t'.members → (∀ tid ∈ t.members, Steady t t' tid) →
    (buildEbpfCounters F clkTck t).onCpuNsTotal ≤ (buildEbpfCounters F clkTck t').onCpuNsTotal

def kernelNs (t : Tick) (tid : UInt32) : UInt64 := Counter.onCpuNs.kernel (t.sums tid)

/-- The time in the map, or in the table where the map has none. -/
def cpuNs (t : Tick) (tid : UInt32) : UInt64 :=
  if kernelNs t tid = 0 then clockNs F clkTck t tid else kernelNs t tid

def memberNs (t : Tick) : ℕ := ∑ tid ∈ t.members, (cpuNs F clkTck t tid).toNat

/-- As long as the map has no time the table is not ahead of what the next tick takes, and what is
added to the total does not carry it over 64 bits. -/
structure HandsOver (t t' : Tick) : Prop where
  thread : ∀ tid, Steady t t' tid → kernelNs t tid = 0 →
    clockNs F clkTck t tid ≤ cpuNs F clkTck t' tid
  total : t.members = t'.members → (∀ tid ∈ t.members, Steady t t' tid) →
    memberNs F clkTck t%2^64+(memberNs F clkTck t'-memberNs F clkTck t)%2^64 < 2^64

end Keeps

/-! ## What a call reports -/

section Reports

variable {F : Type} [IeeeDouble F] {clkTck : Int64}

theorem perTid_foldl (ts : List EbpfPerTidStats) : ∀ c : EbpfCounters,
    (ts.foldl addStats c).perTid = c.perTid++ts := by
  induction ts with
  | nil => exact fun c => (List.append_nil _).symm
  | cons t ts ih =>
    intro c
    rw [List.foldl_cons,ih,addStats,List.append_assoc]
    rfl

theorem onCpuNsTotal_foldl (ts : List EbpfPerTidStats) : ∀ c : EbpfCounters,
    (ts.foldl addStats c).onCpuNsTotal.toNat =
      (c.onCpuNsTotal.toNat+(ts.map (·.onCpuNs.toNat)).sum)%2^64 := by
  induction ts with
  | nil =>
    intro c
    rw [List.foldl_nil,List.map_nil,List.sum_nil,Nat.add_zero,Nat.mod_eq_of_lt (UInt64.toNat_lt _)]
  | cons t ts ih =>
    intro c
    have hstep : (addStats c t).onCpuNsTotal.toNat =
        (c.onCpuNsTotal.toNat+t.onCpuNs.toNat)%2^64 := UInt64.toNat_add _ _
    rw [List.foldl_cons,ih,hstep,List.map_cons,List.sum_cons,Nat.mod_add_mod,Nat.add_assoc]

theorem mem_perTid {t : Tick} {e : EbpfPerTidStats} :
    e ∈ (buildEbpfCounters F clkTck t).perTid ↔ ∃ tid ∈ t.members, stats F clkTck t tid = e := by
  have hmem : e ∈ (buildEbpfCounters F clkTck t).perTid ↔
      e ∈ (t.order.enum t.members).map (stats F clkTck t) := by
    dsimp only [buildEbpfCounters]
    rw [(t.sorting.perm _).mem_iff,perTid_foldl]
    rfl
  rw [hmem,List.mem_map]
  simp only [t.order.mem]

theorem onCpuNsTotal_eq (t : Tick) :
    (buildEbpfCounters F clkTck t).onCpuNsTotal.toNat = memberNs F clkTck t%2^64 := by
  have hset : (t.order.enum t.members).toFinset = t.members := by
    ext tid
    rw [List.mem_toFinset,t.order.mem]
  have hsum : memberNs F clkTck t =
      ((t.order.enum t.members).map fun tid => (cpuNs F clkTck t tid).toNat).sum := by
    rw [memberNs,← List.sum_toFinset _ (t.order.nodup _),hset]
  dsimp only [buildEbpfCounters]
  rw [onCpuNsTotal_foldl,List.map_map,hsum]
  exact congrArg (·%2^64) (Nat.zero_add _)

theorem field_stats (t : Tick) (tid : UInt32) (c : Counter) :
    c.field (stats F clkTck t tid) =
      if c = .onCpuNs then cpuNs F clkTck t tid else c.kernel (t.sums tid) := by
  cases c <;> rfl

/-- What the map has once it has something does not go back. -/
theorem cpuNs_le_iff {t t' : Tick} {tid : UInt32} (h : Steady t t' tid) :
    cpuNs F clkTck t tid ≤ cpuNs F clkTck t' tid ↔
      (kernelNs t tid = 0 → clockNs F clkTck t tid ≤ cpuNs F clkTck t' tid) := by
  by_cases hzero : kernelNs t tid = 0
  · rw [cpuNs,if_pos hzero]
    exact ⟨fun h _ => h,fun h => h hzero⟩
  · refine iff_of_true ?_ fun hz => absurd hz hzero
    have hle : kernelNs t tid ≤ kernelNs t' tid := h.kernel .onCpuNs
    have hzero' : kernelNs t' tid ≠ 0 := by
      intro hz
      rw [hz] at hle
      exact hzero (UInt64.le_zero_iff.mp hle)
    rw [cpuNs,if_neg hzero,cpuNs,if_neg hzero']
    exact hle

theorem stats_le_iff {t t' : Tick} {tid : UInt32} (h : Steady t t' tid) :
    (∀ c : Counter, c.field (stats F clkTck t tid) ≤ c.field (stats F clkTck t' tid)) ↔
      (kernelNs t tid = 0 → clockNs F clkTck t tid ≤ cpuNs F clkTck t' tid) := by
  rw [← cpuNs_le_iff h]
  refine ⟨fun hall => hall .onCpuNs,fun hcpu c => ?_⟩
  rw [field_stats,field_stats]
  split
  · exact hcpu
  · exact h.kernel c

/-- A remainder keeps the order exactly when the growth does not carry it over. -/
theorem mod_le_mod_iff {a b m : ℕ} (hm : 0 < m) (h : a ≤ b) :
    a%m ≤ b%m ↔ a%m+(b-a)%m < m := by
  have ha : a%m < m := Nat.mod_lt _ hm
  have hg : (b-a)%m < m := Nat.mod_lt _ hm
  have hb : b%m = (a%m+(b-a)%m)%m := by rw [← Nat.add_mod,Nat.add_sub_cancel' h]
  rw [hb]
  generalize a%m = r at *
  generalize (b-a)%m = g at *
  by_cases hlt : r+g < m
  · rw [Nat.mod_eq_of_lt hlt]
    omega
  · rw [Nat.mod_eq_sub_mod (by omega),Nat.mod_eq_of_lt (by omega)]
    omega

theorem memberNs_le {t t' : Tick} (hmembers : t.members = t'.members)
    (h : ∀ tid ∈ t.members, cpuNs F clkTck t tid ≤ cpuNs F clkTck t' tid) :
    memberNs F clkTck t ≤ memberNs F clkTck t' := by
  rw [memberNs,memberNs,← hmembers]
  exact Finset.sum_le_sum fun tid htid => UInt64.le_iff_toNat_le.mp (h tid htid)

theorem keeps_iff (t t' : Tick) : Keeps F clkTck t t' ↔ HandsOver F clkTck t t' := by
  have hthread : (∀ tid, Steady t t' tid → ∀ e ∈ (buildEbpfCounters F clkTck t).perTid,
      ∀ e' ∈ (buildEbpfCounters F clkTck t').perTid, e.tid = tid → e'.tid = tid →
        ∀ c : Counter, c.field e ≤ c.field e') ↔
      ∀ tid, Steady t t' tid → kernelNs t tid = 0 →
        clockNs F clkTck t tid ≤ cpuNs F clkTck t' tid := by
    refine forall₂_congr fun tid hsteady => ?_
    rw [← stats_le_iff hsteady]
    constructor
    · exact fun h => h _ (mem_perTid.mpr ⟨tid,hsteady.before,rfl⟩) _
        (mem_perTid.mpr ⟨tid,hsteady.after,rfl⟩) rfl rfl
    · intro h e he e' he' htid htid'
      obtain ⟨i,-,rfl⟩ := mem_perTid.mp he
      obtain ⟨j,-,rfl⟩ := mem_perTid.mp he'
      obtain rfl : i = tid := htid
      obtain rfl : j = i := htid'
      exact h
  have htotal : (∀ tid, Steady t t' tid → kernelNs t tid = 0 →
      clockNs F clkTck t tid ≤ cpuNs F clkTck t' tid) → t.members = t'.members →
      (∀ tid ∈ t.members, Steady t t' tid) →
      ((buildEbpfCounters F clkTck t).onCpuNsTotal ≤
          (buildEbpfCounters F clkTck t').onCpuNsTotal ↔
        memberNs F clkTck t%2^64+(memberNs F clkTck t'-memberNs F clkTck t)%2^64 < 2^64) := by
    intro h hmembers hsteady
    rw [UInt64.le_iff_toNat_le,onCpuNsTotal_eq,onCpuNsTotal_eq]
    refine mod_le_mod_iff (by decide) (memberNs_le hmembers fun tid htid => ?_)
    exact (cpuNs_le_iff (hsteady tid htid)).mpr (h tid (hsteady tid htid))
  constructor
  · intro h
    have h₁ := hthread.mp h.thread
    exact ⟨h₁,fun hmembers hsteady =>
      (htotal h₁ hmembers hsteady).mp (h.total hmembers hsteady)⟩
  · intro h
    exact ⟨hthread.mpr h.thread,fun hmembers hsteady =>
      (htotal h.thread hmembers hsteady).mpr (h.total hmembers hsteady)⟩

/-! ## The times of the table -/

/-- So many ticks are a number of nanoseconds that fits in 64 bits. -/
def Fits (F : Type) [IeeeDouble F] (clkTck : Int64) (ticks : UInt64) : Prop :=
  ∃ r : ℝ, value (scaled F clkTck ticks) = some (r : EReal) ∧ r < (2^64 : ℕ)

theorem clkTck_value (h : Double.lit 0 0 < (Number.ofInt clkTck.toInt : F)) :
    ∃ k : ℝ, value (Number.ofInt clkTck.toInt : F) = some (k : EReal) ∧ 0 < k := by
  have hround := IeeeDouble.ofInt_eq (F:=F) clkTck.toInt
  rw [lt_iff_of_value value_zero hround,EReal.coe_zero] at h
  have hpos : (0 : ℝ) ≤ clkTck.toInt := by
    by_contra hneg
    have hle : (rounding F).round clkTck.toInt ≤ 0 :=
      (rounding F).zero ▸ (rounding F).mono (not_le.mp hneg).le
    exact absurd h (not_lt.mpr hle)
  have hlarge : (clkTck.toInt : ℝ) ≤ 2^(63 : ℤ) := by
    have hlt := clkTck.toInt_lt
    exact_mod_cast hlt.le
  obtain ⟨k,hk,-,-⟩ := Rounding.round_between (rounding F).exact_zero
    (exact_zpow (F:=F) (k:=63) (by decide) (by decide)) hpos hlarge
  rw [hk] at h hround
  exact ⟨k,hround,EReal.coe_pos.mp h⟩

/-- Fewer ticks are not more nanoseconds. -/
theorem scaled_le (hclk : Double.lit 0 0 < (Number.ofInt clkTck.toInt : F)) {m n : UInt64} {s : ℝ}
    (h : m ≤ n) (hs : value (scaled F clkTck n) = some (s : EReal)) :
    ∃ r : ℝ, value (scaled F clkTck m) = some (r : EReal) ∧ 0 ≤ r ∧ r ≤ s := by
  obtain ⟨k,hk,hkpos⟩ := clkTck_value hclk
  obtain ⟨c,hc,hc₀,-⟩ := billion_within (F:=F)
  have hcpos : 0 < c := lt_of_lt_of_le (by positivity) hc₀
  -- the number of ticks, the product and the quotient round one after the other
  have hproduct : Within (Number.ofInt n.toNat*Double.lit 1000000000 0 : F) 0 (2^(94 : ℤ)) :=
    (within_ofU64 n).mul billion_within (le_refl 0) (by positivity) (rounding F).exact_zero
      (exact_zpow (by decide) (by decide)) (by norm_num) (by norm_num)
  obtain ⟨b,hb,-,-⟩ := hproduct
  obtain ⟨a,ha,-,-⟩ := within_ofU64 (F:=F) n
  have hround : (rounding F).round ((n.toNat : ℤ) : ℝ) = a := by
    rw [IeeeDouble.ofInt_eq] at ha
    exact Option.some.inj ha
  have hmn : ((m.toNat : ℤ) : ℝ) ≤ ((n.toNat : ℤ) : ℝ) := by
    exact_mod_cast UInt64.le_iff_toNat_le.mp h
  obtain ⟨a',ha',ha'₀,ha'le⟩ := Rounding.round_le (by positivity) hmn hround
  have hma : value (Number.ofInt m.toNat : F) = some (a' : EReal) := by
    rw [IeeeDouble.ofInt_eq,ha']
  have hroundb : (rounding F).round (a*c) = b := by
    rw [mul_eq ha hc] at hb
    exact Option.some.inj hb
  obtain ⟨b',hb',hb'₀,hb'le⟩ := Rounding.round_le (mul_nonneg ha'₀ hcpos.le)
    (mul_le_mul_of_nonneg_right ha'le hcpos.le) hroundb
  have hrounds : (rounding F).round (b/k) = s := by
    rw [scaled,div_eq hb hk hkpos.ne'] at hs
    exact Option.some.inj hs
  obtain ⟨r,hr,hbounds⟩ := Rounding.round_le (div_nonneg hb'₀ hkpos.le)
    (div_le_div_of_nonneg_right hb'le hkpos.le) hrounds
  refine ⟨r,?_,hbounds⟩
  have hmb := mul_eq hma hc
  rw [hb'] at hmb
  rw [scaled,div_eq hmb hk hkpos.ne',hr]

theorem ticksNs_mono {m n : UInt64} (h : m ≤ n) (hfits : Fits F clkTck n) :
    ticksNs F clkTck m ≤ ticksNs F clkTck n := by
  rw [ticksNs,ticksNs]
  split
  · next hclk =>
    obtain ⟨s,hs,hlt⟩ := hfits
    obtain ⟨r,hr,hr₀,hrs⟩ := scaled_le hclk h hs
    rw [UInt64.le_iff_toNat_le,IeeeDouble.toUInt64_eq hr hr₀ (hrs.trans_lt hlt),
      IeeeDouble.toUInt64_eq hs (hr₀.trans hrs) hlt]
    exact Nat.floor_le_floor hrs
  · exact Std.le_refl 0

theorem ticksNs_zero : ticksNs F clkTck 0 = 0 := by
  rw [ticksNs]
  split
  · next hclk =>
    obtain ⟨k,hk,hkpos⟩ := clkTck_value hclk
    obtain ⟨c,hc,-,-⟩ := billion_within (F:=F)
    have hzero : value (Number.ofInt (0 : UInt64).toNat : F) = some ((0 : ℝ) : EReal) := by
      rw [IeeeDouble.ofInt_eq]
      exact congrArg some (by simpa using (rounding F).zero)
    have hproduct := mul_eq hzero hc
    rw [zero_mul,(rounding F).zero,← EReal.coe_zero] at hproduct
    have hquot := div_eq hproduct hk hkpos.ne'
    rw [zero_div,(rounding F).zero,← EReal.coe_zero] at hquot
    refine UInt64.toNat_inj.mp ?_
    rw [scaled,IeeeDouble.toUInt64_eq hquot (le_refl 0) (by norm_num),Nat.floor_zero]
    rfl
  · rfl

theorem clockNs_eq (t : Tick) (tid : UInt32) : clockNs F clkTck t tid =
    ticksNs F clkTck (time ProcessRow.utime t tid+time ProcessRow.stime t tid) := by
  rw [clockNs,time,time]
  cases row? t.table tid with
  | some r => rfl
  | none => exact ticksNs_zero.symm

/-- The times of the table go back nowhere but where the map takes over, as long as they fit. -/
theorem handsOver_iff_of_fits {t t' : Tick} {tid : UInt32} (h : Steady t t' tid)
    (hsum : (time ProcessRow.utime t' tid).toNat+(time ProcessRow.stime t' tid).toNat < 2^64)
    (hfits : Fits F clkTck (time ProcessRow.utime t' tid+time ProcessRow.stime t' tid)) :
    (kernelNs t tid = 0 → clockNs F clkTck t tid ≤ cpuNs F clkTck t' tid) ↔
      (kernelNs t tid = 0 → kernelNs t' tid ≠ 0 → clockNs F clkTck t tid ≤ kernelNs t' tid) := by
  refine imp_congr_right fun _ => ?_
  rw [cpuNs]
  by_cases hzero : kernelNs t' tid = 0
  · rw [if_pos hzero]
    refine iff_of_true ?_ fun hne => absurd hzero hne
    have hu := UInt64.le_iff_toNat_le.mp h.utime
    have hs := UInt64.le_iff_toNat_le.mp h.stime
    rw [clockNs_eq,clockNs_eq]
    refine ticksNs_mono ?_ hfits
    rw [UInt64.le_iff_toNat_le,UInt64.toNat_add,UInt64.toNat_add,Nat.mod_eq_of_lt hsum,
      Nat.mod_eq_of_lt (by omega)]
    omega
  · rw [if_neg hzero]
    exact ⟨fun hle _ => hle,fun hle => hle hzero⟩

/-! ## Runs -/

/-- Along a run the cumulative fields are monotone exactly when at every tick the table hands over
to the map without being ahead of it. -/
theorem run_keeps_iff (F : Type) [IeeeDouble F] (clkTck : Int64) (ticks : List Tick) :
    ticks.IsChain (Keeps F clkTck) ↔ ticks.IsChain (HandsOver F clkTck) :=
  List.IsChain.iff fun t t' => keeps_iff t t'

end Reports

/-! ## The first time in the map -/

def byCpu : StatsSort where
  sort ts := ts.mergeSort fun a b => b.onCpuNs ≤ a.onCpuNs
  perm ts := List.mergeSort_perm ts _
  sorted ts := by
    have hsorted : (ts.mergeSort fun a b => b.onCpuNs ≤ a.onCpuNs).Pairwise fun a b =>
        decide (b.onCpuNs ≤ a.onCpuNs) = true := by
      refine List.pairwise_mergeSort (fun a b c hab hbc => ?_) (fun a b => ?_) ts
      · rw [decide_eq_true_eq] at hab hbc ⊢
        exact Std.le_trans hbc hab
      · rw [Bool.or_eq_true,decide_eq_true_eq,decide_eq_true_eq]
        exact Std.le_total
    exact hsorted.imp fun hle => of_decide_eq_true hle

def ascending : HashOrder UInt32 := .ascending UInt32.toNat fun _ _ => UInt32.toNat.inj

/-- Thread 7 has used half a second before it is watched. -/
def firstSeen : Tick where
  tsNs := 1000000000
  members := {7}
  order := ascending
  table := [{ pid := 7, tgid := 7, utime := 50 }]
  sums _ := {}
  sorting := byCpu

/-- A millisecond has been counted since. -/
def watched : Tick where
  tsNs := 2000000000
  members := {7}
  order := ascending
  table := [{ pid := 7, tgid := 7, utime := 51 }]
  sums _ := { onCpuNs := some 1000000 }
  sorting := byCpu

theorem watched_not_keeps : ¬ [firstSeen,watched].IsChain (Keeps Decimal 100) := by
  intro h
  have hsteady : Steady firstSeen watched 7 :=
    ⟨by decide,by decide,fun c => by cases c <;> decide,by decide,by decide⟩
  have hback := (List.isChain_pair.mp h).thread 7 hsteady
    (stats Decimal 100 firstSeen 7) (mem_perTid.mpr ⟨7,by decide,rfl⟩)
    (stats Decimal 100 watched 7) (mem_perTid.mpr ⟨7,by decide,rfl⟩) rfl rfl .onCpuNs
  have hfirst : Counter.onCpuNs.field (stats Decimal 100 firstSeen 7) = 500000000 := by
    decide +kernel
  have hthen : Counter.onCpuNs.field (stats Decimal 100 watched 7) = 1000000 := by
    decide +kernel
  rw [hfirst,hthen] at hback
  exact absurd hback (by decide)

end FeatureCounters
end ETraceDiag
