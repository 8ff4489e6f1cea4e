import Mathlib.Algebra.BigOperators.Fin
import ETraceDiag.EvidenceStore

/-!
# Merging the records of a tick

Before kernel 6.4 every CPU records its own slice of a target's counters, and `DrainPost` sums
the records of a thread that fall into one tick (`MergePerCpu`). A record is modelled with the
CPU that took it, which the record itself does not say.
-/

namespace ETraceDiag
namespace PerCpuMerge

open EvidenceStore GroupFold

/-- The `uint64_t` counters of a record. -/
inductive Wide
  | onCpuNs
  | ioOps
  | ioBytes
  | lockWaits
  | lockLatNs
  | syscallCount
  | syscallLatNs
  | futexWaits
  | futexLatNs
  | runqWaitNs
  deriving DecidableEq,Repr

/-- The `uint32_t` counters. -/
inductive Narrow
  | nrSwVol
  | nrSwInvol
  | pfMinor
  | pfMajor
  | runqWaitCount
  deriving DecidableEq,Repr

/-- The histograms of `kBase4HistBins` bins. -/
inductive Hist
  | io
  | lock
  | syscall
  | futex
  | runq
  deriving DecidableEq,Repr

structure KernelSnapshotRec where
  seq : UInt64
  tsNs : UInt64
  tgid : UInt32
  tid : UInt32
  comm : String
  wide : Wide → UInt64
  narrow : Narrow → UInt32
  hist : Hist → Fin 13 → UInt32
  flags : UInt32

/-- What `AddSnap` sums. -/
inductive Counter
  | wide (w : Wide)
  | narrow (n : Narrow)
  | bin (h : Hist) (i : Fin 13)

def Counter.modulus : Counter → ℕ
  | .wide _ => 2^64
  | _ => 2^32

def KernelSnapshotRec.counter (r : KernelSnapshotRec) : Counter → ℕ
  | .wide w => (r.wide w).toNat
  | .narrow n => (r.narrow n).toNat
  | .bin h i => (r.hist h i).toNat

/-! ## MergePerCpu -/

def addSnap (dst src : KernelSnapshotRec) : KernelSnapshotRec :=
  { dst with
    wide := fun w => dst.wide w+src.wide w
    narrow := fun n => dst.narrow n+src.narrow n
    hist := fun h i => dst.hist h i+src.hist h i
    tsNs := if dst.tsNs < src.tsNs then src.tsNs else dst.tsNs
    flags := dst.flags ||| src.flags }

def nsPerTick (intervalMs : UInt64) : UInt64 :=
  let ns := intervalMs*1000000
  if ns = 0 then 100000000 else ns

/-- The thread and the tick of a record. -/
def groupKey (tick : UInt64) (r : KernelSnapshotRec) : UInt32 × UInt64 := (r.tid,r.tsNs/tick)

/-- The first record of a group is copied, the others are added. -/
def mergeStep (group : Option KernelSnapshotRec) (r : KernelSnapshotRec) :
    Option KernelSnapshotRec :=
  some (group.elim r fun dst => addSnap dst r)

def mergePerCpu (recs : List KernelSnapshotRec) (intervalMs : UInt64) : List KernelSnapshotRec :=
  let groups := groupFold comparePair (groupKey (nsPerTick intervalMs)) mergeStep none recs
  (groups.toList.filterMap Prod.snd).mergeSort fun a b => a.tsNs ≤ b.tsNs

def decodeSnapshot (r : KernelSnapshotRec) : CanonicalSnapshot where
  tsNs := r.tsNs
  tid := r.tid
  tgid := r.tgid
  comm := r.comm
  flags := r.flags
  nrSwVol := (r.narrow .nrSwVol).toUInt64
  nrSwInvol := (r.narrow .nrSwInvol).toUInt64
  value
    | .onCpuNs => r.wide .onCpuNs
    | .ioOps => r.wide .ioOps
    | .ioBytes => r.wide .ioBytes
    | .pfMinor => (r.narrow .pfMinor).toUInt64
    | .pfMajor => (r.narrow .pfMajor).toUInt64
    | .lockWaits => r.wide .lockWaits
    | .lockLatNs => r.wide .lockLatNs
    | .futexWaits => r.wide .futexWaits
    | .futexLatNs => r.wide .futexLatNs
    | .syscallCount => r.wide .syscallCount
    | .syscallLatNs => r.wide .syscallLatNs
    | .runqWaitCount => (r.narrow .runqWaitCount).toUInt64
    | .runqWaitNs => r.wide .runqWaitNs
  ioHist := List.ofFn (r.hist .io)
  lockHist := List.ofFn (r.hist .lock)
  syscallHist := List.ofFn (r.hist .syscall)
  futexHist := List.ofFn (r.hist .futex)
  runqHist := List.ofFn (r.hist .runq)

/-- The rows that a `DrainPost` with these records writes. -/
def drainRows (intervalMs : UInt64) (recs : List KernelSnapshotRec) : List CanonicalSnapshot :=
  (mergePerCpu recs intervalMs).map decodeSnapshot

/-! ## Drains of a stream -/

/-- A record and the CPU whose slice it is. -/
structure CpuRec (n : ℕ) where
  cpu : Fin n
  record : KernelSnapshotRec

variable {n : ℕ}

/-- The rows of successive drains. -/
def written (intervalMs : UInt64) (parts : List (List (CpuRec n))) : List CanonicalSnapshot :=
  parts.flatMap fun part => drainRows intervalMs (part.map CpuRec.record)

/-- A counter of a row. -/
def rowCounter (row : CanonicalSnapshot) : Counter → ℕ
  | .wide .onCpuNs => (row.value .onCpuNs).toNat
  | .wide .ioOps => (row.value .ioOps).toNat
  | .wide .ioBytes => (row.value .ioBytes).toNat
  | .wide .lockWaits => (row.value .lockWaits).toNat
  | .wide .lockLatNs => (row.value .lockLatNs).toNat
  | .wide .syscallCount => (row.value .syscallCount).toNat
  | .wide .syscallLatNs => (row.value .syscallLatNs).toNat
  | .wide .futexWaits => (row.value .futexWaits).toNat
  | .wide .futexLatNs => (row.value .futexLatNs).toNat
  | .wide .runqWaitNs => (row.value .runqWaitNs).toNat
  | .narrow .nrSwVol => row.nrSwVol.toNat
  | .narrow .nrSwInvol => row.nrSwInvol.toNat
  | .narrow .pfMinor => (row.value .pfMinor).toNat
  | .narrow .pfMajor => (row.value .pfMajor).toNat
  | .narrow .runqWaitCount => (row.value .runqWaitCount).toNat
  | .bin .io i => (row.ioHist.getD i 0).toNat
  | .bin .lock i => (row.lockHist.getD i 0).toNat
  | .bin .syscall i => (row.syscallHist.getD i 0).toNat
  | .bin .futex i => (row.futexHist.getD i 0).toNat
  | .bin .runq i => (row.runqHist.getD i 0).toNat

/-- The thread and the tick of a row. -/
def rowKey (tick : UInt64) (row : CanonicalSnapshot) : UInt32 × UInt64 := (row.tid,row.tsNs/tick)

/-- The records of one thread, tick and CPU. -/
def slices (tick : UInt64) (recs : List (CpuRec n)) (key : UInt32 × UInt64) (cpu : Fin n) :
    List (CpuRec n) :=
  recs.filter fun r => groupKey tick r.record = key ∧ r.cpu = cpu

/-- The row is the sum over the CPUs of exactly one slice each. -/
def OneSlicePerCpu (tick : UInt64) (part : List (CpuRec n)) (row : CanonicalSnapshot) : Prop :=
  ∃ slice : Fin n → CpuRec n, (∀ cpu, slices tick part (rowKey tick row) cpu = [slice cpu]) ∧
    ∀ c, rowCounter row c = (∑ cpu, (slice cpu).record.counter c) % c.modulus

/-- The series does not depend on the drains, its rows are sums of one slice from each CPU, and
no counter of a thread decreases. -/
structure Faithful (intervalMs : UInt64) (parts : List (List (CpuRec n))) : Prop where
  batching : (written intervalMs parts).Perm (written intervalMs [parts.flatten])
  slices : ∀ part ∈ parts, ∀ row ∈ drainRows intervalMs (part.map CpuRec.record),
    OneSlicePerCpu (nsPerTick intervalMs) part row
  monotone : ∀ row ∈ written intervalMs parts, ∀ row' ∈ written intervalMs parts,
    row.tid = row'.tid → row.tsNs < row'.tsNs → ∀ c, rowCounter row c ≤ rowCounter row' c

/-- The exact sum of a counter over the records of a thread and tick. -/
def total (tick : UInt64) (recs : List (CpuRec n)) (key : UInt32 × UInt64) (c : Counter) : ℕ :=
  ((recs.filter fun r => groupKey tick r.record = key).map fun r => r.record.counter c).sum

/-- No drain splits a tick of a thread, every CPU has one record in it, and no exact sum wraps
around its width between two ticks. -/
structure Aligned (tick : UInt64) (parts : List (List (CpuRec n))) : Prop where
  unsplit : Unsplit (fun r : CpuRec n => groupKey tick r.record) parts
  oneEach : ∀ r ∈ parts.flatten, ∀ cpu,
    (slices tick parts.flatten (groupKey tick r.record) cpu).length = 1
  noWrap : ∀ r ∈ parts.flatten, ∀ r' ∈ parts.flatten, r.record.tid = r'.record.tid →
    r.record.tsNs/tick < r'.record.tsNs/tick → ∀ c,
      total tick parts.flatten (groupKey tick r.record) c % c.modulus ≤
        total tick parts.flatten (groupKey tick r'.record) c % c.modulus

/-! ## What a group becomes -/

theorem counter_lt (r : KernelSnapshotRec) (c : Counter) : r.counter c < c.modulus := by
  cases c with
  | wide w => exact UInt64.toNat_lt _
  | narrow m => exact UInt32.toNat_lt _
  | bin h i => exact UInt32.toNat_lt _

theorem counter_addSnap (dst src : KernelSnapshotRec) (c : Counter) :
    (addSnap dst src).counter c = (dst.counter c+src.counter c) % c.modulus := by
  cases c with
  | wide w => exact UInt64.toNat_add _ _
  | narrow m => exact UInt32.toNat_add _ _
  | bin h i => exact UInt32.toNat_add _ _

theorem groupKey_addSnap {tick : UInt64} {key : UInt32 × UInt64} {dst src : KernelSnapshotRec}
    (hdst : groupKey tick dst = key) (hsrc : groupKey tick src = key) :
    groupKey tick (addSnap dst src) = key := by
  rw [← hdst]
  have htick : src.tsNs/tick = dst.tsNs/tick := congrArg Prod.snd (hsrc.trans hdst.symm)
  refine Prod.ext rfl ?_
  show (if dst.tsNs < src.tsNs then src.tsNs else dst.tsNs)/tick = dst.tsNs/tick
  split
  · exact htick
  · rfl

theorem foldl_mergeStep_some {tick : UInt64} {key : UInt32 × UInt64}
    (group : List KernelSnapshotRec) : ∀ {dst : KernelSnapshotRec}, groupKey tick dst = key →
      (∀ r ∈ group, groupKey tick r = key) →
      ∃ r, group.foldl mergeStep (some dst) = some r ∧ groupKey tick r = key ∧
        ∀ c, r.counter c = (dst.counter c+(group.map fun r => r.counter c).sum) % c.modulus := by
  induction group with
  | nil =>
    intro dst hdst _
    refine ⟨dst,rfl,hdst,fun c => ?_⟩
    rw [List.map_nil,List.sum_nil,Nat.add_zero,Nat.mod_eq_of_lt (counter_lt dst c)]
  | cons src group ih =>
    intro dst hdst hgroup
    have hsrc := hgroup src List.mem_cons_self
    obtain ⟨r,hr,hkey,hsum⟩ := ih (groupKey_addSnap hdst hsrc)
      fun r hr => hgroup r (List.mem_cons_of_mem _ hr)
    refine ⟨r,hr,hkey,fun c => ?_⟩
    rw [hsum,counter_addSnap,List.map_cons,List.sum_cons,Nat.mod_add_mod,Nat.add_assoc]

/-- A group becomes one record of its thread and tick that holds the sums. -/
theorem foldl_mergeStep {tick : UInt64} {key : UInt32 × UInt64} {group : List KernelSnapshotRec}
    (hne : group ≠ []) (hgroup : ∀ r ∈ group, groupKey tick r = key) :
    ∃ r, group.foldl mergeStep none = some r ∧ groupKey tick r = key ∧
      ∀ c, r.counter c = (group.map fun r => r.counter c).sum % c.modulus := by
  cases group with
  | nil => exact absurd rfl hne
  | cons dst group =>
    exact foldl_mergeStep_some group (hgroup dst List.mem_cons_self)
      fun r hr => hgroup r (List.mem_cons_of_mem _ hr)

/-- The groups of a drain. -/
def groups (tick : UInt64) (recs : List KernelSnapshotRec) :
    List ((UInt32 × UInt64) × Option KernelSnapshotRec) :=
  (groupFold comparePair (groupKey tick) mergeStep none recs).toList

theorem exists_merged {tick : UInt64} {recs : List KernelSnapshotRec}
    {e : (UInt32 × UInt64) × Option KernelSnapshotRec} (he : e ∈ groups tick recs) :
    (∃ r ∈ recs, groupKey tick r = e.1) ∧ ∃ r, e.2 = some r ∧ groupKey tick r = e.1 ∧
      ∀ c, r.counter c =
        ((recs.filter (groupKey tick · = e.1)).map fun r => r.counter c).sum % c.modulus := by
  obtain ⟨⟨r,hr,hkey⟩,hfold⟩ := (mem_groupFold _ _ _ recs e.1 e.2).mp he
  refine ⟨⟨r,hr,hkey⟩,?_⟩
  rw [← hfold]
  refine foldl_mergeStep (List.ne_nil_of_mem (List.mem_filter.mpr ⟨hr,by simpa using hkey⟩)) ?_
  intro s hs
  simpa using (List.mem_filter.mp hs).2

/-- The merged record has the thread and the time of one of its records. -/
theorem foldl_mergeStep_source (group : List KernelSnapshotRec) : ∀ dst : KernelSnapshotRec,
    (∀ s ∈ group, s.tid = dst.tid) → ∃ r, group.foldl mergeStep (some dst) = some r ∧
      ∃ s ∈ dst::group, s.tid = r.tid ∧ s.tsNs = r.tsNs := by
  induction group with
  | nil => exact fun dst _ => ⟨dst,rfl,dst,List.mem_cons_self,rfl,rfl⟩
  | cons src group ih =>
    intro dst htid
    have hsrc : src.tid = dst.tid := htid src List.mem_cons_self
    obtain ⟨r,hr,s,hs,hstid,hsts⟩ := ih (addSnap dst src)
      fun s hs => htid s (List.mem_cons_of_mem _ hs)
    refine ⟨r,hr,?_⟩
    rcases List.mem_cons.mp hs with rfl | hs
    · by_cases hlt : dst.tsNs < src.tsNs
      · have hts : (addSnap dst src).tsNs = src.tsNs := if_pos hlt
        exact ⟨src,by simp,hsrc.trans hstid,hts ▸ hsts⟩
      · have hts : (addSnap dst src).tsNs = dst.tsNs := if_neg hlt
        exact ⟨dst,by simp,hstid,hts ▸ hsts⟩
    · exact ⟨s,by simp [hs],hstid,hsts⟩

theorem mem_mergePerCpu {recs : List KernelSnapshotRec} {intervalMs : UInt64}
    {r : KernelSnapshotRec} (h : r ∈ mergePerCpu recs intervalMs) :
    ∃ s ∈ recs, s.tid = r.tid ∧ s.tsNs = r.tsNs := by
  obtain ⟨e,he,hr⟩ := List.mem_filterMap.mp (List.mem_mergeSort.mp h)
  obtain ⟨⟨s,hs,hkey⟩,hfold⟩ := (mem_groupFold _ _ _ recs e.1 e.2).mp he
  have hgroup : ∀ t ∈ recs.filter (groupKey (nsPerTick intervalMs) · = e.1),
      t ∈ recs ∧ t.tid = e.1.1 := by
    intro t ht
    obtain ⟨htrecs,htkey⟩ := List.mem_filter.mp ht
    exact ⟨htrecs,congrArg Prod.fst (of_decide_eq_true htkey)⟩
  cases hg : recs.filter (groupKey (nsPerTick intervalMs) · = e.1) with
  | nil =>
    rw [hg] at hfold
    rw [← hfold] at hr
    cases hr
  | cons dst group =>
    rw [hg] at hfold hgroup
    have hdst := hgroup dst List.mem_cons_self
    obtain ⟨m,hm,t,ht,htid,hts⟩ := foldl_mergeStep_source group dst fun t ht =>
      (hgroup t (List.mem_cons_of_mem _ ht)).2.trans hdst.2.symm
    have hmr : m = r := by
      refine Option.some.inj (hm.symm.trans ?_)
      rw [← hr]
      exact hfold
    exact ⟨t,(hgroup t ht).1,hmr ▸ htid,hmr ▸ hts⟩

theorem getD_ofFn (f : Fin 13 → UInt32) (i : Fin 13) : (List.ofFn f).getD i 0 = f i := by
  rw [List.getD_eq_getElem?_getD,List.getElem?_ofFn,dif_pos i.isLt,Option.getD_some]

theorem rowCounter_decodeSnapshot (r : KernelSnapshotRec) (c : Counter) :
    rowCounter (decodeSnapshot r) c = r.counter c := by
  cases c with
  | wide w => cases w <;> rfl
  | narrow m => cases m <;> simp [rowCounter,decodeSnapshot,KernelSnapshotRec.counter]
  | bin h i =>
    cases h <;> simp only [rowCounter,decodeSnapshot,KernelSnapshotRec.counter,getD_ofFn]

/-- The row of a group. -/
def groupRow (e : (UInt32 × UInt64) × Option KernelSnapshotRec) : Option CanonicalSnapshot :=
  e.2.map decodeSnapshot

theorem drainRows_perm (intervalMs : UInt64) (recs : List KernelSnapshotRec) :
    (drainRows intervalMs recs).Perm ((groups (nsPerTick intervalMs) recs).filterMap groupRow) := by
  have hrow : (groups (nsPerTick intervalMs) recs).filterMap groupRow =
      ((groups (nsPerTick intervalMs) recs).filterMap Prod.snd).map decodeSnapshot := by
    rw [List.map_filterMap]
    rfl
  rw [hrow]
  exact (List.mergeSort_perm _ _).map _

/-! ## Batching -/

/-- The records without their CPUs. -/
def records (parts : List (List (CpuRec n))) : List (List KernelSnapshotRec) :=
  parts.map fun part => part.map CpuRec.record

theorem flatten_records (parts : List (List (CpuRec n))) :
    (records parts).flatten = parts.flatten.map CpuRec.record := by
  rw [records,List.map_flatten]

theorem unsplit_records (tick : UInt64) (parts : List (List (CpuRec n))) :
    Unsplit (groupKey tick) (records parts) ↔
      Unsplit (fun r : CpuRec n => groupKey tick r.record) parts := by
  rw [Unsplit,records,List.pairwise_map]
  simp only [List.forall_mem_map]
  rfl

theorem written_perm (intervalMs : UInt64) (parts : List (List (CpuRec n))) :
    (written intervalMs parts).Perm ((batches comparePair (groupKey (nsPerTick intervalMs))
      mergeStep none (records parts)).filterMap groupRow) := by
  rw [batches,List.filterMap_flatMap,records,List.flatMap_map,written]
  exact List.Perm.flatMap_left parts fun part _ => drainRows_perm intervalMs _

/-- The rows tell the groups they come from. -/
theorem map_rowKey (intervalMs : UInt64) (parts : List (List (CpuRec n))) :
    ((written intervalMs parts).map (rowKey (nsPerTick intervalMs))).Perm
      ((batches comparePair (groupKey (nsPerTick intervalMs)) mergeStep none
        (records parts)).map Prod.fst) := by
  have hkeys : ((batches comparePair (groupKey (nsPerTick intervalMs)) mergeStep none
      (records parts)).filterMap groupRow).map (rowKey (nsPerTick intervalMs)) =
      (batches comparePair (groupKey (nsPerTick intervalMs)) mergeStep none
        (records parts)).map Prod.fst := by
    rw [List.map_filterMap,← List.filterMap_eq_map']
    refine List.filterMap_congr fun e he => ?_
    obtain ⟨recs,_,he⟩ := List.mem_flatMap.mp he
    obtain ⟨r,hr,hkey,_⟩ := (exists_merged he).2
    rw [groupRow,hr]
    exact congrArg some hkey
  rw [← hkeys]
  exact (written_perm intervalMs parts).map _

/-- The rows are those of a single drain exactly when no tick of a thread is split. -/
theorem batching_iff (intervalMs : UInt64) (parts : List (List (CpuRec n))) :
    (written intervalMs parts).Perm (written intervalMs [parts.flatten]) ↔
      Unsplit (fun r : CpuRec n => groupKey (nsPerTick intervalMs) r.record) parts := by
  have hsingle : records [parts.flatten] = [(records parts).flatten] := by
    rw [flatten_records]
    rfl
  rw [← unsplit_records]
  constructor
  · intro h
    have hkeys := (map_rowKey intervalMs parts).symm.trans
      ((h.map (rowKey (nsPerTick intervalMs))).trans (map_rowKey intervalMs [parts.flatten]))
    rw [← nodup_batches_iff comparePair (groupKey (nsPerTick intervalMs)) mergeStep none,
      hkeys.nodup_iff,nodup_batches_iff,hsingle]
    exact List.pairwise_singleton _ _
  · intro h
    have hperm := batches_perm comparePair mergeStep none h
    have hone : batches comparePair (groupKey (nsPerTick intervalMs)) mergeStep none
        (records [parts.flatten]) = (groupFold comparePair (groupKey (nsPerTick intervalMs))
          mergeStep none (records parts).flatten).toList := by
      rw [hsingle]
      exact List.flatMap_singleton _ _
    have hrows := written_perm intervalMs [parts.flatten]
    rw [hone] at hrows
    exact ((written_perm intervalMs parts).trans (hperm.filterMap groupRow)).trans hrows.symm

/-! ## Rows and slices -/

theorem mem_drainRows {intervalMs : UInt64} {part : List (CpuRec n)} {row : CanonicalSnapshot}
    (h : row ∈ drainRows intervalMs (part.map CpuRec.record)) :
    ∃ r ∈ part, rowKey (nsPerTick intervalMs) row = groupKey (nsPerTick intervalMs) r.record ∧
      ∀ c, rowCounter row c =
        total (nsPerTick intervalMs) part (groupKey (nsPerTick intervalMs) r.record) c %
          c.modulus := by
  obtain ⟨e,he,hrow⟩ := List.mem_filterMap.mp ((drainRows_perm intervalMs _).mem_iff.mp h)
  obtain ⟨⟨r,hr,hkey⟩,merged,hmerged,hmergedKey,hsum⟩ := exists_merged he
  obtain ⟨s,hs,rfl⟩ := List.mem_map.mp hr
  rw [groupRow,hmerged] at hrow
  obtain rfl := Option.some.inj hrow
  refine ⟨s,hs,hmergedKey.trans hkey.symm,fun c => ?_⟩
  rw [rowCounter_decodeSnapshot,hsum,hkey,total,List.filter_map,List.map_map]
  rfl

theorem exists_row (intervalMs : UInt64) {part : List (CpuRec n)} {r : CpuRec n} (hr : r ∈ part) :
    ∃ row ∈ drainRows intervalMs (part.map CpuRec.record),
      rowKey (nsPerTick intervalMs) row = groupKey (nsPerTick intervalMs) r.record := by
  have hkey : groupKey (nsPerTick intervalMs) r.record ∈
      (groups (nsPerTick intervalMs) (part.map CpuRec.record)).map Prod.fst :=
    (mem_keys_groupFold _ _ _ _ _).mpr ⟨r.record,List.mem_map_of_mem hr,rfl⟩
  obtain ⟨e,he,hfst⟩ := List.mem_map.mp hkey
  obtain ⟨_,merged,hmerged,hmergedKey,_⟩ := exists_merged he
  refine ⟨decodeSnapshot merged,(drainRows_perm intervalMs _).mem_iff.mpr ?_,?_⟩
  · exact List.mem_filterMap.mpr ⟨e,he,by rw [groupRow,hmerged]; rfl⟩
  · rw [← hfst,← hmergedKey]
    rfl

theorem slices_eq (tick : UInt64) (recs : List (CpuRec n)) (key : UInt32 × UInt64) (cpu : Fin n) :
    slices tick recs key cpu =
      (recs.filter fun r => groupKey tick r.record = key).filter fun r => r.cpu = cpu := by
  rw [slices,List.filter_filter]
  refine List.filter_congr fun r _ => ?_
  rw [Bool.decide_and,Bool.and_comm]

/-- The records of a thread and tick are those of the CPUs. -/
theorem total_eq_sum (tick : UInt64) (recs : List (CpuRec n)) (key : UInt32 × UInt64)
    (c : Counter) : total tick recs key c =
      ∑ cpu, ((slices tick recs key cpu).map fun r => r.record.counter c).sum := by
  simp only [total,slices_eq]
  generalize recs.filter (fun r => groupKey tick r.record = key) = group
  induction group with
  | nil => simp
  | cons r group ih =>
    have hcpu : ∀ cpu, (((r::group).filter fun r => r.cpu = cpu).map fun r =>
        r.record.counter c).sum = (if r.cpu = cpu then r.record.counter c else 0)+
          ((group.filter fun r => r.cpu = cpu).map fun r => r.record.counter c).sum := by
      intro cpu
      by_cases h : r.cpu = cpu <;> simp [h]
    simp only [hcpu,Finset.sum_add_distrib,Finset.sum_ite_eq,Finset.mem_univ,if_true,← ih,
      List.map_cons,List.sum_cons]

section Unsplit

variable {intervalMs : UInt64} {parts : List (List (CpuRec n))}
  (h : Unsplit (fun r : CpuRec n => groupKey (nsPerTick intervalMs) r.record) parts)
include h

theorem slices_flatten {part : List (CpuRec n)} (hpart : part ∈ parts) {r : CpuRec n}
    (hr : r ∈ part) (cpu : Fin n) :
    slices (nsPerTick intervalMs) parts.flatten (groupKey (nsPerTick intervalMs) r.record) cpu =
      slices (nsPerTick intervalMs) part (groupKey (nsPerTick intervalMs) r.record) cpu := by
  rw [slices_eq,slices_eq,filter_flatten h hpart hr]

theorem total_flatten {part : List (CpuRec n)} (hpart : part ∈ parts) {r : CpuRec n}
    (hr : r ∈ part) (c : Counter) :
    total (nsPerTick intervalMs) parts.flatten (groupKey (nsPerTick intervalMs) r.record) c =
      total (nsPerTick intervalMs) part (groupKey (nsPerTick intervalMs) r.record) c := by
  rw [total,total,filter_flatten h hpart hr]

/-- A row of the series and the records it comes from. -/
theorem mem_written {row : CanonicalSnapshot} (hrow : row ∈ written intervalMs parts) :
    ∃ r ∈ parts.flatten,
      rowKey (nsPerTick intervalMs) row = groupKey (nsPerTick intervalMs) r.record ∧
        ∀ c, rowCounter row c = total (nsPerTick intervalMs) parts.flatten
          (groupKey (nsPerTick intervalMs) r.record) c % c.modulus := by
  obtain ⟨part,hpart,hrow⟩ := List.mem_flatMap.mp hrow
  obtain ⟨r,hr,hkey,hsum⟩ := mem_drainRows hrow
  refine ⟨r,List.mem_flatten.mpr ⟨part,hpart,hr⟩,hkey,fun c => ?_⟩
  rw [hsum,total_flatten h hpart hr]

theorem nodup_rowKey : ((written intervalMs parts).map (rowKey (nsPerTick intervalMs))).Nodup := by
  rw [(map_rowKey intervalMs parts).nodup_iff,nodup_batches_iff]
  exact (unsplit_records _ parts).mpr h

theorem slices_iff : (∀ part ∈ parts, ∀ row ∈ drainRows intervalMs (part.map CpuRec.record),
    OneSlicePerCpu (nsPerTick intervalMs) part row) ↔ ∀ r ∈ parts.flatten, ∀ cpu,
      (slices (nsPerTick intervalMs) parts.flatten
        (groupKey (nsPerTick intervalMs) r.record) cpu).length = 1 := by
  constructor
  · intro hrows r hr cpu
    obtain ⟨part,hpart,hr⟩ := List.mem_flatten.mp hr
    obtain ⟨row,hrow,hkey⟩ := exists_row intervalMs hr
    obtain ⟨slice,hslice,_⟩ := hrows part hpart row hrow
    rw [slices_flatten h hpart hr,← hkey,hslice]
    rfl
  · intro hone part hpart row hrow
    obtain ⟨r,hr,hkey,hsum⟩ := mem_drainRows hrow
    have hslice : ∀ cpu, ∃ slice, slices (nsPerTick intervalMs) part
        (groupKey (nsPerTick intervalMs) r.record) cpu = [slice] := by
      intro cpu
      rw [← slices_flatten h hpart hr]
      exact List.length_eq_one_iff.mp (hone r (List.mem_flatten.mpr ⟨part,hpart,hr⟩) cpu)
    choose slice hslice using hslice
    refine ⟨slice,fun cpu => by rw [hkey,hslice],fun c => ?_⟩
    rw [hsum,total_eq_sum]
    refine congrArg (· % c.modulus) (Finset.sum_congr rfl fun cpu _ => ?_)
    rw [hslice,List.map_singleton,List.sum_singleton]

theorem monotone_iff : (∀ row ∈ written intervalMs parts, ∀ row' ∈ written intervalMs parts,
    row.tid = row'.tid → row.tsNs < row'.tsNs → ∀ c, rowCounter row c ≤ rowCounter row' c) ↔
      ∀ r ∈ parts.flatten, ∀ r' ∈ parts.flatten, r.record.tid = r'.record.tid →
        r.record.tsNs/nsPerTick intervalMs < r'.record.tsNs/nsPerTick intervalMs → ∀ c,
          total (nsPerTick intervalMs) parts.flatten
              (groupKey (nsPerTick intervalMs) r.record) c % c.modulus ≤
            total (nsPerTick intervalMs) parts.flatten
              (groupKey (nsPerTick intervalMs) r'.record) c % c.modulus := by
  have hdiv : ∀ {a b : UInt64}, a ≤ b → a/nsPerTick intervalMs ≤ b/nsPerTick intervalMs := by
    intro a b hab
    rw [UInt64.le_iff_toNat_le,UInt64.toNat_div,UInt64.toNat_div]
    exact Nat.div_le_div_right (UInt64.le_iff_toNat_le.mp hab)
  constructor
  · intro hrows r hr r' hr' htid htick c
    have hexists : ∀ r ∈ parts.flatten, ∃ row ∈ written intervalMs parts,
        rowKey (nsPerTick intervalMs) row = groupKey (nsPerTick intervalMs) r.record := by
      intro r hr
      obtain ⟨part,hpart,hr⟩ := List.mem_flatten.mp hr
      obtain ⟨row,hrow,hkey⟩ := exists_row intervalMs hr
      exact ⟨row,List.mem_flatMap.mpr ⟨part,hpart,hrow⟩,hkey⟩
    obtain ⟨row,hrow,hkey⟩ := hexists r hr
    obtain ⟨row',hrow',hkey'⟩ := hexists r' hr'
    obtain ⟨s,_,hs,hsum⟩ := mem_written h hrow
    obtain ⟨s',_,hs',hsum'⟩ := mem_written h hrow'
    obtain ⟨hrowTid,hrowTick⟩ := Prod.mk.inj hkey
    obtain ⟨hrowTid',hrowTick'⟩ := Prod.mk.inj hkey'
    have hts : row.tsNs < row'.tsNs := by
      by_contra hle
      have hle' := hdiv (UInt64.not_lt.mp hle)
      rw [hrowTick,hrowTick'] at hle'
      exact UInt64.not_lt.mpr hle' htick
    have hle := hrows row hrow row' hrow' (hrowTid.trans (htid.trans hrowTid'.symm)) hts c
    rwa [hsum,hsum',← hs,hkey,← hs',hkey'] at hle
  · intro hsums row hrow row' hrow' htid hts c
    obtain ⟨r,hr,hkey,hsum⟩ := mem_written h hrow
    obtain ⟨r',hr',hkey',hsum'⟩ := mem_written h hrow'
    obtain ⟨hrTid,hrTick⟩ := Prod.mk.inj hkey
    obtain ⟨hrTid',hrTick'⟩ := Prod.mk.inj hkey'
    rw [hsum,hsum']
    refine hsums r hr r' hr' (hrTid.symm.trans (htid.trans hrTid')) ?_ c
    rw [← hrTick,← hrTick']
    refine UInt64.lt_of_le_of_ne (hdiv (UInt64.le_of_lt hts)) fun htick => ?_
    -- two rows of one thread and tick are one row
    have hsame : row = row' := List.inj_on_of_nodup_map (nodup_rowKey h) hrow hrow'
      (Prod.ext htid htick)
    rw [hsame] at hts
    exact UInt64.lt_irrefl _ hts

end Unsplit

/-- Drains of a stream give one faithful series exactly when they are aligned with its ticks. -/
theorem faithful_iff (intervalMs : UInt64) (parts : List (List (CpuRec n))) :
    Faithful intervalMs parts ↔ Aligned (nsPerTick intervalMs) parts := by
  constructor
  · intro hf
    have h := (batching_iff intervalMs parts).mp hf.batching
    exact ⟨h,(slices_iff h).mp hf.slices,(monotone_iff h).mp hf.monotone⟩
  · intro ha
    exact ⟨(batching_iff intervalMs parts).mpr ha.unsplit,(slices_iff ha.unsplit).mpr ha.oneEach,
      (monotone_iff ha.unsplit).mpr ha.noWrap⟩

/-- A CPU's slices of a thread come in the order of time and only grow. -/
def Cumulative (stream : List (CpuRec n)) : Prop :=
  stream.Pairwise fun r s => r.cpu = s.cpu → r.record.tid = s.record.tid →
    r.record.tsNs ≤ s.record.tsNs ∧ ∀ c, r.record.counter c ≤ s.record.counter c

/-- The slice of one CPU in the tick at 100 s. -/
def tickSlice (cpu : Fin 2) (tsNs onCpuNs : UInt64) : CpuRec 2 where
  cpu := cpu
  record :=
    { seq := 0, tsNs := tsNs, tgid := 7, tid := 7, comm := "worker"
      wide := fun w => if w = .onCpuNs then onCpuNs else 0
      narrow := fun _ => 0, hist := fun _ _ => 0, flags := 1 }

/-- A drain that runs between the samples of two CPUs. -/
def cutTick : List (List (CpuRec 2)) :=
  [[tickSlice 0 100000001000 5000000],[tickSlice 1 100000002000 3000000]]

theorem cutTick_not_faithful :
    ¬ ∀ (n : ℕ) (intervalMs : UInt64) (parts : List (List (CpuRec n))),
      Cumulative parts.flatten → Faithful intervalMs parts := by
  intro h
  have hcumulative : Cumulative cutTick.flatten :=
    List.pairwise_pair.mpr fun hcpu => absurd hcpu (by decide)
  have hunsplit := (batching_iff 100 cutTick).mp (h 2 100 cutTick hcumulative).batching
  exact (List.pairwise_pair.mp hunsplit) _ List.mem_cons_self _ List.mem_cons_self (by decide)

end PerCpuMerge
end ETraceDiag
