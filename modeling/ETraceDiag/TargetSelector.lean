import ETraceDiag.Handout
import ETraceDiag.HashOrder
import ETraceDiag.KernelMaps
import ETraceDiag.ProcessTable
import ETraceDiag.Transition
import Mathlib.Order.Nat

/-!
# The target selector

`TargetSelector` of `collect/target_selector.cpp`. The double arithmetic of the scores is a
parameter, a score is an element of a linear order; the loops over hash containers run in an
order that comes with the call. Map updates succeed.
-/

namespace ETraceDiag
namespace TargetSelector

open KernelMaps ProcessTable

structure Weights (F : Type) where
  cpu : F
  swch : F
  io : F
  fault : F
  lock : F

/-- `cfg.targets` and the two other settings that `Probe` reads. -/
structure Config (F : Type) where
  maxTargets : UInt32
  autoScale : Bool
  minTargets : UInt32
  perProcThreads : UInt32
  concurrencyFactor : F
  windowSeconds : UInt64
  enterRank : UInt32
  leaveRank : UInt32
  holdPeriods : UInt32
  minResidencySeconds : UInt64
  pinned : List UInt32
  weights : Weights F
  fineIntervalMs : UInt64
  ringBacklogSeconds : UInt64

structure HardwareProbe where
  onlineCpus : UInt32
  quotaCpus : UInt32
  cpusetCpus : UInt32
  ringSlots : UInt32

structure Counters where
  onCpuNs : UInt64 := 0
  swVol : UInt64 := 0
  swInvol : UInt64 := 0
  ioOps : UInt64 := 0
  ioBytes : UInt64 := 0
  pfMinor : UInt64 := 0
  pfMajor : UInt64 := 0
  lockWaits : UInt64 := 0

structure ProcAgg where
  onCpuNs : UInt64 := 0
  sw : UInt64 := 0
  ioOps : UInt64 := 0
  ioBytes : UInt64 := 0
  faults : UInt64 := 0
  lock : UInt64 := 0

structure ProcState where
  member : Bool := false
  pinnedProc : Bool := false
  goodStreak : UInt32 := 0
  badStreak : UInt32 := 0
  joinedNs : UInt64 := 0

structure Snapshot where
  tsNs : UInt64
  tids : Finset UInt32
  c : UInt32 → Counters

inductive TargetsEvent (F : Type)
  | join (tid tgid : UInt32) (score : F) (rank : ℕ)
  | leave (tid : UInt32) (rank : ℕ)

/-- `pstate_`: the processes that have an entry, and the entries. -/
structure Procs where
  known : Finset UInt32 := ∅
  st : UInt32 → ProcState := fun _ => {}

structure State (F : Type) where
  kernel : Maps
  log : List (TargetsEvent F) := []
  threadBudget : UInt32 := 16
  pstate : Procs := {}
  pinned : Finset UInt32 := ∅
  members : Finset UInt32 := ∅
  procs : Finset UInt32 := ∅
  history : List Snapshot := []

/-- The computations in doubles: `ceil` of the scaled concurrency, clock ticks to nanoseconds,
and `ComputeScore` over a window of so many nanoseconds. -/
structure Arith (F : Type) where
  byConcurrency : UInt32 → F → UInt32
  cpuNs : UInt64 → UInt64
  score : Weights F → UInt64 → ProcAgg → F

/-- The order in which each container is enumerated. -/
structure Orders where
  cur : HashOrder UInt32
  pacc : HashOrder UInt32
  pstate : HashOrder UInt32
  threadDelta : HashOrder UInt32
  members : HashOrder UInt32
  desired : HashOrder UInt32

/-- What a call finds outside: the memory behind the key it passes for a thread, and the name
that `/proc` has for it. -/
structure Surroundings where
  behind : UInt32 → Memory
  comm : UInt32 → List UInt8

/-- `block_io` and `lock_st` of a thread, summed over the CPUs. -/
structure Readings where
  blockIo : UInt32 → Option (UInt64 × UInt64)
  lockWaits : UInt32 → Option UInt64

section Selector

variable {F : Type}

/-! ## Probe -/

def Arith.probe (ar : Arith F) (cfg : Config F) (hw : HardwareProbe) : UInt32 :=
  let eff := if hw.onlineCpus ≠ 0 then hw.onlineCpus else 1
  let eff := if hw.quotaCpus ≠ 0 ∧ hw.quotaCpus < eff then hw.quotaCpus else eff
  let eff := if hw.cpusetCpus ≠ 0 ∧ hw.cpusetCpus < eff then hw.cpusetCpus else eff
  let budget :=
    if cfg.autoScale then
      let fineMs := if cfg.fineIntervalMs ≠ 0 then cfg.fineIntervalMs else 100
      let backlogS := if cfg.ringBacklogSeconds ≠ 0 then cfg.ringBacklogSeconds else 90
      let ticks := backlogS*1000/fineMs
      let byRing := hw.ringSlots/(if ticks ≠ 0 then ticks.toUInt32 else 1)
      let budget := min (ar.byConcurrency eff cfg.concurrencyFactor) byRing
      let budget := min budget cfg.maxTargets
      let budget := if budget < cfg.minTargets then cfg.minTargets else budget
      if cfg.maxTargets < budget then cfg.maxTargets else budget
    else cfg.maxTargets
  if budget ≠ 0 then budget else 1

def probe (ar : Arith F) (cfg : Config F) (hw : HardwareProbe) (s : State F) : State F :=
  { s with threadBudget := ar.probe cfg hw }

/-! ## Joining and leaving -/

/-- `task_meta_t`. -/
def taskMeta (tgid : UInt32) (comm : List UInt8) : List UInt8 :=
  let name := (comm.takeWhile (· ≠ 0)).take 15
  tidKey tgid++name++List.replicate (16-name.length) 0

def State.addTarget (env : Surroundings) (flags tid tgid : UInt32) (s : State F) : State F :=
  { s with kernel := KernelMaps.addTarget (.atTid tid (env.behind tid)) (tidKey flags)
             (taskMeta tgid (env.comm tid)) s.kernel }

def State.join (env : Surroundings) (tgid : UInt32 → UInt32) (score : UInt32 → F)
    (rank : UInt32 → ℕ) (s : State F) (tid : UInt32) : State F :=
  let s := s.addTarget env 2 tid (tgid tid)
  { s with log := s.log++[.join tid (tgid tid) (score tid) (rank (tgid tid))] }

def State.leave (env : Surroundings) (tgid : UInt32 → UInt32) (rank : UInt32 → ℕ) (s : State F)
    (tid : UInt32) : State F :=
  { s with kernel := KernelMaps.leave (.atTid tid (env.behind tid)) s.kernel
           log := s.log++[.leave tid (rank (tgid tid))] }

/-- One id of `ApplyPinned`; 0 as the process id says that `/proc` has none. -/
def State.pin (env : Surroundings) (tgidOf : UInt32 → UInt32) (now : UInt64) (s : State F)
    (tid : UInt32) : State F :=
  if tid = 0 ∨ tid ∈ s.pinned then s
  else
    let tgid := if tgidOf tid ≠ 0 then tgidOf tid else tid
    let s := { s with pinned := insert tid s.pinned }.addTarget env 1 tid tgid
    { s with
      members := insert tid s.members
      procs := insert tgid s.procs
      pstate :=
        { known := insert tgid s.pstate.known
          st := Function.update s.pstate.st tgid
            { (if tgid ∈ s.pstate.known then s.pstate.st tgid else {}) with
              member := true, pinnedProc := true, joinedNs := now } } }

def applyPinned (env : Surroundings) (tgidOf : UInt32 → UInt32) (now : UInt64) (cfg : Config F)
    (s : State F) : State F :=
  cfg.pinned.foldl (State.pin env tgidOf now) s

/-! ## The window -/

/-- The row that stays under a thread id: the last one. -/
def row? (rows : List ProcessRow) (tid : UInt32) : Option ProcessRow :=
  rows.reverse.find? fun r => r.pid = tid

def tgidOf (rows : List ProcessRow) (tid : UInt32) : UInt32 :=
  match row? rows tid with
  | some r => if r.tgid ≠ 0 then r.tgid else r.pid
  | none => tid

def readTid (k : Readings) (tid : UInt32) (row : ProcessRow) : Counters where
  onCpuNs := row.utime+row.stime
  swVol := row.nvcsw
  swInvol := row.nivcsw
  pfMinor := row.minflt
  pfMajor := row.majflt
  ioOps := ((k.blockIo tid).map Prod.fst).getD 0
  ioBytes := ((k.blockIo tid).map Prod.snd).getD 0
  lockWaits := (k.lockWaits tid).getD 0

def snapshot (now : UInt64) (k : Readings) (rows : List ProcessRow) : Snapshot where
  tsNs := now
  tids := (rows.map ProcessRow.pid).toFinset
  c := fun tid => ((row? rows tid).map (readTid k tid)).getD {}

/-- Old snapshots go, down to two. -/
def slide (now windowSeconds : UInt64) : List Snapshot → List Snapshot
  | a::b::c::rest =>
    if windowSeconds*1000000000 < now-a.tsNs then slide now windowSeconds (b::c::rest)
    else a::b::c::rest
  | history => history

/-- The growth of a counter; 0 when it has been reset. -/
def growth (c b : UInt64) : UInt64 := if b ≤ c then c-b else 0

def Counters.since (c b : Counters) : Counters where
  onCpuNs := growth c.onCpuNs b.onCpuNs
  swVol := growth c.swVol b.swVol
  swInvol := growth c.swInvol b.swInvol
  ioOps := growth c.ioOps b.ioOps
  ioBytes := growth c.ioBytes b.ioBytes
  pfMinor := growth c.pfMinor b.pfMinor
  pfMajor := growth c.pfMajor b.pfMajor
  lockWaits := growth c.lockWaits b.lockWaits

/-- What an evaluation ranks: the threads, their processes and what they did in the window. -/
structure View where
  tids : Finset UInt32
  tgid : UInt32 → UInt32
  delta : UInt32 → Counters
  windowNs : UInt64

def view (rows : List ProcessRow) (base cur : Snapshot) : View where
  tids := cur.tids
  tgid := tgidOf rows
  delta := fun tid => if tid ∈ base.tids then (cur.c tid).since (base.c tid) else cur.c tid
  windowNs := cur.tsNs-base.tsNs

/-! ## Scores and ranks -/

def ProcAgg.of (ar : Arith F) (d : Counters) : ProcAgg where
  onCpuNs := ar.cpuNs d.onCpuNs
  sw := d.swVol+d.swInvol
  ioOps := d.ioOps
  ioBytes := d.ioBytes
  faults := d.pfMinor+d.pfMajor
  lock := d.lockWaits

def ProcAgg.add (a b : ProcAgg) : ProcAgg where
  onCpuNs := a.onCpuNs+b.onCpuNs
  sw := a.sw+b.sw
  ioOps := a.ioOps+b.ioOps
  ioBytes := a.ioBytes+b.ioBytes
  faults := a.faults+b.faults
  lock := a.lock+b.lock

def View.procs (v : View) : Finset UInt32 := v.tids.image v.tgid

def View.threadScore (v : View) (ar : Arith F) (cfg : Config F) (tid : UInt32) : F :=
  ar.score cfg.weights v.windowNs (.of ar (v.delta tid))

def View.procAgg (v : View) (ar : Arith F) (o : Orders) (p : UInt32) : ProcAgg :=
  ((o.cur.enum v.tids).filter fun tid => v.tgid tid = p).foldl
    (fun a tid => a.add (.of ar (v.delta tid))) {}

def View.procScore (v : View) (ar : Arith F) (cfg : Config F) (o : Orders) (p : UInt32) : F :=
  ar.score cfg.weights v.windowNs (v.procAgg ar o p)

/-- `rank`, which counts from 1. -/
def rank? (ranked : List UInt32) (p : UInt32) : Option ℕ :=
  if p ∈ ranked then some (ranked.idxOf p+1) else none

def rankOr (ranked : List UInt32) (absent : ℕ) (p : UInt32) : ℕ := (rank? ranked p).getD absent

/-! ## The processes -/

def Procs.ensure (ps : Finset UInt32) (t : Procs) : Procs where
  known := t.known ∪ ps
  st := fun p => if p ∈ ps ∧ p ∉ t.known then {} else t.st p

/-- One entry in the hysteresis loop. -/
def ProcState.scan (cfg : Config F) (rank : ℕ) (st : ProcState) : ProcState :=
  if st.pinnedProc then st
  else if st.member then
    { st with badStreak := if cfg.leaveRank.toNat < rank then st.badStreak+1 else 0 }
  else { st with goodStreak := if rank ≤ cfg.enterRank.toNat then st.goodStreak+1 else 0 }

def ProcState.leaves (cfg : Config F) (now : UInt64) (st : ProcState) : Bool :=
  !st.pinnedProc && st.member && cfg.holdPeriods ≤ st.badStreak &&
    cfg.minResidencySeconds*1000000000 ≤ now-st.joinedNs

def ProcState.joins (cfg : Config F) (st : ProcState) : Bool :=
  !st.pinnedProc && !st.member && cfg.holdPeriods ≤ st.goodStreak

def ProcState.marked (st : ProcState) : Bool := st.member || st.pinnedProc

def Procs.scan (cfg : Config F) (ranked : List UInt32) (t : Procs) : Procs :=
  { t with st := fun p =>
      if p ∈ t.known then (t.st p).scan cfg (rankOr ranked 0xFFFFFFFF p) else t.st p }

def Procs.drop (leaveList : List UInt32) (t : Procs) : Procs :=
  { t with st := fun p =>
      if p ∈ leaveList then { t.st p with member := false, badStreak := 0 } else t.st p }

/-- The processes that join while there is room for another one. -/
def joinLoop (procBudget : ℕ) : ℕ → List UInt32 → List UInt32
  | _, [] => []
  | memberProc, p::ps =>
    if procBudget ≤ memberProc then [] else p::joinLoop procBudget (memberProc+1) ps

def Procs.enroll (now : UInt64) (joined : List UInt32) (t : Procs) : Procs :=
  { t with st := fun p =>
      if p ∈ joined then { t.st p with member := true, goodStreak := 0, joinedNs := now }
      else t.st p }

def procBudget (threadBudget : UInt32) (cfg : Config F) : ℕ :=
  max 1 (threadBudget/(if cfg.perProcThreads ≠ 0 then cfg.perProcThreads else 1)).toNat

/-- The processes that are marked as members or pinned. -/
def Procs.marked (t : Procs) : Finset UInt32 := t.known.filter fun p => (t.st p).marked

def Procs.pinned (t : Procs) : Finset UInt32 := t.known.filter fun p => (t.st p).pinnedProc

/-- Step 6 and the loop of step 7. -/
def scanned (cfg : Config F) (v : View) (ranked : List UInt32) (t : Procs) : Procs :=
  (t.ensure v.procs).scan cfg ranked

def leaveList (cfg : Config F) (o : Orders) (now : UInt64) (t : Procs) : List UInt32 :=
  (o.pstate.enum t.known).filter fun p => (t.st p).leaves cfg now

def joinList (cfg : Config F) (o : Orders) (ranked : List UInt32) (t : Procs) : List UInt32 :=
  HashOrder.sortAsc (rankOr ranked 0) ((o.pstate.enum t.known).filter fun p => (t.st p).joins cfg)

/-- The table of a loop that has been through, without the processes that leave. -/
def stayed (cfg : Config F) (o : Orders) (now : UInt64) (t : Procs) : Procs :=
  t.drop (leaveList cfg o now t)

/-- Step 8. -/
def selected (cfg : Config F) (threadBudget : UInt32) (o : Orders) (now : UInt64)
    (ranked : List UInt32) (t : Procs) : Procs :=
  let t' := stayed cfg o now t
  let memberProc := (o.pstate.enum t'.known).countP fun p => (t'.st p).marked
  t'.enroll now (joinLoop (procBudget threadBudget cfg) memberProc (joinList cfg o ranked t))

/-! ## The threads -/

section Threads

variable [LinearOrder F]

def View.ranked (v : View) (ar : Arith F) (cfg : Config F) (o : Orders) : List UInt32 :=
  HashOrder.sortDesc (v.procScore ar cfg o) (o.pacc.enum v.procs)

/-- `threads_by_proc` of one process. -/
def View.threads (v : View) (ar : Arith F) (cfg : Config F) (o : Orders) (p : UInt32) :
    List UInt32 :=
  HashOrder.sortDesc (v.threadScore ar cfg)
    ((o.threadDelta.enum v.tids).filter fun tid => v.tgid tid = p)

/-- The loop of the fallback. -/
def placeFirst (threadBudget : ℕ) : ℕ → Finset UInt32 → List UInt32 → Finset UInt32
  | 0, desired, _ => desired
  | _+1, desired, [] => desired
  | take+1, desired, tid::tids =>
    if threadBudget ≤ desired.card then desired
    else placeFirst threadBudget take (insert tid desired) tids

/-- Step 9 without the fallback. -/
def View.handout (v : View) (ar : Arith F) (cfg : Config F) (threadBudget : UInt32) (o : Orders)
    (pinned : Finset UInt32) (t : Procs) : Finset UInt32 :=
  Handout.fill threadBudget.toNat cfg.perProcThreads.toNat (v.threads ar cfg o) pinned
    ((o.pstate.enum t.known).filter fun p => (t.st p).marked)

/-- The fallback: the first process gets its threads when nobody has any. -/
def View.fallback (v : View) (ar : Arith F) (cfg : Config F) (threadBudget : UInt32)
    (o : Orders) (now : UInt64) (ranked : List UInt32) (t : Procs) (desired : Finset UInt32) :
    Procs × Finset UInt32 :=
  match ranked with
  | [] => (t,desired)
  | top::_ =>
    if desired = ∅ then
      ({ t with st := Function.update t.st top { t.st top with member := true, joinedNs := now } },
        placeFirst threadBudget.toNat cfg.perProcThreads.toNat desired (v.threads ar cfg o top))
    else (t,desired)

/-- The processes and threads that an evaluation ends up with. -/
def View.choose (v : View) (ar : Arith F) (cfg : Config F) (o : Orders) (now : UInt64)
    (s : State F) : Procs × Finset UInt32 :=
  let ranked := v.ranked ar cfg o
  let t := selected cfg s.threadBudget o now ranked (scanned cfg v ranked s.pstate)
  v.fallback ar cfg s.threadBudget o now ranked t
    (v.handout ar cfg s.threadBudget o s.pinned t)

/-- Step 10: the difference to the members goes to the maps and the log. -/
def State.adopt (env : Surroundings) (v : View) (ar : Arith F) (cfg : Config F) (o : Orders)
    (ranked : List UInt32) (desired : Finset UInt32) (s : State F) : State F :=
  let leaving := (o.members.enum s.members).filter (· ∉ desired)
  let joining := (o.desired.enum desired).filter (· ∉ s.members)
  let s := leaving.foldl (State.leave env v.tgid (rankOr ranked 0)) s
  let s := joining.foldl (State.join env v.tgid (v.threadScore ar cfg) (rankOr ranked 0)) s
  { s with members := desired, procs := desired.image v.tgid }

/-- An evaluation over a window. -/
def evaluateView (env : Surroundings) (v : View) (ar : Arith F) (cfg : Config F) (o : Orders)
    (now : UInt64) (s : State F) : State F :=
  let chosen := v.choose ar cfg o now s
  State.adopt env v ar cfg o (v.ranked ar cfg o) chosen.2 { s with pstate := chosen.1 }

/-- The first evaluation only takes a snapshot. -/
def evaluate (env : Surroundings) (ar : Arith F) (cfg : Config F) (k : Readings) (o : Orders)
    (rows : List ProcessRow) (now : UInt64) (s : State F) : State F :=
  let cur := snapshot now k rows
  let s := { s with history := slide now cfg.windowSeconds (s.history++[cur]) }
  match s.history with
  | base::_::_ => evaluateView env (view rows base cur) ar cfg o now s
  | _ => s

end Threads

end Selector

end TargetSelector
end ETraceDiag
