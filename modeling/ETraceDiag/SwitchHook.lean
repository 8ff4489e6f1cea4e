import ETraceDiag.EpisodeMaps

/-!
# The scheduler hooks

`on_switch`, `record_wakeup` and `offcpu_schedule` of `bpf/etrace_common.h`, with the maps they
share. `on_switch` is cut into its numbered parts, which touch different maps.
-/

namespace ETraceDiag
namespace SwitchHook

open CellCounters EpisodeMaps

/-- The cells of `struct switch_t`. -/
inductive SwitchCell
  | vol
  | invol
  deriving DecidableEq,Repr

/-- The maps in which these hooks make entries. -/
inductive HookMap
  | onCpuNs
  | switches
  | offcpuLastTs
  | offcpuStash
  | offcpuTime
  | offcpuStat
  | wakeupTs
  | runqSt
  deriving DecidableEq,Repr

structure OffcpuStash where
  outTs : ℕ
  ksid : ℕ
  stackAvailable : Bool
  deriving DecidableEq,Repr

structure State where
  deepEnabled : Bool := false
  targets : List ℕ := []
  offcpuFallback : Bool := false
  offcpuRate : ℕ := 0
  curTid : ℕ → ℕ := fun _ => 0
  lastRunTs : ℕ → ℕ := fun _ => 0
  onCpuNs : Counters ℕ Unit := fun _ => none
  switches : Counters ℕ SwitchCell := fun _ => none
  offcpuLastTs : ℕ → Option ℕ := fun _ => none
  offcpuStash : ℕ → Option OffcpuStash := fun _ => none
  offcpuTime : ℕ×ℕ → Option ℕ := fun _ => none
  offcpuStat : Counters ℕ LatCell := fun _ => none
  wakeupTs : ℕ → Option ℕ := fun _ => none
  runqSt : Counters ℕ LatCell := fun _ => none

/-- What a hook finds when it runs: its processor, the clock, which maps have room for a new
key, and what the stack holds where `h_sw` and the two `h_lat` take their `z` from. -/
structure Env where
  cpu : ℕ
  now : ℕ
  room : HookMap → Bool := fun _ => true
  zSwitch : SwitchCell → ℕ := 0
  zOffcpu : LatCell → ℕ := 0
  zRunq : LatCell → ℕ := 0

/-- The arguments of `sched_switch`. -/
structure Switch where
  prevPid : ℕ
  prevState : ℕ
  nextPid : ℕ

/-! ## on_switch -/

/-- What the first part adds to `on_cpu_ns`: the thread in `cur_tid` and the time since
`last_run_ts`. -/
def State.credit (e : Env) (s : State) : Option (ℕ×ℕ) :=
  let prevTid := s.curTid e.cpu
  let start := s.lastRunTs e.cpu
  if prevTid ≠ 0 ∧ start ≠ 0 ∧ start < e.now ∧ prevTid ∈ s.targets then
    some (prevTid,e.now-start)
  else none

/-- On-CPU attribution. -/
def State.attribute (e : Env) (nextPid : ℕ) (s : State) : State :=
  { s with
    onCpuNs := match s.credit e with
      | some (tid,delta) =>
        account (fun _ => 64) (e.room .onCpuNs) 0 e.cpu tid (fun _ => delta) s.onCpuNs
      | none => s.onCpuNs
    curTid := Function.update s.curTid e.cpu nextPid
    lastRunTs := Function.update s.lastRunTs e.cpu e.now }

/-- Blocked (sleep/stop). -/
def blocked (state : ℕ) : Bool := state &&& 0x7F ≠ 0

def switchCell (c : SwitchCell) : SwitchCell → ℕ := fun d => if d = c then 1 else 0

/-- Switch counting; an entry is made also when neither counter goes up. -/
def State.countSwitch (e : Env) (sw : Switch) (s : State) : State :=
  let m := ensure (e.room .switches) e.zSwitch e.cpu sw.prevPid s.switches
  let count := fun c => bump (fun _ => 32) e.cpu sw.prevPid (switchCell c) m
  { s with
    switches :=
      if sw.prevPid ≠ 0 ∧ sw.prevPid ∈ s.targets then
        if sw.prevState = 0 then count .invol else if blocked sw.prevState then count .vol else m
      else s.switches }

/-- `elapsed * (u64)rate >= 1000000000ULL`. -/
def rateReached (last now rate : ℕ) : Bool := 1000000000 ≤ (now-last)*rate % 2^64

/-- The fallback path takes a sample of the thread that is switched out. -/
def State.samplesFallback (e : Env) (sw : Switch) (s : State) : Bool :=
  s.deepEnabled && sw.prevPid ≠ 0 && sw.prevPid ∈ s.targets &&
    (sw.prevState ≠ 0 && sw.prevState &&& 0x100 = 0 && sw.prevState &&& 0x80 = 0 &&
      blocked sw.prevState) &&
    s.offcpuFallback &&
    match s.offcpuLastTs sw.prevPid with
    | some last => s.offcpuRate ≠ 0 && (last = 0 || rateReached last e.now s.offcpuRate)
    | none => false

/-- The stackless off-CPU stash. -/
def State.stashFallback (e : Env) (sw : Switch) (s : State) : State :=
  { s with
    offcpuStash := if s.samplesFallback e sw then
        put (e.room .offcpuStash) sw.prevPid ⟨e.now,0,false⟩ s.offcpuStash
      else s.offcpuStash
    offcpuLastTs := if s.samplesFallback e sw then
        Function.update s.offcpuLastTs sw.prevPid (some e.now)
      else s.offcpuLastTs }

/-- `h_u64` and `*t += dwell` on a plain map. -/
def addTo {κ : Type} [DecidableEq κ] (room : Bool) (k : κ) (d : ℕ) (m : κ → Option ℕ) :
    κ → Option ℕ :=
  match m k with
  | some t => Function.update m k (some ((t+d) % 2^64))
  | none => if room then Function.update m k (some (d % 2^64)) else m

/-- The sample that a switch-in completes. -/
def State.stashed (nextPid : ℕ) (s : State) : Option OffcpuStash :=
  if s.deepEnabled ∧ nextPid ∈ s.targets then s.offcpuStash nextPid else none

/-- `offcpu_stat` with a dwell of the thread counted. -/
def State.chargeOffcpu (e : Env) (tid : ℕ) (dwell : Option ℕ) (s : State) : Counters ℕ LatCell :=
  match dwell with
  | some dwell =>
    account LatCell.width (e.room .offcpuStat) e.zOffcpu e.cpu tid (latDelta dwell) s.offcpuStat
  | none => s.offcpuStat

/-- Off-CPU completion on switch-in: a sample with a stack goes to `offcpu_time`, one without
to `offcpu_stat`. -/
def State.completeOffcpu (e : Env) (nextPid : ℕ) (s : State) : State :=
  { s with
    offcpuTime := match s.stashed nextPid with
      | some ⟨outTs,ksid,true⟩ =>
        addTo (e.room .offcpuTime) (nextPid,ksid) (elapsed e.now outTs) s.offcpuTime
      | _ => s.offcpuTime
    offcpuStat := match s.stashed nextPid with
      | some ⟨outTs,_,false⟩ => s.chargeOffcpu e nextPid (some (elapsed e.now outTs))
      | _ => s.offcpuStat
    offcpuStash := if s.deepEnabled ∧ nextPid ∈ s.targets then
        Function.update s.offcpuStash nextPid none
      else s.offcpuStash }

/-- The run-queue latency that a switch-in records. -/
def State.runqLatency (e : Env) (nextPid : ℕ) (s : State) : Option ℕ :=
  if s.deepEnabled ∧ nextPid ∈ s.targets then (s.wakeupTs nextPid).map (elapsed e.now) else none

/-- `runq_st` with a latency of the thread counted. -/
def State.chargeRunq (e : Env) (tid : ℕ) (lat : Option ℕ) (s : State) : Counters ℕ LatCell :=
  match lat with
  | some lat =>
    account LatCell.width (e.room .runqSt) e.zRunq e.cpu tid (latDelta lat) s.runqSt
  | none => s.runqSt

/-- Run-queue latency on switch-in. -/
def State.completeRunq (e : Env) (nextPid : ℕ) (s : State) : State :=
  { s with
    runqSt := s.chargeRunq e nextPid (s.runqLatency e nextPid)
    wakeupTs := if s.deepEnabled ∧ nextPid ∈ s.targets then
        Function.update s.wakeupTs nextPid none
      else s.wakeupTs }

def State.onSwitch (e : Env) (sw : Switch) (s : State) : State :=
  ((((s.attribute e sw.nextPid).countSwitch e sw).stashFallback e sw).completeOffcpu e
    sw.nextPid).completeRunq e sw.nextPid

theorem onSwitch_deepEnabled (e : Env) (sw : Switch) (s : State) :
    (s.onSwitch e sw).deepEnabled = s.deepEnabled := rfl

theorem onSwitch_targets (e : Env) (sw : Switch) (s : State) :
    (s.onSwitch e sw).targets = s.targets := rfl

theorem onSwitch_offcpuFallback (e : Env) (sw : Switch) (s : State) :
    (s.onSwitch e sw).offcpuFallback = s.offcpuFallback := rfl

theorem onSwitch_offcpuRate (e : Env) (sw : Switch) (s : State) :
    (s.onSwitch e sw).offcpuRate = s.offcpuRate := rfl

/-! ## The other hooks -/

/-- `record_wakeup`; `BPF_NOEXIST` keeps the first one. -/
def State.recordWakeup (e : Env) (pid : ℕ) (s : State) : State :=
  if s.deepEnabled ∧ pid ∈ s.targets then
    { s with wakeupTs := putNew (e.room .wakeupTs) pid e.now s.wakeupTs }
  else s

/-- `offcpu_schedule` takes a sample. -/
def State.samplesKprobe (e : Env) (tid : ℕ) (s : State) : Bool :=
  s.deepEnabled && tid ∈ s.targets &&
    match s.offcpuLastTs tid with
    | some last => s.offcpuRate = 0 || last = 0 || rateReached last e.now s.offcpuRate
    | none => true

/-- `offcpu_schedule`; `ksid` is what `bpf_get_stackid` gives unless it fails. -/
def State.offcpuSchedule (e : Env) (tid : ℕ) (ksid : Option ℕ) (s : State) : State :=
  if s.samplesKprobe e tid then
    { s with
      offcpuStash := put (e.room .offcpuStash) tid ⟨e.now,ksid.getD 0,ksid.isSome⟩ s.offcpuStash
      offcpuLastTs := put (e.room .offcpuLastTs) tid e.now s.offcpuLastTs }
  else s

end SwitchHook
end ETraceDiag
