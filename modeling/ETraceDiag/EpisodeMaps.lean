import Mathlib.Order.Lattice
import Mathlib.Data.List.Pairwise
import Mathlib.Tactic.DeriveFintype
import ETraceDiag.CellCounters
import ETraceDiag.Transition

/-!
# The DEEP-gated counters of the flight recorder

`sys_st`, `futex_st` and `runq_st` as the kernel hooks fill them, the collector wipes them when
an episode starts, and the timer sums them into the recorder. The hooks, the timer, the target
selector and the collector take their steps in any order; the always-on fields of a record come
with the step that writes it.
-/

namespace ETraceDiag
namespace EpisodeMaps

open CellCounters Transition

/-- The cells of `struct lat_stat`. -/
inductive LatCell
  | count
  | latSum
  | hist (i : Fin 13)
  deriving DecidableEq

/-- The cells of `struct sys_lat_val`. -/
inductive SysCell
  | count
  | latSum
  | errorCount
  | hist (i : Fin 64)
  deriving DecidableEq

def LatCell.width : LatCell → ℕ
  | .count => 64
  | .latSum => 64
  | .hist _ => 32

def SysCell.width : SysCell → ℕ
  | .count => 64
  | .latSum => 64
  | .errorCount => 64
  | .hist _ => 32

/-- The maps of `struct lat_stat` that are recorded but filled in DEEP only. -/
inductive Stat
  | sysSt
  | futexSt
  | runqSt
  deriving DecidableEq,Repr

/-- The widths of the recorder's fields; `runq_wait_count` is a `u32`. -/
def Stat.width : Stat → LatCell → ℕ
  | .runqSt, .count => 32
  | _, c => c.width

/-! ## Histogram bins -/

def shiftLoop (bits limit : ℕ) : ℕ → ℕ → ℕ → ℕ
  | 0, _, b => b
  | fuel+1, v, b => if v < limit then b else shiftLoop bits limit fuel (v >>> bits) (b+1)

def base4Bin (ns : ℕ) : ℕ :=
  if ns < 256 then 0
  else
    let b := shiftLoop 2 4 30 (ns >>> 8) 0
    if 12 < b then 12 else b

def log2lBin (v : ℕ) : ℕ :=
  if v < 2 then 0
  else
    let b := shiftLoop 1 2 63 v 0
    if 63 < b then 63 else b

/-- `count++`, `lat_sum += lat`, `add_hist13`. -/
def latDelta (lat : ℕ) : LatCell → ℕ
  | .count => 1
  | .latSum => lat
  | .hist i => if i = base4Bin lat then 1 else 0

def sysDelta (lat : ℕ) (ret : ℤ) : SysCell → ℕ
  | .count => 1
  | .latSum => lat
  | .errorCount => if ret < 0 then 1 else 0
  | .hist i => if i = log2lBin lat then 1 else 0

/-! ## The state -/

structure SysStart where
  id : ℕ
  ts : ℕ
  futexWait : Bool

/-- The BPF programs of an episode that touch these maps. -/
inductive Hook
  | fentrySys
  | fexitSys
  | onSysEnter
  | onSysExit
  | onProcessExit
  deriving DecidableEq,Repr

/-- The maps of `ResetEpisodeMaps` that matter here. -/
inductive EpisodeMap
  | sysLat
  | stat (k : Stat)
  | wakeupTs
  deriving DecidableEq,Repr

/-- In the order of `ResetEpisodeMaps`. -/
def episodeMaps : List EpisodeMap :=
  [.sysLat,.stat .sysSt,.stat .futexSt,.stat .runqSt,.wakeupTs]

/-- Where the deep collector stands; `Exit` first clears `deep_enabled` (`closing`) and then
closes the links. -/
inductive Pc
  | base
  | attaching
  | opening
  | resetting (todo : List EpisodeMap)
  | deep
  | closing
  deriving DecidableEq,Repr

/-- A record of one target. `gated k` holds the three fields that are summed from map `k`. -/
structure SnapshotRec (β : Type) where
  tid : ℕ
  tsNs : ℕ
  flags : ℕ
  always : β
  gated : Stat → LatCell → ℕ

structure State (β : Type) where
  deepEnabled : Bool := false
  targets : List ℕ := []
  hooks : List Hook := []
  stats : Stat → Counters ℕ LatCell := fun _ _ => none
  sysLat : Counters (ℕ×ℕ) SysCell := fun _ => none
  sysStart : ℕ → Option SysStart := fun _ => none
  wakeupTs : ℕ → Option ℕ := fun _ => none
  tickNow : ℕ := 0
  tickDeep : Bool := false
  records : List (SnapshotRec β) := []
  pc : Pc := .base
  cutoff : ℕ := 0

/-- What a hook finds when it runs: its processor, the clock, what `struct lat_stat z` and
`struct sys_lat_val z` of `h_lat` and `h_sys` hold, and whether the map has room for a key. -/
structure Env where
  cpu : ℕ
  now : ℕ
  z : LatCell → ℕ := 0
  zSys : SysCell → ℕ := 0
  room : Bool := true

inductive Action (β : Type)
  | tick (now : ℕ)
  | collect (tid : ℕ) (always : β)
  | fentrySys (e : Env) (tid id arg1 : ℕ)
  | fexitSys (e : Env) (tid : ℕ) (ret : ℤ)
  | onSysEnter (e : Env) (tid : ℕ) (id : ℤ) (arg1 : ℕ)
  | onSysExit (e : Env) (tid : ℕ) (ret : ℤ)
  | onWakeup (e : Env) (tid : ℕ)
  | onSwitch (e : Env) (nextPid : ℕ)
  | onProcessExit (tid : ℕ)
  | addTarget (tid : ℕ)
  | leave (tid : ℕ)
  | enter (anomalyStartNs preAnomalySeconds : ℕ)
  | attachDeepLinks (links : List Hook) (ok : Bool)
  | openDeep (ok : Bool)
  | resetMap
  | exit
  | closeDeepLinks

/-- The number of processors in the `ncpus` map, if it was written, and the number of the futex
system call. -/
structure Machine where
  ncpus : Option ℕ := none
  nrFutex : ℕ := 202

/-- `rec_ncpus`, cut to 1024 as in `snap_collect_one`. -/
def Machine.cpus (m : Machine) : ℕ :=
  let n := m.ncpus.getD 64
  if 1024 < n then 1024 else n

variable {β : Type}

/-! ## The kernel side -/

/-- `cmd = arg1 & FUTEX_CMD_MASK` is `FUTEX_WAIT` or `FUTEX_WAIT_BITSET`. -/
def Machine.futexWait (m : Machine) (id arg1 : ℕ) : Bool :=
  let cmd := arg1 &&& (2^64-1-384)
  id = m.nrFutex && (cmd = 0 || cmd = 9)

/-- `bpf_map_update_elem` on a plain hash map; a new key needs room. -/
def put {α : Type} (room : Bool) (k : ℕ) (v : α) (m : ℕ → Option α) : ℕ → Option α :=
  if (m k).isSome || room then Function.update m k (some v) else m

/-- `BPF_NOEXIST`. -/
def putNew {α : Type} (room : Bool) (k : ℕ) (v : α) (m : ℕ → Option α) : ℕ → Option α :=
  if (m k).isSome then m else put room k v m

theorem put_eq_update {α : Type} {room : Bool} {k : ℕ} {m : ℕ → Option α}
    (h : m k = none → room = true) (v : α) : put room k v m = Function.update m k (some v) := by
  rw [put,if_pos]
  cases hk : m k with
  | some w => rfl
  | none => exact h hk

theorem put_of_ne {α : Type} (room : Bool) {k k' : ℕ} (h : k' ≠ k) (v : α) (m : ℕ → Option α) :
    put room k v m k' = m k' := by
  rw [put]
  split
  · exact Function.update_of_ne h ..
  · rfl

def State.accountStat (k : Stat) (e : Env) (tid lat : ℕ) (s : State β) : State β :=
  { s with
    stats := Function.update s.stats k
      (account LatCell.width e.room e.z e.cpu tid (latDelta lat) (s.stats k)) }

/-- `syslat_account`. -/
def State.syslatAccount (e : Env) (tid id : ℕ) (futexWait : Bool) (lat : ℕ) (ret : ℤ)
    (s : State β) : State β :=
  if futexWait then s.accountStat .futexSt e tid lat
  else
    { s with
      sysLat := account SysCell.width e.room e.zSys e.cpu (tid,id) (sysDelta lat ret) s.sysLat
    }.accountStat .sysSt e tid lat

/-- `now-ts` in a `u64`. -/
def elapsed (now ts : ℕ) : ℕ := (now+2^64-ts) % 2^64

/-- What both exit hooks do behind their gates. -/
def State.sysExit (e : Env) (tid : ℕ) (ret : ℤ) (s : State β) : State β :=
  match s.sysStart tid with
  | none => s
  | some st =>
    let s := s.syslatAccount e tid st.id st.futexWait (elapsed e.now st.ts) ret
    { s with sysStart := Function.update s.sysStart tid none }

def State.sysEnter (m : Machine) (e : Env) (tid id arg1 : ℕ) (s : State β) : State β :=
  { s with sysStart := put e.room tid ⟨id % 2^32,e.now,m.futexWait id arg1⟩ s.sysStart }

def State.fentrySys (m : Machine) (e : Env) (tid id arg1 : ℕ) (s : State β) : State β :=
  if s.deepEnabled ∧ tid ∈ s.targets then s.sysEnter m e tid id arg1 else s

def State.fexitSys (e : Env) (tid : ℕ) (ret : ℤ) (s : State β) : State β :=
  if s.deepEnabled ∧ tid ∈ s.targets then s.sysExit e tid ret else s

def State.onSysEnter (m : Machine) (e : Env) (tid : ℕ) (id : ℤ) (arg1 : ℕ) (s : State β) :
    State β :=
  if id < 0 then s
  else if tid ∈ s.targets then s.sysEnter m e tid id.toNat arg1 else s

/-- Unlike `fexit_sys` it does not look at `deep_enabled`. -/
def State.onSysExit (e : Env) (tid : ℕ) (ret : ℤ) (s : State β) : State β :=
  if tid ∈ s.targets then s.sysExit e tid ret else s

def State.onWakeup (e : Env) (tid : ℕ) (s : State β) : State β :=
  if s.deepEnabled ∧ tid ∈ s.targets then
    { s with wakeupTs := putNew e.room tid e.now s.wakeupTs }
  else s

/-- The run-queue branch of `on_switch`. -/
def State.onSwitch (e : Env) (nextPid : ℕ) (s : State β) : State β :=
  if s.deepEnabled ∧ nextPid ∈ s.targets then
    match s.wakeupTs nextPid with
    | none => s
    | some w =>
      let s := s.accountStat .runqSt e nextPid (elapsed e.now w)
      { s with wakeupTs := Function.update s.wakeupTs nextPid none }
  else s

def State.onProcessExit (tid : ℕ) (s : State β) : State β :=
  { s with
    wakeupTs := Function.update s.wakeupTs tid none
    sysStart := Function.update s.sysStart tid none }

/-- `snap_tick` before it walks the targets. -/
def State.tick (now : ℕ) (s : State β) : State β :=
  { s with tickNow := now, tickDeep := s.deepEnabled }

/-- `snap_sum_cpu`, for the three gated maps. -/
def State.snapSumCpu (s : State β) (tid : ℕ) (scr : Stat → LatCell → ℕ) (cpu : ℕ) :
    Stat → LatCell → ℕ :=
  fun k => gather k.width (s.stats k) tid (scr k) cpu

/-- `snap_collect_one`: the scratch record is zeroed, summed over the processors and
committed. -/
def State.snapCollectOne (m : Machine) (tid : ℕ) (always : β) (s : State β) : SnapshotRec β where
  tid := tid
  tsNs := s.tickNow
  flags := if s.tickDeep then 1 else 0
  always := always
  gated := (List.range m.cpus).foldl (s.snapSumCpu tid) 0

def State.collect (m : Machine) (tid : ℕ) (always : β) (s : State β) : State β :=
  if tid ∈ s.targets then
    { s with records := s.records++[s.snapCollectOne m tid always] }
  else s

/-! ## The host side -/

def State.addTarget (tid : ℕ) (s : State β) : State β :=
  if tid ∈ s.targets then s else { s with targets := tid::s.targets }

/-- `RemoveTarget` and `ResetTidCounters`. -/
def State.leave (tid : ℕ) (s : State β) : State β :=
  { s with
    targets := s.targets.filter (· ≠ tid)
    stats := fun k => erase tid (s.stats k)
    wakeupTs := Function.update s.wakeupTs tid none
    sysStart := Function.update s.sysStart tid none }

/-- `Enter` up to `SetDeep(true)`; the cutoff is the one `ExtractPre` will use. -/
def State.enter (anomalyStartNs preAnomalySeconds : ℕ) (s : State β) : State β :=
  match s.pc with
  | .base =>
    { s with
      deepEnabled := true
      pc := .attaching
      cutoff := anomalyStartNs-preAnomalySeconds*1000000000 }
  | _ => s

/-- `AttachDeepLinks` leaves the links it has opened when it fails. -/
def State.attachDeepLinks (links : List Hook) (ok : Bool) (s : State β) : State β :=
  match s.pc with
  | .attaching =>
    if ok then { s with hooks := s.hooks++links, pc := .opening }
    else { s with hooks := s.hooks++links, deepEnabled := false, pc := .base }
  | _ => s

def State.openDeep (ok : Bool) (s : State β) : State β :=
  match s.pc with
  | .opening =>
    if ok then { s with pc := .resetting episodeMaps }
    else { s with deepEnabled := false, pc := .closing }
  | _ => s

def State.wipe (map : EpisodeMap) (s : State β) : State β :=
  match map with
  | .sysLat => { s with sysLat := fun _ => none }
  | .stat k => { s with stats := Function.update s.stats k fun _ => none }
  | .wakeupTs => { s with wakeupTs := fun _ => none }

/-- `ResetEpisodeMaps`, one map at a time; behind the last one `Enter` reads the head and
extracts the pre-window. -/
def State.resetMap (s : State β) : State β :=
  match s.pc with
  | .resetting (map::rest) => { s.wipe map with pc := .resetting rest }
  | .resetting [] => { s with pc := .deep }
  | _ => s

def State.exit (s : State β) : State β :=
  match s.pc with
  | .deep => { s with deepEnabled := false, pc := .closing }
  | _ => s

def State.closeDeepLinks (s : State β) : State β :=
  match s.pc with
  | .closing => { s with hooks := [], pc := .base }
  | _ => s

/-- One step. A program that is not attached does not run. -/
def step (m : Machine) (s : State β) : Action β → State β
  | .tick now => s.tick now
  | .collect tid always => s.collect m tid always
  | .fentrySys e tid id arg1 => if .fentrySys ∈ s.hooks then s.fentrySys m e tid id arg1 else s
  | .fexitSys e tid ret => if .fexitSys ∈ s.hooks then s.fexitSys e tid ret else s
  | .onSysEnter e tid id arg1 => if .onSysEnter ∈ s.hooks then s.onSysEnter m e tid id arg1 else s
  | .onSysExit e tid ret => if .onSysExit ∈ s.hooks then s.onSysExit e tid ret else s
  | .onWakeup e tid => s.onWakeup e tid
  | .onSwitch e nextPid => s.onSwitch e nextPid
  | .onProcessExit tid => if .onProcessExit ∈ s.hooks then s.onProcessExit tid else s
  | .addTarget tid => s.addTarget tid
  | .leave tid => s.leave tid
  | .enter anomalyStartNs preAnomalySeconds => s.enter anomalyStartNs preAnomalySeconds
  | .attachDeepLinks links ok => s.attachDeepLinks links ok
  | .openDeep ok => s.openDeep ok
  | .resetMap => s.resetMap
  | .exit => s.exit
  | .closeDeepLinks => s.closeDeepLinks

/-! ## The contract of the gated fields -/

/-- The records of a thread in the window of the episode: from the cutoff on. -/
def State.series (s : State β) (tid : ℕ) : List (SnapshotRec β) :=
  s.records.filter fun r => r.tid = tid && s.cutoff ≤ r.tsNs

/-- Within an episode the gated fields of no thread ever go down. -/
def State.NeverDecreases (s : State β) : Prop :=
  s.pc = .deep → ∀ tid, (s.series tid).Pairwise fun a b => a.gated ≤ b.gated

/-- A record that a step writes while `deep_enabled` is 0 has zeros in the gated fields. -/
def ZeroInBase (m : Machine) (s : State β) (a : Action β) : Prop :=
  s.deepEnabled = false → ∀ r ∈ (step m s a).records.drop s.records.length, r.gated = 0

/-- The contract of one step. -/
def GatedContract (m : Machine) (s : State β) (a : Action β) : Prop :=
  ZeroInBase m s a ∧ (step m s a).NeverDecreases

/-! ## When a step keeps the contract -/

/-- A latency about to be counted: the map, the hook's environment, the thread and the value. -/
structure Latency where
  k : Stat
  e : Env
  tid : ℕ
  lat : ℕ

/-- What an exit hook counts behind its gates. -/
def State.exitLatency (e : Env) (tid : ℕ) (s : State β) : Option Latency :=
  (s.sysStart tid).map fun st =>
    ⟨if st.futexWait then .futexSt else .sysSt,e,tid,elapsed e.now st.ts⟩

/-- The latency a step counts. -/
def State.latency (s : State β) : Action β → Option Latency
  | .fexitSys e tid _ =>
    if .fexitSys ∈ s.hooks ∧ s.deepEnabled ∧ tid ∈ s.targets then s.exitLatency e tid else none
  | .onSysExit e tid _ =>
    if .onSysExit ∈ s.hooks ∧ tid ∈ s.targets then s.exitLatency e tid else none
  | .onSwitch e nextPid =>
    if s.deepEnabled ∧ nextPid ∈ s.targets then
      (s.wakeupTs nextPid).map fun w => ⟨.runqSt,e,nextPid,elapsed e.now w⟩
    else none
  | _ => none

/-- The sums still fit the recorder's fields once the latency is counted. -/
def State.Fits (m : Machine) (s : State β) (l : Latency) : Prop :=
  ∀ c, after m.cpus l.e.z l.tid (latDelta l.lat) (s.stats l.k) c < 2^l.k.width c

/-- The current episode has already wiped map `k`. -/
def State.settled (s : State β) (k : Stat) : Prop :=
  match s.pc with
  | .resetting todo => .stat k ∉ todo
  | .deep => True
  | _ => False

/-- The timer finds nothing in the gated maps in BASE, a wipe and a `Leave` take nothing away
that the window already shows, and no sum overflows. -/
def StepOk (m : Machine) (s : State β) (a : Action β) : Prop :=
  (∀ l ∈ s.latency a, s.Fits m l) ∧
    match a with
    | .collect tid _ => s.deepEnabled = false → tid ∈ s.targets → ∀ k, s.stats k tid = none
    | .resetMap => ∀ k rest, s.pc = .resetting (.stat k::rest) → ∀ r ∈ s.records,
        s.cutoff ≤ r.tsNs → r.gated k = 0
    | .leave tid => ∀ k, s.settled k → ∀ r ∈ s.records, r.tid = tid → s.cutoff ≤ r.tsNs →
        r.gated k = 0
    | _ => True

/-! ## The invariant -/

/-- The recorder sees the exact sums; once its map is wiped, no record of the window is above
them or above a later record of its thread. -/
structure Inv (m : Machine) (s : State β) : Prop where
  fits : ∀ k tid c, total m.cpus (s.stats k) tid c < 2^k.width c
  below : ∀ k, s.settled k → ∀ r ∈ s.records, s.cutoff ≤ r.tsNs →
    r.gated k ≤ total m.cpus (s.stats k) r.tid
  sorted : ∀ k, s.settled k → ∀ tid,
    (s.series tid).Pairwise fun a b => a.gated k ≤ b.gated k

theorem Stat.width_le (k : Stat) (c : LatCell) : 2^k.width c ≤ 2^c.width := by
  refine Nat.pow_le_pow_right (by decide) ?_
  cases k <;> cases c <;> simp [Stat.width,LatCell.width]

theorem gated_eq_read (m : Machine) (s : State β) (tid : ℕ) (always : β) (k : Stat) :
    (s.snapCollectOne m tid always).gated k = read k.width m.cpus (s.stats k) tid := by
  have hfold : ∀ (l : List ℕ) (scr : Stat → LatCell → ℕ),
      l.foldl (s.snapSumCpu tid) scr k = l.foldl (gather k.width (s.stats k) tid) (scr k) := by
    intro l
    induction l with
    | nil => exact fun _ => rfl
    | cons cpu l ih => exact fun scr => ih _
  exact hfold _ _

theorem inv_init (m : Machine) : Inv m ({} : State β) := by
  refine ⟨?_,fun _ hk => False.elim hk,fun _ hk => False.elim hk⟩
  intro k tid c
  rw [total_of_none rfl]
  exact Nat.two_pow_pos _

/-- A step that leaves the records alone and takes nothing out of the maps. -/
theorem Inv.mono {m : Machine} {s s' : State β} (h : Inv m s) (hrecords : s'.records = s.records)
    (hcutoff : s'.cutoff = s.cutoff) (hsettled : ∀ k, s'.settled k → s.settled k)
    (hfits : ∀ k tid c, total m.cpus (s'.stats k) tid c < 2^k.width c)
    (htotal : ∀ k tid, total m.cpus (s.stats k) tid ≤ total m.cpus (s'.stats k) tid) :
    Inv m s' := by
  refine ⟨hfits,?_,?_⟩
  · intro k hk r hr hts
    rw [hrecords] at hr
    rw [hcutoff] at hts
    exact le_trans (h.below k (hsettled k hk) r hr hts) (htotal k r.tid)
  · intro k hk tid
    have hseries : s'.series tid = s.series tid := by
      simp only [State.series,hrecords,hcutoff]
    rw [hseries]
    exact h.sorted k (hsettled k hk) tid

theorem Inv.same {m : Machine} {s s' : State β} (h : Inv m s) (hrecords : s'.records = s.records)
    (hcutoff : s'.cutoff = s.cutoff) (hsettled : ∀ k, s'.settled k → s.settled k)
    (hstats : s'.stats = s.stats) : Inv m s' :=
  h.mono hrecords hcutoff hsettled (by rw [hstats]; exact h.fits)
    (fun k tid => by rw [hstats])

/-- Before its wipes an episode owes nothing. -/
theorem Inv.unsettled {m : Machine} {s s' : State β} (h : Inv m s)
    (hsettled : ∀ k, ¬ s'.settled k) (hstats : s'.stats = s.stats) : Inv m s' :=
  ⟨by rw [hstats]; exact h.fits,fun k hk => absurd hk (hsettled k),
    fun k hk => absurd hk (hsettled k)⟩

/-! ## The hooks -/

theorem inv_accountStat {m : Machine} {s : State β} (h : Inv m s) (l : Latency)
    (hfit : s.Fits m l) : Inv m (s.accountStat l.k l.e l.tid l.lat) := by
  have hcell : ∀ c, after m.cpus l.e.z l.tid (latDelta l.lat) (s.stats l.k) c < 2^c.width :=
    fun c => Nat.lt_of_lt_of_le (hfit c) (l.k.width_le c)
  have hother : ∀ k tid, ¬ (k = l.k ∧ tid = l.tid) →
      total m.cpus ((s.accountStat l.k l.e l.tid l.lat).stats k) tid =
        total m.cpus (s.stats k) tid := by
    intro k tid hne
    by_cases hk : k = l.k
    · subst hk
      refine total_congr ?_
      simp only [State.accountStat,Function.update_self]
      exact account_of_ne _ _ _ _ (fun ht => hne ⟨rfl,ht⟩) _ _
    · simp only [State.accountStat,Function.update_of_ne hk]
  refine h.mono rfl rfl (fun _ hk => hk) ?_ ?_
  · intro k tid c
    by_cases hkt : k = l.k ∧ tid = l.tid
    · obtain ⟨rfl,rfl⟩ := hkt
      simp only [State.accountStat,Function.update_self]
      exact Nat.lt_of_le_of_lt (account_le_after _ _ _ _ _ _ _ _ c) (hfit c)
    · rw [hother k tid hkt]
      exact h.fits k tid c
  · intro k tid
    by_cases hkt : k = l.k ∧ tid = l.tid
    · obtain ⟨rfl,rfl⟩ := hkt
      simp only [State.accountStat,Function.update_self]
      exact total_le_account hcell _ _
    · rw [hother k tid hkt]

theorem inv_sysExit {m : Machine} {s : State β} (h : Inv m s) (e : Env) (tid : ℕ) (ret : ℤ)
    (hfit : ∀ l ∈ s.exitLatency e tid, s.Fits m l) : Inv m (s.sysExit e tid ret) := by
  unfold State.sysExit
  split
  · exact h
  · next st hst =>
    have hlat := hfit ⟨if st.futexWait then .futexSt else .sysSt,e,tid,elapsed e.now st.ts⟩
      (by simp [State.exitLatency,hst])
    have hinv := inv_accountStat h _ hlat
    refine hinv.same ?_ ?_ ?_ ?_
    · cases st.futexWait <;> rfl
    · cases st.futexWait <;> rfl
    · cases st.futexWait <;> exact fun _ hk => hk
    · cases st.futexWait <;> simp [State.syslatAccount,State.accountStat]

theorem inv_onSwitch {m : Machine} {s : State β} (h : Inv m s) (e : Env) (nextPid : ℕ)
    (hfit : ∀ l ∈ s.latency (.onSwitch e nextPid), s.Fits m l) :
    Inv m (s.onSwitch e nextPid) := by
  unfold State.onSwitch
  split
  · next hgate =>
    split
    · exact h
    · next w hw =>
      have hlat := hfit ⟨.runqSt,e,nextPid,elapsed e.now w⟩
        (by simp [State.latency,hgate,hw])
      exact (inv_accountStat h _ hlat).same rfl rfl (fun _ hk => hk) rfl
  · exact h

/-! ## The timer -/

theorem inv_collect {m : Machine} {s : State β} (h : Inv m s) (tid : ℕ) (always : β) :
    Inv m (s.collect m tid always) := by
  unfold State.collect
  split
  · have hgated : ∀ k, (s.snapCollectOne m tid always).gated k =
        total m.cpus (s.stats k) tid := by
      intro k
      rw [gated_eq_read,read_eq_total (h.fits k tid)]
    refine ⟨h.fits,?_,?_⟩
    · intro k hk r hr hts
      rcases List.mem_append.mp hr with hold | hnew
      · exact h.below k hk r hold hts
      · rw [List.mem_singleton.mp hnew,hgated]
        exact le_refl _
    · intro k hk tid'
      have hseries : State.series
          { s with records := s.records++[s.snapCollectOne m tid always] } tid' =
          s.series tid'++[s.snapCollectOne m tid always].filter
            fun r => r.tid = tid' && s.cutoff ≤ r.tsNs := List.filter_append _ _
      rw [hseries,List.pairwise_append]
      refine ⟨h.sorted k hk tid',(List.pairwise_singleton _ _).sublist List.filter_sublist,?_⟩
      intro a ha b hb
      obtain ⟨hnew,hb⟩ := List.mem_filter.mp hb
      obtain ⟨hmem,ha⟩ := List.mem_filter.mp ha
      rw [List.mem_singleton.mp hnew] at hb ⊢
      simp only [Bool.and_eq_true,decide_eq_true_eq] at ha hb
      have hsame : a.tid = tid := ha.1.trans hb.1.symm
      rw [hgated,← hsame]
      exact h.below k hk a hmem ha.2
  · exact h

theorem collect_zeroInBase {m : Machine} {s : State β} (tid : ℕ) (always : β)
    (hok : s.deepEnabled = false → tid ∈ s.targets → ∀ k, s.stats k tid = none) :
    ZeroInBase m s (.collect tid always) := by
  intro hbase r hr
  simp only [step,State.collect] at hr
  split at hr
  · next htid =>
    rw [List.drop_left] at hr
    rw [List.mem_singleton.mp hr]
    funext k
    rw [gated_eq_read,read_of_none (hok hbase htid k)]
    rfl
  · rw [List.drop_length] at hr
    exact absurd hr (List.not_mem_nil)

/-! ## The host -/

theorem inv_leave {m : Machine} {s : State β} (h : Inv m s) (tid : ℕ)
    (hok : ∀ k, s.settled k → ∀ r ∈ s.records, r.tid = tid → s.cutoff ≤ r.tsNs → r.gated k = 0) :
    Inv m (s.leave tid) := by
  have hother : ∀ k tid', tid' ≠ tid →
      total m.cpus ((s.leave tid).stats k) tid' = total m.cpus (s.stats k) tid' := by
    intro k tid' hne
    exact total_congr (by simp [State.leave,erase,hne])
  refine ⟨?_,?_,h.sorted⟩
  · intro k tid' c
    by_cases hne : tid' = tid
    · subst hne
      rw [State.leave,total_erase_self]
      exact Nat.two_pow_pos _
    · rw [hother k tid' hne]
      exact h.fits k tid' c
  · intro k hk r hr hts
    by_cases hne : r.tid = tid
    · rw [hok k hk r hr hne hts]
      exact fun _ => Nat.zero_le _
    · rw [hother k r.tid hne]
      exact h.below k hk r hr hts

theorem not_settled_episodeMaps (k : Stat) : EpisodeMap.stat k ∈ episodeMaps := by
  cases k <;> decide

theorem inv_wipeStat {m : Machine} {s : State β} (h : Inv m s) {k : Stat}
    {rest : List EpisodeMap} (hpc : s.pc = .resetting (.stat k::rest))
    (hok : ∀ r ∈ s.records, s.cutoff ≤ r.tsNs → r.gated k = 0) :
    Inv m { s.wipe (.stat k) with pc := .resetting rest } := by
  have hsettled : ∀ k', k' ≠ k →
      State.settled { s.wipe (.stat k) with pc := .resetting rest } k' → s.settled k' := by
    intro k' hne hk'
    simp only [State.settled,hpc]
    intro hmem
    rcases List.mem_cons.mp hmem with heq | hmem
    · exact hne (EpisodeMap.stat.inj heq)
    · exact hk' hmem
  have hwiped : ∀ tid, total m.cpus ((s.wipe (.stat k)).stats k) tid = 0 :=
    fun tid => total_of_none (by simp [State.wipe]) m.cpus
  have hother : ∀ k', k' ≠ k → (s.wipe (.stat k)).stats k' = s.stats k' := by
    intro k' hne
    simp [State.wipe,hne]
  refine ⟨?_,?_,?_⟩
  · intro k' tid c
    by_cases hk : k' = k
    · subst hk
      show total m.cpus ((s.wipe (.stat k')).stats k') tid c < _
      rw [hwiped]
      exact Nat.two_pow_pos _
    · show total m.cpus ((s.wipe (.stat k)).stats k') tid c < _
      rw [hother k' hk]
      exact h.fits k' tid c
  · intro k' hk' r hr hts
    by_cases hk : k' = k
    · subst hk
      rw [hok r hr hts]
      exact fun _ => Nat.zero_le _
    · show r.gated k' ≤ total m.cpus ((s.wipe (.stat k)).stats k') r.tid
      rw [hother k' hk]
      exact h.below k' (hsettled k' hk hk') r hr hts
  · intro k' hk' tid
    by_cases hk : k' = k
    · subst hk
      refine List.pairwise_of_forall_mem_list fun a ha b _ => ?_
      obtain ⟨hmem,ha⟩ := List.mem_filter.mp ha
      simp only [Bool.and_eq_true,decide_eq_true_eq] at ha
      rw [hok a hmem ha.2]
      exact fun _ => Nat.zero_le _
    · exact h.sorted k' (hsettled k' hk hk') tid

theorem inv_resetMap {m : Machine} {s : State β} (h : Inv m s)
    (hok : ∀ k rest, s.pc = .resetting (.stat k::rest) → ∀ r ∈ s.records,
      s.cutoff ≤ r.tsNs → r.gated k = 0) : Inv m s.resetMap := by
  unfold State.resetMap
  split
  · next map rest hpc =>
    have hsettled : ∀ k', .stat k' ≠ map → .stat k' ∉ rest → s.settled k' := by
      intro k' hne hrest
      simp only [State.settled,hpc,List.mem_cons,not_or]
      exact ⟨hne,hrest⟩
    cases map with
    | sysLat => exact h.same rfl rfl (fun k' hk' => hsettled k' nofun hk') rfl
    | stat k => exact inv_wipeStat h hpc (hok k rest hpc)
    | wakeupTs => exact h.same rfl rfl (fun k' hk' => hsettled k' nofun hk') rfl
  · next hpc =>
    refine h.same rfl rfl (fun k' _ => ?_) rfl
    simp [State.settled,hpc]
  · exact h

/-- Every admissible step keeps the invariant. -/
theorem inv_step {m : Machine} (s : State β) (a : Action β) (h : Inv m s)
    (hok : StepOk m s a) : Inv m (step m s a) := by
  obtain ⟨hfit,hok⟩ := hok
  cases a with
  | tick now => exact h.same rfl rfl (fun _ hk => hk) rfl
  | collect tid always => exact inv_collect h tid always
  | fentrySys e tid id arg1 =>
    simp only [step,State.fentrySys]
    split
    · split
      · exact h.same rfl rfl (fun _ hk => hk) rfl
      · exact h
    · exact h
  | fexitSys e tid ret =>
    simp only [step,State.fexitSys]
    split
    · next hhook =>
      split
      · next hgate => exact inv_sysExit h e tid ret (by simpa [State.latency,hhook,hgate] using hfit)
      · exact h
    · exact h
  | onSysEnter e tid id arg1 =>
    simp only [step,State.onSysEnter]
    split
    · split
      · exact h
      · split
        · exact h.same rfl rfl (fun _ hk => hk) rfl
        · exact h
    · exact h
  | onSysExit e tid ret =>
    simp only [step,State.onSysExit]
    split
    · next hhook =>
      split
      · next htid => exact inv_sysExit h e tid ret (by simpa [State.latency,hhook,htid] using hfit)
      · exact h
    · exact h
  | onWakeup e tid =>
    simp only [step,State.onWakeup]
    split
    · exact h.same rfl rfl (fun _ hk => hk) rfl
    · exact h
  | onSwitch e nextPid => exact inv_onSwitch h e nextPid hfit
  | onProcessExit tid =>
    simp only [step,State.onProcessExit]
    split
    · exact h.same rfl rfl (fun _ hk => hk) rfl
    · exact h
  | addTarget tid =>
    simp only [step,State.addTarget]
    split
    · exact h
    · exact h.same rfl rfl (fun _ hk => hk) rfl
  | leave tid => exact inv_leave h tid hok
  | enter anomalyStartNs preAnomalySeconds =>
    simp only [step,State.enter]
    split
    · exact h.unsettled (fun _ hk => hk) rfl
    · exact h
  | attachDeepLinks links ok =>
    simp only [step,State.attachDeepLinks]
    split
    · split <;> exact h.unsettled (fun _ hk => hk) rfl
    · exact h
  | openDeep ok =>
    simp only [step,State.openDeep]
    split
    · split
      · exact h.unsettled (fun k hk => hk (not_settled_episodeMaps k)) rfl
      · exact h.unsettled (fun _ hk => hk) rfl
    · exact h
  | resetMap => exact inv_resetMap h hok
  | exit =>
    simp only [step,State.exit]
    split
    · exact h.unsettled (fun _ hk => hk) rfl
    · exact h
  | closeDeepLinks =>
    simp only [step,State.closeDeepLinks]
    split
    · exact h.unsettled (fun _ hk => hk) rfl
    · exact h

theorem Inv.neverDecreases {m : Machine} {s : State β} (h : Inv m s) : s.NeverDecreases := by
  intro hpc tid
  rw [List.pairwise_iff_getElem]
  intro i j hi hj hij k
  have hk : s.settled k := by simp [State.settled,hpc]
  exact List.pairwise_iff_getElem.mp (h.sorted k hk tid) i j hi hj hij

/-- Only the timer's steps write records. -/
theorem records_of_step {m : Machine} (s : State β) (a : Action β)
    (ha : ∀ tid always, a ≠ .collect tid always) : (step m s a).records = s.records := by
  cases a with
  | collect tid always => exact absurd rfl (ha tid always)
  | fexitSys e tid ret | onSysExit e tid ret =>
    simp only [step,State.fexitSys,State.onSysExit,State.sysExit,State.syslatAccount,
      State.accountStat]
    repeat' split
    all_goals rfl
  | onSwitch e nextPid =>
    simp only [step,State.onSwitch,State.accountStat]
    repeat' split
    all_goals rfl
  | resetMap =>
    simp only [step,State.resetMap,State.wipe]
    repeat' split
    all_goals rfl
  | _ =>
    simp only [step,State.tick,State.fentrySys,State.onSysEnter,State.sysEnter,State.onWakeup,
      State.onProcessExit,State.addTarget,State.leave,State.enter,State.attachDeepLinks,
      State.openDeep,State.exit,State.closeDeepLinks]
    repeat' split
    all_goals rfl

theorem zeroInBase {m : Machine} (s : State β) (a : Action β) (hok : StepOk m s a) :
    ZeroInBase m s a := by
  by_cases ha : ∃ tid always, a = .collect tid always
  · obtain ⟨tid,always,rfl⟩ := ha
    exact collect_zeroInBase tid always hok.2
  · intro _ r hr
    rw [records_of_step s a fun tid always h => ha ⟨tid,always,h⟩,List.drop_length] at hr
    exact absurd hr List.not_mem_nil

/-- In a run of admissible steps every record of BASE has zeros in the gated fields, and in no
episode do these fields of a thread go down. -/
theorem run_gatedContract (m : Machine) (as : List (Action β))
    (h : Along (step m) (StepOk m) {} as) : Along (step m) (GatedContract m) {} as :=
  (Along.of_invariant (step m) inv_step
    (fun s a hs hok => ⟨zeroInBase s a hok,(inv_step s a hs hok).neverDecreases⟩) as {}
    (inv_init m) h).1

def oneCpu : Machine := { ncpus := some 1 }

/-- Start an episode at 100 s with a pre-window of 10 s, on the primary hooks. -/
def enterRun : List (Action Unit) :=
  [.enter 100000000000 10,.attachDeepLinks [.fentrySys,.fexitSys] true,.openDeep true,.resetMap,
    .resetMap,.resetMap,.resetMap,.resetMap,.resetMap]

/-- Thread 7 makes one system call of 2000 ns. -/
def callRun : List (Action Unit) :=
  [.fentrySys { cpu := 0, now := 100000001000 } 7 0 0,
    .fexitSys { cpu := 0, now := 100000003000 } 7 0]

/-- A first episode between two BASE and DEEP records of thread 7. -/
def firstEpisode : List (Action Unit) :=
  [.addTarget 7,.tick 99000000000,.collect 7 ()]++enterRun++callRun++
    [.tick 101000000000,.collect 7 (),.exit,.closeDeepLinks]

theorem firstEpisode_gatedContract :
    Along (step oneCpu) (GatedContract oneCpu) {} firstEpisode ∧
      (run (step oneCpu) {} firstEpisode).records.map (fun r => r.gated .sysSt .count) = [0,1] := by
  refine ⟨?_,rfl⟩
  refine run_gatedContract oneCpu firstEpisode
    ⟨⟨nofun,trivial⟩,⟨nofun,trivial⟩,⟨nofun,fun _ _ _ => rfl⟩,⟨nofun,trivial⟩,⟨nofun,trivial⟩,
      ⟨nofun,trivial⟩,⟨nofun,?_⟩,⟨nofun,?_⟩,⟨nofun,?_⟩,⟨nofun,?_⟩,⟨nofun,?_⟩,⟨nofun,?_⟩,
      ⟨nofun,trivial⟩,⟨?_,trivial⟩,⟨nofun,trivial⟩,⟨nofun,?_⟩,⟨nofun,trivial⟩,⟨nofun,trivial⟩,
      trivial⟩
  case refine_7 =>
    intro l hl c
    have hcall : some (⟨.sysSt,{ cpu := 0, now := 100000003000 },7,2000⟩ : Latency) = some l := hl
    cases hcall
    rw [after,total_of_none rfl]
    show 0+0+latDelta 2000 c < _
    cases c with
    | count => decide
    | latSum => decide
    | hist i =>
      simp only [latDelta,Stat.width,LatCell.width]
      split <;> decide
  case refine_8 =>
    intro hbase
    have hdeep : true = false := hbase
    cases hdeep
  -- the only record of the pre-window is one of BASE
  all_goals
    intro k rest _ r hr _
    have hfirst := List.mem_singleton.mp hr
    rw [hfirst]
    rfl

/-- The episode is over, its maps are not wiped, and the timer goes on. -/
def residueRun : List (Action Unit) :=
  [.addTarget 7]++enterRun++callRun++[.exit,.closeDeepLinks,.tick 101000000000,.collect 7 ()]

theorem residueRun_not_gatedContract :
    ¬ ∀ (m : Machine) (as : List (Action Unit)), Along (step m) (GatedContract m) {} as := by
  intro h
  obtain ⟨_,_,_,hcollect,_⟩ :=
    ((along_append (step oneCpu) (GatedContract oneCpu) _ {} _).mp (h oneCpu residueRun)).2
  have hzero := hcollect.1 rfl _ (List.mem_singleton_self _)
  have hcount : 1 = 0 := congrFun (congrFun hzero .sysSt) .count
  exact Nat.one_ne_zero hcount

end EpisodeMaps
end ETraceDiag
