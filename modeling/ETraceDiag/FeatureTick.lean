import ETraceDiag.FeatureJson
import ETraceDiag.GroupFold
import ETraceDiag.HashOrder
import ETraceDiag.ModelClient

/-!
# The feature tick

From the process table to the verdict: the rows that go into the features, the request, what the
serializer makes of it and what `TickAnomaly` does about an exception. The serializer throws on a
string that is not UTF-8.
-/

namespace ETraceDiag
namespace FeatureTick

open Metrics FeatureJson GroupFold
open PhaseManager (validUtf8 Window)
open ModelClient (JsonParser)
open JsonGet (Number)
open ProcessTable (ProcessRow)

variable {F : Type}

/-! ## The features -/

def cpuTime (r : ProcessRow) : UInt64 := r.utime+r.stime

/-- `std::sort` with the greater CPU time first; which of two equal rows is first is open. -/
structure CpuSort where
  sort : List ProcessRow → List ProcessRow
  perm : ∀ rows, (sort rows).Perm rows
  sorted : ∀ rows, (sort rows).Pairwise fun a b => cpuTime b ≤ cpuTime a

/-- The process of a thread. -/
def group (r : ProcessRow) : UInt32 := if r.tgid ≠ 0 then r.tgid else r.pid

/-- A row into the row of its process: the name is that of the main thread. -/
def addRow (a r : ProcessRow) : ProcessRow :=
  let g := group r
  let a := if a.tgid = 0 then { a with
    tgid := g, pid := g, state := r.state, startTime := r.startTime, rssValid := r.rssValid,
    rssKb := r.rssKb } else a
  let a := if r.pid = g then { a with comm := r.comm.take 15 } else a
  { a with
    utime := a.utime+r.utime, stime := a.stime+r.stime, nvcsw := a.nvcsw+r.nvcsw,
    nivcsw := a.nivcsw+r.nivcsw, minflt := a.minflt+r.minflt, majflt := a.majflt+r.majflt,
    totalVm := a.totalVm+r.totalVm }

def buildTopTasks (σ : CpuSort) (table : List ProcessRow) (procs : List UInt32) :
    List ProcessRow :=
  let rows := table.filter fun r => group r ∈ procs
  σ.sort ((groupFold compare group addRow {} rows).toList.map Prod.snd)

/-- What a feature tick starts from. The snapshots are those of the last host tick, whose
`procs` are not filled in yet; `tableRead` says that the table could be read. -/
structure Tick (F : Type) where
  seq : UInt64 := 0
  host : HostSnapshot F
  network : NetworkSnapshot := {}
  gpu : GpuSnapshot F := {}
  cgroup : CgroupSnapshot F
  ebpf : EbpfCounters := {}
  table : List ProcessRow
  tableRead : Bool := true
  procs : List UInt32 := []
  pidFilter : UInt64 := 0

/-- `host.procs`: the 200 busiest threads, in front of the filter. -/
def Tick.busiest (σ : CpuSort) (t : Tick F) : List ProcessRow :=
  if t.tableRead then (σ.sort t.table).take 200 else []

def Tick.sentProcs (σ : CpuSort) (t : Tick F) : List ProcessRow :=
  if t.pidFilter ≠ 0 then (t.busiest σ).filter fun p => (group p).toUInt64 = t.pidFilter
  else t.busiest σ

def Tick.want (t : Tick F) : List UInt32 :=
  if t.pidFilter ≠ 0 then [t.pidFilter.toUInt32] else t.procs

/-- `BuildFeatures`. -/
def Tick.features (σ : CpuSort) (t : Tick F) : AnomalyFeatures F where
  seq := t.seq
  tsNs := t.host.tsNs
  host := { t.host with procs := t.sentProcs σ }
  ebpf := t.ebpf
  topTasks := buildTopTasks σ t.table t.want
  network := t.network
  gpu := t.gpu
  cgroup := t.cgroup

/-! ## The request -/

/-- What the connection does: whether it is there, whether the text can be written, and what
comes back from the model for the request that has reached it. -/
structure Link (F : Type) where
  connected : Bool
  sent : Bool
  recv : ByteJson F → Option (List UInt8)

def Link.up (link : Link F) : Prop := link.connected = true ∧ link.sent = true

/-- `RoundTrip`: an exception, or the reply if there is one, and the request that has reached
the model. -/
def roundTrip (link : Link F) (f : AnomalyFeatures F) :
    Except String (Option (List UInt8)) × Option (ByteJson F) :=
  if !link.connected then (.ok none,none)
  else
    let j := featuresJson f
    if !j.dumps validUtf8 then (.error "invalid UTF-8 byte",none)
    else if !link.sent then (.ok none,none)
    else (.ok (link.recv j),some j)

section Verdict

variable [Number F]

/-- What the client makes of a reply, or of none. -/
def verdict (p : JsonParser F) (f : AnomalyFeatures F) :
    Option (List UInt8) → PhaseManager.AnomalyResult F
  | none => (ModelClient.AnomalyFeatures.quiet ⟨f.seq,f.tsNs⟩).verdict
  | some out => (ModelClient.inferAnomaly p ⟨f.seq,f.tsNs⟩ out).verdict

/-- `InferAnomaly`: only the reply is read inside a `try`. -/
def inferAnomaly (p : JsonParser F) (link : Link F) (f : AnomalyFeatures F) :
    Except String (PhaseManager.AnomalyResult F) :=
  (roundTrip link f).1.map (verdict p f)

def tickAnomaly (w : Window) (p : JsonParser F) (link : Link F) (env : DeepLinks.Env) (now : ℕ)
    (f : AnomalyFeatures F) (s : PhaseManager.State F) : PhaseManager.State F :=
  PhaseManager.tickAnomaly w (inferAnomaly p link f) env now s

/-- Over a link that is up the request reaches the model, and whatever the phase is the tick
does what the model's reply says. -/
def Heard (f : AnomalyFeatures F) : Prop :=
  ∀ link : Link F, link.up → (roundTrip link f).2 = some (featuresJson f) ∧
    ∀ w p env now s, tickAnomaly w p link env now f s =
      PhaseManager.tickAnomaly w (.ok (verdict p f (link.recv (featuresJson f)))) env now s

/-- The request is sent exactly when its strings are UTF-8. -/
theorem heard_iff (f : AnomalyFeatures F) : Heard f ↔
    (∀ name ∈ taskNames f, validUtf8 name = true) ∧
      ∀ name ∈ deviceNames f, validUtf8 name = true := by
  rw [← featuresJson_dumps_iff]
  constructor
  · intro h
    have hreach := (h ⟨true,true,fun _ => none⟩ ⟨rfl,rfl⟩).1
    cases hd : (featuresJson f).dumps validUtf8 with
    | true => rfl
    | false => simp [roundTrip,hd] at hreach
  · intro hd link hup
    have hround : roundTrip link f = (.ok (link.recv (featuresJson f)),some (featuresJson f)) := by
      simp [roundTrip,hd,hup.1,hup.2]
    refine ⟨by rw [hround],fun w p env now s => ?_⟩
    rw [tickAnomaly,inferAnomaly,hround]
    rfl

/-- A request that cannot be serialized is a verdict of no anomaly, whatever the model would
say: BASE stays as it is, and DEEP counts towards the end of the anomaly. -/
theorem tickAnomaly_unserializable {f : AnomalyFeatures F}
    (hd : (featuresJson f).dumps validUtf8 = false) {link : Link F} (hup : link.up) (w : Window)
    (p : JsonParser F) (env : DeepLinks.Env) (now : ℕ) (s : PhaseManager.State F) :
    tickAnomaly w p link env now f s =
      if s.phase = .base then s else PhaseManager.noteVerdict w now s none := by
  have hround : roundTrip link f = (.error "invalid UTF-8 byte",none) := by
    simp [roundTrip,hd,hup.1]
  rw [tickAnomaly,inferAnomaly,hround]
  cases hp : s.phase <;> simp [PhaseManager.tickAnomaly,Except.map,PhaseManager.verdict,hp]

end Verdict

/-! ## The names in the features -/

/-- The name of a process: that of the last row that stands for its main thread. -/
def mainName (rows : List ProcessRow) (g : UInt32) : List UInt8 :=
  ((rows.filter fun r => group r = g ∧ r.pid = g).getLast?.map fun r => r.comm.take 15).getD []

theorem addRow_comm (a r : ProcessRow) :
    (addRow a r).comm = if r.pid = group r then r.comm.take 15 else a.comm := by
  by_cases ht : a.tgid = 0 <;> by_cases hr : r.pid = group r <;> simp [addRow,ht,hr]

theorem foldl_addRow_comm (rows : List ProcessRow) : ∀ a : ProcessRow,
    (rows.foldl addRow a).comm =
      ((rows.filter fun r => r.pid = group r).getLast?.map fun r => r.comm.take 15).getD
        a.comm := by
  induction rows using List.reverseRecOn with
  | nil => intro a; rfl
  | append_singleton rows r ih =>
    intro a
    rw [List.foldl_append,List.foldl_cons,List.foldl_nil,addRow_comm,ih,List.filter_append]
    by_cases hr : r.pid = group r <;> simp [hr]

theorem foldl_group_comm (rows : List ProcessRow) (g : UInt32) :
    ((rows.filter (group · = g)).foldl addRow {}).comm = mainName rows g := by
  have hfilter : (rows.filter (group · = g)).filter (fun r => r.pid = group r) =
      rows.filter fun r => group r = g ∧ r.pid = g := by
    rw [List.filter_filter]
    refine List.filter_congr fun r _ => ?_
    by_cases hg : group r = g <;> simp [hg]
  rw [foldl_addRow_comm,hfilter,mainName]

/-- The names of the top tasks are those of the processes that have a row. -/
theorem topTasks_forall_iff (σ : CpuSort) (table : List ProcessRow) (procs : List UInt32)
    (ok : List UInt8 → Bool) : (∀ a ∈ buildTopTasks σ table procs, ok a.comm = true) ↔
      ∀ r ∈ table, group r ∈ procs →
        ok (mainName (table.filter fun r => group r ∈ procs) (group r)) = true := by
  simp only [buildTopTasks,(σ.perm _).mem_iff,List.mem_map,Prod.exists,exists_eq_right,
    mem_groupFold]
  constructor
  · intro h r hr hg
    have hname := h _ ⟨group r,⟨r,List.mem_filter.mpr ⟨hr,by simpa using hg⟩,rfl⟩,rfl⟩
    rwa [foldl_group_comm] at hname
  · rintro h a ⟨g,⟨r,hr,rfl⟩,rfl⟩
    obtain ⟨hr,hg⟩ := List.mem_filter.mp hr
    rw [foldl_group_comm]
    exact h r hr (by simpa using hg)

/-- The rows of the processes that the tick is about. -/
def Tick.selected (t : Tick F) : List ProcessRow := t.table.filter fun r => group r ∈ t.want

/-- Every name that goes into the request is UTF-8: those of the busiest threads and those of
the selected processes. -/
structure NamesValid (σ : CpuSort) (t : Tick F) : Prop where
  procs : ∀ r ∈ t.sentProcs σ, validUtf8 r.comm = true
  topTasks : ∀ r ∈ t.selected, validUtf8 (mainName t.selected (group r)) = true

theorem taskNames_valid_iff (σ : CpuSort) (t : Tick F) :
    (∀ name ∈ taskNames (t.features σ), validUtf8 name = true) ↔ NamesValid σ t := by
  have htop : (∀ a ∈ buildTopTasks σ t.table t.want, validUtf8 a.comm = true) ↔
      ∀ r ∈ t.selected, validUtf8 (mainName t.selected (group r)) = true := by
    simp [topTasks_forall_iff,Tick.selected]
  rw [taskNames,List.forall_mem_append,List.forall_mem_map,List.forall_mem_map]
  exact ⟨fun h => ⟨h.1,htop.mp h.2⟩,fun h => ⟨h.procs,htop.mpr h.topTasks⟩⟩

/-- Detection is heard exactly when the names that go into the request, of the tasks and of the
devices, are UTF-8. -/
theorem features_heard_iff [Number F] (σ : CpuSort) (t : Tick F) : Heard (t.features σ) ↔
    NamesValid σ t ∧ ∀ name ∈ deviceNames (t.features σ), validUtf8 name = true := by
  rw [heard_iff,taskNames_valid_iff]

/-! ## One byte -/

/-- Stable: rows that compare equal stay in their order. -/
def stableSort : CpuSort where
  sort rows := HashOrder.sortDesc (fun r => (cpuTime r).toNat) rows
  perm := HashOrder.sortDesc_perm _
  sorted rows := (HashOrder.sortDesc_pairwise (fun r => (cpuTime r).toNat) rows).imp
    fun h => UInt64.le_iff_toNat_le.mpr h

def restPsi : PsiWindow ℤ where
  avg10 := 0
  avg60 := 0
  avg300 := 0

/-- A task has named itself with the byte 0xFF. -/
def renamed : Tick ℤ where
  host := { load := ⟨0,0,0,1,1⟩, psi := ⟨restPsi,restPsi,restPsi⟩ }
  cgroup := { cpuPsi := restPsi, memoryPsi := restPsi }
  table := [{ pid := 7, tgid := 7, comm := [0xFF] }]

/-- No request goes out. -/
theorem renamed_not_heard :
    ¬ Heard (renamed.features stableSort) ∧
      ∀ link : Link ℤ, (roundTrip link (renamed.features stableSort)).2 = none := by
  have hrow : { pid := 7, tgid := 7, comm := [0xFF] } ∈ renamed.sentProcs stableSort := by
    simp [Tick.sentProcs,Tick.busiest,renamed,stableSort,HashOrder.sortDesc]
  have hbad : validUtf8 [0xFF] = false := by decide
  have hd : (featuresJson (renamed.features stableSort)).dumps validUtf8 = false := by
    rw [Bool.eq_false_iff,Ne,featuresJson_dumps_iff]
    intro h
    rw [((taskNames_valid_iff stableSort renamed).mp h.1).procs _ hrow] at hbad
    cases hbad
  have hround (link : Link ℤ) : (roundTrip link (renamed.features stableSort)).2 = none := by
    cases hc : link.connected <;> simp [roundTrip,hc,hd]
  refine ⟨fun h => ?_,hround⟩
  have hreach := (h ⟨true,true,fun _ => none⟩ ⟨rfl,rfl⟩).1
  rw [hround] at hreach
  cases hreach

end FeatureTick
end ETraceDiag
