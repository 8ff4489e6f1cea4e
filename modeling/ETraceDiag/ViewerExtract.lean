import ETraceDiag.MetricRegistry
import Mathlib.Data.List.Pairwise
import Mathlib.Logic.Function.Basic

/-!
# What the viewer takes out of a session

`V.extract` of `js/parse.js` up to the store of series. Every query goes through its rows once
and keeps the row before, one for each entity of the table. The store is the list of the points
in the order in which they are pushed, and a series is the points of one metric. A missing table
and a name that is not declared are exceptions.
-/

namespace ETraceDiag
namespace ViewerExtract

open MetricRegistry
open ColumnExpr (Elapsed)

variable {N : Type}

/-! ## Tables -/

/-- A row: its time, what tells it from the other rows of the time, and the columns. -/
structure Rec (K N : Type) where
  ts : Int64
  key : K
  cols : ScriptRow N

/-- The rows of a table as `ORDER BY` lists them, without two of one primary key. -/
structure Table (K N : Type) (keyLt : K → K → Prop) where
  rows : List (Rec K N)
  ordered : rows.Pairwise fun a b => a.ts < b.ts ∨ a.ts = b.ts ∧ keyLt a.key b.key

/-- The primary key is the time. -/
def timeOnly {K : Type} : K → K → Prop := fun _ _ => False

structure DiskKey where
  name : String
  deriving DecidableEq

/-- A thread; a `tgid` that is NULL counts as 0. -/
structure ProcKey where
  pid : Int64
  tgid : Int64
  deriving DecidableEq

structure IfaceKey where
  ifindex : Int64
  name : String
  deriving DecidableEq

structure GpuKey where
  uuid : String
  available : Bool
  deriving DecidableEq

/-- A session database with the tables that it has. Of the last four only the presence matters
to the store. -/
structure Db (N : Type) where
  host : Option (Table Unit N timeOnly)
  hostCpu : Option (Table Int64 N (· < ·))
  hostDisk : Option (Table DiskKey N (·.name < ·.name))
  hostProc : Option (Table ProcKey N (·.pid < ·.pid))
  anomaly : Option (Table Unit N timeOnly)
  netIface : Option (Table IfaceKey N (·.ifindex < ·.ifindex))
  netStack : Option (Table Unit N timeOnly)
  netSoftnet : Option (Table Int64 N (· < ·))
  gpuDevice : Option (Table GpuKey N (·.uuid < ·.uuid))
  /-- The key says whether the cgroup was available. -/
  cgroup : Option (Table Bool N timeOnly)
  memoryEvents : Option (Table Unit N timeOnly)
  procOverhead : Option (Table Unit N timeOnly)
  anomalyTid : Bool
  targetsLog : Bool
  oomEvents : Bool
  deepEpisodes : Bool

/-! ## Points -/

/-- The name of a series: a registered metric, or a template with its arguments. -/
inductive Mid
  | metric (mid : String)
  | core (cpuIdx : Int64)
  | disk (name m : String)
  | proc (g : Int64) (m : String)
  | iface (name m : String)
  | tcp (m : String)
  | softnet (cpuIdx : Int64) (m : String)
  | gpu (uuid m : String)
  | cgroup (m : String)
  deriving DecidableEq,Repr

structure Point (N : Type) where
  mid : Mid
  x : N
  y : N

section Passes

variable [ScriptNumber N]

/-- `push`: a value that is null or not finite is dropped. -/
def push (mid : Mid) (x : N) : ScriptValue N → List (Point N)
  | .num y => if ScriptNumber.finite y then [⟨mid,x,y⟩] else []
  | _ => []

def lit (i : ℤ) : N := ScriptNumber.ofInt i

/-- A timestamp as a number. -/
def stamp (ts : Int64) : N := lit ts.toInt

/-- The place of a row on the time axis. -/
def xOf (t0 : N) (ts : Int64) : N := (stamp ts-t0)/lit 1000000000

def Rec.num {K : Type} (r : Rec K N) (col : String) : N := (r.cols col).toNumber

def Rec.diff {K : Type} (p r : Rec K N) (col : String) : N := r.num col-p.num col

def Rec.seconds {K : Type} (p r : Rec K N) : N := (stamp r.ts-stamp p.ts)/lit 1000000000

def Rec.elapsed {K : Type} (p r : Rec K N) : Elapsed N :=
  ⟨Rec.seconds p r,stamp r.ts-stamp p.ts⟩

def Rec.select {K : Type} (names : List String) (r : Rec K N) : Rec K N :=
  { r with cols := ScriptRow.select names r.cols }

/-- One pass over the rows of a query: what a row adds to the store depends on the row before it
of the same entity. -/
def scan {K γ : Type} [DecidableEq γ] (entity : Rec K N → γ)
    (f : Option (Rec K N) → Rec K N → List (Point N)) :
    (γ → Option (Rec K N)) → List (Rec K N) → List (Point N)
  | _, [] => []
  | prev, r::rs =>
    f (prev (entity r)) r++scan entity f (Function.update prev (entity r) (some r)) rs

/-- A pass from its start. -/
def rowPass {K γ : Type} [DecidableEq γ] (entity : Rec K N → γ)
    (f : Option (Rec K N) → Rec K N → List (Point N)) (rows : List (Rec K N)) : List (Point N) :=
  scan entity f (fun _ => none) rows

/-! ## host -/

def hostNames : List String :=
  ["cu_user","cu_nice","cu_sys","cu_idle","cu_iowait","cu_irq","cu_softirq","cu_steal","cu_guest",
    "cu_guest_nice","load1","load5","load15","nr_running","nr_threads","mem_total_kb",
    "mem_avail_kb","mem_free_kb","buffers_kb","cached_kb","swap_total_kb","swap_free_kb",
    "anon_pages_kb","sreclaimable_kb","shmem_kb","dirty_kb","writeback_kb","commit_limit_kb",
    "committed_as_kb","mem_valid_mask","vm_pgfault","vm_pgmajfault","vm_pswpin","vm_pswpout",
    "vm_pgscan_kswapd","vm_pgscan_direct","vm_pgsteal_kswapd","vm_pgsteal_direct",
    "vm_workingset_refault","vm_nr_dirty","vm_nr_writeback","vm_valid_mask","psi_cpu_s10",
    "psi_cpu_s60","psi_cpu_s300","psi_cpu_s_valid","psi_io_s10","psi_io_s60","psi_io_s300",
    "psi_io_s_valid","psi_io_f10","psi_io_f60","psi_io_f300","psi_io_f_valid","psi_mem_s10",
    "psi_mem_s60","psi_mem_s300","psi_mem_s_valid","psi_mem_f10","psi_mem_f60","psi_mem_f300",
    "psi_mem_f_valid","ctxt","processes","procs_running","procs_blocked"]

/-- `cols.some((f) => r[f] < p[f])`. -/
def anyFalls (cols : List String) (p r : ScriptRow N) : Bool := cols.any fun f => (r f).lt (p f)

/-- Outside a pair of rows there is no row before, and no time has passed. -/
def noPrev : ScriptRow N := fun _ => .undefined

def noTime : Elapsed N := ⟨lit 0,lit 0⟩

def hostGauge (t0 : N) (prev : Option (Rec Unit N)) (r : Rec Unit N) (m : Metric) :
    List (Point N) :=
  if m.table ≠ .host ∨ m.kind = some .counter then []
  else push (.metric m.mid) (xOf t0 r.ts)
    (m.expr.eval ((prev.map Rec.cols).getD noPrev) r.cols noTime)

def hostCounter (t0 : N) (p r : Rec Unit N) (m : Metric) : List (Point N) :=
  if m.table ≠ .host ∨ m.kind ≠ some .counter then []
  else if anyFalls (m.mono.getD []) p.cols r.cols then []
  else push (.metric m.mid) (xOf t0 r.ts) (m.expr.eval p.cols r.cols (p.elapsed r))

def hostRow (t0 : N) (prev : Option (Rec Unit N)) (r : Rec Unit N) : List (Point N) :=
  metrics.flatMap (hostGauge t0 prev r)++
    match prev with
    | none => []
    | some p => metrics.flatMap (hostCounter t0 p r)

def hostPass (t0 : N) (rows : List (Rec Unit N)) : List (Point N) :=
  rowPass (fun _ => ()) (hostRow t0) (rows.map (Rec.select hostNames))

/-! ## host_cpu -/

def coreNames : List String :=
  ["usr","nice","sys","idle","iowait","irq","softirq","steal"]

/-- The time of all kinds that has passed. -/
def coreTotal (p r : Rec Int64 N) : N :=
  p.diff r "usr"+p.diff r "nice"+p.diff r "sys"+p.diff r "idle"+p.diff r "iowait"+
    p.diff r "irq"+p.diff r "softirq"+p.diff r "steal"

def coreRow (t0 : N) (prev : Option (Rec Int64 N)) (r : Rec Int64 N) : List (Point N) :=
  match prev with
  | none => []
  | some p =>
    if ScriptNumber.lt (lit 0) (coreTotal p r) then
      push (.core r.key) (xOf t0 r.ts)
        (.num (lit 100*(lit 1-p.diff r "idle"/coreTotal p r)))
    else []

def corePass (t0 : N) (rows : List (Rec Int64 N)) : List (Point N) :=
  rowPass Rec.key (coreRow t0) (rows.map (Rec.select coreNames))

/-! ## host_disk -/

def diskNames : List String :=
  ["major","minor","reads_completed","writes_completed","sectors_read","sectors_written",
    "io_ticks_ms","read_ticks_ms","write_ticks_ms"]

/-- Megabytes a second. -/
def diskMbs (t0 : N) (p r : Rec DiskKey N) (m col : String) : List (Point N) :=
  if ScriptNumber.ge (p.diff r col) (lit 0) then
    push (.disk r.key.name m) (xOf t0 r.ts)
      (.num (p.diff r col*lit 512/lit 1000000/p.seconds r))
  else []

/-- Milliseconds an operation. -/
def diskAwait (t0 : N) (p r : Rec DiskKey N) (m ops ticks : String) : List (Point N) :=
  if ScriptNumber.lt (lit 0) (p.diff r ops) && ScriptNumber.ge (p.diff r ticks) (lit 0) then
    push (.disk r.key.name m) (xOf t0 r.ts) (.num (p.diff r ticks/p.diff r ops))
  else []

def diskUtil (t0 : N) (p r : Rec DiskKey N) : List (Point N) :=
  if ScriptNumber.ge (p.diff r "io_ticks_ms") (lit 0) then
    push (.disk r.key.name "util_pct") (xOf t0 r.ts)
      (.num (lit 100*p.diff r "io_ticks_ms"/lit 1000/p.seconds r))
  else []

def diskRow (t0 : N) (prev : Option (Rec DiskKey N)) (r : Rec DiskKey N) : List (Point N) :=
  match prev with
  | none => []
  | some p =>
    if ScriptNumber.truthy (p.seconds r) then
      diskMbs t0 p r "read_mbs" "sectors_read"++(diskMbs t0 p r "write_mbs" "sectors_written"++
        (diskUtil t0 p r++(diskAwait t0 p r "read_await_ms" "reads_completed" "read_ticks_ms"++
          diskAwait t0 p r "write_await_ms" "writes_completed" "write_ticks_ms")))
    else []

def diskPass (t0 : N) (rows : List (Rec DiskKey N)) : List (Point N) :=
  rowPass Rec.key (diskRow t0) (rows.map (Rec.select diskNames))

/-! ## host_proc -/

def procNames : List String := ["comm","utime","stime","nvcsw","nivcsw","rss_kb"]

/-- `r.tgid || r.pid`. -/
def ProcKey.group (k : ProcKey) : Int64 := if k.tgid ≠ 0 then k.tgid else k.pid

/-- What is kept of a thread; its process is that of the first row. -/
structure Raw (N : Type) where
  pid : Int64
  group : Int64
  last : Rec ProcKey N
  cpu : List (N × N)
  rss : List (N × N)

def rssPoint (t0 : N) (r : Rec ProcKey N) : N × N := (xOf t0 r.ts,r.num "rss_kb"/lit 1024)

def Raw.start (t0 : N) (r : Rec ProcKey N) : Raw N where
  pid := r.key.pid
  group := r.key.group
  last := r
  cpu := []
  rss := [rssPoint t0 r]

def Raw.add (t0 : N) (raw : Raw N) (r : Rec ProcKey N) : Raw N :=
  let p := raw.last
  let dt := p.seconds r
  let du := p.diff r "utime"
  let ds := p.diff r "stime"
  { raw with
    last := r
    cpu := if ScriptNumber.truthy dt && (ScriptNumber.ge du (lit 0) && ScriptNumber.ge ds (lit 0))
      then raw.cpu++[(xOf t0 r.ts,lit 100*(du+ds)/dt/lit 1000000000)] else raw.cpu
    rss := raw.rss++[rssPoint t0 r] }

/-- A row into the map of threads, which keeps the order of their first rows. -/
def procStep (t0 : N) (raws : List (Raw N)) (r : Rec ProcKey N) : List (Raw N) :=
  if raws.any fun raw => raw.pid = r.key.pid then
    raws.map fun raw => if raw.pid = r.key.pid then raw.add t0 r else raw
  else raws++[Raw.start t0 r]

/-- `pushSeries`: everything that is kept goes to the end of the series. -/
def pushSeries (mid : Mid) (pairs : List (N × N)) : List (Point N) :=
  pairs.map fun p => ⟨mid,p.1,p.2⟩

def Raw.points (raw : Raw N) : List (Point N) :=
  pushSeries (.proc raw.group "cpu_pct") raw.cpu++pushSeries (.proc raw.group "rss_mb") raw.rss

def procPass (t0 : N) (rows : List (Rec ProcKey N)) : List (Point N) :=
  ((rows.map (Rec.select procNames)).foldl (procStep t0) []).flatMap Raw.points

/-! ## anomaly -/

def anomalyNames : List String :=
  ["on_cpu_ns_total","switch_total","io_ops_total","io_bytes_total","minor_faults_total",
    "major_faults_total","lock_waits_total"]

/-- `m.mono[0]` of the six metrics that the loop goes through. -/
def anomalyFirst : List String := anomalyMetrics.filterMap fun m => (m.mono.getD []).head?

/-- A pair of rows: a metric whose first column falls is passed over; the first one whose column
does not names `x`, which is not declared here. -/
def anomalyPair (p r : Rec Unit N) : Option Unit :=
  if anomalyFirst.all fun f => (r.cols f).lt (p.cols f) then some () else none

/-- The pass never pushes a point. -/
def anomalyPass : Option (Rec Unit N) → List (Rec Unit N) → Option Unit
  | _, [] => some ()
  | none, r::rs => anomalyPass (some r) rs
  | some p, r::rs => do
    anomalyPair p r
    anomalyPass (some r) rs

/-! ## net_iface, net_stack, net_softnet -/

def ifaceNames : List String :=
  ["valid","rx_bytes","rx_packets","rx_errors","rx_dropped","tx_bytes","tx_packets","tx_errors",
    "tx_dropped"]

/-- `r.valid === 0`. -/
def ifaceInvalid (r : Rec IfaceKey N) : Bool :=
  match r.cols "valid" with
  | .num x => !ScriptNumber.truthy x
  | _ => false

def ifaceMbps (t0 : N) (p r : Rec IfaceKey N) (m col : String) : List (Point N) :=
  if ScriptNumber.ge (p.diff r col) (lit 0) then
    push (.iface r.key.name m) (xOf t0 r.ts) (.num (p.diff r col*lit 8/lit 1000000/p.seconds r))
  else []

def ifacePps (t0 : N) (p r : Rec IfaceKey N) (m col : String) : List (Point N) :=
  if ScriptNumber.ge (p.diff r col) (lit 0) then
    push (.iface r.key.name m) (xOf t0 r.ts) (.num (p.diff r col/p.seconds r))
  else []

/-- A rate a second of a column that has not fallen. -/
def risingRate {K : Type} (t0 : N) (p r : Rec K N) (mid : Mid) (col : String) : List (Point N) :=
  if (r.cols col).ge (p.cols col) then
    push mid (xOf t0 r.ts) (.num (p.diff r col/p.seconds r))
  else []

def ifaceRow (t0 : N) (prev : Option (Rec IfaceKey N)) (r : Rec IfaceKey N) : List (Point N) :=
  match prev with
  | none => []
  | some p =>
    if ScriptNumber.truthy (p.seconds r) then
      ifaceMbps t0 p r "rx_mbps" "rx_bytes"++(ifaceMbps t0 p r "tx_mbps" "tx_bytes"++
        (ifacePps t0 p r "rx_pps" "rx_packets"++(ifacePps t0 p r "tx_pps" "tx_packets"++
          [("rx_err_s","rx_errors"),("tx_err_s","tx_errors"),("rx_drop_s","rx_dropped"),
            ("tx_drop_s","tx_dropped")].flatMap fun e =>
              risingRate t0 p r (.iface r.key.name e.1) e.2)))
    else []

def ifacePass (t0 : N) (rows : List (Rec IfaceKey N)) : List (Point N) :=
  rowPass (fun r => r.key.name) (ifaceRow t0)
    ((rows.map (Rec.select ifaceNames)).filter fun r => !ifaceInvalid r)

def stackMono : List String :=
  ["active_opens","passive_opens","attempt_fails","estab_resets","retrans_segs","out_rsts",
    "in_errs","syn_retrans","timeouts","listen_overflows","listen_drops","udp_no_ports"]

def stackRow (t0 : N) (prev : Option (Rec Unit N)) (r : Rec Unit N) : List (Point N) :=
  match prev with
  | none => []
  | some p =>
    (if ScriptNumber.truthy (p.seconds r) then
      stackMono.flatMap fun col => risingRate t0 p r (.tcp (col++"_s")) col else [])++
    (push (.tcp "curr_estab") (xOf t0 r.ts) (r.cols "curr_estab")++
      push (.tcp "sock_mem_kb") (xOf t0 r.ts) (.num (r.num "tcp_sock_mem"*lit 4)))

def stackPass (t0 : N) (rows : List (Rec Unit N)) : List (Point N) :=
  rowPass (fun _ => ()) (stackRow t0) rows

def softnetNames : List String :=
  ["processed","dropped","time_squeeze","backlog_len","net_rx_softirq","net_tx_softirq"]

def softnetRow (t0 : N) (prev : Option (Rec Int64 N)) (r : Rec Int64 N) : List (Point N) :=
  push (.softnet r.key "backlog_len") (xOf t0 r.ts) (r.cols "backlog_len")++
    match prev with
    | none => []
    | some p =>
      if ScriptNumber.truthy (p.seconds r) then
        ["processed","dropped","time_squeeze","net_rx_softirq","net_tx_softirq"].flatMap fun col =>
          risingRate t0 p r (.softnet r.key (col++"_s")) col
      else []

def softnetPass (t0 : N) (rows : List (Rec Int64 N)) : List (Point N) :=
  rowPass Rec.key (softnetRow t0) (rows.map (Rec.select softnetNames))

/-! ## gpu_device, cgroup, memory_events -/

def gpuNames : List String :=
  ["util_pct","mem_util_pct","mem_used_bytes","mem_total_bytes","temperature_c","power_w",
    "encoder_util_pct","decoder_util_pct","pcie_rx_kbps","pcie_tx_kbps"]

def gpuRow (t0 : N) (_ : Option (Rec GpuKey N)) (r : Rec GpuKey N) : List (Point N) :=
  let x := xOf t0 r.ts
  let mid (m : String) : Mid := .gpu r.key.uuid m
  push (mid "util_pct") x (r.cols "util_pct")++
    (push (mid "mem_used_mb") x (.num (r.num "mem_used_bytes"/lit 1000000))++
    ((if (r.cols "mem_total_bytes").truthy then push (mid "mem_pct") x
        (.num (lit 100*r.num "mem_used_bytes"/r.num "mem_total_bytes")) else [])++
    (push (mid "temp_c") x (r.cols "temperature_c")++
    (push (mid "power_w") x (r.cols "power_w")++
    (push (mid "enc_pct") x (r.cols "encoder_util_pct")++
    (push (mid "dec_pct") x (r.cols "decoder_util_pct")++
    (push (mid "pcie_rx_mbps") x (.num (r.num "pcie_rx_kbps"*lit 8/lit 1000))++
      push (mid "pcie_tx_mbps") x (.num (r.num "pcie_tx_kbps"*lit 8/lit 1000)))))))))

def gpuPass (t0 : N) (rows : List (Rec GpuKey N)) : List (Point N) :=
  rowPass (fun r => r.key.uuid) (gpuRow t0)
    ((rows.filter fun r => r.key.available).map (Rec.select gpuNames))

def cgroupNames : List String :=
  ["available","cpu_usage_usec","nr_throttled","throttled_usec","memory_current_bytes",
    "memory_events_oom","cpu_psi_s10","cpu_psi_s_valid"]

/-- A share of the time in percent, from microseconds. -/
def cgroupPct (t0 : N) (p r : Rec Bool N) (m col : String) : List (Point N) :=
  if (r.cols col).ge (p.cols col) then
    push (.cgroup m) (xOf t0 r.ts) (.num (lit 100*p.diff r col/p.seconds r/lit 1000000))
  else []

def cgroupRow (t0 : N) (prev : Option (Rec Bool N)) (r : Rec Bool N) : List (Point N) :=
  (match prev with
    | none => []
    | some p =>
      if ScriptNumber.truthy (p.seconds r) then
        cgroupPct t0 p r "cpu_usage_pct" "cpu_usage_usec"++
          (cgroupPct t0 p r "cpu_throttled_pct" "throttled_usec"++
            risingRate t0 p r (.cgroup "mem_events_oom_s") "memory_events_oom")
      else [])++
  (push (.cgroup "mem_current_mb") (xOf t0 r.ts) (.num (r.num "memory_current_bytes"/lit 1000000))++
    if (r.cols "cpu_psi_s_valid").truthy then
      push (.cgroup "cpu_psi_s10") (xOf t0 r.ts) (r.cols "cpu_psi_s10") else [])

def cgroupPass (t0 : N) (rows : List (Rec Bool N)) : List (Point N) :=
  rowPass (fun _ => ()) (cgroupRow t0)
    ((rows.filter fun r => r.key).map (Rec.select cgroupNames))

def memoryNames : List String := ["kswapd_active","direct_reclaim","nr_reclaimed"]

def memoryRow (t0 : N) (prev : Option (Rec Unit N)) (r : Rec Unit N) : List (Point N) :=
  push (.metric "memv.kswapd") (xOf t0 r.ts) (r.cols "kswapd_active")++
    match prev with
    | none => []
    | some p =>
      risingRate t0 p r (.metric "memv.direct_reclaim_s") "direct_reclaim"++
        risingRate t0 p r (.metric "memv.nr_reclaimed_s") "nr_reclaimed"

def memoryPass (t0 : N) (rows : List (Rec Unit N)) : List (Point N) :=
  rowPass (fun _ => ()) (memoryRow t0) (rows.map (Rec.select memoryNames))

/-! ## The session -/

/-- `SELECT MIN(ts_ns)`: the first row in the order of the table. -/
def minTs {K : Type} (rows : List (Rec K N)) : Option Int64 := rows.head?.map Rec.ts

/-- The start of the time axis; the second query is made when the first one finds no row. -/
def startOf (db : Db N) : Option N := do
  let host ← db.host
  match minTs host.rows with
  | some ts => some (stamp ts)
  | none =>
    let anomaly ← db.anomaly
    match minTs anomaly.rows with
    | some ts => some (stamp ts)
    | none => some (lit 0)

def present (b : Bool) : Option Unit := if b then some () else none

/-- `V.extract`: the store, or nothing when an exception ends it. -/
def extract (db : Db N) : Option (List (Point N)) := do
  let t0 ← startOf db
  let host ← db.host
  let hostCpu ← db.hostCpu
  let hostDisk ← db.hostDisk
  let hostProc ← db.hostProc
  let anomaly ← db.anomaly
  anomalyPass none (anomaly.rows.map (Rec.select anomalyNames))
  present (db.anomalyTid && db.targetsLog)
  let netIface ← db.netIface
  let netStack ← db.netStack
  let netSoftnet ← db.netSoftnet
  let gpuDevice ← db.gpuDevice
  let cgroup ← db.cgroup
  let memoryEvents ← db.memoryEvents
  present (db.oomEvents && db.deepEpisodes)
  some (hostPass t0 host.rows++(corePass t0 hostCpu.rows++(diskPass t0 hostDisk.rows++
    (procPass t0 hostProc.rows++(ifacePass t0 netIface.rows++(stackPass t0 netStack.rows++
      (softnetPass t0 netSoftnet.rows++(gpuPass t0 gpuDevice.rows++(cgroupPass t0 cgroup.rows++
        memoryPass t0 memoryEvents.rows)))))))))

/-- The series of a metric. -/
def series (store : List (Point N)) (mid : Mid) : List (Point N) := store.filter (·.mid = mid)

end Passes

end ViewerExtract
end ETraceDiag
