import ETraceDiag.ColumnExpr

/-!
# The metric registry of the viewer

`METRICS` of `js/parse.js`: what a metric is computed from, and how. Labels and scales are left
out.
-/

namespace ETraceDiag
namespace MetricRegistry

open ColumnExpr

inductive MetricTable
  | host
  | anomaly
  | procOverhead
  | memoryEvents
  deriving DecidableEq,Repr

inductive Kind
  | gauge
  | counter
  | step
  deriving DecidableEq,Repr

/-- An entry; a kind or monotone columns that it does not have are undefined. -/
structure Metric where
  mid : String
  table : MetricTable
  kind : Option Kind
  mono : Option (List String) := none
  expr : ColumnExpr
  deriving DecidableEq,Repr

/-! ## Helpers for the expressions -/

def delta (col : String) : ColumnExpr := .sub (.cur col) (.prev col)

/-- The left-hand sum of a nonempty list. -/
def sum : List ColumnExpr → ColumnExpr
  | [] => .lit 0
  | e::es => es.foldl .add e

def cpuMono : List String :=
  ["cu_user","cu_nice","cu_sys","cu_idle","cu_iowait","cu_irq","cu_softirq","cu_steal",
    "cu_guest","cu_guest_nice"]

def allSum : ColumnExpr := sum (cpuMono.map delta)

def cpuPct (pick : List String) : ColumnExpr :=
  .cond allSum (.div (.mul (.lit 100) (sum (pick.map delta))) allSum) .null

/-- `t.s ? e / t.s : null`. -/
def perSecond (e : ColumnExpr) : ColumnExpr := .cond .seconds (.div e .seconds) .null

def overKilo (col : String) : ColumnExpr := .div (.cur col) (.lit 1024)

/-- `total ? 100 * (total - rest) / total : null`. -/
def usedPct (total rest : String) : ColumnExpr :=
  .cond (.cur total) (.div (.mul (.lit 100) (.sub (.cur total) (.cur rest))) (.cur total)) .null

/-- `value != null && valid ? value : null`. -/
def whenValid (value valid : String) : ColumnExpr :=
  .cond (.ifPresent (.cur value) (.cur valid) (.lit 0)) (.cur value) .null

/-! ## The entries -/

def gaugeMetric (mid : String) (table : MetricTable) (expr : ColumnExpr) : Metric :=
  { mid := mid, table := table, kind := some .gauge, expr := expr }

def counterMetric (mid : String) (table : MetricTable) (mono : List String) (expr : ColumnExpr) :
    Metric :=
  { mid := mid, table := table, kind := some .counter, mono := some mono, expr := expr }

/-- A counter of one column. -/
def rate (mid : String) (table : MetricTable) (col : String) : Metric :=
  counterMetric mid table [col] (perSecond (delta col))

def hostMetrics : List Metric :=
  [counterMetric "host.cpu.usage_pct" .host cpuMono
      (cpuPct ["cu_user","cu_nice","cu_sys","cu_irq","cu_softirq","cu_steal","cu_iowait"]),
    counterMetric "host.cpu.user_pct" .host cpuMono (cpuPct ["cu_user","cu_nice"]),
    counterMetric "host.cpu.sys_pct" .host cpuMono (cpuPct ["cu_sys"]),
    counterMetric "host.cpu.iowait_pct" .host cpuMono (cpuPct ["cu_iowait"]),
    counterMetric "host.cpu.irq_pct" .host cpuMono (cpuPct ["cu_irq","cu_softirq"]),
    gaugeMetric "host.load.load1" .host (.cur "load1"),
    gaugeMetric "host.load.load5" .host (.cur "load5"),
    gaugeMetric "host.load.load15" .host (.cur "load15"),
    gaugeMetric "host.load.nr_running" .host (.cur "nr_running"),
    gaugeMetric "host.load.nr_threads" .host (.cur "nr_threads"),
    gaugeMetric "host.mem.used_pct" .host (usedPct "mem_total_kb" "mem_avail_kb"),
    gaugeMetric "host.mem.cached_mb" .host (overKilo "cached_kb"),
    gaugeMetric "host.mem.buffers_mb" .host (overKilo "buffers_kb"),
    gaugeMetric "host.mem.anon_mb" .host (overKilo "anon_pages_kb"),
    gaugeMetric "host.mem.avail_mb" .host (overKilo "mem_avail_kb"),
    gaugeMetric "host.mem.swap_used_pct" .host (usedPct "swap_total_kb" "swap_free_kb"),
    rate "host.vm.pgfault_s" .host "vm_pgfault",rate "host.vm.pgmajfault_s" .host "vm_pgmajfault",
    rate "host.vm.pswpin_s" .host "vm_pswpin",rate "host.vm.pswpout_s" .host "vm_pswpout"]

/-- The two entries of a pressure kind and a window. -/
def psiEntries (grp num : String) : List Metric :=
  [gaugeMetric ("host.psi."++grp++".some.avg"++num) .host
      (whenValid ("psi_"++grp++"_s"++num) ("psi_"++grp++"_s_valid")),
    gaugeMetric ("host.psi."++grp++".full.avg"++num) .host
      (whenValid ("psi_"++grp++"_f"++num) ("psi_"++grp++"_f_valid"))]

def psiMetrics : List Metric :=
  ["cpu","io","mem"].flatMap fun grp => ["10","60","300"].flatMap (psiEntries grp)

def busyPct : Metric :=
  counterMetric "ebpf.busy_pct" .anomaly ["on_cpu_ns_total"]
    (.cond .nanos (.div (.mul (.lit 100) (delta "on_cpu_ns_total")) .nanos) .null)

/-- This entry has no kind. -/
def faultsS : Metric where
  mid := "ebpf.faults_s"
  table := .anomaly
  kind := none
  mono := some ["minor_faults_total","major_faults_total"]
  expr := perSecond (.sub (.add (.cur "minor_faults_total") (.cur "major_faults_total"))
    (.add (.prev "minor_faults_total") (.prev "major_faults_total")))

def ioMbs : Metric :=
  counterMetric "ebpf.io_mbs" .anomaly ["io_bytes_total"]
    (.cond .seconds (.div (.div (delta "io_bytes_total") (.lit 1000000)) .seconds) .null)

def anomalyMetrics : List Metric :=
  [busyPct,rate "ebpf.switches_s" .anomaly "switch_total",faultsS,
    rate "ebpf.io_ops_s" .anomaly "io_ops_total",ioMbs,
    rate "ebpf.lock_waits_s" .anomaly "lock_waits_total"]

def overheadMetrics : List Metric :=
  [{ mid := "ovh.cpu_pct", table := .procOverhead, kind := some .counter,
     expr := .cond .nanos (.div (.mul (.lit 100)
       (.sub (.add (.cur "utime_ns") (.cur "stime_ns"))
         (.add (.prev "utime_ns") (.prev "stime_ns")))) .nanos) .null },
    gaugeMetric "ovh.rss_mb" .procOverhead (overKilo "rss_kb"),
    gaugeMetric "ovh.vmhwm_mb" .procOverhead (overKilo "vmhwm_kb"),
    rate "ovh.minflt_s" .procOverhead "minflt",rate "ovh.majflt_s" .procOverhead "majflt",
    rate "ovh.vcsw_s" .procOverhead "nvcsw",rate "ovh.ivcsw_s" .procOverhead "nivcsw"]

def kswapd : Metric where
  mid := "memv.kswapd"
  table := .memoryEvents
  kind := some .step
  expr := .cur "kswapd_active"

def memoryMetrics : List Metric :=
  [kswapd,rate "memv.direct_reclaim_s" .memoryEvents "direct_reclaim",
    rate "memv.nr_reclaimed_s" .memoryEvents "nr_reclaimed"]

def metrics : List Metric :=
  hostMetrics++(psiMetrics++(anomalyMetrics++(overheadMetrics++memoryMetrics)))

/-! ## The registry as a whole -/

theorem mids_nodup : (metrics.map Metric.mid).Nodup := by decide +kernel

/-- What is not a difference reads the current row only. -/
theorem curOnly_of_mem : ∀ m ∈ metrics, m.kind = some .gauge ∨ m.kind = some .step →
    m.expr.curOnly = true := by decide

end MetricRegistry
end ETraceDiag
