import ETraceDiag.JsonGet
import ETraceDiag.JsonPatch
import ETraceDiag.TextScan

/-!
# Where the configuration comes from

The keys of `config.h` and the four sources of their values: the command line, the environment,
the JSON file and the initialisers. `main` puts them together when the program starts,
`ReloadConfig` when it is told to read the file again.
-/

namespace ETraceDiag
namespace ConfigSources

open JsonGet JsonPatch TextScan

/-- What the code needs of `double`: literals (so many units of so many decimals), the order,
and `strtod`, which gives nothing when there is no number. -/
class Double (F : Type) extends Number F, LT F where
  decLt : DecidableLT F
  lit : ℕ → ℕ → F
  strtod : String → Option F

instance Double.instDecidableLT {F : Type} [Double F] : DecidableLT F := Double.decLt

/-! ## Kinds of values -/

inductive Kind
  | u64 | u32 | bool | double | str | u32s | strs

@[reducible] def Kind.Val (F : Type) : Kind → Type
  | .u64 => UInt64
  | .u32 => UInt32
  | .bool => Bool
  | .double => F
  | .str => String
  | .u32s => List UInt32
  | .strs => List String

section Kinds

variable {F : Type}

def Kind.encode : {κ : Kind} → κ.Val F → JsonValue F
  | .u64,x => .int x.toNat
  | .u32,x => .int x.toNat
  | .bool,b => .bool b
  | .double,x => .float x
  | .str,s => .str s
  | .u32s,xs => .arr (xs.map fun x => .int x.toNat)
  | .strs,ss => .arr (ss.map .str)

def parseU64 (s : String) : Option UInt64 :=
  (scanNumber (skipSpace s.toUTF8.toList)).map fun r => UInt64.ofNat r.1

def parseBool (s : String) : Option Bool :=
  if s ∈ ["1","true","TRUE","on","yes"] then some true
  else if s ∈ ["0","false","FALSE","off","no"] then some false
  else none

/-- The tokens between commas that are not empty. -/
def tokens (s : String) : List String := (s.splitOn ",").filter (· ≠ "")

variable [Double F]

/-- The conversion in `from_json`; it throws where this gives nothing. -/
def Kind.decode : (κ : Kind) → JsonValue F → Option (κ.Val F)
  | .u64 => getUInt64
  | .u32 => getUInt32
  | .bool => getBool
  | .double => getDouble
  | .str => getString
  | .u32s => getList getUInt32
  | .strs => getList getString

/-- The value of an environment variable; nothing leaves the key as it is. -/
def Kind.parse : (κ : Kind) → String → Option (κ.Val F)
  | .u64,s => parseU64 s
  | .u32,s => (parseU64 s).map UInt64.toUInt32
  | .bool,s => parseBool s
  | .double,s => if s = "" then none else Double.strtod s
  | .str,s => some s
  | .u32s,s => some ((tokens s).map fun t => ((parseU64 t).getD 0).toUInt32)
  | .strs,s => some (tokens s)

end Kinds

/-! ## Keys -/

inductive Key
  | baseHostIntervalMs | baseFeatureIntervalMs | fineIntervalMs | deepFineIntervalMs
  | deepDumpIntervalMs | profileFreqHz | offcpuSampleRate | iofileSampleRate | overheadIntervalMs
  | preAnomalySeconds | postAnomalySeconds | ringBacklogSeconds | endDebounceSamples
  | endGraceSeconds | maxTargets | autoScale | minTargets | perProcThreads | concurrencyFactor
  | evalIntervalMs | windowSeconds | enterRank | leaveRank | holdPeriods | minResidencySeconds
  | pinned | weightCpu | weightSwitch | weightIo | weightFault | weightLock | anomalyUrl
  | anomalyTimeoutMs | causalUrl | causalTimeoutMs | adapter | outputDir | metricsFormat
  | profileFormat | logLevel | categories | pidFilter | enableBpfStats | networkEnabled
  | deepNetworkEnabled | gpuSource | deepGpuEnabled | deepGpuIntervalMs | netEventSampleRate
  deriving DecidableEq

/-- In the order in which `from_json` reads them. -/
def Key.all : List Key :=
  [.baseHostIntervalMs,.baseFeatureIntervalMs,.fineIntervalMs,.deepFineIntervalMs,
   .deepDumpIntervalMs,.profileFreqHz,.offcpuSampleRate,.iofileSampleRate,.overheadIntervalMs,
   .preAnomalySeconds,.postAnomalySeconds,.ringBacklogSeconds,.endDebounceSamples,
   .endGraceSeconds,.maxTargets,.autoScale,.minTargets,.perProcThreads,.concurrencyFactor,
   .evalIntervalMs,.windowSeconds,.enterRank,.leaveRank,.holdPeriods,.minResidencySeconds,.pinned,
   .weightCpu,.weightSwitch,.weightIo,.weightFault,.weightLock,.anomalyUrl,.anomalyTimeoutMs,
   .causalUrl,.causalTimeoutMs,.adapter,.networkEnabled,.deepNetworkEnabled,.gpuSource,
   .deepGpuEnabled,.deepGpuIntervalMs,.netEventSampleRate,.outputDir,.metricsFormat,
   .profileFormat,.logLevel,.categories,.pidFilter,.enableBpfStats]

@[reducible] def Key.kind : Key → Kind
  | .offcpuSampleRate | .iofileSampleRate | .endDebounceSamples | .maxTargets | .minTargets
  | .perProcThreads | .enterRank | .leaveRank | .holdPeriods | .netEventSampleRate => .u32
  | .autoScale | .enableBpfStats | .networkEnabled | .deepNetworkEnabled
  | .deepGpuEnabled => .bool
  | .concurrencyFactor | .weightCpu | .weightSwitch | .weightIo | .weightFault
  | .weightLock => .double
  | .anomalyUrl | .causalUrl | .adapter | .outputDir | .metricsFormat | .profileFormat
  | .logLevel | .gpuSource => .str
  | .pinned => .u32s
  | .categories => .strs
  | _ => .u64

def Key.path : Key → List String
  | .baseHostIntervalMs => ["sample","base_host_interval_ms"]
  | .baseFeatureIntervalMs => ["sample","base_feature_interval_ms"]
  | .fineIntervalMs => ["sample","fine_interval_ms"]
  | .deepFineIntervalMs => ["sample","deep_fine_interval_ms"]
  | .deepDumpIntervalMs => ["sample","deep_dump_interval_ms"]
  | .profileFreqHz => ["sample","profile_freq_hz"]
  | .offcpuSampleRate => ["sample","offcpu_sample_rate"]
  | .iofileSampleRate => ["sample","iofile_sample_rate"]
  | .overheadIntervalMs => ["sample","overhead_interval_ms"]
  | .preAnomalySeconds => ["window","pre_anomaly_seconds"]
  | .postAnomalySeconds => ["window","post_anomaly_seconds"]
  | .ringBacklogSeconds => ["window","ring_backlog_seconds"]
  | .endDebounceSamples => ["window","end_debounce_samples"]
  | .endGraceSeconds => ["window","end_grace_seconds"]
  | .maxTargets => ["targets","max_targets"]
  | .autoScale => ["targets","auto_scale"]
  | .minTargets => ["targets","min_targets"]
  | .perProcThreads => ["targets","per_proc_threads"]
  | .concurrencyFactor => ["targets","concurrency_factor"]
  | .evalIntervalMs => ["targets","eval_interval_ms"]
  | .windowSeconds => ["targets","window_seconds"]
  | .enterRank => ["targets","enter_rank"]
  | .leaveRank => ["targets","leave_rank"]
  | .holdPeriods => ["targets","hold_periods"]
  | .minResidencySeconds => ["targets","min_residency_seconds"]
  | .pinned => ["targets","pinned"]
  | .weightCpu => ["targets","weights","cpu"]
  | .weightSwitch => ["targets","weights","switch"]
  | .weightIo => ["targets","weights","io"]
  | .weightFault => ["targets","weights","fault"]
  | .weightLock => ["targets","weights","lock"]
  | .anomalyUrl => ["model","anomaly","url"]
  | .anomalyTimeoutMs => ["model","anomaly","timeout_ms"]
  | .causalUrl => ["model","causal","url"]
  | .causalTimeoutMs => ["model","causal","timeout_ms"]
  | .adapter => ["model","adapter"]
  | .outputDir => ["output","dir"]
  | .metricsFormat => ["output","metrics_format"]
  | .profileFormat => ["output","profile_format"]
  | .logLevel => ["misc","log_level"]
  | .categories => ["misc","categories"]
  | .pidFilter => ["misc","pid_filter"]
  | .enableBpfStats => ["misc","enable_bpf_stats"]
  | .networkEnabled => ["devices","network_enabled"]
  | .deepNetworkEnabled => ["devices","deep_network_enabled"]
  | .gpuSource => ["devices","gpu_source"]
  | .deepGpuEnabled => ["devices","deep_gpu_enabled"]
  | .deepGpuIntervalMs => ["devices","deep_gpu_interval_ms"]
  | .netEventSampleRate => ["devices","net_event_sample_rate"]

def Key.env : Key → String
  | .baseHostIntervalMs => "ETRACE_DIAG_SAMPLE_BASE_HOST_INTERVAL_MS"
  | .baseFeatureIntervalMs => "ETRACE_DIAG_SAMPLE_BASE_FEATURE_INTERVAL_MS"
  | .fineIntervalMs => "ETRACE_DIAG_SAMPLE_FINE_INTERVAL_MS"
  | .deepFineIntervalMs => "ETRACE_DIAG_SAMPLE_DEEP_FINE_INTERVAL_MS"
  | .deepDumpIntervalMs => "ETRACE_DIAG_SAMPLE_DEEP_DUMP_INTERVAL_MS"
  | .profileFreqHz => "ETRACE_DIAG_SAMPLE_PROFILE_FREQ_HZ"
  | .offcpuSampleRate => "ETRACE_DIAG_SAMPLE_OFFCPU_SAMPLE_RATE"
  | .iofileSampleRate => "ETRACE_DIAG_SAMPLE_IOFILE_SAMPLE_RATE"
  | .overheadIntervalMs => "ETRACE_DIAG_SAMPLE_OVERHEAD_INTERVAL_MS"
  | .preAnomalySeconds => "ETRACE_DIAG_WINDOW_PRE_ANOMALY_SECONDS"
  | .postAnomalySeconds => "ETRACE_DIAG_WINDOW_POST_ANOMALY_SECONDS"
  | .ringBacklogSeconds => "ETRACE_DIAG_WINDOW_RING_BACKLOG_SECONDS"
  | .endDebounceSamples => "ETRACE_DIAG_WINDOW_END_DEBOUNCE_SAMPLES"
  | .endGraceSeconds => "ETRACE_DIAG_WINDOW_END_GRACE_SECONDS"
  | .maxTargets => "ETRACE_DIAG_TARGETS_MAX_TARGETS"
  | .autoScale => "ETRACE_DIAG_TARGETS_AUTO_SCALE"
  | .minTargets => "ETRACE_DIAG_TARGETS_MIN_TARGETS"
  | .perProcThreads => "ETRACE_DIAG_TARGETS_PER_PROC_THREADS"
  | .concurrencyFactor => "ETRACE_DIAG_TARGETS_CONCURRENCY_FACTOR"
  | .evalIntervalMs => "ETRACE_DIAG_TARGETS_EVAL_INTERVAL_MS"
  | .windowSeconds => "ETRACE_DIAG_TARGETS_WINDOW_SECONDS"
  | .enterRank => "ETRACE_DIAG_TARGETS_ENTER_RANK"
  | .leaveRank => "ETRACE_DIAG_TARGETS_LEAVE_RANK"
  | .holdPeriods => "ETRACE_DIAG_TARGETS_HOLD_PERIODS"
  | .minResidencySeconds => "ETRACE_DIAG_TARGETS_MIN_RESIDENCY_SECONDS"
  | .pinned => "ETRACE_DIAG_TARGETS_PINNED"
  | .weightCpu => "ETRACE_DIAG_TARGETS_WEIGHT_CPU"
  | .weightSwitch => "ETRACE_DIAG_TARGETS_WEIGHT_SWITCH"
  | .weightIo => "ETRACE_DIAG_TARGETS_WEIGHT_IO"
  | .weightFault => "ETRACE_DIAG_TARGETS_WEIGHT_FAULT"
  | .weightLock => "ETRACE_DIAG_TARGETS_WEIGHT_LOCK"
  | .anomalyUrl => "ETRACE_DIAG_MODEL_ANOMALY_URL"
  | .anomalyTimeoutMs => "ETRACE_DIAG_MODEL_ANOMALY_TIMEOUT_MS"
  | .causalUrl => "ETRACE_DIAG_MODEL_CAUSAL_URL"
  | .causalTimeoutMs => "ETRACE_DIAG_MODEL_CAUSAL_TIMEOUT_MS"
  | .adapter => "ETRACE_DIAG_MODEL_ADAPTER"
  | .outputDir => "ETRACE_DIAG_OUTPUT_DIR"
  | .metricsFormat => "ETRACE_DIAG_OUTPUT_METRICS_FORMAT"
  | .profileFormat => "ETRACE_DIAG_OUTPUT_PROFILE_FORMAT"
  | .logLevel => "ETRACE_DIAG_MISC_LOG_LEVEL"
  | .categories => "ETRACE_DIAG_MISC_CATEGORIES"
  | .pidFilter => "ETRACE_DIAG_MISC_PID_FILTER"
  | .enableBpfStats => "ETRACE_DIAG_MISC_ENABLE_BPF_STATS"
  | .networkEnabled => "ETRACE_DIAG_DEVICES_NETWORK_ENABLED"
  | .deepNetworkEnabled => "ETRACE_DIAG_DEVICES_DEEP_NETWORK_ENABLED"
  | .gpuSource => "ETRACE_DIAG_DEVICES_GPU_SOURCE"
  | .deepGpuEnabled => "ETRACE_DIAG_DEVICES_DEEP_GPU_ENABLED"
  | .deepGpuIntervalMs => "ETRACE_DIAG_DEVICES_DEEP_GPU_INTERVAL_MS"
  | .netEventSampleRate => "ETRACE_DIAG_DEVICES_NET_EVENT_SAMPLE_RATE"

abbrev Config (F : Type) := (k : Key) → k.kind.Val F

section Sources

variable {F : Type} [Double F]

/-- The initialisers of the members. -/
def initialised : Config F
  | .baseHostIntervalMs => (1000 : UInt64)
  | .baseFeatureIntervalMs => (1000 : UInt64)
  | .fineIntervalMs => (100 : UInt64)
  | .deepFineIntervalMs => (20 : UInt64)
  | .deepDumpIntervalMs => (1000 : UInt64)
  | .profileFreqHz => (99 : UInt64)
  | .offcpuSampleRate => (16 : UInt32)
  | .iofileSampleRate => (4 : UInt32)
  | .overheadIntervalMs => (1000 : UInt64)
  | .preAnomalySeconds => (60 : UInt64)
  | .postAnomalySeconds => (180 : UInt64)
  | .ringBacklogSeconds => (90 : UInt64)
  | .endDebounceSamples => (3 : UInt32)
  | .endGraceSeconds => (5 : UInt64)
  | .maxTargets => (64 : UInt32)
  | .autoScale => true
  | .minTargets => (4 : UInt32)
  | .perProcThreads => (4 : UInt32)
  | .concurrencyFactor => Double.lit 20 1
  | .evalIntervalMs => (5000 : UInt64)
  | .windowSeconds => (30 : UInt64)
  | .enterRank => (12 : UInt32)
  | .leaveRank => (20 : UInt32)
  | .holdPeriods => (3 : UInt32)
  | .minResidencySeconds => (10 : UInt64)
  | .pinned => ([] : List UInt32)
  | .weightCpu => Double.lit 35 2
  | .weightSwitch => Double.lit 15 2
  | .weightIo => Double.lit 20 2
  | .weightFault => Double.lit 15 2
  | .weightLock => Double.lit 15 2
  | .anomalyUrl => "ws://127.0.0.1:9001/anomaly"
  | .anomalyTimeoutMs => (5000 : UInt64)
  | .causalUrl => "ws://127.0.0.1:9002/causal"
  | .causalTimeoutMs => (30000 : UInt64)
  | .adapter => "ws"
  | .outputDir => ""
  | .metricsFormat => "jsonl"
  | .profileFormat => "folded"
  | .logLevel => "info"
  | .categories => ["cpu","io","memory","lock","syscall"]
  | .pidFilter => (0 : UInt64)
  | .enableBpfStats => true
  | .networkEnabled => true
  | .deepNetworkEnabled => true
  | .gpuSource => "auto"
  | .deepGpuEnabled => true
  | .deepGpuIntervalMs => (100 : UInt64)
  | .netEventSampleRate => (16 : UInt32)

/-- `DefaultConfig`. -/
def defaultConfig : Config F := Function.update initialised .outputDir "out"

/-! ## Sanitize -/

def clamp {α : Type} [LT α] [DecidableLT α] (lo hi v : α) : α :=
  if v < lo then lo else if hi < v then hi else v

def maxTargets (c : Config F) : UInt32 := clamp 1 1024 (c .maxTargets)

def enterRank (c : Config F) : UInt32 := clamp 1 1024 (c .enterRank)

/-- `Sanitize` of one key; two of the bounds are other keys that have been sanitized. -/
def sanitizeKey (c : Config F) : (k : Key) → k.kind.Val F → k.kind.Val F
  | .baseHostIntervalMs => clamp (100 : UInt64) 60000
  | .baseFeatureIntervalMs => clamp (100 : UInt64) 60000
  | .fineIntervalMs => clamp (10 : UInt64) 5000
  | .deepFineIntervalMs => clamp (5 : UInt64) 1000
  | .deepDumpIntervalMs => clamp (100 : UInt64) 60000
  | .profileFreqHz => clamp (1 : UInt64) 10000
  | .offcpuSampleRate => clamp (1 : UInt32) 100000
  | .iofileSampleRate => clamp (1 : UInt32) 1000000
  | .overheadIntervalMs => clamp (100 : UInt64) 60000
  | .preAnomalySeconds => clamp (1 : UInt64) 3600
  | .postAnomalySeconds => clamp (1 : UInt64) 3600
  | .ringBacklogSeconds => clamp (1 : UInt64) 3600
  | .endDebounceSamples => clamp (1 : UInt32) 1000
  | .endGraceSeconds => clamp (0 : UInt64) 3600
  | .maxTargets => clamp (1 : UInt32) 1024
  | .minTargets => clamp 1 (maxTargets c)
  | .perProcThreads => clamp (1 : UInt32) 256
  | .concurrencyFactor => clamp (Double.lit 5 1) (Double.lit 64 0)
  | .evalIntervalMs => clamp (1000 : UInt64) 3600000
  | .windowSeconds => clamp (1 : UInt64) 3600
  | .enterRank => clamp (1 : UInt32) 1024
  | .leaveRank => clamp (enterRank c) 4096
  | .holdPeriods => clamp (1 : UInt32) 1000
  | .minResidencySeconds => clamp (0 : UInt64) 36000
  | .weightCpu => clamp (Double.lit 0 0) (Double.lit 1 0)
  | .weightSwitch => clamp (Double.lit 0 0) (Double.lit 1 0)
  | .weightIo => clamp (Double.lit 0 0) (Double.lit 1 0)
  | .weightFault => clamp (Double.lit 0 0) (Double.lit 1 0)
  | .weightLock => clamp (Double.lit 0 0) (Double.lit 1 0)
  | .adapter => fun v => if v ≠ "ws" ∧ v ≠ "onnx" then "ws" else v
  | .outputDir => fun v => if v = "" then "out" else v
  | .gpuSource => fun v =>
    if v ≠ "auto" ∧ v ≠ "off" ∧ v ≠ "nvml" ∧ v ≠ "drm" then "auto" else v
  | .deepGpuIntervalMs => clamp (10 : UInt64) 5000
  | .netEventSampleRate => clamp (1 : UInt32) 100000
  | _ => id

def sanitize (c : Config F) : Config F := fun k => sanitizeKey c k (c k)

/-! ## The file -/

def toJson (c : Config F) : JsonValue F :=
  let j := fun k => Kind.encode (c k)
  .obj
    [("sample",.obj
       [("base_host_interval_ms",j .baseHostIntervalMs),
        ("base_feature_interval_ms",j .baseFeatureIntervalMs),
        ("fine_interval_ms",j .fineIntervalMs),("deep_fine_interval_ms",j .deepFineIntervalMs),
        ("deep_dump_interval_ms",j .deepDumpIntervalMs),("profile_freq_hz",j .profileFreqHz),
        ("offcpu_sample_rate",j .offcpuSampleRate),("iofile_sample_rate",j .iofileSampleRate),
        ("overhead_interval_ms",j .overheadIntervalMs)]),
     ("window",.obj
       [("pre_anomaly_seconds",j .preAnomalySeconds),
        ("post_anomaly_seconds",j .postAnomalySeconds),
        ("ring_backlog_seconds",j .ringBacklogSeconds),
        ("end_debounce_samples",j .endDebounceSamples),("end_grace_seconds",j .endGraceSeconds)]),
     ("targets",.obj
       [("max_targets",j .maxTargets),("auto_scale",j .autoScale),("min_targets",j .minTargets),
        ("per_proc_threads",j .perProcThreads),("concurrency_factor",j .concurrencyFactor),
        ("eval_interval_ms",j .evalIntervalMs),("window_seconds",j .windowSeconds),
        ("enter_rank",j .enterRank),("leave_rank",j .leaveRank),("hold_periods",j .holdPeriods),
        ("min_residency_seconds",j .minResidencySeconds),("pinned",j .pinned),
        ("weights",.obj
          [("cpu",j .weightCpu),("switch",j .weightSwitch),("io",j .weightIo),
           ("fault",j .weightFault),("lock",j .weightLock)])]),
     ("model",.obj
       [("anomaly",.obj
          [("url",j .anomalyUrl),("timeout_ms",j .anomalyTimeoutMs)]),
        ("causal",.obj
          [("url",j .causalUrl),("timeout_ms",j .causalTimeoutMs)]),
        ("adapter",j .adapter)]),
     ("output",.obj
       [("dir",j .outputDir),("metrics_format",j .metricsFormat),
        ("profile_format",j .profileFormat)]),
     ("misc",.obj
       [("log_level",j .logLevel),("categories",j .categories),("pid_filter",j .pidFilter),
        ("enable_bpf_stats",j .enableBpfStats)]),
     ("devices",.obj
       [("network_enabled",j .networkEnabled),("deep_network_enabled",j .deepNetworkEnabled),
        ("gpu_source",j .gpuSource),("deep_gpu_enabled",j .deepGpuEnabled),
        ("deep_gpu_interval_ms",j .deepGpuIntervalMs),
        ("net_event_sample_rate",j .netEventSampleRate)])]

/-- `if (s.contains(..)) c.. = s[..];` for one key. -/
def readKey (j : JsonValue F) (k : Key) (c : Config F) : Config F × Bool :=
  match at? k.path j with
  | none => (c,true)
  | some v =>
    match k.kind.decode v with
    | some x => (Function.update c k x,true)
    | none => (c,false)

/-- `from_json`; the first key that throws ends it. -/
def fromJson (j : JsonValue F) (c : Config F) : Config F × Bool :=
  assignAll (Key.all.map (readKey j)) c

/-- `MergeConfig`, or nothing when it throws. -/
def mergeConfig (base : Config F) (overlay : JsonValue F) : Option (Config F) :=
  let out := fromJson (mergePatch (toJson base) overlay) initialised
  if out.2 then some out.1 else none

/-! ## The environment and the command line -/

abbrev Environment := String → Option String

def envValue? (env : Environment) (k : Key) : Option (k.kind.Val F) :=
  (env k.env).bind k.kind.parse

def applyEnvOverrides (env : Environment) (c : Config F) : Config F :=
  fun k => (envValue? env k).getD (c k)

/-- Whether there is a `--config`, and the `--output-dir`. -/
structure CommandLine where
  config : Bool
  outputDir : String

def CommandLine.value? (cl : CommandLine) : (k : Key) → Option (k.kind.Val F)
  | .outputDir => if cl.outputDir = "" then none else some cl.outputDir
  | _ => none

def CommandLine.apply (cl : CommandLine) (c : Config F) : Config F :=
  fun k => (cl.value? k).getD (c k)

/-! ## Starting and reloading -/

/-- What the path of `--config` leads to. -/
inductive File (F : Type)
  | unreadable
  | invalid
  | json (j : JsonValue F)

/-- The JSON that can be read. -/
def File.json? : File F → Option (JsonValue F)
  | .json j => some j
  | _ => none

/-- What `main` starts the collector with, unless it ends before. -/
def start (cl : CommandLine) (env : Environment) (file : File F) : Option (Config F) :=
  let merged :=
    if cl.config then file.json?.bind (mergeConfig defaultConfig) else some defaultConfig
  merged.map fun c => sanitize (cl.apply (applyEnvOverrides env c))

/-- `ReloadConfig`. -/
def reload (cl : CommandLine) (env : Environment) (base : Config F) (file : File F) : Config F :=
  let c := if cl.config then (file.json?.bind (mergeConfig base)).getD base else base
  sanitize (applyEnvOverrides env c)

/-- The configuration in force after some reloads; all of them start from the first one. -/
def reloads (cl : CommandLine) (env : Environment) (initial : Config F) (files : List (File F)) :
    Config F := files.foldl (fun _ file => reload cl env initial file) initial

end Sources

end ConfigSources
end ETraceDiag
