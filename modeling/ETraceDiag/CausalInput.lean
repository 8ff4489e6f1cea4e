import Mathlib.Algebra.Field.Rat
import ETraceDiag.EvidenceStore
import ETraceDiag.PhaseManager
import ETraceDiag.PyValue
import ETraceDiag.TimeTable

/-!
# From the evidence bundle to the causal engine

The request that carries a bundle, `evidence_to_inputs` at the other end of the connection, and
the tables that the engine splits at the inject time.
-/

namespace ETraceDiag
namespace CausalInput

open JsonValue PyValue EvidenceStore SqlTable TimeTable

variable {F : Type}

/-! ## The request -/

/-- `evidence` in `FinalizeDeep`. -/
def evidenceBody (ctx : PhaseManager.CausalContext F) (ev : Evidence F) : JsonValue F :=
  .obj (ev.fields++
    [("anomaly_start_ts",.int ctx.anomalyStartTs),("anomaly_end_ts",.int ctx.anomalyEndTs),
      ("deep_ordinal",.int ctx.deepOrdinal),
      ("deep_indicators",.arr (ctx.deepIndicators.map fun i =>
        .obj [("type",.str i.type),("confidence",.float i.confidence)])),
      ("post_deadline_ts",.int ctx.postDeadlineTs)])

/-- `to_json` of a `CausalContext`. -/
def causalRequest (ctx : PhaseManager.CausalContext F) (ev : Evidence F) : JsonValue F :=
  .obj [("v",.int 2),("seq",.int ctx.seq),("window_start_ns",.int ctx.windowStartNs),
    ("window_end_ns",.int ctx.windowEndNs),("evidence",evidenceBody ctx ev)]

/-- The body that `ws_causal` hands on. -/
def requestBody [Python F] (msg : JsonValue F) : Except Raise (JsonValue F) := do
  let body ← pyGet "body" (.obj []) msg
  let evidence ← pyGet "evidence" body msg
  pure (pyOr evidence (.obj []))

/-! ## The contracts -/

inductive EntityType
  | host
  | device
  | cluster
  | pod
  | service
  | process
  | thread
  | function
  | syscall
  deriving DecidableEq,Repr

inductive Quality
  | observed
  | imputed
  | missing
  | stale
  | outOfOrder
  deriving DecidableEq,Repr

inductive WindowStatus
  | normal
  | anomaly
  | uncertain
  deriving DecidableEq,Repr

inductive Direction
  | up
  | down
  | variance
  | missing
  | stale
  | mixed
  deriving DecidableEq,Repr

/-- What `str.strip` removes. -/
def isSpace (c : Char) : Bool :=
  let n := c.toNat
  (9 ≤ n && n ≤ 13) || (28 ≤ n && n ≤ 32) || n = 0x85 || n = 0xa0 || n = 0x1680 ||
    (0x2000 ≤ n && n ≤ 0x200a) || n = 0x2028 || n = 0x2029 || n = 0x202f || n = 0x205f ||
    n = 0x3000

/-- A text that is more than white space. -/
structure Name where
  text : String
  nonempty : text.toList.all isSpace = false

structure TelemetryPoint (F : Type) where
  tsNs : ℕ
  entityId : String
  entityType : EntityType
  metricId : String
  value : F
  quality : Quality

def TelemetryPoint.key (p : TelemetryPoint F) : String × String × ℕ × Quality :=
  (p.entityId,p.metricId,p.tsNs,p.quality)

structure TelemetryFrame (F : Type) where
  points : List (TelemetryPoint F)
  ordered : points.Pairwise fun p q => p.tsNs ≤ q.tsNs
  unique : (points.map TelemetryPoint.key).Nodup

structure LogEvent where
  tsNs : ℕ
  entityId : String
  templateId : String

structure TraceSpan where
  traceId : Name
  spanId : Name
  serviceName : Name
  startTsNs : ℕ
  endTsNs : ℕ
  timeOrder : startTsNs ≤ endTsNs
  status : String

structure IncidentWindow (F : Type) where
  incidentId : String
  startTsNs : ℕ
  endTsNs : ℕ
  windowOrder : startTsNs ≤ endTsNs
  detectedAtNs : ℕ
  status : WindowStatus
  severity : F
  metricScores : List (String × F)
  directions : List (String × Direction)

/-- A validation error is a `ValueError`. -/
def nonneg (i : ℤ) : Except Raise ℕ := if 0 ≤ i then .ok i.toNat else .error .valueError

def name (text : String) : Except Raise Name :=
  if h : text.toList.all isSpace = false then .ok ⟨text,h⟩ else .error .valueError

def entityType : JsonValue F → Except Raise EntityType
  | .str "host" => .ok .host
  | .str "device" => .ok .device
  | .str "cluster" => .ok .cluster
  | .str "pod" => .ok .pod
  | .str "service" => .ok .service
  | .str "process" => .ok .process
  | .str "thread" => .ok .thread
  | .str "function" => .ok .function
  | .str "syscall" => .ok .syscall
  | _ => .error .valueError

/-- `_ordered_unique`. -/
def telemetryFrame (points : List (TelemetryPoint F)) : Except Raise (TelemetryFrame F) :=
  if h : points.Pairwise (fun p q => p.tsNs ≤ q.tsNs) ∧ (points.map TelemetryPoint.key).Nodup then
    .ok ⟨points,h.1,h.2⟩
  else .error .valueError

/-- A frame of sorted points can be built exactly when no point is told twice. -/
theorem telemetryFrame_ok_iff (points : List (TelemetryPoint F)) :
    (∃ f, telemetryFrame (points.mergeSort fun p q => p.tsNs ≤ q.tsNs) = .ok f) ↔
      (points.map TelemetryPoint.key).Nodup := by
  have hperm := List.mergeSort_perm points fun p q => decide (p.tsNs ≤ q.tsNs)
  have hsorted : (points.mergeSort fun p q => decide (p.tsNs ≤ q.tsNs)).Pairwise
      fun p q => p.tsNs ≤ q.tsNs := by
    have hs : (points.mergeSort fun p q => decide (p.tsNs ≤ q.tsNs)).Pairwise
        fun p q => decide (p.tsNs ≤ q.tsNs) = true := by
      refine List.pairwise_mergeSort (fun p q r hpq hqr => ?_) (fun p q => ?_) points
      · simp only [decide_eq_true_eq] at hpq hqr ⊢
        exact Nat.le_trans hpq hqr
      · simpa using Nat.le_total p.tsNs q.tsNs
    exact hs.imp fun h => of_decide_eq_true h
  rw [← (hperm.map TelemetryPoint.key).nodup_iff]
  unfold telemetryFrame
  split
  · next h => exact iff_of_true ⟨_,rfl⟩ h.2
  · next h => exact iff_of_false (fun hf => by cases hf.choose_spec) fun hn => h ⟨hsorted,hn⟩

/-! ## evidence_to_inputs -/

structure CausalInputs (F : Type) where
  frame : TelemetryFrame F
  logs : List LogEvent
  traces : List TraceSpan
  incident : Option (IncidentWindow F)

section Decoder

variable [Python F]

def telemetryPoint (row : JsonValue F) : Except Raise (TelemetryPoint F) := do
  let ts ← pyInt (← item "ts_ns" row)
  let entity ← item "entity" row
  let metric ← item "metric" row
  let value ← pyFloat (← item "value" row)
  let tsNs ← nonneg ts
  let type ← entityType (field "entity_type" (.str "process") row)
  pure { tsNs := tsNs, entityId := pyStr entity, entityType := type, metricId := pyStr metric,
         value := value, quality := .observed }

/-- A row that raises one of the three expected errors is skipped. -/
def pointOrSkip (row : JsonValue F) : Except Raise (Option (TelemetryPoint F)) :=
  match telemetryPoint row with
  | .ok p => .ok (some p)
  | .error e => if e ∈ [.keyError,.typeError,.valueError] then .ok none else .error e

def eventRows (kind : String) (body : JsonValue F) : Except Raise (List (JsonValue F)) := do
  let events ← pyGet "events" (.obj []) body
  let rows ← pyGet kind (.arr []) events
  let evs ← pyIter (pyOr rows (.arr []))
  pure (evs.filter isDict)

def oomTemplate (ev : JsonValue F) : String := "oom_"++pyStr (field "kind" (.str "event") ev)

def syscallTemplate (ev : JsonValue F) : String :=
  "syscall_"++pyStr (field "name" (.str "unknown") ev)

/-- The last component of the path. -/
def ioTemplate (ev : JsonValue F) : String :=
  let path := (pyStr (field "path" (.str "file") ev)).toList
  "io_"++String.ofList (path.reverse.takeWhile (· ≠ '/')).reverse

def logEvent (template : JsonValue F → String) (ev : JsonValue F) : Except Raise LogEvent := do
  let tsNs ← nonneg (← pyInt (field "ts_ns" (.int 0) ev))
  pure { tsNs := tsNs, entityId := pyStr (field "entity" (.str "host") ev),
         templateId := template ev }

def traceSpan (kind status : String) (ev : JsonValue F) : Except Raise TraceSpan := do
  let start ← pyInt (field "ts_ns" (.int 0) ev)
  let wait ← pyInt (pyOr (field "wait_ns" (field "dur_ns" (.int 0) ev) ev) (.int 0))
  let startTs ← nonneg start
  let traceId ← name ("deep-"++kind++"-"++toString start)
  let spanId ← name (pyStr (field "span_id" (.int start) ev))
  let serviceName ← name (pyStr (field "entity" (.str "host") ev))
  pure { traceId := traceId, spanId := spanId, serviceName := serviceName,
         startTsNs := startTs, endTsNs := startTs+wait.toNat,
         timeOrder := Nat.le_add_right startTs wait.toNat,
         status := if truthy (field "errors" (.int 0) ev) then "ERR" else status }

/-- The kinds of spans and the status of a span without errors. -/
def spanKinds : List (String × String) := [("runq","OK"),("lock","ERR"),("iofile","OK")]

variable [OfScientific F]

def metricScores (indicators : List (JsonValue F)) : Except Raise (List (String × F)) := do
  let scores ← (indicators.filter isDict).foldlM (fun d i => do
    let confidence ← pyFloat (field "confidence" (.float 0.9) i)
    pure (upsert (pyStr (field "type" (.str "cpu") i)) confidence (fun _ => confidence) d)) []
  pure (if scores.isEmpty then [("cpu",0.9)] else scores)

def incidentWindow (body : JsonValue F) : Except Raise (Option (IncidentWindow F)) := do
  let start ← pyInt (pyOr (← pyGet "anomaly_start_ts" (.int 0) body) (.int 0))
  let stop ← pyInt (pyOr (← pyGet "anomaly_end_ts" (.int 0) body) (.int 0))
  if h : start ≠ 0 ∧ stop ≠ 0 ∧ start ≤ stop then
    let indicators ← pyIter (pyOr (← pyGet "deep_indicators" (.arr []) body) (.arr []))
    let scores ← metricScores indicators
    if 0 ≤ start then
      pure (some
        { incidentId := "inc-"++toString start++"-"++toString stop++"-deep"
          startTsNs := start.toNat, endTsNs := stop.toNat
          windowOrder := Int.toNat_le_toNat h.2.2
          detectedAtNs := start.toNat, status := .anomaly, severity := 0.9
          metricScores := scores, directions := scores.map fun s => (s.1,.up) })
    else .error .valueError
  else pure none

def evidenceToInputs (body : JsonValue F) : Except Raise (CausalInputs F) := do
  let series ← pyIter (pyOr (← pyGet "series" (.arr []) body) (.arr []))
  let points ← (series.filter isDict).mapM pointOrSkip
  let oom ← (← eventRows "oom" body).mapM (logEvent oomTemplate)
  let syscall ← (← eventRows "syscall" body).mapM (logEvent syscallTemplate)
  let spans ← spanKinds.mapM fun k => do (← eventRows k.1 body).mapM (traceSpan k.1 k.2)
  let iofile ← (← eventRows "iofile" body).mapM (logEvent ioTemplate)
  let incident ← incidentWindow body
  let frame ← telemetryFrame ((points.filterMap id).mergeSort fun p q => p.tsNs ≤ q.tsNs)
  pure { frame := frame, logs := oom++syscall++iofile, traces := spans.flatten,
         incident := incident }

end Decoder

/-! ## The engine's tables -/

section Engine

variable [Zero F] [One F] [Add F]

def LogEvent.sec (l : LogEvent) : ℤ := (l.tsNs/1000000000 : ℕ)

def LogEvent.column (l : LogEvent) : String := l.entityId++"_"++l.templateId

def logsToTable (logs : List LogEvent) : Frame F :=
  let cols := logs.foldl (fun d l => upsert l.column [] (upsert l.sec 0 (·+1)) d) []
  let ordered := sortedSet (logs.map LogEvent.sec)
  { time := some ordered, cols := cols.map fun c => (c.1,TimeTable.column ordered id 0 c.2) }

def TraceSpan.sec (sp : TraceSpan) : ℤ := (sp.startTsNs/1000000000 : ℕ)

def TraceSpan.service (sp : TraceSpan) : String := sp.serviceName.text

def TraceSpan.failed (sp : TraceSpan) : F := if sp.status ∈ ["","OK","ok"] then 0 else 1

/-- The error table and the latency table. -/
def tracesToTables [Python F] (traces : List TraceSpan) : Frame F × Frame F :=
  let errCols : List (String × List (ℤ × F)) :=
    traces.foldl (fun d sp => upsert sp.service [] (upsert sp.sec 0 (·+sp.failed)) d) []
  let latCols : List (String × List (ℤ × List ℤ)) :=
    traces.foldl (fun d sp => upsert sp.service []
      (upsert sp.sec [] (·++[(sp.endTsNs-sp.startTsNs : ℤ)])) d) []
  let ordered := sortedSet (traces.map TraceSpan.sec)
  let svcs := sortedSet (errCols.map Prod.fst++latCols.map Prod.fst)
  ({ time := some ordered
     cols := svcs.map fun svc =>
      (svc++"_errors",TimeTable.column ordered id 0 ((errCols.lookup svc).getD [])) },
   { time := some ordered
     cols := svcs.map fun svc =>
      (svc++"_latency",TimeTable.column ordered Python.mean (Python.mean [0])
        ((latCols.lookup svc).getD [])) })

/-- A table before and after the inject time. -/
structure Parts (F : Type) where
  normal : Frame F
  anomal : Frame F

def split (injectNs : ℕ) (f : Frame F) : Parts F :=
  let injectS : ℤ := (injectNs/1000000000 : ℕ)
  { normal := f.restrict (· < injectS), anomal := f.restrict (injectS ≤ ·) }

variable [DecidableEq F]

def logParts (injectNs : ℕ) (logts : Frame F) : Parts F :=
  split injectNs logts.dropConstant.timed

/-- Without spans there are no trace tables; the normal errors lose two rows. -/
def traceParts (injectNs : ℕ) (tables : Frame F × Frame F) : Option (Parts F × Parts F) :=
  if tables.1.length = 0 ∨ tables.2.length = 0 then none
  else
    let te := split injectNs tables.1.dropConstant.timed
    let tl := split injectNs tables.2.dropConstant.timed
    some ({ te with normal := if 2 < te.normal.length then te.normal.dropLastTwo else te.normal },
      tl)

end Engine

/-! ## What a DEEP row becomes -/

/-- The tables that an episode leaves rows in. -/
inductive DeepKind
  | syscall
  | lock
  | runq
  | iofile
  deriving DecidableEq,Repr

def DeepKind.name : DeepKind → String
  | .syscall => "syscall"
  | .lock => "lock"
  | .runq => "runq"
  | .iofile => "iofile"

/-- The rows of an episode and the objects made of them. -/
def DeepKind.table [Double F] (n : Int32) (db : Db F) : DeepKind → List (Row F)
  | .syscall => ofOrdinal n db.deepSyscall
  | .lock => ofOrdinal n db.deepLock
  | .runq => ofOrdinal n db.deepRunq
  | .iofile => ofOrdinal n db.deepIofile

def DeepKind.events (ev : Evidence F) : DeepKind → List (JsonValue F)
  | .syscall => ev.syscall
  | .lock => ev.lock
  | .runq => ev.runq
  | .iofile => ev.iofile

/-- The log event that an object becomes. -/
def DeepKind.log [Python F] (e : JsonValue F) : DeepKind → Option (Except Raise LogEvent)
  | .syscall => some (logEvent syscallTemplate e)
  | .iofile => some (logEvent ioTemplate e)
  | _ => none

/-- The span that an object becomes. -/
def DeepKind.span [Python F] (e : JsonValue F) : DeepKind → Option (Except Raise TraceSpan)
  | .syscall => none
  | .lock => some (traceSpan "lock" "ERR" e)
  | .runq => some (traceSpan "runq" "OK" e)
  | .iofile => some (traceSpan "iofile" "OK" e)

/-- In the part after the inject time and not in the part before it. -/
def Parts.Counted (p : Parts F) (sec : ℤ) (col : String) : Prop :=
  p.anomal.HasCell sec col ∧ ¬ p.normal.HasCell sec col

variable [Python F] [Zero F] [One F] [Add F]

def LogReaches (k : DeepKind) (e : JsonValue F) (inputs : CausalInputs F) (injectNs : ℕ) : Prop :=
  ∃ log ∈ inputs.logs, k.log e = some (.ok log) ∧ injectNs ≤ log.tsNs ∧
    (split injectNs (logsToTable inputs.logs : Frame F)).Counted log.sec log.column

def SpanReaches (k : DeepKind) (e : JsonValue F) (inputs : CausalInputs F) (injectNs : ℕ) : Prop :=
  ∃ sp ∈ inputs.traces, k.span e = some (.ok sp) ∧ injectNs ≤ sp.startTsNs ∧
    (split injectNs (tracesToTables inputs.traces : Frame F × Frame F).1).Counted sp.sec
      (sp.service++"_errors") ∧
    (split injectNs (tracesToTables inputs.traces : Frame F × Frame F).2).Counted sp.sec
      (sp.service++"_latency")

/-- An object of the request becomes an event after the onset. -/
def Reached [OfScientific F] (msg : JsonValue F) (k : DeepKind) (e : JsonValue F) : Prop :=
  ∃ inputs inc, (requestBody msg >>= evidenceToInputs) = .ok inputs ∧ inputs.incident = some inc ∧
    (LogReaches k e inputs inc.startTsNs ∨ SpanReaches k e inputs inc.startTsNs)

/-- Every row of the episode reaches the diagnosis. -/
def EvidenceReaches [OfScientific F] (ctx : PhaseManager.CausalContext F) (ev : Evidence F) :
    Prop :=
  ∀ k, ∀ e ∈ DeepKind.events ev k,
    Reached (wire Python.finite (causalRequest ctx ev)) k (wire Python.finite e)

theorem nonneg_eq_ok {i : ℤ} {n : ℕ} (h : nonneg i = .ok n) : i = n := by
  unfold nonneg at h
  split at h
  · rw [← Except.ok.inj h]
    omega
  · cases h

omit [Zero F] [One F] [Add F] in
/-- The time of an event is the object's `ts_ns`, or 0. -/
theorem logEvent_ts {template : JsonValue F → String} {e : JsonValue F} {log : LogEvent}
    (h : logEvent template e = .ok log) : pyInt (field "ts_ns" (.int 0) e) = .ok log.tsNs := by
  obtain ⟨i,hi,h⟩ := bind_eq_ok h
  obtain ⟨n,hn,h⟩ := bind_eq_ok h
  rw [hi,nonneg_eq_ok hn,← Except.ok.inj h]

omit [Zero F] [One F] [Add F] in
theorem traceSpan_ts {kind status : String} {e : JsonValue F} {sp : TraceSpan}
    (h : traceSpan kind status e = .ok sp) :
    pyInt (field "ts_ns" (.int 0) e) = .ok sp.startTsNs := by
  obtain ⟨start,hstart,h⟩ := bind_eq_ok h
  obtain ⟨wait,-,h⟩ := bind_eq_ok h
  obtain ⟨n,hn,h⟩ := bind_eq_ok h
  obtain ⟨traceId,-,h⟩ := bind_eq_ok h
  obtain ⟨spanId,-,h⟩ := bind_eq_ok h
  obtain ⟨serviceName,-,h⟩ := bind_eq_ok h
  rw [hstart,nonneg_eq_ok hn,← Except.ok.inj h]

omit [Zero F] [One F] [Add F] in
theorem incidentWindow_pos [OfScientific F] {body : JsonValue F} {inc : IncidentWindow F}
    (h : incidentWindow body = .ok (some inc)) : 0 < inc.startTsNs := by
  unfold incidentWindow at h
  obtain ⟨start,-,h⟩ := bind_eq_ok h
  obtain ⟨start,-,h⟩ := bind_eq_ok h
  obtain ⟨stop,-,h⟩ := bind_eq_ok h
  obtain ⟨stop,-,h⟩ := bind_eq_ok h
  split at h
  · next hwindow =>
    obtain ⟨indicators,-,h⟩ := bind_eq_ok h
    obtain ⟨indicators,-,h⟩ := bind_eq_ok h
    obtain ⟨scores,-,h⟩ := bind_eq_ok h
    split at h
    · next hstart =>
      rw [← Option.some.inj (Except.ok.inj h)]
      show 0 < start.toNat
      omega
    · cases h
  · cases h

omit [Zero F] [One F] [Add F] in
theorem evidenceToInputs_incident [OfScientific F] {body : JsonValue F} {inputs : CausalInputs F}
    (h : evidenceToInputs body = .ok inputs) : incidentWindow body = .ok inputs.incident := by
  unfold evidenceToInputs at h
  obtain ⟨series,-,h⟩ := bind_eq_ok h
  obtain ⟨series,-,h⟩ := bind_eq_ok h
  obtain ⟨points,-,h⟩ := bind_eq_ok h
  obtain ⟨oom,-,h⟩ := bind_eq_ok h
  obtain ⟨oom,-,h⟩ := bind_eq_ok h
  obtain ⟨syscall,-,h⟩ := bind_eq_ok h
  obtain ⟨syscall,-,h⟩ := bind_eq_ok h
  obtain ⟨spans,-,h⟩ := bind_eq_ok h
  obtain ⟨iofile,-,h⟩ := bind_eq_ok h
  obtain ⟨iofile,-,h⟩ := bind_eq_ok h
  obtain ⟨incident,hincident,h⟩ := bind_eq_ok h
  obtain ⟨frame,-,h⟩ := bind_eq_ok h
  rw [hincident,← Except.ok.inj h]

omit [Zero F] [One F] [Add F] in
theorem pyInt_ts_zero {e : JsonValue F} (hts : get? "ts_ns" e = none) :
    pyInt (field "ts_ns" (.int 0) e) = .ok 0 := by
  simp only [field,hts]
  rfl

omit [Zero F] [One F] [Add F] in
theorem DeepKind.log_ts {k : DeepKind} {e : JsonValue F} {log : LogEvent}
    (hts : get? "ts_ns" e = none) (h : k.log e = some (.ok log)) : log.tsNs = 0 := by
  have hlog : pyInt (field "ts_ns" (.int 0) e) = .ok log.tsNs := by
    cases k with
    | syscall => exact logEvent_ts (Option.some.inj h)
    | iofile => exact logEvent_ts (Option.some.inj h)
    | lock => cases h
    | runq => cases h
  rw [pyInt_ts_zero hts] at hlog
  exact (Int.ofNat.inj (Except.ok.inj hlog)).symm

omit [Zero F] [One F] [Add F] in
theorem DeepKind.span_ts {k : DeepKind} {e : JsonValue F} {sp : TraceSpan}
    (hts : get? "ts_ns" e = none) (h : k.span e = some (.ok sp)) : sp.startTsNs = 0 := by
  have hspan : pyInt (field "ts_ns" (.int 0) e) = .ok sp.startTsNs := by
    cases k with
    | syscall => cases h
    | lock => exact traceSpan_ts (Option.some.inj h)
    | runq => exact traceSpan_ts (Option.some.inj h)
    | iofile => exact traceSpan_ts (Option.some.inj h)
  rw [pyInt_ts_zero hts] at hspan
  exact (Int.ofNat.inj (Except.ok.inj hspan)).symm

omit [Python F] [Zero F] [One F] [Add F] in
/-- `BuildEvidence` gives no time to the rows of an episode. -/
theorem DeepKind.events_ts [Micros F] (n : Int32) (db : Db F) {k : DeepKind} {e : JsonValue F}
    (he : e ∈ k.events (buildEvidence db n)) : get? "ts_ns" e = none := by
  cases k <;>
  · obtain ⟨row,-,rfl⟩ := List.mem_map.mp he
    rfl

omit [Python F] [Zero F] [One F] [Add F] in
theorem DeepKind.events_eq_nil [Micros F] (n : Int32) (db : Db F) (k : DeepKind) :
    k.events (buildEvidence db n) = [] ↔ k.table n db = [] := by
  cases k <;> exact List.map_eq_nil_iff

/-- An object without a time is no event after the onset, whatever the request says. -/
theorem not_reached [OfScientific F] {msg : JsonValue F} {k : DeepKind} {e : JsonValue F}
    (hts : get? "ts_ns" e = none) : ¬ Reached msg k e := by
  rintro ⟨inputs,inc,hinputs,hinc,hreach⟩
  obtain ⟨body,-,hbody⟩ := bind_eq_ok hinputs
  have hpos : 0 < inc.startTsNs := by
    have hwindow := evidenceToInputs_incident hbody
    rw [hinc] at hwindow
    exact incidentWindow_pos hwindow
  rcases hreach with ⟨log,-,hlog,honset,-⟩ | ⟨sp,-,hsp,honset,-⟩
  · have hzero := DeepKind.log_ts hts hlog
    omega
  · have hzero := DeepKind.span_ts hts hsp
    omega

omit [Zero F] [One F] [Add F] in
theorem wire_events_ts [Micros F] (n : Int32) (db : Db F) {k : DeepKind} {e : JsonValue F}
    (he : e ∈ k.events (buildEvidence db n)) :
    get? "ts_ns" (wire Python.finite e) = none := by
  rw [get?_wire,DeepKind.events_ts n db he]
  rfl

/-! ## The split at the inject time -/

omit [Python F] [Zero F] [One F] [Add F] in
theorem split_counted_iff {injectNs : ℕ} {f : Frame F} {sec : ℤ} {col : String}
    (h : f.HasCell sec col) :
    (split injectNs f).Counted sec col ↔ ((injectNs/1000000000 : ℕ) : ℤ) ≤ sec := by
  simp only [Parts.Counted,split,hasCell_restrict,h,true_and,decide_eq_true_eq,not_lt,and_self]

omit [Python F] in
theorem hasCell_logsToTable {logs : List LogEvent} {log : LogEvent} (h : log ∈ logs) :
    (logsToTable logs : Frame F).HasCell log.sec log.column := by
  refine ⟨⟨_,rfl,mem_sortedSet.mpr (List.mem_map_of_mem h)⟩,?_⟩
  have hcols : (logsToTable logs : Frame F).cols.map Prod.fst =
      (logs.foldl (fun d l => upsert l.column [] (upsert l.sec (0 : F) (·+1)) d) []).map Prod.fst := by
    simp [logsToTable]
  rw [hcols,mem_keys_foldl_upsert]
  exact Or.inl (List.mem_map_of_mem h)

theorem hasCell_tracesToTables {traces : List TraceSpan} {sp : TraceSpan} (h : sp ∈ traces) :
    (tracesToTables traces : Frame F × Frame F).1.HasCell sp.sec (sp.service++"_errors") ∧
      (tracesToTables traces : Frame F × Frame F).2.HasCell sp.sec (sp.service++"_latency") := by
  have htime := mem_sortedSet.mpr (List.mem_map_of_mem (f:=TraceSpan.sec) h)
  have hsvc : sp.service ∈ sortedSet
      ((traces.foldl (fun d sp => upsert sp.service []
        (upsert sp.sec (0 : F) (·+sp.failed)) d) []).map Prod.fst++
      (traces.foldl (fun d sp => upsert sp.service []
        (upsert sp.sec [] (·++[(sp.endTsNs-sp.startTsNs : ℤ)])) d) []).map Prod.fst) := by
    rw [mem_sortedSet,List.mem_append,mem_keys_foldl_upsert]
    exact Or.inl (Or.inl (List.mem_map_of_mem h))
  refine ⟨⟨⟨_,rfl,htime⟩,?_⟩,⟨_,rfl,htime⟩,?_⟩
  · rw [tracesToTables,List.map_map]
    exact List.mem_map.mpr ⟨sp.service,hsvc,rfl⟩
  · rw [tracesToTables,List.map_map]
    exact List.mem_map.mpr ⟨sp.service,hsvc,rfl⟩

omit [Python F] in
/-- An event with the right time is counted on the right side. -/
theorem log_counted {logs : List LogEvent} {log : LogEvent} (h : log ∈ logs) {injectNs : ℕ}
    (honset : injectNs ≤ log.tsNs) :
    (split injectNs (logsToTable logs : Frame F)).Counted log.sec log.column := by
  rw [split_counted_iff (hasCell_logsToTable h),LogEvent.sec,Int.ofNat_le]
  exact Nat.div_le_div_right honset

theorem span_counted {traces : List TraceSpan} {sp : TraceSpan} (h : sp ∈ traces) {injectNs : ℕ}
    (honset : injectNs ≤ sp.startTsNs) :
    (split injectNs (tracesToTables traces : Frame F × Frame F).1).Counted sp.sec
        (sp.service++"_errors") ∧
      (split injectNs (tracesToTables traces : Frame F × Frame F).2).Counted sp.sec
        (sp.service++"_latency") := by
  have hsec : ((injectNs/1000000000 : ℕ) : ℤ) ≤ sp.sec := by
    rw [TraceSpan.sec,Int.ofNat_le]
    exact Nat.div_le_div_right honset
  have hcells := hasCell_tracesToTables (F:=F) h
  exact ⟨(split_counted_iff hcells.1).mpr hsec,(split_counted_iff hcells.2).mpr hsec⟩

omit [Python F] [Zero F] [One F] [Add F] in
/-- The engine's anomalous part has rows from the inject second on, and columns of the table. -/
theorem logParts_anomal [DecidableEq F] {injectNs : ℕ} {f : Frame F} {sec : ℤ} {col : String}
    (h : (logParts injectNs f).anomal.HasCell sec col) :
    f.HasCell sec col ∧ ((injectNs/1000000000 : ℕ) : ℤ) ≤ sec := by
  rw [logParts,split,hasCell_restrict] at h
  exact ⟨h.1.of_dropConstant,by simpa using h.2⟩

omit [Python F] [Zero F] [One F] [Add F] in
theorem traceParts_anomal [DecidableEq F] {injectNs : ℕ} {tables : Frame F × Frame F}
    {te tl : Parts F} (h : traceParts injectNs tables = some (te,tl)) {sec : ℤ} {col : String}
    (hcell : te.anomal.HasCell sec col ∨ tl.anomal.HasCell sec col) :
    ((injectNs/1000000000 : ℕ) : ℤ) ≤ sec := by
  unfold traceParts at h
  split at h
  · cases h
  · cases h
    rcases hcell with hcell | hcell
    · exact (logParts_anomal hcell).2
    · exact (logParts_anomal hcell).2

/-! ## Where the rows of an episode end up -/

omit [Zero F] [One F] [Add F] in
theorem requestBody_wire (ctx : PhaseManager.CausalContext F) (ev : Evidence F) :
    requestBody (wire Python.finite (causalRequest ctx ev)) =
      .ok (wire Python.finite (evidenceBody ctx ev)) := rfl

omit [Zero F] [One F] [Add F] in
theorem pyOr_arr (xs : List (JsonValue F)) : pyOr (.arr xs) (.arr []) = .arr xs := by
  cases xs <;> rfl

omit [Zero F] [One F] [Add F] in
theorem eventRows_wire (ctx : PhaseManager.CausalContext F) (ev : Evidence F) (k : DeepKind) :
    eventRows k.name (wire Python.finite (evidenceBody ctx ev)) =
      .ok (((k.events ev).map (wire Python.finite)).filter isDict) := by
  have hrows : eventRows k.name (wire Python.finite (evidenceBody ctx ev)) =
      (pyIter (pyOr (.arr (wireList Python.finite (k.events ev))) (.arr [])) >>=
        fun evs => pure (evs.filter isDict)) := by
    cases k <;> rfl
  rw [hrows,pyOr_arr,wireList_eq_map]
  rfl

omit [Zero F] [One F] [Add F] in
/-- Every object in the four lists becomes its events. -/
theorem evidenceToInputs_events [OfScientific F] {body : JsonValue F} {inputs : CausalInputs F}
    (h : evidenceToInputs body = .ok inputs) {k : DeepKind} {rows : List (JsonValue F)}
    (hrows : eventRows k.name body = .ok rows) {e : JsonValue F} (he : e ∈ rows) :
    (∀ r, k.log e = some r → ∃ log ∈ inputs.logs, r = .ok log) ∧
      ∀ r, k.span e = some r → ∃ sp ∈ inputs.traces, r = .ok sp := by
  unfold evidenceToInputs at h
  obtain ⟨_,-,h⟩ := bind_eq_ok h
  obtain ⟨_,-,h⟩ := bind_eq_ok h
  obtain ⟨_,-,h⟩ := bind_eq_ok h
  obtain ⟨_,-,h⟩ := bind_eq_ok h
  obtain ⟨oom,-,h⟩ := bind_eq_ok h
  obtain ⟨syscallRows,hsyscallRows,h⟩ := bind_eq_ok h
  obtain ⟨syscall,hsyscall,h⟩ := bind_eq_ok h
  obtain ⟨spans,hspans,h⟩ := bind_eq_ok h
  obtain ⟨iofileRows,hiofileRows,h⟩ := bind_eq_ok h
  obtain ⟨iofile,hiofile,h⟩ := bind_eq_ok h
  obtain ⟨_,-,h⟩ := bind_eq_ok h
  obtain ⟨_,-,h⟩ := bind_eq_ok h
  have hspan : ∀ kind status, (kind,status) ∈ spanKinds → eventRows kind body = .ok rows →
      ∃ sp ∈ spans.flatten, traceSpan kind status e = .ok sp := by
    intro kind status hkind hkindRows
    obtain ⟨kindSpans,hmem,hkindSpans⟩ := mem_of_mapM_ok _ hspans hkind
    rw [hkindRows] at hkindSpans
    obtain ⟨sp,hsp,heq⟩ := mem_of_mapM_ok rows hkindSpans he
    exact ⟨sp,List.mem_flatten.mpr ⟨kindSpans,hmem,hsp⟩,heq⟩
  rw [← Except.ok.inj h]
  cases k with
  | syscall =>
    rw [Except.ok.inj (hrows.symm.trans hsyscallRows)] at he
    obtain ⟨log,hlog,heq⟩ := mem_of_mapM_ok _ hsyscall he
    refine ⟨fun r hr => ⟨log,?_,?_⟩,fun r hr => (by cases hr)⟩
    · exact List.mem_append_left _ (List.mem_append_right _ hlog)
    · rw [← Option.some.inj hr,heq]
  | lock =>
    obtain ⟨sp,hsp,heq⟩ := hspan "lock" "ERR" (by simp [spanKinds]) hrows
    refine ⟨fun r hr => (by cases hr),fun r hr => ⟨sp,hsp,?_⟩⟩
    rw [← Option.some.inj hr,heq]
  | runq =>
    obtain ⟨sp,hsp,heq⟩ := hspan "runq" "OK" (by simp [spanKinds]) hrows
    refine ⟨fun r hr => (by cases hr),fun r hr => ⟨sp,hsp,?_⟩⟩
    rw [← Option.some.inj hr,heq]
  | iofile =>
    obtain ⟨sp,hsp,hspeq⟩ := hspan "iofile" "OK" (by simp [spanKinds]) hrows
    rw [Except.ok.inj (hrows.symm.trans hiofileRows)] at he
    obtain ⟨log,hlog,heq⟩ := mem_of_mapM_ok _ hiofile he
    refine ⟨fun r hr => ⟨log,List.mem_append_right _ hlog,?_⟩,fun r hr => ⟨sp,hsp,?_⟩⟩
    · rw [← Option.some.inj hr,heq]
    · rw [← Option.some.inj hr,hspeq]

omit [Python F] [Zero F] [One F] [Add F] in
theorem DeepKind.isDict_events [Micros F] (finite : F → Bool) (n : Int32) (db : Db F)
    {k : DeepKind} {e : JsonValue F} (he : e ∈ k.events (buildEvidence db n)) :
    isDict (wire finite e) = true := by
  cases k <;>
  · obtain ⟨row,-,rfl⟩ := List.mem_map.mp he
    rfl

/-- With an onset after the first second, what the rows become is counted as normal, and the
engine's anomalous parts have no row for it. -/
theorem deepEvents_normal [DecidableEq F] [Micros F] [OfScientific F] {db : Db F} {n : Int32}
    {ctx : PhaseManager.CausalContext F} {inputs : CausalInputs F}
    (h : (requestBody (wire Python.finite (causalRequest ctx (buildEvidence db n))) >>=
      evidenceToInputs) = .ok inputs) {injectNs : ℕ} (hinject : 1000000000 ≤ injectNs)
    {k : DeepKind} {e : JsonValue F} (he : e ∈ k.events (buildEvidence db n)) :
    (∀ r, k.log (wire Python.finite e) = some r → ∃ log ∈ inputs.logs, r = .ok log ∧
      (split injectNs (logsToTable inputs.logs : Frame F)).normal.HasCell log.sec log.column ∧
      ¬ (logParts injectNs (logsToTable inputs.logs : Frame F)).anomal.HasCell log.sec
        log.column) ∧
    ∀ r, k.span (wire Python.finite e) = some r → ∃ sp ∈ inputs.traces, r = .ok sp ∧
      (split injectNs (tracesToTables inputs.traces : Frame F × Frame F).1).normal.HasCell sp.sec
        (sp.service++"_errors") ∧
      (split injectNs (tracesToTables inputs.traces : Frame F × Frame F).2).normal.HasCell sp.sec
        (sp.service++"_latency") ∧
      ∀ te tl, traceParts injectNs (tracesToTables inputs.traces : Frame F × Frame F) =
        some (te,tl) → ∀ col, ¬ (te.anomal.HasCell sp.sec col ∨ tl.anomal.HasCell sp.sec col) := by
  have hbody : evidenceToInputs (wire Python.finite (evidenceBody ctx (buildEvidence db n))) =
      .ok inputs := by
    rw [requestBody_wire] at h
    exact h
  have hts := wire_events_ts (F:=F) n db he
  have hrow : wire Python.finite e ∈
      ((k.events (buildEvidence db n)).map (wire Python.finite)).filter isDict :=
    List.mem_filter.mpr ⟨List.mem_map_of_mem he,DeepKind.isDict_events _ n db he⟩
  have hevents := evidenceToInputs_events hbody (eventRows_wire ctx (buildEvidence db n) k) hrow
  have hpos : (0 : ℤ) < ((injectNs/1000000000 : ℕ) : ℤ) :=
    Int.ofNat_lt.mpr (Nat.div_pos hinject (by decide))
  refine ⟨fun r hr => ?_,fun r hr => ?_⟩
  · obtain ⟨log,hlog,rfl⟩ := hevents.1 r hr
    have hsec : log.sec = 0 := by rw [LogEvent.sec,DeepKind.log_ts hts hr]; rfl
    refine ⟨log,hlog,rfl,?_,fun hcell => ?_⟩
    · rw [split,hasCell_restrict]
      exact ⟨hasCell_logsToTable hlog,by simpa [hsec] using hpos⟩
    · have hlate := (logParts_anomal hcell).2
      omega
  · obtain ⟨sp,hsp,rfl⟩ := hevents.2 r hr
    have hsec : sp.sec = 0 := by rw [TraceSpan.sec,DeepKind.span_ts hts hr]; rfl
    have hcells := hasCell_tracesToTables (F:=F) hsp
    refine ⟨sp,hsp,rfl,?_,?_,fun te tl hparts col hcell => ?_⟩
    · rw [split,hasCell_restrict]
      exact ⟨hcells.1,by simpa [hsec] using hpos⟩
    · rw [split,hasCell_restrict]
      exact ⟨hcells.2,by simpa [hsec] using hpos⟩
    · have hlate := traceParts_anomal hparts hcell
      omega

/-! ## From the store to the diagnosis -/

/-- The rows of an episode reach the diagnosis only when there are none. -/
theorem evidenceReaches_iff [Micros F] [OfScientific F] (db : Db F)
    (ctx : PhaseManager.CausalContext F) :
    EvidenceReaches ctx (buildEvidence db (Int32.ofNat ctx.deepOrdinal)) ↔
      ∀ k : DeepKind, k.table (Int32.ofNat ctx.deepOrdinal) db = [] := by
  constructor
  · intro h k
    rw [← DeepKind.events_eq_nil,List.eq_nil_iff_forall_not_mem]
    intro e he
    exact not_reached (wire_events_ts _ db he) (h k e he)
  · intro h k e he
    rw [(DeepKind.events_eq_nil _ db k).mpr (h k)] at he
    cases he

instance : Python ℚ where
  finite _ := true
  isZero x := x = 0
  toInt x := .ok (x.num.tdiv x.den)
  ofInt i := .ok (mkRat i 1)
  parseInt s := s.toInt?
  parseFloat s := s.toInt?.map fun i => mkRat i 1
  mean xs := mkRat xs.sum xs.length
  repr _ := ""

/-- One thread spent its time in a system call. -/
def futexDb : Db ℚ := { deepSyscall := [syscallRow 1 ⟨4242,202,7,1200,1000,3000,0⟩] }

def futexContext : PhaseManager.CausalContext ℚ where
  seq := 1
  windowStartNs := 1040000000000
  windowEndNs := 1310000000000
  anomalyStartTs := 1100000000000
  anomalyEndTs := 1130000000000
  deepOrdinal := 1
  deepIndicators := [⟨"cpu",1⟩]
  postDeadlineTs := 1280000000000

theorem futexRow_not_reached :
    ¬ ∀ (db : Db ℚ) (ctx : PhaseManager.CausalContext ℚ),
      EvidenceReaches ctx (buildEvidence db (Int32.ofNat ctx.deepOrdinal)) := by
  intro h
  have hrow : syscallEvent (syscallRow 1 ⟨4242,202,7,1200,1000,3000,0⟩) ∈
      DeepKind.syscall.events (buildEvidence futexDb 1) := List.mem_singleton.mpr rfl
  exact not_reached (wire_events_ts 1 futexDb hrow) (h futexDb futexContext .syscall _ hrow)

end CausalInput
end ETraceDiag
