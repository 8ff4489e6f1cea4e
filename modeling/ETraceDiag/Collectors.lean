import ETraceDiag.CausalInput

/-!
# The collector adapters

`TracepointCollector`, `ProfileCollector` and `OTLPCollector` turn events, sampled stacks and
metric payloads into points and sort them into a frame. Events of other types than the seven,
which the loop skips, are left out.
-/

namespace ETraceDiag
namespace Collectors

open CausalInput PyValue TimeTable

variable {F : Type}

inductive Source
  | otlp
  | ebpf
  | profile
  deriving DecidableEq,Repr

/-- The value of a point and what is told beside it. -/
structure Observation (F : Type) where
  value : Option F
  unit : Option String
  source : Source
  sampleIntervalNs : Option ℤ := none
  attrs : List (String × String)

/-- The arguments of a point that is built; its quality is the default. -/
structure Reading (F : Type) where
  tsNs : ℤ
  entityId : String
  entityType : EntityType
  metricId : String
  observation : Observation F

inductive CollectError
  | permission (program detail : String)
  | unavailable (component detail : String)
  | invalid (e : Raise)
  deriving DecidableEq,Repr

/-- The bounds of a time and of an interval. -/
def Reading.Valid (r : Reading F) : Prop :=
  0 ≤ r.tsNs ∧ ∀ i ∈ r.observation.sampleIntervalNs, 0 < i

instance Reading.decidableValid (r : Reading F) : Decidable r.Valid :=
  inferInstanceAs (Decidable (_ ∧ ∀ i ∈ r.observation.sampleIntervalNs, 0 < i))

def telemetryPoint (r : Reading F) : Except Raise (TelemetryPoint (Observation F)) :=
  if r.Valid then
    .ok { tsNs := r.tsNs.toNat, entityId := r.entityId, entityType := r.entityType
          metricId := r.metricId, value := r.observation, quality := .observed }
  else .error .valueError

/-- `TelemetryFrame(points=tuple(sorted(points, key=lambda p: p.ts_ns)))`. -/
def frame (readings : List (Reading F)) : Except CollectError (TelemetryFrame (Observation F)) :=
  (readings.mapM telemetryPoint >>= fun points =>
    telemetryFrame (points.mergeSort fun p q => p.tsNs ≤ q.tsNs)).mapError .invalid

/-! ## Tracepoints -/

inductive Tracepoint
  | schedSwitch
  | futex
  | syscallEnter
  | blockRqIssue
  | blockRqComplete
  | irqSoftirq
  | hardirqEntry
  deriving DecidableEq,Repr

structure Event (F : Type) where
  type : Tracepoint := .schedSwitch
  tid : ℤ := 0
  dev : String := "0"
  name : String := "unknown"
  tsNs : ℤ := 0
  value : Option F
  deltaNs : Option F
  pid : ℤ := 0
  comm : String := ""
  state : String := ""

/-- `_MAP`, with the template of the entity filled in. -/
def Tracepoint.map (e : Event F) : Tracepoint → EntityType × String × String × String
  | .schedSwitch => (.thread,toString e.tid,"scheduler.off_cpu","ns")
  | .futex => (.thread,toString e.tid,"futex.wait_time","ns")
  | .syscallEnter => (.syscall,e.name,"syscall.count","1")
  | .blockRqIssue => (.device,e.dev,"block.issue","1")
  | .blockRqComplete => (.device,e.dev,"block.complete","1")
  | .irqSoftirq => (.thread,toString e.tid,"irq.softirq.duration","ns")
  | .hardirqEntry => (.thread,toString e.tid,"irq.hardirq.duration","ns")

def tracepointReading [One F] (tsBaseNs : ℤ) (e : Event F) : Reading F :=
  let m := e.type.map e
  { tsNs := tsBaseNs+e.tsNs, entityId := m.2.1, entityType := m.1, metricId := m.2.2.1
    observation :=
      { value := some ((e.value.or e.deltaNs).getD 1), unit := some m.2.2.2, source := .ebpf
        attrs := [("pid",toString e.pid),("tid",toString e.tid),("comm",e.comm),
          ("state",e.state)] } }

/-- The probe of the eBPF adapters. -/
structure Capability where
  available : Bool
  detail : String

/-- `a or b` of two texts. -/
def orText (a b : String) : String := if a = "" then b else a

/-- `TracepointCollector.collect`. -/
def collectTracepoints [One F] (cap : Capability) (tsBaseNs : ℤ) (events : List (Event F)) :
    Except CollectError (TelemetryFrame (Observation F)) :=
  if cap.available = false ∧ events = [] then
    .error (.permission "tracepoint" (orText cap.detail "no eBPF permission; replay required"))
  else frame (events.map (tracepointReading tsBaseNs))

/-! ## Profiles -/

structure StackFrame where
  symbol : String
  binary : String := ""
  buildId : String := ""

structure ProfileSample where
  tsNs : ℤ
  tid : ℤ
  pid : ℤ
  comm : String
  stack : List StackFrame

def profileReadings [One F] (intervalNs : ℤ) (s : ProfileSample) : List (Reading F) :=
  s.stack.mapIdx fun i f =>
    { tsNs := s.tsNs, entityId := "func:"++s.comm++":"++f.symbol, entityType := .function
      metricId := "profile.sample_count"
      observation :=
        { value := some 1, unit := some "count", source := .profile
          sampleIntervalNs := some intervalNs
          attrs := [("pid",toString s.pid),("tid",toString s.tid),("comm",s.comm),
            ("symbol",f.symbol),("binary",f.binary),("build_id",f.buildId),("depth",toString i),
            ("join_key",toString s.pid++":"++toString s.tid)] } }

/-- `ProfileCollector.collect`. -/
def collectProfiles [One F] (cap : Capability) (intervalNs : ℤ) (samples : List ProfileSample) :
    Except CollectError (TelemetryFrame (Observation F)) :=
  if cap.available = false ∧ samples = [] then
    .error (.permission "profile" (orText cap.detail "no eBPF permission"))
  else frame (samples.flatMap (profileReadings intervalNs))

/-! ## OTLP payloads -/

structure DataPoint (F : Type) where
  timeUnixNano : ℤ := 0
  asDouble : Option F
  asInt : Option F
  attributes : List (String × String) := []

structure OtlpMetric (F : Type) where
  name : String
  unit : Option String
  points : List (DataPoint F)

structure ResourceMetrics (F : Type) where
  hostId : String := ""
  hostName : String := ""
  serviceName : String := ""
  scope : String := ""
  metrics : List (OtlpMetric F)

def otlpReading (rm : ResourceMetrics F) (metric : OtlpMetric F) (pt : DataPoint F) :
    Reading F where
  tsNs := pt.timeUnixNano
  entityId := orText rm.serviceName (orText rm.hostId (orText rm.hostName "unknown-host"))
  entityType := if rm.serviceName = "" then .host else .pod
  metricId := metric.name
  observation :=
    { value := pt.asDouble.or pt.asInt, unit := metric.unit, source := .otlp
      attrs := upsert "scope" rm.scope (fun _ => rm.scope) pt.attributes }

/-- `telemetry_from_otlp`, before the points are validated. -/
def otlpReadings (metrics : List (ResourceMetrics F)) : List (Reading F) :=
  metrics.flatMap fun rm => rm.metrics.flatMap fun metric =>
    metric.points.map (otlpReading rm metric)

/-- `OTLPCollector.collect`; the endpoint may be unreachable and the payload missing. -/
def collectOtlp (endpoint : Option String) (available : Bool)
    (resourceMetrics : Option (List (ResourceMetrics F))) :
    Except CollectError (TelemetryFrame (Observation F)) :=
  if available = false then
    .error (.unavailable "otlp" ("endpoint "++orText (endpoint.getD "") "<none>"++" unreachable"))
  else match resourceMetrics with
    | none => .error (.unavailable "otlp" "no resource_metrics payload provided")
    | some metrics => frame (otlpReadings metrics)

/-! ## What a frame accounts for -/

/-- What a point says. -/
def reading (p : TelemetryPoint (Observation F)) : Reading F where
  tsNs := p.tsNs
  entityId := p.entityId
  entityType := p.entityType
  metricId := p.metricId
  observation := p.value

/-- Every reading is one point of the frame. -/
def Accounts (readings : List (Reading F)) (f : TelemetryFrame (Observation F)) : Prop :=
  (f.points.map reading).Perm readings

def Reading.key (r : Reading F) : String × String × ℤ := (r.entityId,r.metricId,r.tsNs)

/-- The readings are valid, and no two of them have one key. -/
structure Collectable (readings : List (Reading F)) : Prop where
  valid : ∀ r ∈ readings, r.Valid
  distinct : (readings.map Reading.key).Nodup

/-! ## Frames of readings -/

theorem telemetryPoint_eq_ok_iff (r : Reading F) (p : TelemetryPoint (Observation F)) :
    telemetryPoint r = .ok p ↔
      r.Valid ∧ reading p = r ∧ p.quality = .observed := by
  obtain ⟨ts,entity,type,metric,quality,obs⟩ := p
  unfold telemetryPoint
  by_cases h : r.Valid
  · have hts : ((r.tsNs.toNat : ℕ) : ℤ) = r.tsNs := Int.toNat_of_nonneg h.1
    rw [if_pos h]
    obtain ⟨rts,rentity,rtype,rmetric,robs⟩ := r
    simp only [reading,Except.ok.injEq,TelemetryPoint.mk.injEq,Reading.mk.injEq] at hts ⊢
    grind
  · rw [if_neg h]
    exact iff_of_false (fun heq => by cases heq) fun heq => h heq.1

/-- The points of valid readings. -/
theorem points_of_forall₂ {readings : List (Reading F)}
    {points : List (TelemetryPoint (Observation F))}
    (h : List.Forall₂ (fun r p => telemetryPoint r = .ok p) readings points) :
    (∀ r ∈ readings, r.Valid) ∧ points.map reading = readings ∧
      ∀ p ∈ points, p.quality = .observed := by
  induction h with
  | nil => simp
  | cons hrp _ ih =>
    obtain ⟨hvalid,hread,hquality⟩ := (telemetryPoint_eq_ok_iff _ _).mp hrp
    simp only [List.forall_mem_cons,List.map_cons,hread,ih.2.1]
    exact ⟨⟨hvalid,ih.1⟩,trivial,hquality,ih.2.2⟩

theorem nodup_keys_iff {points : List (TelemetryPoint (Observation F))}
    (hq : ∀ p ∈ points, p.quality = .observed) :
    (points.map TelemetryPoint.key).Nodup ↔ ((points.map reading).map Reading.key).Nodup := by
  rw [List.map_map,List.nodup_iff_pairwise_ne,List.nodup_iff_pairwise_ne,List.pairwise_map,
    List.pairwise_map]
  refine List.Pairwise.iff_of_mem fun {p q} hp hq' => not_congr ?_
  simp only [TelemetryPoint.key,hq p hp,hq q hq',Function.comp_apply,Reading.key,reading,
    Prod.mk.injEq,and_true,Int.ofNat_inj]

/-- Readings make a frame that accounts for each of them exactly when they are collectable. -/
theorem frame_iff (readings : List (Reading F)) :
    (∃ f, frame readings = .ok f ∧ Accounts readings f) ↔ Collectable readings := by
  constructor
  · rintro ⟨f,hf,-⟩
    unfold frame at hf
    cases hpoints : readings.mapM telemetryPoint with
    | error e =>
      rw [hpoints] at hf
      cases hf
    | ok points =>
      obtain ⟨hvalid,hread,hquality⟩ := points_of_forall₂ ((mapM_eq_ok_iff readings).mp hpoints)
      refine ⟨hvalid,?_⟩
      rw [← hread,← nodup_keys_iff hquality]
      rw [hpoints] at hf
      cases htf : telemetryFrame (points.mergeSort fun p q => p.tsNs ≤ q.tsNs) with
      | error e =>
        simp [bind,Except.bind,htf,Except.mapError] at hf
      | ok f' => exact (telemetryFrame_ok_iff points).mp ⟨f',htf⟩
  · rintro ⟨hvalid,hdistinct⟩
    obtain ⟨points,hpoints,hall⟩ := exists_mapM_ok (f:=telemetryPoint) (P:=fun _ _ => True) readings
      fun r hr => ⟨_,if_pos (hvalid r hr),trivial⟩
    obtain ⟨-,hread,hquality⟩ := points_of_forall₂ ((mapM_eq_ok_iff readings).mp hpoints)
    rw [← hread,← nodup_keys_iff hquality] at hdistinct
    obtain ⟨f,hf⟩ := (telemetryFrame_ok_iff points).mpr hdistinct
    refine ⟨f,?_,?_⟩
    · simp [frame,hpoints,bind,Except.bind,hf,Except.mapError]
    · have hsame : f.points = points.mergeSort fun p q => p.tsNs ≤ q.tsNs := by
        unfold telemetryFrame at hf
        split at hf
        · rw [← Except.ok.inj hf]
        · cases hf
      rw [Accounts,hsame,← hread]
      exact (List.mergeSort_perm points _).map reading

/-- The three adapters return a frame with every input in it once exactly when the points to be
built are valid and have distinct keys. -/
theorem collect_iff [One F] (cap : Capability) (tsBaseNs intervalNs : ℤ) (e : Event F)
    (events : List (Event F)) (s : ProfileSample) (samples : List ProfileSample)
    (endpoint : Option String) (rm : ResourceMetrics F) (metrics : List (ResourceMetrics F)) :
    ((∃ f, collectTracepoints cap tsBaseNs (e::events) = .ok f ∧
        Accounts ((e::events).map (tracepointReading tsBaseNs)) f) ↔
      Collectable ((e::events).map (tracepointReading tsBaseNs))) ∧
    ((∃ f : TelemetryFrame (Observation F), collectProfiles cap intervalNs (s::samples) = .ok f ∧
        Accounts ((s::samples).flatMap (profileReadings intervalNs)) f) ↔
      Collectable (F:=F) ((s::samples).flatMap (profileReadings intervalNs))) ∧
    ((∃ f, collectOtlp endpoint true (some (rm::metrics)) = .ok f ∧
        Accounts (otlpReadings (rm::metrics)) f) ↔ Collectable (otlpReadings (rm::metrics))) := by
  have htrace : collectTracepoints cap tsBaseNs (e::events) =
      frame ((e::events).map (tracepointReading tsBaseNs)) := by
    simp [collectTracepoints]
  have hprofile : collectProfiles (F:=F) cap intervalNs (s::samples) =
      frame ((s::samples).flatMap (profileReadings intervalNs)) := by
    simp [collectProfiles]
  rw [htrace,hprofile]
  exact ⟨frame_iff _,frame_iff _,frame_iff _⟩

/-- A stack in which a function calls itself. -/
def recursiveSample : ProfileSample where
  tsNs := 9000000
  tid := 4242
  pid := 4242
  comm := "python3"
  stack := [{ symbol := "main" },{ symbol := "fib" },{ symbol := "fib" }]

theorem recursiveSample_rejected : ¬ ∃ f : TelemetryFrame (Observation ℚ),
    collectProfiles ⟨true,"ok"⟩ 9000000 [recursiveSample] = .ok f ∧
      Accounts ([recursiveSample].flatMap (profileReadings 9000000)) f := by
  intro h
  have hc := (frame_iff ([recursiveSample].flatMap (profileReadings (F:=ℚ) 9000000))).mp h
  exact absurd hc.distinct (by decide)

end Collectors
end ETraceDiag
