import ETraceDiag.AnomalyFeed
import Mathlib.Algebra.BigOperators.Group.List.Basic
import Mathlib.Algebra.Order.Group.Defs

/-!
# The deltas of the features

What the points of a cumulative channel add up to along a sequence of messages, next to the
readings of the messages that carry the channel. A message without disks or interfaces is read as
one whose counters are zero, and a process is known by its pid alone. Subtraction is exact.
-/

namespace ETraceDiag
namespace FeatureDeltas

open JsonValue PyValue CausalInput DeltaStream Transition AnomalyFeed

class ExactNumbers (F : Type) [AddCommGroup F] [LinearOrder F] extends Numbers F where
  delta_eq : ∀ raw prev : F, Numbers.delta raw prev = max 0 (raw-prev)

/-- A channel whose points are deltas. -/
abbrev Counter := { src : Source // src.cumulative = true }

section Messages

variable {F : Type} [Numbers F]

/-- A message that is read without an exception. -/
structure FeaturesMessage (F : Type) [Numbers F] where
  json : JsonValue F
  tsNs : ℕ
  time : messageTs json = .ok (tsNs : ℤ)
  accepted : ∀ e, (.error e : Found F) ∉ passes json

/-- The last readings after a message. -/
def next (prev : Prev F) (m : FeaturesMessage F) : Prev F := (anomalyFeaturesToPoints m.json prev).1

def baseline (ms : List (FeaturesMessage F)) : Prev F := run next (fun _ => none) ms

/-- The values of the points of a channel. -/
def emitted (src : Counter) (prev : Prev F) (m : FeaturesMessage F) : List F :=
  match (anomalyFeaturesToPoints m.json prev).2 with
  | .ok points =>
    (points.filter fun p => (p.entityId,p.metricId) = (src.1.entityId,src.1.metricId)).map (·.value)
  | .error _ => []

def emittedAll (src : Counter) : Prev F → List (FeaturesMessage F) → List F
  | _, [] => []
  | prev, m::ms => emitted src prev m++emittedAll src (next prev m) ms

/-! ## What a message carries -/

def nonemptyList : JsonValue F → Bool
  | .arr (_::_) => true
  | _ => false

def isNull : JsonValue F → Bool
  | .null => true
  | _ => false

/-- The message has a list of disks, and interfaces or the sum over them. -/
def present (msg : JsonValue F) : Source → Bool
  | .host ch _ =>
    match ch.path with
    | "host"::"disks"::_ => nonemptyList (dig .null ["host","disks"] msg)
    | _ => true
  | .net ch _ =>
    nonemptyList (dig .null ["network","ifaces"] msg) ||
      match ch.path with
      | _::key::_ => !isNull (dig .null ["network",key] msg)
      | _ => true
  | .proc _ _ _ => true

/-- The readings of a channel that a message carries. -/
def carried (src : Counter) (m : FeaturesMessage F) : List F :=
  if present m.json src.1 then ofSource src.1 (reported m.json) else []

def tasks (msg : JsonValue F) : List (JsonValue F) :=
  match get? "top_tasks" msg with
  | some (.arr rows) => rows
  | _ => []

/-- The row of a process. -/
def isTask (pid : String) (row : JsonValue F) : Bool :=
  isDict row && !isNull (procPid row) && pyStr (procPid row) == pid

/-- Two processes of one pid start at different times. -/
def startTime (msg : JsonValue F) : Source → JsonValue F
  | .proc pid _ _ => ((tasks msg).find? (isTask pid)).elim .null (field "start_time" .null)
  | _ => .null

def lastCarrier (src : Counter) (ms : List (FeaturesMessage F)) : Option (FeaturesMessage F) :=
  (ms.filter fun m => !(carried src m).isEmpty).getLast?

/-- The message carries the channel for another process than the last message that did. -/
def Reused (src : Counter) (before : List (FeaturesMessage F)) (m : FeaturesMessage F) : Prop :=
  carried src m ≠ [] ∧ ∃ m', lastCarrier src before = some m' ∧
    startTime m'.json src.1 ≠ startTime m.json src.1

end Messages

variable {F : Type} [AddCommGroup F] [LinearOrder F] [ExactNumbers F]

/-- The positive increments between consecutive readings. -/
def increments : List F → F
  | a::b::raws => max 0 (b-a)+increments (b::raws)
  | _ => 0

structure Honest (src : Counter) (ms : List (FeaturesMessage F)) : Prop where
  nonneg : ∀ x ∈ emittedAll src (fun _ => none) ms, 0 ≤ x
  bounded : (emittedAll src (fun _ => none) ms).sum ≤ increments (ms.flatMap (carried src))
  lacking : ∀ before m after, ms = before++m::after → carried src m = [] →
    emitted src (baseline before) m = [] ∧
      baseline (before++[m]) src.1.key = baseline before src.1.key
  reused : ∀ before m after, ms = before++m::after → Reused src before m →
    emitted src (baseline before) m = [] ∧
      baseline (before++[m]) src.1.key = (carried src m).getLast?

/-! ## The points of a channel -/

section Points

variable {F : Type} [Numbers F]

def readingsOf (src : Counter) (m : FeaturesMessage F) : List F := ofSource src.1 (reported m.json)

theorem anomalyFeaturesToPoints_message (m : FeaturesMessage F) (prev : Prev F) :
    anomalyFeaturesToPoints m.json prev =
      (lastReadings prev (reported m.json),
        .ok ((given prev (reported m.json)).map (point m.tsNs))) := by
  obtain ⟨points,hpoints⟩ := (pointLoop_accepts_iff (passes m.json) prev).mpr
    ⟨m.accepted,Or.inl (Int.natCast_nonneg m.tsNs)⟩
  obtain ⟨hprev,hgiven,-⟩ := pointLoop_ok (passes m.json) hpoints
  rw [anomalyFeaturesToPoints,m.time]
  refine Prod.ext hprev ?_
  rw [hpoints,hgiven,Int.toNat_natCast]
  rfl

theorem next_key (src : Counter) (prev : Prev F) (m : FeaturesMessage F) :
    next prev m src.1.key = (readingsOf src m).getLast?.or (prev src.1.key) := by
  rw [next,anomalyFeaturesToPoints_message]
  exact last_key Source.key_injective src.2 _ prev

/-- The points of a message are the changes along its readings. -/
theorem emitted_eq (src : Counter) (prev : Prev F) (m : FeaturesMessage F) :
    emitted src prev m = changes Numbers.delta (prev src.1.key) (readingsOf src m) := by
  have hvalues : ∀ rs : List (Source × F), (((rs.map (point m.tsNs)).filter fun p =>
      (p.entityId,p.metricId) = (src.1.entityId,src.1.metricId)).map (·.value)) =
        ofSource src.1 rs := by
    intro rs
    rw [List.filter_map,List.map_map,ofSource]
    refine congrArg (List.map Prod.snd) (List.filter_congr fun r _ => ?_)
    exact decide_eq_decide.mpr ⟨fun h => Source.name_injective h,fun h => by rw [← h]; rfl⟩
  rw [emitted,anomalyFeaturesToPoints_message]
  refine (hvalues _).trans ?_
  exact ofSource_values Source.key_injective src.2 _ prev

theorem run_key (src : Counter) (ms : List (FeaturesMessage F)) : ∀ prev : Prev F,
    run next prev ms src.1.key =
      (ms.flatMap (readingsOf src)).getLast?.or (prev src.1.key) := by
  induction ms with
  | nil => exact fun prev => rfl
  | cons m ms ih =>
    intro prev
    rw [run_cons,ih,next_key,List.flatMap_cons,List.getLast?_append,Option.or_assoc]

theorem baseline_key (src : Counter) (ms : List (FeaturesMessage F)) :
    baseline ms src.1.key = (ms.flatMap (readingsOf src)).getLast? := by
  rw [baseline,run_key,Option.or_none]

theorem baseline_snoc (src : Counter) (ms : List (FeaturesMessage F)) (m : FeaturesMessage F) :
    baseline (ms++[m]) src.1.key = (readingsOf src m).getLast?.or (baseline ms src.1.key) := by
  rw [baseline,run_append,run_cons,run_nil,next_key,baseline]

/-- All points of a channel are the changes along all its readings. -/
theorem emittedAll_eq (src : Counter) (ms : List (FeaturesMessage F)) : ∀ prev : Prev F,
    emittedAll src prev ms =
      changes Numbers.delta (prev src.1.key) (ms.flatMap (readingsOf src)) := by
  induction ms with
  | nil => exact fun prev => rfl
  | cons m ms ih =>
    intro prev
    rw [emittedAll,emitted_eq,ih,next_key,List.flatMap_cons,changes_append]

/-! ## Absent counters are read as zero -/

theorem mem_reported {m : FeaturesMessage F} {src : Source} {raw : Except Raise F}
    (h : found src (some <$> raw) ∈ passes m.json) : src ∈ (reported m.json).map Prod.fst := by
  cases raw with
  | error e => exact absurd h (m.accepted e)
  | ok x =>
    refine List.mem_map.mpr ⟨(src,x),?_,rfl⟩
    exact List.mem_filterMap.mpr ⟨_,h,rfl⟩

/-- A channel whose counters are absent is read all the same. -/
theorem readingsOf_of_absent {src : Counter} {m : FeaturesMessage F}
    (h : present m.json src.1 = false) : readingsOf src m ≠ [] := by
  rw [readingsOf,ne_eq,ofSource_eq_nil_iff,not_not]
  obtain ⟨src,hsrc⟩ := src
  cases src with
  | host ch hch =>
    have hpass : found (.host ch hch) (hostRaw m.json ch) ∈ passes m.json :=
      List.mem_append_left _ (List.mem_append_left _
        (List.mem_map.mpr ⟨⟨ch,hch⟩,List.mem_attach _ _,rfl⟩))
    simp only [present] at h
    split at h
    · next rest hpath =>
      have hshort : ∀ c ∈ hostChannels, c.path ≠ ["host","disks"] := by decide
      cases rest with
      | nil => exact absurd hpath (hshort ch hch)
      | cons key rest =>
        rw [hostRaw,hpath] at hpass
        exact mem_reported hpass
    · cases h
  | net ch hch =>
    have hpass : found (.net ch hch) (netRaw m.json ch) ∈ passes m.json :=
      List.mem_append_left _ (List.mem_append_right _
        (List.mem_map.mpr ⟨⟨ch,hch⟩,List.mem_attach _ _,rfl⟩))
    obtain ⟨k,key,hpath⟩ : ∃ k key, ch.path = [k,key] := by
      rcases List.mem_pair.mp hch with rfl | rfl
      · exact ⟨_,_,rfl⟩
      · exact ⟨_,_,rfl⟩
    rw [netRaw,hpath] at hpass
    exact mem_reported hpass
  | proc pid ch hch => cases h

theorem carried_of_present {src : Counter} {m : FeaturesMessage F}
    (h : present m.json src.1 = true) : carried src m = readingsOf src m := by
  rw [carried,if_pos h,readingsOf]

theorem carried_of_absent {src : Counter} {m : FeaturesMessage F}
    (h : present m.json src.1 = false) : carried src m = [] := by
  rw [carried,if_neg (by rw [h]; decide)]

/-- A message without the counters of a channel gives a point for it or moves its baseline. -/
theorem not_lacking_of_absent {src : Counter} {m : FeaturesMessage F}
    (before : List (FeaturesMessage F)) (h : present m.json src.1 = false) :
    ¬ (emitted src (baseline before) m = [] ∧
      baseline (before++[m]) src.1.key = baseline before src.1.key) := by
  rintro ⟨hnone,hkept⟩
  have hread := readingsOf_of_absent h
  rw [emitted_eq] at hnone
  have hfirst : baseline before src.1.key = none := by
    by_contra hp
    exact changes_ne_nil hp hread hnone
  rw [baseline_snoc,hfirst,Option.or_none,List.getLast?_eq_none_iff] at hkept
  exact hread hkept

/-- The point of a channel that has been carried before is never left out. -/
theorem emitted_of_carried {src : Counter} {before : List (FeaturesMessage F)}
    {m m' : FeaturesMessage F} (hm : carried src m ≠ [])
    (hlast : lastCarrier src before = some m') : emitted src (baseline before) m ≠ [] := by
  have hread : ∀ {m : FeaturesMessage F}, carried src m ≠ [] → readingsOf src m ≠ [] := by
    intro m h
    cases hpresent : present m.json src.1 with
    | true => rwa [carried_of_present hpresent] at h
    | false => exact absurd (carried_of_absent hpresent) h
  obtain ⟨hmem,hcarried⟩ := List.mem_filter.mp (List.mem_of_getLast? hlast)
  have hcarried : carried src m' ≠ [] := by simpa using hcarried
  rw [emitted_eq]
  refine changes_ne_nil ?_ (hread hm)
  rw [baseline_key,ne_eq,List.getLast?_eq_none_iff,List.flatMap_eq_nil_iff]
  exact fun hnil => hread hcarried (hnil m' hmem)

end Points

/-! ## The sum of the deltas -/

theorem sum_changes (raws : List F) : ∀ p : Option F,
    (changes Numbers.delta p raws).sum = increments (p.toList++raws) := by
  induction raws with
  | nil => intro p; cases p <;> rfl
  | cons raw raws ih =>
    intro p
    rw [changes,List.sum_append,ih]
    cases p with
    | none => exact zero_add _
    | some p =>
      have hhead : ((some p).map (Numbers.delta raw)).toList.sum = max 0 (raw-p) := by
        rw [Option.map_some,Option.toList_some,List.sum_singleton,ExactNumbers.delta_eq]
      rw [hhead]
      rfl

theorem changes_nonneg (raws : List F) : ∀ p : Option F,
    ∀ x ∈ changes Numbers.delta p raws, 0 ≤ x := by
  induction raws with
  | nil => intro p x hx; cases hx
  | cons raw raws ih =>
    intro p x hx
    rcases List.mem_append.mp hx with hx | hx
    · rw [Option.mem_toList,Option.map_eq_some_iff] at hx
      obtain ⟨p,-,rfl⟩ := hx
      rw [ExactNumbers.delta_eq]
      exact le_max_left 0 _
    · exact ih _ x hx

instance : ExactNumbers ℚ where
  delta_eq _ _ := rfl

/-- A message whose network has the interfaces given. -/
def networkMessage (tsNs : ℕ) (ifaces : List (JsonValue ℚ)) : JsonValue ℚ :=
  .obj [("v",.int 2),("seq",.int 0),("ts_ns",.int tsNs),
    ("host",.obj [("disks",.arr [.obj [("io_ticks_ms",.int 0),("weighted_ticks_ms",.int 0),
      ("ios_in_flight",.int 0)]]),("ctxt",.int 0),("procs_running",.int 1)]),
    ("ebpf",.obj [("lock_waits_total",.int 0),("switch_total",.int 0)]),("top_tasks",.arr []),
    ("network",.obj [("ifaces",.arr ifaces)])]

def eth0 : JsonValue ℚ := .obj [("rx_bytes",.int 1000),("tx_bytes",.int 0)]

theorem accepted_of_all {ps : List (Found ℚ)} (h : ps.all Except.isOk = true) :
    ∀ e, .error e ∉ ps := by
  intro e he
  cases List.all_eq_true.mp h _ he

def linkUp : FeaturesMessage ℚ where
  json := networkMessage 1000000000 [eth0]
  tsNs := 1000000000
  time := rfl
  accepted := accepted_of_all (by decide +kernel)

def linkGone : FeaturesMessage ℚ where
  json := networkMessage 2000000000 []
  tsNs := 2000000000
  time := rfl
  accepted := accepted_of_all (by decide +kernel)

def linkBack : FeaturesMessage ℚ where
  json := networkMessage 3000000000 [eth0]
  tsNs := 3000000000
  time := rfl
  accepted := accepted_of_all (by decide +kernel)

def rxBytes : Channel := ⟨["network","rx_bytes"],"net_rx",.net,.cumulative⟩

theorem rxBytes_mem : rxBytes ∈ netChannels := List.mem_cons_self

def netRx : Counter := ⟨.net rxBytes rxBytes_mem,rfl⟩

end FeatureDeltas
end ETraceDiag
