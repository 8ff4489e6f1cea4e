import ETraceDiag.AnomalyFeed
import ETraceDiag.ReplyLoop

/-!
# The model server

The handlers of `/anomaly` and `/causal`. The clock, the detector and the causal analysis are
parameters, and so are the JSON parser and the interpreter's float operations; a reply is the
value that `json_dumps` encodes.
-/

namespace ETraceDiag
namespace WsServer

open JsonValue PyValue CausalInput AnomalyFeed DeltaStream Transition ReplyLoop

/-- `json.loads` raises a `ValueError`, or a `RecursionError` for nested input. -/
inductive LoadError
  | valueError
  | recursionError
  deriving DecidableEq,Repr

class Interpreter (F : Type) extends Numbers F where
  loads : String → Except LoadError (JsonValue F)
  add : F → F → F
  lt : F → F → Bool
  round4 : F → F

/-- What the clock and the detector give while a frame is served; `scored` is none when the
detector raises. -/
structure Tick (F : Type) where
  nowNs : ℕ
  fitOk : Bool
  scored : Option (List (IncidentWindow F))

variable {F : Type} [Interpreter F]

/-! ## maybe_score -/

/-- From the first buffered point to now. -/
def span (s : AnomalySession F) (now : ℕ) : ℤ :=
  (now : ℤ)-(s.buffer.head?.elim now TelemetryPoint.tsNs)

/-- `max(incidents,key=lambda i: i.severity)`. -/
def worst (incidents : List (IncidentWindow F)) : Option (IncidentWindow F) :=
  incidents.foldl (fun best i => some (best.elim i fun b =>
    if Interpreter.lt b.severity i.severity then i else b)) none

def maybeScore (tick : Tick F) (s : AnomalySession F) :
    AnomalySession F × Option (IncidentWindow F) :=
  if s.fitDone then
    if (tick.nowNs : ℤ)-s.lastScoreTsNs < s.settings.stride then (s,none)
    else
      let s := { s with lastScoreTsNs := tick.nowNs }
      match frame (s.scoringWindow tick.nowNs),tick.scored with
      | .ok _,some incidents => (s,worst incidents)
      | _,_ => (s,none)
  else if span s tick.nowNs < s.settings.warmup then (s,none)
  else
    match frame s.buffer with
    | .ok _ =>
      if tick.fitOk then ({ s with fitDone := true, lastScoreTsNs := tick.nowNs },none)
      else (s,none)
    | .error _ => (s,none)

/-- `_group_of`. -/
def groupOf (metricId : String) : Group :=
  (hostChannels.find? fun ch => ch.metricId = metricId).elim .cpu Channel.group

def groupScores (inc : IncidentWindow F) : List (Group × F) :=
  inc.metricScores.foldl (fun d m => TimeTable.upsert (groupOf m.1) Numbers.zero
    (fun score => Interpreter.add score m.2) d) []

/-- `max(group_scores,key=group_scores.get) if group_scores else "cpu"`. -/
def anomalyType (scores : List (Group × F)) : Group :=
  (scores.foldl (fun best g => some (best.elim g fun b =>
    if Interpreter.lt b.2 g.2 then g else b)) none).elim .cpu Prod.fst

/-! ## The replies -/

def anomalyReply (seq : JsonValue F) (now : ℕ) (isAnomaly : Bool) (type : String)
    (confidence : F) (indicators : List (JsonValue F)) : JsonValue F :=
  .obj [("v",.int 1),("seq",seq),("ts_ns",.int now),("is_anomaly",.bool isAnomaly),
    ("type",.str type),("confidence",.float confidence),("indicators",.arr indicators)]

def indicator (type : String) (confidence : F) : JsonValue F :=
  .obj [("type",.str type),("confidence",.float confidence)]

/-- `_result` with the `seq` of the request. -/
def resultReply (seq : JsonValue F) (now : ℕ) (inc : IncidentWindow F) : JsonValue F :=
  let scores := groupScores inc
  anomalyReply seq now true (anomalyType scores).name (Interpreter.round4 inc.severity)
    ((scores.mergeSort fun a b => !Interpreter.lt a.2 b.2).map fun g =>
      indicator g.1.name (Interpreter.round4 g.2))

/-- The reply that reports no anomaly. -/
def quietReply (seq : JsonValue F) (now : ℕ) (indicators : List (JsonValue F)) : JsonValue F :=
  anomalyReply seq now false "none" Numbers.zero indicators

/-! ## The handlers -/

/-- One pass of the loop of `ws_anomaly`. -/
def anomalyFrame (s : AnomalySession F) (f : String × Tick F) :
    AnomalySession F × Served (JsonValue F) :=
  match (Interpreter.loads f.1 : Except LoadError (JsonValue F)) with
  | .error .valueError => (s,.skipped)
  | .error .recursionError => (s,.closed)
  | .ok msg =>
    match s.ingest msg with
    | (s,.error _) => (s,.skipped)
    | (s,.ok _) =>
      let now := f.2.nowNs
      let seq := field "seq" (.int 0) msg
      if !s.fitDone && decide (span s now < s.settings.warmup) then
        (s,.reply (quietReply seq now [indicator "warmup" Numbers.zero]))
      else
        match maybeScore f.2 s with
        | (s,none) => (s,.reply (quietReply seq now []))
        | (s,some inc) => (s,.reply (resultReply seq now inc))

def wsAnomaly (s : AnomalySession F) (frames : List (String × Tick F)) :
    List (Event (String × Tick F) (JsonValue F)) :=
  serve anomalyFrame s frames

/-- `ToraiRCA.analyze`, which gives a report or raises, and the texts of the exceptions. -/
structure Torai (F : Type) where
  analyze : CausalInputs F → Except String (JsonValue F)
  text : Raise → String

section Causal

variable [OfScientific F]

def abstained (reason : String) : List (String × JsonValue F) :=
  [("ok",.bool false),("abstained_reason",.str reason)]

/-- `run_causal` with the `except` around it. -/
def runCausal (rca : Torai F) (body : JsonValue F) : List (String × JsonValue F) :=
  match evidenceToInputs body with
  | .error e => abstained ("causal analysis failed: "++rca.text e)
  | .ok inputs =>
    if inputs.incident.isNone then abstained "no valid anomaly window in evidence"
    else if inputs.frame.points.length < 2 then abstained "empty evidence series"
    else
      match rca.analyze inputs with
      | .error text => abstained ("causal analysis failed: "++text)
      | .ok report => [("ok",.bool true),("report",report)]

/-- One pass of the loop of `ws_causal`; nothing is kept between two of them. -/
def causalFrame (rca : Torai F) (_ : Unit) (raw : String) : Unit × Served (JsonValue F) :=
  match (Interpreter.loads raw : Except LoadError (JsonValue F)) with
  | .error .valueError => ((),.skipped)
  | .error .recursionError => ((),.closed)
  | .ok msg =>
    match pyGet "seq" (.int 0) msg,requestBody msg with
    | .ok seq,.ok body => ((),.reply (.obj ([("v",.int 1),("seq",seq)]++runCausal rca body)))
    | _,_ => ((),.closed)

def wsCausal (rca : Torai F) (raws : List String) : List (Event String (JsonValue F)) :=
  serve (causalFrame rca) () raws

end Causal

/-! ## One reply for each request -/

/-- The `seq` of a request, 0 when there is none. -/
def requestSeq (raw : String) : JsonValue F :=
  match (Interpreter.loads raw : Except LoadError (JsonValue F)) with
  | .ok msg => field "seq" (.int 0) msg
  | .error _ => .int 0

/-- A reply carries the `seq` of its request. -/
def Fits (raw : String) (reply : JsonValue F) : Prop :=
  get? "seq" reply = some (requestSeq raw)

/-- The message is an object, its `ts_ns` and its channels can be converted and its tasks can be
iterated; the time is not negative, unless no reading gives a value yet. -/
structure Ingestible (s : AnomalySession F) (msg : JsonValue F) : Prop where
  ts : ∃ ts, messageTs msg = .ok ts ∧ (0 ≤ ts ∨ ∀ src, ((reported msg).map Prod.fst).count src ≤
    if firstSight s.prev src then 1 else 0)
  channels : ∀ e, .error e ∉ passes msg

def AnomalyServed (s : AnomalySession F) (f : String × Tick F) : Prop :=
  ∃ msg, Interpreter.loads f.1 = .ok msg ∧ Ingestible s msg

def CausalServed (F : Type) [Interpreter F] (raw : String) : Prop :=
  ∃ fields : List (String × JsonValue F), Interpreter.loads raw = .ok (.obj fields)

theorem ingestible_iff (s : AnomalySession F) (msg : JsonValue F) :
    (s.ingest msg).2 = .ok () ↔ Ingestible s msg := by
  have hvalues : given s.prev (reported msg) = [] ↔ ∀ src,
      ((reported msg).map Prod.fst).count src ≤ if firstSight s.prev src then 1 else 0 :=
    values_eq_nil_iff Source.key_injective s.prev (reported msg)
  rw [ingest_accepts_iff]
  constructor
  · rintro ⟨ts,hts,hpasses,htime⟩
    exact ⟨⟨ts,hts,htime.imp_right hvalues.mp⟩,hpasses⟩
  · rintro ⟨⟨ts,hts,htime⟩,hpasses⟩
    exact ⟨ts,hts,hpasses,htime.imp_right hvalues.mpr⟩

theorem fits_of_loads {raw : String} {msg reply : JsonValue F}
    (hmsg : Interpreter.loads raw = .ok msg)
    (hreply : get? "seq" reply = some (field "seq" (.int 0) msg)) : Fits raw reply := by
  rw [Fits,requestSeq,hmsg]
  exact hreply

/-- A frame of `/anomaly` is answered, with its `seq`, exactly when it is ingested. -/
theorem anomalyFrame_iff (s : AnomalySession F) (f : String × Tick F) :
    (∃ r, (anomalyFrame s f).2 = .reply r ∧ Fits f.1 r) ↔ AnomalyServed s f := by
  cases hload : (Interpreter.loads f.1 : Except LoadError (JsonValue F)) with
  | error e =>
    have hnone : ¬ AnomalyServed s f := by
      rintro ⟨msg,hmsg,_⟩
      rw [hload] at hmsg
      cases hmsg
    refine iff_of_false ?_ hnone
    rintro ⟨r,hr,_⟩
    rw [anomalyFrame,hload] at hr
    cases e <;> cases hr
  | ok msg =>
    have hserved : AnomalyServed s f ↔ (s.ingest msg).2 = .ok () := by
      rw [ingestible_iff,AnomalyServed,hload]
      exact ⟨fun ⟨msg',h,hi⟩ => (Except.ok.inj h) ▸ hi,fun h => ⟨msg,rfl,h⟩⟩
    rw [hserved]
    simp only [anomalyFrame,hload]
    cases hingest : s.ingest msg with
    | mk t out =>
      cases out with
      | error e =>
        refine iff_of_false ?_ fun h => by cases h
        rintro ⟨r,hr,_⟩
        cases hr
      | ok _ =>
        refine iff_of_true ?_ rfl
        dsimp only
        split
        · exact ⟨_,rfl,fits_of_loads hload rfl⟩
        · split
          · exact ⟨_,rfl,fits_of_loads hload rfl⟩
          · exact ⟨_,rfl,fits_of_loads hload rfl⟩

/-- A frame of `/causal` is answered, with its `seq`, exactly when it is an object. -/
theorem causalFrame_iff [OfScientific F] (rca : Torai F) (raw : String) :
    (∃ r, (causalFrame rca () raw).2 = .reply r ∧ Fits raw r) ↔ CausalServed F raw := by
  cases hload : (Interpreter.loads raw : Except LoadError (JsonValue F)) with
  | error e =>
    refine iff_of_false ?_ ?_
    · rintro ⟨r,hr,_⟩
      rw [causalFrame,hload] at hr
      cases e <;> cases hr
    · rintro ⟨fields,h⟩
      rw [hload] at h
      cases h
  | ok msg =>
    rw [causalFrame,hload,CausalServed,hload]
    cases msg with
    | obj fields =>
      refine iff_of_true ⟨_,rfl,fits_of_loads hload rfl⟩ ⟨fields,rfl⟩
    | _ =>
      refine iff_of_false ?_ ?_
      · rintro ⟨r,hr,_⟩
        cases hr
      · rintro ⟨fields,h⟩
        cases h

/-- On both endpoints every frame gets its reply, one by one and in order, exactly when every
frame of `/anomaly` is ingested and every frame of `/causal` is an object. -/
theorem requests_answered_iff [OfScientific F] (rca : Torai F) (s : AnomalySession F)
    (frames : List (String × Tick F)) (raws : List String) :
    (Answered (fun f => Fits f.1) frames (wsAnomaly s frames) ∧
        Answered Fits raws (wsCausal rca raws)) ↔
      Along (fun s f => (anomalyFrame s f).1) AnomalyServed s frames ∧
        ∀ raw ∈ raws, CausalServed F raw := by
  have hanomaly := Along.congr (fun s f => (anomalyFrame s f).1) anomalyFrame_iff frames s
  have hcausal : Along (fun _ raw => (causalFrame rca () raw).1)
      (fun _ raw => ∃ r, (causalFrame rca () raw).2 = .reply r ∧ Fits raw r) () raws ↔
      ∀ raw ∈ raws, CausalServed F raw := by
    rw [along_inputs]
    exact forall₂_congr fun raw _ => causalFrame_iff rca raw
  rw [wsAnomaly,wsCausal,answered_iff,answered_iff]
  exact and_congr hanomaly hcausal

/-- A parser that knows these texts only. -/
instance : Interpreter ℚ where
  loads raw := if raw = "[]" then .ok (.arr []) else .error .valueError
  add := (·+·)
  lt a b := decide (a < b)
  round4 x := mkRat (x*10000).floor 10000

def noReport : Torai ℚ := ⟨fun _ => .error "",fun _ => ""⟩

/-- A text that is not JSON. -/
def badFrame : String × Tick ℚ := ("\x7b",⟨1000000000,true,some []⟩)

theorem badFrame_not_answered :
    ¬ ∀ (rca : Torai ℚ) (s : AnomalySession ℚ) (frames : List (String × Tick ℚ))
      (raws : List String), Answered (fun f => Fits f.1) frames (wsAnomaly s frames) ∧
        Answered Fits raws (wsCausal rca raws) := by
  intro h
  have hanomaly : Answered (fun f => Fits f.1) [badFrame] [Event.recv badFrame] :=
    (h noReport { settings := ⟨90000000000,210000000000,30000000000,60000000000⟩ } [badFrame] []).1
  exact not_answered_of_recv (fun r rest h => by cases h) hanomaly

end WsServer
end ETraceDiag
