import ETraceDiag.Dictionaries
import ETraceDiag.FeedbackConflicts

/-!
# The retained detector of the API

`/v1/score` scores with the detector that the controller has retained, or builds, fits and
attaches a new one. Frames and engines are parameters: how a request's points are split, what a
detector of some configuration is after fitting, and what it finds.
-/

namespace ETraceDiag
namespace DetectorCache

open Dictionaries
open VersionedStore (CausalReport FeedbackEvent ScoredWindow putIncident putReport)
open DetectorFeedback (BaseDetector Calibration Detector Kind calibrate note register returned
  validate)
open FeedbackConflicts (IncidentController Live applyTo processFeedback)

/-! ## Configurations -/

/-- A decoded value, up to `==` of Python: a number is what it is worth, `True` is 1, and lists
and dictionaries are of some type. -/
inductive Value (V : Type)
  | none
  | number (x : ℚ)
  | str (s : String)
  | nested (v : V)
  deriving DecidableEq

/-- An entry of a configuration. -/
inductive Entry (V : Type)
  | dict (fields : List (String × Value V))
  | value (v : Value V)

variable {V : Type}

def defaultDetector : List (String × Value V) :=
  [("name",.str "edge_cascade"),("window_ns",.number 60000000000),
    ("stride_ns",.number 30000000000),("low_freq",.number 3),("n_fft",.number 16)]

/-- What `DEFAULT_CONFIG` says on detectors and splits. -/
def defaultConfig : List (String × Entry V) :=
  [("detector",.dict defaultDetector),
    ("split",.dict [("train_frac",.number (6/10)),("val_frac",.number (2/10))])]

/-- A dictionary is merged into a dictionary, anything else replaces what is there. -/
def Entry.over : Entry V → Option (Entry V) → Entry V
  | .dict fields,some (.dict d) => .dict (update d fields)
  | entry,_ => entry

def mergeEntry (merged : List (String × Entry V)) (e : String × Entry V) :
    List (String × Entry V) :=
  setKey e.1 (e.2.over (merged.lookup e.1)) merged

/-- `_merge_config`. -/
def mergeConfig (config : Option (Dict String (Entry V))) : List (String × Entry V) :=
  match config with
  | none => defaultConfig
  | some config => config.entries.foldl mergeEntry defaultConfig

/-- `cfg.get("detector",{})`; for anything but a dictionary the handler raises. -/
def detectorConfig (cfg : List (String × Entry V)) : Option (List (String × Value V)) :=
  match cfg.lookup "detector" with
  | some (.dict d) => some d
  | some (.value _) => none
  | none => some []

abbrev Signature (V : Type) := Value V × Option (Value V) × Option (Value V)

/-- The key of `detector_for` and of `attach_detector`. -/
def signature (d : List (String × Value V)) : Signature V :=
  ((d.lookup "name").getD (.str "edge_cascade"),d.lookup "window_ns",d.lookup "stride_ns")

/-! ## Detectors -/

/-- `DETECTOR_REGISTRY`. -/
def registry : List (String × Kind) :=
  [("edge_cascade",.edgeCascade),("fits",.fits),("shesd",.streaming),("streaming",.streaming),
    ("time_rcd_fuse",.timeRcdFuse)]

/-- The parameters that every constructor has. -/
def windows : List (String × Value V) :=
  [("window_ns",.number 60000000000),("stride_ns",.number 30000000000)]

/-- The keyword arguments of the constructors, with their defaults. -/
def parametersOf : Kind → List (String × Value V)
  | .streaming => windows++
      [("ewma_alpha",.number (2/10)),("pot_quantile",.number (99/100)),
        ("pot_multiplier",.number (15/10)),("min_observed_frac",.number (5/10))]
  | .fits => windows++
      [("low_freq",.number 6),("n_fft",.number 64),("pot_quantile",.number (99/100)),
        ("pot_multiplier",.number (15/10)),("min_observed_frac",.number (5/10))]
  | .edgeCascade => windows++
      [("low_freq",.number 6),("n_fft",.number 64),("event_pot_quantile",.number (99/100)),
        ("event_pot_multiplier",.number (15/10)),("trend_pot_quantile",.number (99/100)),
        ("trend_pot_multiplier",.number (15/10)),("confidence_threshold",.number (6/10)),
        ("max_missing_frac",.number (5/10)),("drift_residual_z",.number (15/10))]
  | .timeRcdFuse =>
      [("checkpoint_path",.none),("variant",.str "multi"),("win_size",.number 5000),
        ("device",.none),("fuse_w",.number (3/10)),("threshold",.number (5/10)),
        ("zn_threshold",.number (95/100)),("median_k",.number 5)]++windows

/-- The name that a detector is asked for by, its class, and a value for each parameter. -/
structure Configuration (V : Type) where
  name : String
  kind : Kind
  parameters : List (String × Value V)
  deriving DecidableEq

/-- The configuration that `_detector_for` builds a detector of. Fields that are no parameters
are dropped, but `self` is one of `__init__`, and the constructor then raises. -/
def configuration? (d : List (String × Value V)) : Option (Configuration V) := do
  let .str name := (d.lookup "name").getD (.str "edge_cascade") | none
  let kind ← registry.lookup name
  if "self" ∈ d.map Prod.fst then none
  else some ⟨name,kind,(parametersOf kind).map fun p => (p.1,(d.lookup p.1).getD p.2)⟩

/-- What a fitted detector was made of; the engine is what fitting has left. -/
structure Fitted (V E : Type) where
  configuration : Configuration V
  seed : Value V
  engine : E

/-- Frames, and what the detectors make of them; what raises is `none`. -/
structure Engine (Fr V F E : Type) where
  split : Fr → Option (Entry V) → Option (Fr × Fr)
  threshold : Configuration V → F
  fit : Configuration V → Value V → Fr → Fr → Option E
  score : Detector F (Fitted V E) → Fr → E × Option (List (ScoredWindow F))

/-! ## The handlers -/

variable {Fr F E : Type}

structure Api (F V E : Type) where
  controller : IncidentController F (Fitted V E) := {}
  detectorSignature : Option (Signature V) := none

/-- A request of `/v1/score`; there is no frame when the points are empty or not valid. -/
structure ScoreRequest (Fr V : Type) where
  frame : Option Fr
  config : Option (Dict String (Entry V))
  seed : Value V := .number 7

section Handlers

variable [DecidableEq V]

/-- `detector_for`, which does not look at the seed. -/
def detectorFor (s : Api F V E) (d : List (String × Value V)) : Option (Live F (Fitted V E)) :=
  if s.detectorSignature = some (signature d) then s.controller.detector else none

/-- `_detector_for` and `fit`. -/
def build (engine : Engine Fr V F E) (d : List (String × Value V)) (seed : Value V)
    (train val : Fr) : Option (Live F (Fitted V E)) := do
  let cfg ← configuration? d
  let fitted ← engine.fit cfg seed train val
  some ⟨cfg.kind,DetectorFeedback.start cfg.kind (engine.threshold cfg) ⟨cfg,seed,fitted⟩⟩

def attachDetector (s : Api F V E) (live : Live F (Fitted V E)) (sig : Signature V) :
    Api F V E where
  controller := { s.controller with detector := some live }
  detectorSignature := some sig

/-- `/v1/score` up to the call of `score`: the detector that is called, and with what frame. -/
def chosen (engine : Engine Fr V F E) (s : Api F V E) (q : ScoreRequest Fr V) :
    Option (Live F (Fitted V E) × Api F V E × Fr) := do
  let frame ← q.frame
  let cfg := mergeConfig q.config
  let (train,val) ← engine.split frame (cfg.lookup "split")
  let d ← detectorConfig cfg
  match detectorFor s d with
  | some live => some (live,s,frame)
  | none => do
    let live ← build engine d q.seed train val
    some (live,attachDetector s live (signature d),frame)

variable [Calibration F]

/-- `/v1/score`: the incidents, when nothing raises, and the state after it. -/
def v1Score (engine : Engine Fr V F E) (s : Api F V E) (q : ScoreRequest Fr V) :
    Option (List (ScoredWindow F)) × Api F V E :=
  match chosen engine s q with
  | none => (none,s)
  | some (live,s,frame) =>
    let (left,found) := engine.score live.detector frame
    let fitted := { live.detector.fitted with engine := left }
    match found with
    | none =>
      let live := { live with detector := { live.detector with fitted := fitted } }
      (none,{ s with controller.detector := some live })
    | some found =>
      let incidents := returned live.detector.base found
      let store := incidents.foldl putIncident s.controller.store
      let live := { live with
        detector := DetectorFeedback.step live.kind live.detector (.score found fitted) }
      (some incidents,{ s with controller := { store := store, detector := some live } })

inductive Call (Fr V F : Type)
  | score (q : ScoreRequest Fr V)
  | causal (report : CausalReport F)
  | feedback (auditId : String) (fb : FeedbackEvent)

/-- The state of the API, with all feedback that a detector has taken, under the configuration
and the seed of the detector. -/
structure Session (F V E : Type) extends Api F V E where
  taken : List ((Configuration V × Value V) × FeedbackEvent) := []

def step (engine : Engine Fr V F E) (s : Session F V E) : Call Fr V F → Session F V E
  | .score q => { s with toApi := (v1Score engine s.toApi q).2 }
  | .causal report =>
    { s with controller.store :=
        putReport (putIncident s.controller.store report.window) report }
  | .feedback auditId fb =>
    let (result,controller) := processFeedback auditId true s.controller fb
    { s with
      controller := controller
      taken := match result,s.controller.detector with
        | .ok _,some live =>
          s.taken++[((live.detector.fitted.configuration,live.detector.fitted.seed),fb)]
        | _,_ => s.taken }

end Handlers

/-! ## What is said about a request -/

section Claims

variable [DecidableEq V]

def Session.takenFor (s : Session F V E) (cfg : Configuration V) (seed : Value V) :
    List FeedbackEvent :=
  (s.taken.filter fun t => t.1 = (cfg,seed)).map Prod.snd

/-- The calibration of a detector that has taken these feedbacks, whatever it has found. -/
inductive Learned [Calibration F] : BaseDetector F → List FeedbackEvent → Prop
  | new (d : BaseDetector F) (hsuppressed : d.suppressed = [])
      (hadjustments : d.thresholdAdjustments = []) (hlabels : d.feedbackLabels = []) :
      Learned d []
  | found {d : BaseDetector F} {fbs : List FeedbackEvent} (h : Learned d fbs)
      (emitted : List (String × ScoredWindow F)) : Learned { d with emitted := emitted } fbs
  | taken {d : BaseDetector F} {fbs : List FeedbackEvent} (h : Learned d fbs) (fb : FeedbackEvent)
      (inc : ScoredWindow F) (hvalid : validate d fb = .ok inc) :
      Learned (note (calibrate d inc fb) fb) (fbs++[fb])

/-- The configuration that a request asks for. -/
def ScoreRequest.configuration? (q : ScoreRequest Fr V) : Option (Configuration V) :=
  (detectorConfig (mergeConfig q.config)).bind DetectorCache.configuration?

/-- The detector is of the request's configuration and seed. -/
structure Own (q : ScoreRequest Fr V) (live : Live F (Fitted V E)) : Prop where
  configuration : q.configuration? = some live.detector.fitted.configuration
  seed : live.detector.fitted.seed = q.seed

/-- A request is scored by a detector of its own configuration and seed, with the calibration
that all feedback to such detectors amounts to. -/
def ScoredByOwn [Calibration F] (engine : Engine Fr V F E) (s : Session F V E) :
    Call Fr V F → Prop
  | .score q => ∀ live s' frame, chosen engine s.toApi q = some (live,s',frame) →
      Own q live ∧ Learned live.detector.base (s.takenFor live.detector.fitted.configuration q.seed)
  | _ => True

def Configuration.signature (cfg : Configuration V) : Signature V :=
  (.str cfg.name,cfg.parameters.lookup "window_ns",cfg.parameters.lookup "stride_ns")

/-- The request has the name and the windows of the detector. -/
def SameWindows (q : ScoreRequest Fr V) (live : Live F (Fitted V E)) : Prop :=
  (detectorConfig (mergeConfig q.config)).map signature =
    some live.detector.fitted.configuration.signature

/-- A request that gets as far as scoring has the configuration and the seed of the retained
detector, or differs from it in the name or the windows and no detector of its configuration and
seed has taken feedback. -/
def OwnOrFresh (engine : Engine Fr V F E) (s : Session F V E) : Call Fr V F → Prop
  | .score q => (chosen engine s.toApi q).isSome →
      (∃ live ∈ s.controller.detector, Own q live) ∨
        (∀ live ∈ s.controller.detector, ¬ SameWindows q live) ∧
          ∀ cfg ∈ q.configuration?, s.takenFor cfg q.seed = []
  | _ => True

end Claims

/-! ## Signatures -/

section Signatures

variable [DecidableEq V]

omit [DecidableEq V] in
theorem lookup_foldl_mergeEntry {es : List (String × Entry V)} (hes : (es.map Prod.fst).Nodup)
    (k : String) : ∀ merged : List (String × Entry V), (es.foldl mergeEntry merged).lookup k =
      ((es.lookup k).map fun entry => entry.over (merged.lookup k)).or (merged.lookup k) := by
  induction es with
  | nil => intro merged; rfl
  | cons e es ih =>
    obtain ⟨y,entry⟩ := e
    obtain ⟨hnot,hrest⟩ := List.nodup_cons.mp hes
    intro merged
    rw [List.foldl_cons,ih hrest,mergeEntry,lookup_setKey]
    by_cases hk : k = y
    · subst hk
      rw [if_pos rfl,lookup_eq_none.mpr hnot,List.lookup_cons_self]
      rfl
    · rw [if_neg hk,List.lookup_cons,beq_false_of_ne hk]

omit [DecidableEq V] in
/-- The merged configuration of a detector is the default one, with fields added to it. -/
theorem exists_detectorConfig {config : Option (Dict String (Entry V))}
    {d : List (String × Value V)} (h : detectorConfig (mergeConfig config) = some d) :
    ∃ fields, d = update defaultDetector fields := by
  cases config with
  | none => exact ⟨[],(Option.some.inj h).symm⟩
  | some config =>
    have hlook := lookup_foldl_mergeEntry config.unique "detector" defaultConfig
    rw [detectorConfig,mergeConfig,hlook] at h
    cases hentry : config.entries.lookup "detector" with
    | none =>
      rw [hentry] at h
      exact ⟨[],(Option.some.inj h).symm⟩
    | some entry =>
      rw [hentry] at h
      cases entry with
      | dict fields => exact ⟨fields,(Option.some.inj h).symm⟩
      | value v => cases h

omit [DecidableEq V] in
theorem lookup_parameter (k : Kind) (d : List (String × Value V)) {p : String × Value V}
    (hp : p ∈ windows) (hd : p.1 ∈ d.map Prod.fst) :
    ((parametersOf k).map fun p => (p.1,(d.lookup p.1).getD p.2)).lookup p.1 =
      d.lookup p.1 := by
  obtain ⟨v,hv⟩ := mem_keys_iff.mp hd
  rcases List.mem_pair.mp hp with rfl | rfl
  · rw [hv]
    cases k <;> simp [parametersOf,windows,List.lookup_cons,hv]
  · rw [hv]
    cases k <;> simp [parametersOf,windows,List.lookup_cons,hv]

omit [DecidableEq V] in
/-- A configuration has the signature of what it is made from. -/
theorem signature_configuration {config : Option (Dict String (Entry V))}
    {d : List (String × Value V)} (hd : detectorConfig (mergeConfig config) = some d)
    {cfg : Configuration V} (h : configuration? d = some cfg) :
    cfg.signature = signature d := by
  obtain ⟨fields,rfl⟩ := exists_detectorConfig hd
  have hin : ∀ p ∈ (windows : List (String × Value V)),
      p.1 ∈ (update defaultDetector fields).map Prod.fst := by
    intro p hp
    refine (mem_keys_update ..).mpr (.inr ?_)
    rcases List.mem_pair.mp hp with rfl | rfl <;> simp [defaultDetector]
  have hwindow := fun k => lookup_parameter k _ List.mem_cons_self (hin _ List.mem_cons_self)
  have hstride := fun k => lookup_parameter k _
    (List.mem_cons_of_mem _ List.mem_cons_self) (hin _ (List.mem_cons_of_mem _ List.mem_cons_self))
  generalize hname : ((update defaultDetector fields).lookup "name").getD (.str "edge_cascade") =
    name at h
  rw [configuration?,hname] at h
  cases name with
  | str name =>
    cases hkind : registry.lookup name with
    | none => simp [hkind] at h
    | some kind =>
      simp only [hkind,Option.bind_eq_bind,Option.bind_some] at h
      split at h
      · cases h
      · obtain rfl := Option.some.inj h
        rw [signature,hname]
        exact congrArg (Prod.mk _) (congrArg₂ Prod.mk (hwindow kind) (hstride kind))
  | _ => cases h

omit [DecidableEq V] in
theorem Own.sameWindows {q : ScoreRequest Fr V} {live : Live F (Fitted V E)} (h : Own q live) :
    SameWindows q live := by
  have hcfg := h.configuration
  rw [ScoreRequest.configuration?] at hcfg
  obtain ⟨d,hd,hconf⟩ := Option.bind_eq_some_iff.mp hcfg
  rw [SameWindows,hd,Option.map_some,signature_configuration hd hconf]

/-- The controller keeps the signature of the detector that it has retained. -/
def Signed (s : Api F V E) : Prop :=
  s.detectorSignature =
    s.controller.detector.map fun live => live.detector.fitted.configuration.signature

theorem detectorFor_eq_some {s : Api F V E} (hs : Signed s) (d : List (String × Value V))
    (live : Live F (Fitted V E)) : detectorFor s d = some live ↔
      s.controller.detector = some live ∧
        signature d = live.detector.fitted.configuration.signature := by
  rw [detectorFor,hs]
  split
  · next hsig =>
    constructor
    · intro hlive
      rw [hlive,Option.map_some,Option.some_inj] at hsig
      exact ⟨hlive,hsig.symm⟩
    · exact fun h => h.1
  · next hsig =>
    refine iff_of_false (fun h => by cases h) ?_
    rintro ⟨hlive,heq⟩
    rw [hlive,Option.map_some,heq] at hsig
    exact hsig rfl

omit [DecidableEq V] in
theorem build_eq_some {engine : Engine Fr V F E} {d : List (String × Value V)} {seed : Value V}
    {train val : Fr} {live : Live F (Fitted V E)}
    (h : build engine d seed train val = some live) :
    configuration? d = some live.detector.fitted.configuration ∧
      live.detector.fitted.seed = seed ∧
      live.detector.base = (DetectorFeedback.start live.kind live.detector.threshold ()).base := by
  obtain ⟨cfg,hcfg,h⟩ := Option.bind_eq_some_iff.mp h
  obtain ⟨fitted,-,h⟩ := Option.bind_eq_some_iff.mp h
  obtain rfl := Option.some.inj h
  exact ⟨hcfg,rfl,rfl⟩

/-- A request is scored by the retained detector, when that has its name and its windows, or by a
new one. -/
theorem chosen_cases {engine : Engine Fr V F E} {s : Api F V E} (hs : Signed s)
    {q : ScoreRequest Fr V} {live : Live F (Fitted V E)} {s' : Api F V E} {frame : Fr}
    (h : chosen engine s q = some (live,s',frame)) :
    (s.controller.detector = some live ∧ s' = s ∧ SameWindows q live) ∨
      (∀ old ∈ s.controller.detector, ¬ SameWindows q old) ∧ Own q live ∧
        live.detector.base = (DetectorFeedback.start live.kind live.detector.threshold ()).base ∧
        s' = attachDetector s live live.detector.fitted.configuration.signature := by
  rw [chosen] at h
  obtain ⟨frame',-,h⟩ := Option.bind_eq_some_iff.mp h
  obtain ⟨⟨train,val⟩,-,h⟩ := Option.bind_eq_some_iff.mp h
  obtain ⟨d,hd,h⟩ := Option.bind_eq_some_iff.mp h
  have hsame : ∀ old : Live F (Fitted V E), SameWindows q old ↔
      signature d = old.detector.fitted.configuration.signature := by
    intro old
    rw [SameWindows,hd,Option.map_some,Option.some_inj]
  cases hfor : detectorFor s d with
  | some old =>
    rw [hfor] at h
    obtain ⟨rfl,rfl,-⟩ : old = live ∧ s = s' ∧ frame' = frame := by simpa using h
    obtain ⟨hold,hsig⟩ := (detectorFor_eq_some hs d old).mp hfor
    exact .inl ⟨hold,rfl,(hsame old).mpr hsig⟩
  | none =>
    rw [hfor] at h
    obtain ⟨new,hbuild,h⟩ := Option.bind_eq_some_iff.mp h
    obtain ⟨rfl,rfl,-⟩ : new = live ∧ attachDetector s new (signature d) = s' ∧
      frame' = frame := by simpa using h
    obtain ⟨hcfg,hseed,hbase⟩ := build_eq_some hbuild
    refine .inr ⟨fun old hold hsig => ?_,⟨?_,hseed⟩,hbase,?_⟩
    · rw [(detectorFor_eq_some hs d old).mpr ⟨hold,(hsame old).mp hsig⟩] at hfor
      cases hfor
    · rw [ScoreRequest.configuration?,hd]
      exact hcfg
    · rw [signature_configuration hd hcfg]

end Signatures

/-! ## Runs -/

theorem update_fitted [Calibration F] (k : Kind) (d : Detector F E) (fb : FeedbackEvent) :
    (DetectorFeedback.update k d fb).2.fitted = d.fitted := by
  cases k <;> simp only [DetectorFeedback.update] <;> split <;> rfl

/-- What a detector says to feedback: it raises and keeps its calibration, or has learned it. -/
theorem applyTo_cases [Calibration F] (live : Live F E) (fb : FeedbackEvent) :
    ∃ live', live'.detector.fitted = live.detector.fitted ∧
      ((∃ e, applyTo true fb (some live) = (.error e,some live') ∧
          live'.detector.base = live.detector.base) ∨
        ∃ inc, applyTo true fb (some live) = (.ok true,some live') ∧
          validate live.detector.base fb = .ok inc ∧
          live'.detector.base = note (calibrate live.detector.base inc fb) fb) := by
  refine ⟨{ live with detector := (DetectorFeedback.update live.kind live.detector fb).2 },
    update_fitted ..,?_⟩
  rw [applyTo,if_pos rfl]
  cases hv : validate live.detector.base fb with
  | error e =>
    rw [DetectorFeedback.update_error hv]
    exact .inl ⟨e,rfl,rfl⟩
  | ok inc =>
    obtain ⟨hbase,hok⟩ := DetectorFeedback.update_ok (k:=live.kind) hv
    simp only [hok]
    exact .inr ⟨inc,rfl,rfl,hbase⟩

/-- What feedback does to the retained detector: it keeps its calibration when the call raises,
and has learned the feedback otherwise. -/
theorem processFeedback_detector [Calibration F] {c : IncidentController F E}
    {live : Live F E} (h : c.detector = some live) (auditId : String)
    (fb : FeedbackEvent) : ∃ live', (processFeedback auditId true c fb).2.detector = some live' ∧
      live'.detector.fitted = live.detector.fitted ∧
      ((∃ e, (processFeedback auditId true c fb).1 = .error e ∧
        live'.detector.base = live.detector.base) ∨
      ∃ reply inc, (processFeedback auditId true c fb).1 = .ok reply ∧
        validate live.detector.base fb = .ok inc ∧
        live'.detector.base = note (calibrate live.detector.base inc fb) fb) := by
  rw [processFeedback]
  cases VersionedStore.getIncident c.store fb.incidentId with
  | none => exact ⟨live,h,rfl,.inl ⟨_,rfl,rfl⟩⟩
  | some r =>
    dsimp only
    split
    · exact ⟨live,h,rfl,.inl ⟨_,rfl,rfl⟩⟩
    · rw [h]
      obtain ⟨live',hfitted,⟨e,heq,hbase⟩ | ⟨inc,heq,hvalid,hbase⟩⟩ := applyTo_cases live fb
      · rw [heq]
        exact ⟨live',rfl,hfitted,.inl ⟨e,rfl,hbase⟩⟩
      · rw [heq]
        exact ⟨live',rfl,hfitted,.inr ⟨_,inc,rfl,hvalid,hbase⟩⟩

theorem processFeedback_no_detector [Calibration F] {c : IncidentController F E}
    (h : c.detector = none) (auditId : String) (fb : FeedbackEvent) :
    (processFeedback auditId true c fb).2.detector = none := by
  rw [processFeedback]
  cases VersionedStore.getIncident c.store fb.incidentId with
  | none => exact h
  | some r =>
    dsimp only
    split
    · exact h
    · rw [h]
      rfl

theorem eq_nil_of_learned [Calibration F] {d : BaseDetector F} {fbs : List FeedbackEvent}
    (h : Learned d fbs) : d.feedbackLabels = [] → fbs = [] := by
  induction h with
  | new d => exact fun _ => rfl
  | found h emitted ih => exact ih
  | @taken d fbs h fb inc hvalid =>
    intro hnil
    have hkey : fb.incidentId ∈ (note (calibrate d inc fb) fb).feedbackLabels.map Prod.fst :=
      (TimeTable.mem_keys_upsert ..).mpr (.inl rfl)
    rw [hnil] at hkey
    cases hkey

section Runs

variable [DecidableEq V] [Calibration F] {engine : Engine Fr V F E}

/-- Before each call the controller is signed, and the retained detector has the calibration of
the feedback that such detectors have taken. -/
structure Kept (s : Session F V E) : Prop where
  signed : Signed s.toApi
  learned : ∀ live ∈ s.controller.detector, Learned live.detector.base
    (s.takenFor live.detector.fitted.configuration live.detector.fitted.seed)

theorem scoredByOwn_iff {s : Session F V E} (hs : Kept s) (call : Call Fr V F) :
    ScoredByOwn engine s call ↔ OwnOrFresh engine s call := by
  cases call with
  | causal report => exact Iff.rfl
  | feedback auditId fb => exact Iff.rfl
  | score q =>
    simp only [ScoredByOwn,OwnOrFresh]
    constructor
    · intro h hsome
      obtain ⟨⟨live,s',frame⟩,hchosen⟩ := Option.isSome_iff_exists.mp hsome
      obtain ⟨hown,hlearned⟩ := h live s' frame hchosen
      rcases chosen_cases hs.signed hchosen with ⟨hlive,-,-⟩ | ⟨hother,-,hbase,-⟩
      · exact .inl ⟨live,hlive,hown⟩
      · refine .inr ⟨hother,fun cfg hcfg => ?_⟩
        obtain rfl := Option.some.inj (hown.configuration.symm.trans hcfg)
        exact eq_nil_of_learned hlearned (by rw [hbase]; rfl)
    · intro h live s' frame hchosen
      rcases chosen_cases hs.signed hchosen with ⟨hlive,-,hsame⟩ | ⟨hother,hown,hbase,-⟩
      · rcases h (hchosen ▸ rfl) with ⟨live',hlive',hown⟩ | ⟨hother,-⟩
        · obtain rfl := Option.some.inj (hlive.symm.trans hlive')
          refine ⟨hown,?_⟩
          rw [← hown.seed]
          exact hs.learned live hlive
        · exact absurd hsame (hother live hlive)
      · refine ⟨hown,?_⟩
        rcases h (hchosen ▸ rfl) with ⟨live',hlive',hown'⟩ | ⟨-,hnone⟩
        · exact absurd hown'.sameWindows (hother live' hlive')
        · rw [hnone _ hown.configuration,hbase]
          exact .new _ rfl rfl rfl

omit [DecidableEq V] in
theorem learned_score {live : Live F (Fitted V E)} {fbs : List FeedbackEvent}
    (h : Learned live.detector.base fbs) (found : List (ScoredWindow F)) (fitted : Fitted V E) :
    Learned (DetectorFeedback.step live.kind live.detector (.score found fitted)).base fbs := by
  rw [DetectorFeedback.step,DetectorFeedback.foldl_register]
  exact h.found _

/-- Scoring changes what the detector has found, and its engine. -/
theorem v1Score_detector {s s' : Api F V E} {q : ScoreRequest Fr V}
    {live : Live F (Fitted V E)} {frame : Fr} (h : chosen engine s q = some (live,s',frame)) :
    ∃ live', (v1Score engine s q).2.controller.detector = some live' ∧
      (v1Score engine s q).2.detectorSignature = s'.detectorSignature ∧
      live'.detector.fitted.configuration = live.detector.fitted.configuration ∧
      live'.detector.fitted.seed = live.detector.fitted.seed ∧
      ∀ fbs, Learned live.detector.base fbs → Learned live'.detector.base fbs := by
  rw [v1Score,h]
  dsimp only
  split
  · exact ⟨_,rfl,rfl,rfl,rfl,fun _ hl => hl⟩
  · exact ⟨_,rfl,rfl,rfl,rfl,fun _ hl => learned_score hl _ _⟩

omit [Calibration F] in
theorem takenFor_append (s : Session F V E) (controller : IncidentController F (Fitted V E))
    (cfg cfg' : Configuration V) (seed seed' : Value V) (fb : FeedbackEvent) :
    ({ s with controller := controller, taken := s.taken++[((cfg,seed),fb)] } :
        Session F V E).takenFor cfg' seed' =
      s.takenFor cfg' seed'++if (cfg,seed) = (cfg',seed') then [fb] else [] := by
  rw [Session.takenFor,Session.takenFor,List.filter_append,List.map_append]
  congr 1
  by_cases hkey : (cfg,seed) = (cfg',seed')
  · rw [List.filter_cons_of_pos (by simpa using hkey),if_pos hkey]
    rfl
  · rw [List.filter_cons_of_neg (by simpa using hkey),if_neg hkey]
    rfl

theorem kept_score {s : Session F V E} (hs : Kept s) (q : ScoreRequest Fr V)
    (hcall : OwnOrFresh engine s (.score q)) : Kept (step engine s (.score q)) := by
  rw [step]
  cases hchosen : chosen engine s.toApi q with
  | none =>
    have hsame : (v1Score engine s.toApi q).2 = s.toApi := by rw [v1Score,hchosen]
    exact ⟨by rw [hsame]; exact hs.signed,by rw [hsame]; exact hs.learned⟩
  | some out =>
    obtain ⟨live,s',frame⟩ := out
    obtain ⟨hown,hlearned⟩ := (scoredByOwn_iff hs (.score q)).mpr hcall live s' frame hchosen
    obtain ⟨live',hlive',hsig,hcfg,hseed,hkeep⟩ := v1Score_detector hchosen
    refine ⟨?_,fun l hl => ?_⟩
    · rw [Signed,hsig,hlive',Option.map_some,hcfg]
      rcases chosen_cases hs.signed hchosen with ⟨hlive,rfl,-⟩ | ⟨-,-,-,rfl⟩
      · rw [hs.signed,hlive,Option.map_some]
      · rfl
    · obtain rfl := Option.some.inj (hlive'.symm.trans hl)
      rw [hcfg,hseed,hown.seed]
      exact hkeep _ hlearned

theorem kept_feedback (engine : Engine Fr V F E) {s : Session F V E} (hs : Kept s)
    (auditId : String) (fb : FeedbackEvent) : Kept (step engine s (.feedback auditId fb)) := by
  rw [step]
  cases hdet : s.controller.detector with
  | none =>
    have hnone := processFeedback_no_detector hdet auditId fb
    refine ⟨?_,fun l hl => ?_⟩
    · rw [Signed,hnone,hs.signed,hdet]
    · rw [hnone] at hl
      cases hl
  | some live =>
    obtain ⟨live',hlive',hfitted,hcases⟩ := processFeedback_detector hdet auditId fb
    have hlearned := hs.learned live hdet
    refine ⟨?_,fun l hl => ?_⟩
    · rw [Signed,hlive',hs.signed,hdet]
      simp only [Option.map_some,hfitted]
    · obtain rfl := Option.some.inj (hlive'.symm.trans hl)
      rw [hfitted]
      rcases hcases with ⟨e,hresult,hbase⟩ | ⟨reply,inc,hresult,hvalid,hbase⟩
      · simp only [hresult]
        rw [hbase]
        exact hlearned
      · simp only [hresult]
        rw [takenFor_append,if_pos rfl,hbase]
        exact hlearned.taken fb inc hvalid

theorem kept_step {s : Session F V E} (hs : Kept s) (call : Call Fr V F)
    (hcall : OwnOrFresh engine s call) : Kept (step engine s call) := by
  cases call with
  | score q => exact kept_score hs q hcall
  | feedback auditId fb => exact kept_feedback engine hs auditId fb
  | causal report => exact ⟨hs.signed,hs.learned⟩

/-- Every request of a run is scored by a detector of its own configuration and seed, with its
calibration, exactly when every request has those of the retained detector, or differs from it in
the name or the windows and no such detector has taken feedback. -/
theorem run_scoredByOwn_iff (engine : Engine Fr V F E) (calls : List (Call Fr V F)) :
    Transition.Along (step engine) (ScoredByOwn engine) {} calls ↔
      Transition.Along (step engine) (OwnOrFresh engine) {} calls :=
  Transition.Along.iff_of_invariant (step engine) (fun _ call hs => scoredByOwn_iff hs call)
    (fun _ call hs hcall => kept_step hs call hcall) calls {} ⟨rfl,fun _ h => by cases h⟩

end Runs

/-- An engine that takes every frame and finds nothing. -/
def silent : Engine Unit Unit ℚ Unit where
  split _ _ := some ((),())
  threshold _ := 1/2
  fit _ _ _ _ := some ()
  score _ _ := ((),some [])

/-- A request that asks for another FFT length than the default one. -/
def longerFft : Dict String (Entry Unit) where
  entries := [("detector",.dict [("n_fft",.number 32)])]
  unique := List.nodup_singleton _

/-- The second request is scored by the detector of the first one. -/
theorem longerFft_not_own : ¬ Transition.Along (step silent) (ScoredByOwn silent) {}
    [.score ⟨some (),none,.number 7⟩,.score ⟨some (),some longerFft,.number 7⟩] := by
  rintro ⟨-,h,-⟩
  obtain ⟨⟨hcfg,-⟩,-⟩ := h _ _ _ rfl
  exact absurd hcfg (by decide +kernel)

end DetectorCache
end ETraceDiag
