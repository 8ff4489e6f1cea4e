import ETraceDiag.Incidents

/-!
# The edge cascade

`EdgeCascadeDetector` of `detection/edge_cascade.py`: the resident event ring, the trend ring
that runs when it is needed, and the gate that puts their evidence together.
-/

namespace ETraceDiag
namespace EdgeCascade

open AlignedGrid DataWindow DetectorFrames Dictionaries FreqModel Incidents NumPy TimeTable
open CausalInput (Direction WindowStatus)
open DetectorFeedback (pyMax pyMin)
open DetectorFeedback.Calibration (lit)

variable {F : Type}

/-- Floats that are rounded to the numbers of states; NaN and the infinities are not. -/
class StateFloat (F : Type) extends NumPy F where
  round : F → ℤ
  ofInt : ℤ → F

structure Params (F : Type) where
  maker : SlidingWindowMaker
  lowFreq : ℕ
  nFft : ℤ
  eventPotQuantile : F
  eventPotMultiplier : F
  trendPotQuantile : F
  trendPotMultiplier : F
  confidenceThreshold : F
  maxMissingFrac : F
  driftResidualZ : F

def Params.trend (p : Params F) : TrendParams F where
  maker := p.maker
  lowFreq := p.lowFreq
  nFft := p.nFft
  potQuantile := p.trendPotQuantile
  potMultiplier := p.trendPotMultiplier

/-- Median and MAD by state, channel by channel. -/
abbrev StateMemory (F : Type) := List (Channel × List (ℤ × F × F))

structure State (F : Type) [Spectral F] where
  normalizer : Option (List (Channel × MetricStats F)) := none
  eventThresholds : List (Channel × F) := []
  trendModels : List (Channel × MetricFreqModel F) := []
  trendThresholds : List (Channel × F) := []
  sampleIntervalNs : ℕ := defaultInterval
  stateMemory : StateMemory F := []
  fitDone : Bool := false

section Fit

variable [StateFloat F]

/-- The states of each channel, each as often as it occurs; `round` has no answer for NaN. -/
def stateValues (train : TelemetryFrame F) : List (Channel × List (ℤ × List ℤ)) :=
  train.points.foldl (fun mem p =>
    match p.value with
    | none => mem
    | some v =>
      if ¬ IsState p ∨ NanFloat.isNan v then mem
      else
        let id := StateFloat.round v
        upsert (channelOf p) [] (upsert id [] (·++[id])) mem) []

/-- `round` raises for the value of a state that is infinite. -/
def InfiniteState (train : TelemetryFrame F) : Prop :=
  ∃ p ∈ train.points, IsState p ∧ ∃ v ∈ p.value, ¬ isFinite v ∧ ¬ NanFloat.isNan v

instance (train : TelemetryFrame F) : Decidable (InfiniteState train) :=
  inferInstanceAs (Decidable (∃ _ ∈ _, _))

/-- `_fit_state_memory`. -/
def fitStateMemory (train : TelemetryFrame F) : StateMemory F :=
  (stateValues train).map fun mem => (mem.1,mem.2.map fun state =>
    let values := state.2.map StateFloat.ofInt
    let med := NumPy.median values
    (state.1,med,madAround values med))

variable [Spectral F]

def eventThresholds (p : Params F) (t : Training F) : List (Channel × F) :=
  (fitFrame t.train).map fun e =>
    (e.1,pointThreshold (lit 15 1) p.eventPotQuantile p.eventPotMultiplier t.cal e.1 e.2)

/-- The windows of all channels. The order in which a window's entities come is that of a set. -/
def perMetricWindows (p : Params F) (sampleIntervalNs : ℕ) (train : TelemetryFrame F) :
    List (Channel × List (List F)) :=
  ((p.maker.windows train).flatMap fun w => (entities w.frame).map fun entityId =>
    aligned w entityId sampleIntervalNs).foldl (gatherWindow finite p.lowFreq) []

def newModels (p : Params F) (sampleIntervalNs : ℕ) (train : TelemetryFrame F) :
    List (Channel × MetricFreqModel F) :=
  trainModels p.trend (perMetricWindows p sampleIntervalNs train)

/-- What `fit` assigns for the two rings. -/
def fitRings (p : Params F) (s : State F) (t : Training F) : State F :=
  let sampleIntervalNs := (commonGap t.train).getD s.sampleIntervalNs
  let trendModels := update s.trendModels (newModels p sampleIntervalNs t.train)
  { s with
    normalizer := some (fitFrame t.train)
    eventThresholds := update s.eventThresholds (eventThresholds p t)
    trendModels := trendModels
    trendThresholds := update s.trendThresholds (trendModels.map fun e =>
      (e.1,trendThreshold p.trend sampleIntervalNs t.cal e.1 e.2))
    sampleIntervalNs := sampleIntervalNs }

/-- `fit`, which does not use the seed; whether it returns, and the state after it. -/
def fit (p : Params F) (s : State F) (t : Training F) : Bool × State F :=
  if t.train.points = [] then (false,s)
  else if InfiniteState t.train then (false,fitRings p s t)
  else (true,{ fitRings p s t with stateMemory := fitStateMemory t.train, fitDone := true })

/-- The same statistics, models, thresholds, memory of states and interval. -/
structure Same (s s' : State F) : Prop where
  normalizer : s.normalizer = s'.normalizer
  eventThresholds : SameDict s.eventThresholds s'.eventThresholds
  trendModels : SameDict s.trendModels s'.trendModels
  trendThresholds : SameDict s.trendThresholds s'.trendThresholds
  stateMemory : s.stateMemory = s'.stateMemory
  sampleIntervalNs : s.sampleIntervalNs = s'.sampleIntervalNs

/-! ## Fitting twice -/

/-- A model is made for the channel: two windows of enough finite values are on one grid. -/
def TrainableIn (p : Params F) (frame : TelemetryFrame F) (k : Channel) : Prop :=
  Trainable p.lowFreq p.nFft
    (samples finite p.lowFreq p.maker ((commonGap frame).getD defaultInterval) frame k)

omit [Spectral F] in
theorem mem_keys_eventThresholds (p : Params F) (t : Training F) (k : Channel) :
    k ∈ (eventThresholds p t).map Prod.fst ↔ ObservedIn t.train k := by
  rw [← mem_keys_fitFrame,eventThresholds,List.map_map]
  rfl

theorem mem_keys_newModels (p : Params F) (sampleIntervalNs : ℕ) (train : TelemetryFrame F)
    (k : Channel) : k ∈ (newModels p sampleIntervalNs train).map Prod.fst ↔
      Trainable p.lowFreq p.nFft
        (samples finite p.lowFreq p.maker sampleIntervalNs train k) := by
  have hnodup : ((perMetricWindows p sampleIntervalNs train).map Prod.fst).Nodup :=
    nodup_foldl_gatherWindow ..
  have hsets : ∀ w : Window F, (entities w.frame).Nodup := fun w =>
    (sortedSet_pairwise _).imp fun h => h.ne
  have hsamples : ((perMetricWindows p sampleIntervalNs train).lookup k).getD [] =
      samples finite p.lowFreq p.maker sampleIntervalNs train k := by
    rw [perMetricWindows,lookup_gathered finite p.lowFreq hsets,List.filterMap_filter]
    refine List.filterMap_congr fun w _ => ?_
    split
    · rfl
    · next hno => exact (sample_eq_none (by simpa using hno) _).symm
  rw [newModels,mem_keys_trainModels p.trend hnodup,hsamples]
  rfl

omit [Spectral F] in
theorem not_trainableIn (p : Params F) {frame : TelemetryFrame F} (h : frame.points = [])
    (k : Channel) : ¬ TrainableIn p frame k := by
  have hk : k.entityId ∉ entities frame := by
    rw [mem_entities,h]
    rintro ⟨q,hq,-⟩
    cases hq
  rw [TrainableIn,samples_eq_nil hk]
  rintro ⟨n,hn,-⟩
  cases hn

/-- What a first frame leaves, also when the call raises. -/
structure Leaves (p : Params F) (t : Training F) (s : State F) : Prop where
  events : ∀ k, k ∈ s.eventThresholds.map Prod.fst ↔ ObservedIn t.train k
  models : ∀ k, k ∈ s.trendModels.map Prod.fst ↔ TrainableIn p t.train k
  trends : ∀ k, k ∈ s.trendThresholds.map Prod.fst ↔ TrainableIn p t.train k
  interval : s.sampleIntervalNs = (commonGap t.train).getD defaultInterval
  unique : (s.trendModels.map Prod.fst).Nodup

theorem leaves_fit_new (p : Params F) (t : Training F) : Leaves p t (fit p {} t).2 := by
  rw [fit]
  split
  · next hempty =>
    refine ⟨?_,?_,?_,?_,List.nodup_nil⟩
    · exact fun k => iff_of_false List.not_mem_nil (not_observedIn hempty k)
    · exact fun k => iff_of_false List.not_mem_nil (not_trainableIn p hempty k)
    · exact fun k => iff_of_false List.not_mem_nil (not_trainableIn p hempty k)
    · rw [commonGap_eq_none hempty]
      rfl
  · have hleaves : Leaves p t (fitRings p {} t) := by
      have hmodels : ∀ k, k ∈ (fitRings p {} t).trendModels.map Prod.fst ↔
          TrainableIn p t.train k := fun k =>
        (mem_keys_update_nil _ k).trans (mem_keys_newModels p _ t.train k)
      refine ⟨?_,hmodels,?_,rfl,nodup_keys_update_nil _⟩
      · exact fun k => (mem_keys_update_nil _ k).trans (mem_keys_eventThresholds p t k)
      · intro k
        refine (mem_keys_update_nil _ k).trans ?_
        rw [List.map_map]
        exact hmodels k
    split
    · exact hleaves
    · exact ⟨hleaves.events,hleaves.models,hleaves.trends,rfl,hleaves.unique⟩

theorem fit_returns_iff (p : Params F) (s : State F) (t : Training F) :
    (fit p s t).1 = true ↔ t.train.points ≠ [] ∧ ¬ InfiniteState t.train := by
  rw [fit]
  split
  · next h => simp [h]
  · next h =>
    split
    · next hinf => simp [hinf]
    · next hinf => simp [h,hinf]

/-- What fitting leaves of an earlier frame: thresholds of channels that the later one does not
observe, models of channels that it does not have the windows for, and the interval when it has
no gap. -/
theorem forgets_iff (p : Params F) (a b : Training F) : Forgets (fit p) Same {} a b ↔
    (b.train.points ≠ [] → ¬ InfiniteState b.train →
      (∀ k, ObservedIn a.train k → ObservedIn b.train k) ∧
        (∀ k, TrainableIn p a.train k → TrainableIn p b.train k) ∧
          IntervalForgotten a.train b.train) := by
  rw [Forgets,fit_returns_iff,fit_returns_iff,and_imp]
  refine forall_congr' fun hb => forall_congr' fun hfinite => ?_
  rw [and_iff_right ⟨hb,hfinite⟩]
  have hold := leaves_fit_new p a
  rw [← intervalForgotten_iff,← hold.interval]
  generalize (fit p {} a).2 = s at hold
  have hevents := sameDict_update_iff s.eventThresholds (eventThresholds p b)
  simp only [hold.events,mem_keys_eventThresholds] at hevents
  have hnew := mem_keys_newModels p ((commonGap b.train).getD defaultInterval) b.train
  have hmodels := sameDict_update_iff s.trendModels
    (newModels p ((commonGap b.train).getD defaultInterval) b.train)
  simp only [hold.models,hnew] at hmodels
  have hfit : ∀ s : State F, (fit p s b).2 =
      { fitRings p s b with stateMemory := fitStateMemory b.train, fitDone := true } := by
    intro s
    rw [fit,if_neg hb,if_neg hfinite]
  rw [hfit,hfit]
  constructor
  · intro hsame
    have hint : (commonGap b.train).getD s.sampleIntervalNs =
        (commonGap b.train).getD defaultInterval := hsame.sampleIntervalNs
    have hm := hsame.trendModels
    simp only [fitRings,hint] at hm
    exact ⟨hevents.mp hsame.eventThresholds,hmodels.mp hm,hint⟩
  · rintro ⟨hobserved,hkeys,hint⟩
    have hm := hmodels.mpr hkeys
    simp only [fitRings,hint]
    refine ⟨rfl,hevents.mpr hobserved,hm,?_,rfl,rfl⟩
    refine sameDict_update_map (nodup_keys_update hold.unique _) (nodup_keys_update_nil _) hm _
      fun k hk => ?_
    exact (mem_keys_update_nil _ k).mpr ((hnew k).mpr (hkeys k ((hold.trends k).mp hk)))

end Fit

/-! ## The event ring -/

section Ring

variable [NumPy F]

/-- What the gate reads of `RingOutput`. -/
structure RingOutput (F : Type) where
  meanResidualZ : F
  missingFrac : F
  confidence : F

/-- The deviations of the observed values of a metric, from its statistics or among themselves. -/
def residuals (stats : List (Channel × MetricStats F)) (a : AlignedSeries F) (m : String) :
    List F :=
  let vals := finite a (a.metrics.idxOf m)
  match stats.lookup ⟨a.entityId,m⟩ with
  | some st => vals.map fun v => if lit 0 0 < st.mad then robustZ st v else lit 0 0
  | none => vals.map fun v => (v-NumPy.mean vals)/(NumPy.std vals+lit 1 9)

/-- `EventRing.evaluate` on the columns of some metrics. -/
def evaluate (stats : List (Channel × MetricStats F)) (a : AlignedSeries F)
    (metrics : List String) : RingOutput F :=
  if metrics = [] ∨ a.tsNs = [] then
    { meanResidualZ := lit 0 0, missingFrac := lit 1 0, confidence := lit 0 0 }
  else
    let total := a.tsNs.length*metrics.length
    let nObserved := (metrics.map fun m => (finite a (a.metrics.idxOf m)).length).sum
    let missingFrac := lit 1 0-lit nObserved 0/lit (max total 1) 0
    let residualZs := (metrics.flatMap (residuals stats a)).map NumPy.abs
    let maxResidualZ := match residualZs with
      | [] => lit 0 0
      | z::zs => zs.foldl pyMax z
    let qualityConf := lit 1 0-missingFrac
    let signalConf :=
      if lit 5 1 < maxResidualZ then pyMin (lit 1 0) (maxResidualZ/lit 8 0) else lit 3 1
    { meanResidualZ := if residualZs.isEmpty then lit 0 0 else NumPy.mean residualZs
      missingFrac := missingFrac
      confidence := lit 7 1*qualityConf+lit 3 1*signalConf }

end Ring

/-! ## score -/

section Score

variable [StateFloat F] [Spectral F] (p : Params F) (adjustments : List (String × F))
  (s : State F) (stats : List (Channel × MetricStats F))

def eventThreshold (k : Channel) : F :=
  applyAdjustment adjustments k.metricId ((s.eventThresholds.lookup k).getD (lit 4 0))

def trendThresholdOf (k : Channel) : F :=
  applyAdjustment adjustments k.metricId ((s.trendThresholds.lookup k).getD (lit 2 0))

/-- The metrics of an entity, numeric ones and states, after the first point of each. -/
def splitMetrics (entityId : String) (w : Window F) : List String × List String :=
  w.frame.points.foldl (fun ms p =>
    if p.entityId ≠ entityId then ms
    else if p.metricId ∈ ms.2 ∨ p.metricId ∈ ms.1 then ms
    else if IsState p then (ms.1,ms.2++[p.metricId])
    else (ms.1++[p.metricId],ms.2)) ([],[])

/-- The largest deviation of values, if there are any. -/
def zmax (st : MetricStats F) (arr : List F) : Option F :=
  match arr.map fun v => NumPy.abs (robustZ st v) with
  | [] => none
  | z::zs => some (zs.foldl npMax z)

/-- What the event ring gives for a metric. -/
def eventMark (a : AlignedSeries F) (m : String) : Option (Mark F) :=
  match stats.lookup ⟨a.entityId,m⟩ with
  | none => none
  | some st =>
    let arr := finite a (a.metrics.idxOf m)
    match zmax st arr with
    | none => some ⟨quality,lit 1 0,.missing⟩
    | some z =>
      let thr := eventThreshold adjustments s ⟨a.entityId,m⟩
      if thr < z then
        some ⟨m,ratio z thr,if st.median < NumPy.mean arr then .up else .down⟩
      else none

/-- What the trend ring gives for a metric. -/
def trendMark (a : AlignedSeries F) (m : String) : Option (Mark F) :=
  match s.trendModels.lookup ⟨a.entityId,m⟩ with
  | none => none
  | some model =>
    let arr := finite a (a.metrics.idxOf m)
    if arr.length < p.lowFreq+4 then none
    else
      let score := (FreqModel.score model arr).1
      let thr := trendThresholdOf adjustments s ⟨a.entityId,m⟩
      if thr < score then
        some ⟨m,ratio score thr,if model.median < NumPy.mean arr then .up else .down⟩
      else none

/-- A metric that both rings give, in one direction. -/
def strongMark (event trend : List (Mark F)) (m : String) : Option (Mark F) :=
  match (scoresOf event).lookup m,(scoresOf trend).lookup m with
  | some e,some t =>
    if (directionsOf event).lookup m = (directionsOf trend).lookup m then
      some ⟨m,pyMax e t,((directionsOf event).lookup m).getD .mixed⟩
    else none
  | _,_ => none

/-- A metric that one ring gives, or both in different directions. -/
def uncertainMark (event trend : List (Mark F)) (m : String) : Option (Mark F) :=
  let direction :=
    (((directionsOf event).lookup m).or ((directionsOf trend).lookup m)).getD Direction.mixed
  match (scoresOf event).lookup m,(scoresOf trend).lookup m with
  | some e,some t =>
    if (directionsOf event).lookup m = (directionsOf trend).lookup m then none
    else some ⟨m,pyMax e t,direction⟩
  | some e,none => some ⟨m,e,direction⟩
  | none,some t => some ⟨m,t,direction⟩
  | none,none => none

/-- The cross-scale consistency gate. -/
def gate (event trend : List (Mark F)) (metrics : List String) : Option (Verdict F) :=
  let strong := metrics.filterMap (strongMark event trend)
  let uncertain := metrics.filterMap (uncertainMark event trend)
  let missing : List (Mark F) := match (scoresOf event).lookup quality with
    | none => []
    | some q => [⟨quality,q,.missing⟩]
  if strong ≠ [] then
    let marks := uncertain++strong++missing
    some ⟨scoresOf marks,directionsOf marks,.anomaly⟩
  else if missing ≠ [] then some ⟨scoresOf missing,directionsOf missing,.uncertain⟩
  else if uncertain ≠ [] then some ⟨scoresOf uncertain,directionsOf uncertain,.uncertain⟩
  else none

/-- A score counts half when the last value of its metric is one that a state normally has. -/
def dampen (a : AlignedSeries F) (med mad : F) (e : String × F) : String × F :=
  if e.1 = quality ∨ (stats.lookup ⟨a.entityId,e.1⟩).isNone then e
  else
    match (finite a (a.metrics.idxOf e.1)).getLast? with
    | none => e
    | some x => if lit 2 0*(mad+lit 1 9) < NumPy.abs (x-med) then e else (e.1,e.2*lit 5 1)

/-- `_state_branch`, from where it is known that there is a state point; a state that has not
been seen in training ends it. -/
def stateBranch (a : AlignedSeries F) : List String → List (String × F) → List (String × F)
  | [],scores => scores
  | m::ms,scores =>
    if m ∉ a.metrics then scores
    else
      match (finite a (a.metrics.idxOf m)).getLast? with
      | none => scores
      | some x =>
        match ((s.stateMemory.lookup ⟨a.entityId,m⟩).getD []).lookup (StateFloat.round x) with
        | none => scores
        | some (med,mad) => stateBranch a ms (scores.map (dampen stats a med mad))

/-- The windows that the trend ring runs for. -/
def NeedTrend (event : List (Mark F)) (ring : RingOutput F) : Prop :=
  let eventTrigger := event ≠ [] ∧ quality ∉ event.map Mark.name
  eventTrigger ∨ ring.confidence < p.confidenceThreshold ∨
    (p.driftResidualZ < ring.meanResidualZ ∧ ¬ eventTrigger) ∨ quality ∈ event.map Mark.name

instance (event : List (Mark F)) (ring : RingOutput F) : Decidable (NeedTrend p event ring) :=
  inferInstanceAs (Decidable (_ ∨ _ ∨ _ ∧ _ ∨ _))

/-- What the event ring gives for the metrics, and for too many missing cells. -/
def eventMarks (a : AlignedSeries F) (metrics : List String) : List (Mark F) :=
  let ring := evaluate stats a metrics
  let marks := metrics.filterMap (eventMark adjustments s stats a)
  if p.maxMissingFrac < ring.missingFrac then
    marks++[⟨quality,pyMin (lit 1 0) ring.missingFrac,.missing⟩]
  else marks

/-- What the trend ring gives for the metrics, where it runs. -/
def trendMarks (a : AlignedSeries F) (metrics : List String) (event : List (Mark F)) :
    List (Mark F) :=
  if NeedTrend p event (evaluate stats a metrics) then
    metrics.filterMap (trendMark p adjustments s a)
  else []

/-- `_score_window`; `hasState` says whether there is a state point of the entity. -/
def scoreWindow (hasState : String → Bool) (entityId : String) (w : Window F) :
    Option (Verdict F) :=
  let a := aligned w entityId s.sampleIntervalNs
  let (numericMetrics,stateMetrics) := splitMetrics entityId w
  let ring := evaluate stats a numericMetrics
  if a.tsNs = [] ∨ p.maxMissingFrac < ring.missingFrac ∧ ¬ realMidStreamGap a then none
  else
    let event := eventMarks p adjustments s stats a numericMetrics
    let trend := trendMarks p adjustments s stats a numericMetrics event
    (gate event trend numericMetrics).map fun v =>
      if hasState entityId then { v with scores := stateBranch s stats a stateMetrics v.scores }
      else v

/-- What `score` finds, unless the detector has not been fitted. -/
def score (state : Option (TelemetryFrame F)) (frame : TelemetryFrame F) :
    Option (List (Incident F)) :=
  match s.normalizer with
  | none => none
  | some stats =>
    if s.fitDone then
      let hasState := fun entityId => state.any fun state => entityId ∈ entities state
      some (found keepFirst p.maker (scoreWindow p adjustments s stats hasState) frame)
    else none

/-! ## Missing data -/

/-- The largest deviation of the observed finite values is above the threshold of the event
ring. -/
def EventAbove (a : AlignedSeries F) (m : String) : Prop :=
  ∃ stats ∈ s.normalizer, ∃ st ∈ stats.lookup ⟨a.entityId,m⟩,
    ∃ z ∈ zmax st (finite a (a.metrics.idxOf m)), eventThreshold adjustments s ⟨a.entityId,m⟩ < z

/-- There are enough observed finite values, and the model of the trend ring scores them above
its threshold. -/
def TrendAbove (a : AlignedSeries F) (m : String) : Prop :=
  ∃ model ∈ s.trendModels.lookup ⟨a.entityId,m⟩,
    p.lowFreq+4 ≤ (finite a (a.metrics.idxOf m)).length ∧
      trendThresholdOf adjustments s ⟨a.entityId,m⟩ <
        (FreqModel.score model (finite a (a.metrics.idxOf m))).1

/-- One of the rings has the metric above its threshold. -/
def Above (a : AlignedSeries F) (m : String) : Prop :=
  EventAbove adjustments s a m ∨ TrendAbove p adjustments s a m

variable {p adjustments s stats}

theorem shown_of_above {w : Window F} {entityId m : String}
    (h : Above p adjustments s (aligned w entityId s.sampleIntervalNs) m) :
    Shown w ⟨entityId,m⟩ := by
  refine (observed_of_finite s.sampleIntervalNs fun hnone => ?_).2
  rcases h with ⟨stats,-,st,-,z,hz,-⟩ | ⟨model,-,hlong,-⟩
  · rw [hnone] at hz
    cases hz
  · rw [hnone] at hlong
    exact absurd hlong (Nat.not_succ_le_zero _)

theorem above_of_eventMark (hstats : stats ∈ s.normalizer) {a : AlignedSeries F} {m : String}
    {mark : Mark F} (h : eventMark adjustments s stats a m = some mark)
    (hquality : mark.name ≠ quality) : EventAbove adjustments s a mark.name := by
  rw [eventMark] at h
  split at h
  · cases h
  · next st hst =>
    dsimp only at h
    split at h
    · obtain rfl := Option.some.inj h
      exact absurd rfl hquality
    · next z hz =>
      split at h
      · next hthr =>
        obtain rfl := Option.some.inj h
        exact ⟨stats,hstats,st,hst,z,hz,hthr⟩
      · cases h

theorem above_of_trendMark {a : AlignedSeries F} {m : String} {mark : Mark F}
    (h : trendMark p adjustments s a m = some mark) : TrendAbove p adjustments s a mark.name := by
  rw [trendMark] at h
  split at h
  · cases h
  · next model hmodel =>
    dsimp only at h
    split at h
    · cases h
    · next hlong =>
      split at h
      · next hthr =>
        obtain rfl := Option.some.inj h
        exact ⟨model,hmodel,Nat.not_lt.mp hlong,hthr⟩
      · cases h

omit [StateFloat F] [Spectral F] in
theorem exists_mark {marks : List (Mark F)} {m : String} {x : F}
    (h : (scoresOf marks).lookup m = some x) : ∃ mark ∈ marks, mark.name = m :=
  (mem_keys_scoresOf marks m).mp (mem_keys_iff.mpr ⟨x,h⟩)

omit [Spectral F] in
/-- What the gate calls strong is given by both rings. -/
theorem strongMark_spec {event trend : List (Mark F)} {m : String} {mark : Mark F}
    (h : strongMark event trend m = some mark) :
    mark.name = m ∧ (∃ e ∈ event, e.name = m) ∧ ∃ t ∈ trend, t.name = m := by
  rw [strongMark] at h
  split at h
  · next e t he ht =>
    split at h
    · obtain rfl := Option.some.inj h
      exact ⟨rfl,exists_mark he,exists_mark ht⟩
    · cases h
  · cases h

omit [Spectral F] in
theorem uncertainMark_spec {event trend : List (Mark F)} {m : String} {mark : Mark F}
    (h : uncertainMark event trend m = some mark) :
    mark.name = m ∧ ((∃ e ∈ event, e.name = m) ∨ ∃ t ∈ trend, t.name = m) := by
  rw [uncertainMark] at h
  split at h
  · next e t he _ =>
    split at h
    · cases h
    · obtain rfl := Option.some.inj h
      exact ⟨rfl,.inl (exists_mark he)⟩
  · next e he _ =>
    obtain rfl := Option.some.inj h
    exact ⟨rfl,.inl (exists_mark he)⟩
  · next t _ ht =>
    obtain rfl := Option.some.inj h
    exact ⟨rfl,.inr (exists_mark ht)⟩
  · cases h

omit [Spectral F] in
theorem trend_of_strongMarks {event trend : List (Mark F)} {metrics : List String} {mark : Mark F}
    (h : mark ∈ metrics.filterMap (strongMark event trend)) :
    ∃ t ∈ trend, t.name = mark.name := by
  obtain ⟨m,-,hmark⟩ := List.mem_filterMap.mp h
  obtain ⟨rfl,-,ht⟩ := strongMark_spec hmark
  exact ht

omit [Spectral F] in
theorem ring_of_uncertainMarks {event trend : List (Mark F)} {metrics : List String}
    {mark : Mark F} (h : mark ∈ metrics.filterMap (uncertainMark event trend)) :
    (∃ e ∈ event, e.name = mark.name) ∨ ∃ t ∈ trend, t.name = mark.name := by
  obtain ⟨m,-,hmark⟩ := List.mem_filterMap.mp h
  obtain ⟨rfl,hring⟩ := uncertainMark_spec hmark
  exact hring

omit [Spectral F] in
/-- The gate passes on what the rings give, and an anomaly has something of the trend ring. -/
theorem gate_spec {event trend : List (Mark F)} {metrics : List String} {v : Verdict F}
    (h : gate event trend metrics = some v) :
    (∀ m ∈ v.scores.map Prod.fst, m ≠ quality →
      (∃ e ∈ event, e.name = m) ∨ ∃ t ∈ trend, t.name = m) ∧
    (v.status = .anomaly → ∃ m ∈ v.scores.map Prod.fst, ∃ t ∈ trend, t.name = m) := by
  have huncertain : ∀ mark ∈ metrics.filterMap (uncertainMark event trend),
      (∃ e ∈ event, e.name = mark.name) ∨ ∃ t ∈ trend, t.name = mark.name :=
    fun _ hmark => ring_of_uncertainMarks hmark
  have hstrong : ∀ mark ∈ metrics.filterMap (strongMark event trend),
      ∃ t ∈ trend, t.name = mark.name := fun _ hmark => trend_of_strongMarks hmark
  rw [gate] at h
  generalize metrics.filterMap (uncertainMark event trend) = uncertain at h huncertain
  generalize metrics.filterMap (strongMark event trend) = strong at h hstrong
  generalize hmissing : (match (scoresOf event).lookup quality with
    | none => []
    | some q => [(⟨quality,q,.missing⟩ : Mark F)]) = missing at h
  have hquality : ∀ mark ∈ missing, mark.name = quality := by
    rw [← hmissing]
    intro mark hmark
    split at hmark
    · cases hmark
    · rw [List.mem_singleton.mp hmark]
  dsimp only at h
  split at h
  · next hne =>
    obtain rfl := Option.some.inj h
    refine ⟨fun m hm hnot => ?_,fun _ => ?_⟩
    · obtain ⟨mark,hmark,rfl⟩ := (mem_keys_scoresOf _ m).mp hm
      rcases List.mem_append.mp hmark with hmark | hmark
      · rcases List.mem_append.mp hmark with hmark | hmark
        · exact huncertain mark hmark
        · exact .inr (hstrong mark hmark)
      · exact absurd (hquality mark hmark) hnot
    · obtain ⟨mark,hmark⟩ := List.exists_mem_of_ne_nil strong hne
      refine ⟨mark.name,(mem_keys_scoresOf _ _).mpr ⟨mark,?_,rfl⟩,hstrong mark hmark⟩
      exact List.mem_append_left _ (List.mem_append_right _ hmark)
  · split at h
    · obtain rfl := Option.some.inj h
      refine ⟨fun m hm hnot => ?_,fun hstatus => by cases hstatus⟩
      obtain ⟨mark,hmark,rfl⟩ := (mem_keys_scoresOf _ m).mp hm
      exact absurd (hquality mark hmark) hnot
    · split at h
      · obtain rfl := Option.some.inj h
        refine ⟨fun m hm _ => ?_,fun hstatus => by cases hstatus⟩
        obtain ⟨mark,hmark,rfl⟩ := (mem_keys_scoresOf _ m).mp hm
        exact huncertain mark hmark
      · cases h

theorem keys_stateBranch (a : AlignedSeries F) (ms : List String) :
    ∀ scores : List (String × F),
      (stateBranch s stats a ms scores).map Prod.fst = scores.map Prod.fst := by
  induction ms with
  | nil => exact fun _ => rfl
  | cons m ms ih =>
    intro scores
    rw [stateBranch]
    split
    · rfl
    · split
      · rfl
      · split
        · rfl
        · next med mad _ =>
          rw [ih,List.map_map]
          refine List.map_congr_left fun e _ => ?_
          rw [Function.comp_apply,dampen]
          split
          · rfl
          · split
            · rfl
            · split <;> rfl

theorem above_of_eventMarks (hstats : stats ∈ s.normalizer) {a : AlignedSeries F}
    {metrics : List String} {e : Mark F} (he : e ∈ eventMarks p adjustments s stats a metrics)
    (hquality : e.name ≠ quality) : EventAbove adjustments s a e.name := by
  have hring : ∀ e ∈ metrics.filterMap (eventMark adjustments s stats a),
      e.name ≠ quality → EventAbove adjustments s a e.name := by
    intro e he hquality
    obtain ⟨m,-,hmark⟩ := List.mem_filterMap.mp he
    exact above_of_eventMark hstats hmark hquality
  rw [eventMarks] at he
  split at he
  · rcases List.mem_append.mp he with he | he
    · exact hring e he hquality
    · rw [List.mem_singleton.mp he] at hquality
      exact absurd rfl hquality
  · exact hring e he hquality

theorem above_of_trendMarks {a : AlignedSeries F} {metrics : List String} {event : List (Mark F)}
    {t : Mark F} (ht : t ∈ trendMarks p adjustments s stats a metrics event) :
    TrendAbove p adjustments s a t.name := by
  rw [trendMarks] at ht
  split at ht
  · obtain ⟨m,-,hmark⟩ := List.mem_filterMap.mp ht
    exact above_of_trendMark hmark
  · cases ht

/-- What is found in a window are metrics above a threshold, and an anomaly has one. -/
theorem scoreWindow_spec (hstats : stats ∈ s.normalizer) {hasState : String → Bool}
    {entityId : String} {w : Window F} {v : Verdict F}
    (h : scoreWindow p adjustments s stats hasState entityId w = some v) :
    (∀ m ∈ v.scores.map Prod.fst, m ≠ quality →
      Above p adjustments s (aligned w entityId s.sampleIntervalNs) m) ∧
    (v.status = .anomaly → ∃ m ∈ v.scores.map Prod.fst,
      Above p adjustments s (aligned w entityId s.sampleIntervalNs) m) := by
  rw [scoreWindow] at h
  generalize aligned w entityId s.sampleIntervalNs = a at h
  generalize splitMetrics entityId w = metrics at h
  obtain ⟨numericMetrics,stateMetrics⟩ := metrics
  dsimp only at h
  split at h
  · cases h
  · obtain ⟨u,hgate,rfl⟩ := Option.map_eq_some_iff.mp h
    obtain ⟨hscores,hanomaly⟩ := gate_spec hgate
    have hsame : ∀ v, v = (if hasState entityId then
        { u with scores := stateBranch s stats a stateMetrics u.scores } else u) →
          v.scores.map Prod.fst = u.scores.map Prod.fst ∧ v.status = u.status := by
      rintro v rfl
      split
      · exact ⟨keys_stateBranch a stateMetrics u.scores,rfl⟩
      · exact ⟨rfl,rfl⟩
    obtain ⟨hkeys,hstatus⟩ := hsame _ rfl
    rw [hkeys,hstatus]
    refine ⟨fun m hm hquality => ?_,fun hverdict => ?_⟩
    · obtain ⟨e,he,rfl⟩ | ⟨t,ht,rfl⟩ := hscores m hm hquality
      · exact .inl (above_of_eventMarks hstats he hquality)
      · exact .inr (above_of_trendMarks ht)
    · obtain ⟨m,hm,t,ht,rfl⟩ := hanomaly hverdict
      exact ⟨t.name,hm,.inr (above_of_trendMarks ht)⟩

/-- The detector does not take missing data for an anomaly. -/
theorem score_missing (p : Params F) (adjustments : List (String × F)) (s : State F)
    (state : Option (TelemetryFrame F)) (frame : TelemetryFrame F) (deleted : List Channel) :
    ∀ found ∈ score p adjustments s state (without frame deleted),
      MissingIsNoAnomaly p.maker s.sampleIntervalNs (Above p adjustments s) frame deleted
        found := by
  intro found hfound
  rw [score] at hfound
  split at hfound
  · cases hfound
  · next stats hstats =>
    dsimp only at hfound
    split at hfound
    · obtain rfl := Option.some.inj hfound
      refine missing_of_verdicts keepFirst p.maker frame deleted
        (fun w entityId m => shown_of_above) ?_ ?_
      · exact fun entityId w v hv => (scoreWindow_spec hstats hv).1
      · exact fun entityId w v hv hstatus => .inr ((scoreWindow_spec hstats hv).2 hstatus)
    · cases hfound

end Score

end EdgeCascade
end ETraceDiag
