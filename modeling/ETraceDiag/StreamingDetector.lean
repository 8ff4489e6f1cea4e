import ETraceDiag.Incidents

/-!
# The streaming detector

`StreamingRobustDetector` of `detection/streaming.py`: robust statistics of every channel, and
thresholds for smoothed deviations from them.
-/

namespace ETraceDiag
namespace StreamingDetector

open AlignedGrid DataWindow DetectorFrames Dictionaries Incidents NumPy
open CausalInput (Direction)
open DetectorFeedback.Calibration (lit)

variable {F : Type}

structure Params (F : Type) where
  maker : SlidingWindowMaker
  ewmaAlpha : F
  potQuantile : F
  potMultiplier : F
  minObservedFrac : F

structure State (F : Type) where
  normalizer : Option (List (Channel × MetricStats F)) := none
  thresholds : List (Channel × F) := []
  sampleIntervalNs : ℕ := defaultInterval

section Fit

variable [NumPy F]

/-- The thresholds of the channels that the training frame observes. -/
def channelThresholds (p : Params F) (t : Training F) : List (Channel × F) :=
  (fitFrame t.train).map fun e =>
    (e.1,pointThreshold (lit 1 0) p.potQuantile p.potMultiplier t.cal e.1 e.2)

/-- `fit`, which does not use the seed; whether it returns, and the state after it. -/
def fit (p : Params F) (s : State F) (t : Training F) : Bool × State F :=
  if t.train.points = [] then (false,s)
  else (true,{
    normalizer := some (fitFrame t.train)
    thresholds := update s.thresholds (channelThresholds p t)
    sampleIntervalNs := (commonGap t.train).getD s.sampleIntervalNs })

/-- The same statistics, thresholds and interval. -/
structure Same (s s' : State F) : Prop where
  normalizer : s.normalizer = s'.normalizer
  thresholds : SameDict s.thresholds s'.thresholds
  sampleIntervalNs : s.sampleIntervalNs = s'.sampleIntervalNs

theorem mem_keys_channelThresholds (p : Params F) (t : Training F) (k : Channel) :
    k ∈ (channelThresholds p t).map Prod.fst ↔ ObservedIn t.train k := by
  rw [← mem_keys_fitFrame,channelThresholds,List.map_map]
  rfl

/-- After a first frame there are thresholds of the channels that it observes. -/
theorem mem_keys_fit_new (p : Params F) (t : Training F) (k : Channel) :
    k ∈ (fit p {} t).2.thresholds.map Prod.fst ↔ ObservedIn t.train k := by
  rw [fit]
  split
  · next hempty => exact iff_of_false List.not_mem_nil (not_observedIn hempty k)
  · exact (mem_keys_update_nil _ k).trans (mem_keys_channelThresholds p t k)

theorem interval_fit_new (p : Params F) (t : Training F) :
    (fit p {} t).2.sampleIntervalNs = (commonGap t.train).getD defaultInterval := by
  rw [fit]
  split
  · next hempty => rw [commonGap_eq_none hempty]; rfl
  · rfl

/-- What fitting leaves of an earlier frame: thresholds of channels that the later one does not
observe, and the interval when the later one has no gap. -/
theorem forgets_iff (p : Params F) (a b : Training F) : Forgets (fit p) Same {} a b ↔
    (b.train.points ≠ [] → (∀ k, ObservedIn a.train k → ObservedIn b.train k) ∧
      IntervalForgotten a.train b.train) := by
  by_cases hb : b.train.points = []
  · refine iff_of_true (fun h => ?_) fun h => absurd hb h
    rw [fit,if_pos hb] at h
    cases h
  · have hthresholds := sameDict_update_iff (fit p {} a).2.thresholds (channelThresholds p b)
    simp only [mem_keys_fit_new,mem_keys_channelThresholds] at hthresholds
    rw [imp_iff_right hb,← hthresholds,← intervalForgotten_iff,← interval_fit_new p a,Forgets]
    generalize (fit p {} a).2 = s
    rw [fit,fit,if_neg hb,if_neg hb]
    exact ⟨fun h => ⟨(h rfl).2.thresholds,(h rfl).2.sampleIntervalNs⟩,
      fun h _ => ⟨rfl,⟨rfl,h.1,h.2⟩⟩⟩

end Fit

/-! ## score -/

section Score

variable [NumPy F]

/-- The deviations of values, smoothed. -/
def ewma (p : Params F) (st : MetricStats F) (xs : List F) : Option F :=
  xs.foldl (fun e v =>
    match e with
    | none => some (robustZ st v)
    | some e => some (p.ewmaAlpha*robustZ st v+(lit 1 0-p.ewmaAlpha)*e)) none

variable (p : Params F) (adjustments : List (String × F)) (s : State F)

def threshold (k : Channel) : F :=
  applyAdjustment adjustments k.metricId ((s.thresholds.lookup k).getD (lit 4 0))

/-- What a metric and its column give in an aligned window. -/
def metricMark (stats : List (Channel × MetricStats F)) (a : AlignedSeries F) (m : String × ℕ) :
    Option (Mark F) :=
  match stats.lookup ⟨a.entityId,m.1⟩ with
  | none => none
  | some st =>
    match ewma p st (masked a m.2) with
    | none => none
    | some e =>
      let thr := threshold adjustments s ⟨a.entityId,m.1⟩
      if thr < NumPy.abs e then
        some ⟨m.1,ratio (NumPy.abs e) thr,if lit 0 0 < e then .up else .down⟩
      else none

/-- A metric of a discrete state, of whatever entity. -/
def StateMetric (w : Window F) (m : String) : Prop :=
  ∃ p ∈ w.frame.points, p.metricId = m ∧ IsState p

instance (w : Window F) (m : String) : Decidable (StateMetric w m) :=
  inferInstanceAs (Decidable (∃ _ ∈ _, _))

/-- `_observed_fraction`. -/
def observedFraction (a : AlignedSeries F) : F :=
  match a.observedMask with
  | [] => lit 0 0
  | row::rows =>
    let tot := (rows.length+1)*max 1 row.length
    let obs := ((row::rows).map fun row => row.count true).sum
    if tot ≠ 0 then lit obs 0/lit tot 0 else lit 1 0

/-- `_score_window`. -/
def scoreWindow (stats : List (Channel × MetricStats F)) (entityId : String) (w : Window F) :
    Option (Verdict F) :=
  let a := aligned w entityId s.sampleIntervalNs
  let marks := (a.metrics.zipIdx.filter fun m => ¬ StateMetric w m.1).filterMap
    (metricMark p adjustments s stats a)
  let missingFrac := lit 1 0-observedFraction a
  if p.minObservedFrac < missingFrac then
    if realMidStreamGap a then verdict (marks++[⟨quality,missingFrac,.missing⟩]) else none
  else verdict marks

/-- A direction gives way to another one, but not to `down`. -/
def keep (cur d : Direction) : Direction := if d ≠ .down then d else cur

/-- What `score` finds, unless the detector has not been fitted. -/
def score (frame : TelemetryFrame F) : Option (List (Incident F)) :=
  s.normalizer.map fun stats => found keep p.maker (scoreWindow p adjustments s stats) frame

/-! ## Missing data -/

/-- The smoothed deviation of the observed values is above the threshold. -/
def Above (a : AlignedSeries F) (m : String) : Prop :=
  ∃ stats ∈ s.normalizer, ∃ st ∈ stats.lookup ⟨a.entityId,m⟩,
    ∃ e ∈ ewma p st (masked a (a.metrics.idxOf m)),
      threshold adjustments s ⟨a.entityId,m⟩ < NumPy.abs e

variable {p adjustments s}

theorem above_of_metricMark {stats : List (Channel × MetricStats F)} (hstats : stats ∈ s.normalizer)
    {a : AlignedSeries F} {m : String × ℕ} (hm : m.2 = a.metrics.idxOf m.1) {mark : Mark F}
    (h : metricMark p adjustments s stats a m = some mark) :
    mark.name = m.1 ∧ Above p adjustments s a m.1 := by
  rw [metricMark] at h
  split at h
  · cases h
  · next st hst =>
    split at h
    · cases h
    · next e he =>
      dsimp only at h
      split at h
      · next hthr =>
        obtain rfl := Option.some.inj h
        exact ⟨rfl,stats,hstats,st,hst,e,hm ▸ he,hthr⟩
      · cases h

theorem shown_of_above {w : Window F} {entityId m : String}
    (h : Above p adjustments s (aligned w entityId s.sampleIntervalNs) m) :
    Shown w ⟨entityId,m⟩ := by
  obtain ⟨stats,-,st,-,e,he,-⟩ := h
  refine (observed_of_masked s.sampleIntervalNs fun hnone => ?_).2
  rw [hnone] at he
  cases he

/-- What is found in a window are metrics above their thresholds, or there is a gap. -/
theorem scoreWindow_spec {stats : List (Channel × MetricStats F)} (hstats : stats ∈ s.normalizer)
    {entityId : String} {w : Window F} {v : Verdict F}
    (h : scoreWindow p adjustments s stats entityId w = some v) :
    (∀ m ∈ v.scores.map Prod.fst, m ≠ quality →
      Above p adjustments s (aligned w entityId s.sampleIntervalNs) m) ∧
    (Gap s.sampleIntervalNs entityId w ∨ ∃ m ∈ v.scores.map Prod.fst,
      Above p adjustments s (aligned w entityId s.sampleIntervalNs) m) := by
  rw [scoreWindow] at h
  generalize ha : aligned w entityId s.sampleIntervalNs = a at h
  generalize hmarks : (a.metrics.zipIdx.filter fun m => ¬ StateMetric w m.1).filterMap
    (metricMark p adjustments s stats a) = marks at h
  have hmark : ∀ mark ∈ marks, Above p adjustments s a mark.name := by
    rw [← hmarks]
    intro mark hmark
    obtain ⟨m,hm,hmark⟩ := List.mem_filterMap.mp hmark
    have hidx := snd_eq_idxOf (ha ▸ nodup_metrics_aligned ..) (List.mem_of_mem_filter hm)
    obtain ⟨hname,habove⟩ := above_of_metricMark hstats hidx hmark
    rwa [hname]
  split at h
  · split at h
    · next hgap =>
      rw [verdict,if_neg (by simp)] at h
      obtain rfl := Option.some.inj h
      refine ⟨fun m hm hquality => ?_,.inl ?_⟩
      · obtain ⟨mark,hmem,rfl⟩ := (mem_keys_scoresOf _ m).mp hm
        rcases List.mem_append.mp hmem with hmem | hmem
        · exact hmark mark hmem
        · rw [List.mem_singleton.mp hmem] at hquality
          exact absurd rfl hquality
      · rw [Gap,ha]
        exact ((realMidStreamGap_iff a).mp hgap).2
    · cases h
  · rw [verdict] at h
    split at h
    · cases h
    · next hne =>
      obtain rfl := Option.some.inj h
      have hall : ∀ m ∈ (scoresOf marks).map Prod.fst, Above p adjustments s a m := by
        intro m hm
        obtain ⟨mark,hmem,rfl⟩ := (mem_keys_scoresOf _ m).mp hm
        exact hmark mark hmem
      refine ⟨fun m hm _ => hall m hm,.inr ?_⟩
      obtain ⟨mark,hmem⟩ := List.exists_mem_of_ne_nil marks (by simpa using hne)
      have hkey := (mem_keys_scoresOf marks mark.name).mpr ⟨mark,hmem,rfl⟩
      exact ⟨mark.name,hkey,hall _ hkey⟩

/-- The detector does not take missing data for an anomaly. -/
theorem score_missing (p : Params F) (adjustments : List (String × F)) (s : State F)
    (frame : TelemetryFrame F) (deleted : List Channel) :
    ∀ found ∈ score p adjustments s (without frame deleted),
      MissingIsNoAnomaly p.maker s.sampleIntervalNs (Above p adjustments s) frame deleted
        found := by
  intro found hfound
  obtain ⟨stats,hstats,rfl⟩ := Option.map_eq_some_iff.mp hfound
  refine missing_of_verdicts keep p.maker frame deleted (fun w entityId m => shown_of_above) ?_ ?_
  · exact fun entityId w v hv => (scoreWindow_spec hstats hv).1
  · exact fun entityId w v hv _ => (scoreWindow_spec hstats hv).2

end Score

end StreamingDetector
end ETraceDiag
