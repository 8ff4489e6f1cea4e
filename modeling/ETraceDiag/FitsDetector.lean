import ETraceDiag.Incidents

/-!
# The frequency detector

`FITSDetector` of `detection/fits_adapter.py`: a frequency model for every channel that has
enough windows, and thresholds for its residuals.
-/

namespace ETraceDiag
namespace FitsDetector

open AlignedGrid DataWindow DetectorFrames Dictionaries FreqModel Incidents NumPy
open DetectorFeedback.Calibration (lit)

variable {F : Type}

structure State (F : Type) [Spectral F] where
  models : List (Channel × MetricFreqModel F) := []
  thresholds : List (Channel × F) := []
  sampleIntervalNs : ℕ := defaultInterval
  fitDone : Bool := false

section Fit

variable [NumPy F] [Spectral F]

/-- The windows of an entity, metric by metric. -/
def perMetricWindows (p : TrendParams F) (sampleIntervalNs : ℕ) (train : TelemetryFrame F)
    (entityId : String) : List (Channel × List (List F)) :=
  ((p.maker.windows train).map fun w => aligned w entityId sampleIntervalNs).foldl
    (gatherWindow masked p.lowFreq) []

/-- The models that `fit` makes from a frame. -/
def newModels (p : TrendParams F) (sampleIntervalNs : ℕ) (train : TelemetryFrame F) :
    List (Channel × MetricFreqModel F) :=
  (entities train).flatMap fun entityId =>
    trainModels p (perMetricWindows p sampleIntervalNs train entityId)

/-- `fit`, which does not use the seed; whether it returns, and the state after it. -/
def fit (p : TrendParams F) (s : State F) (t : Training F) : Bool × State F :=
  let sampleIntervalNs := (commonGap t.train).getD s.sampleIntervalNs
  let models := update s.models (newModels p sampleIntervalNs t.train)
  (true,{
    models := models
    thresholds := update s.thresholds (models.map fun e =>
      (e.1,trendThreshold p sampleIntervalNs t.cal e.1 e.2))
    sampleIntervalNs := sampleIntervalNs
    fitDone := true })

/-- The same models, thresholds and interval. -/
structure Same (s s' : State F) : Prop where
  models : SameDict s.models s'.models
  thresholds : SameDict s.thresholds s'.thresholds
  sampleIntervalNs : s.sampleIntervalNs = s'.sampleIntervalNs

/-! ## Fitting twice -/

/-- A model is made for the channel: two windows of enough values are on one grid. -/
def TrainableIn (p : TrendParams F) (frame : TelemetryFrame F) (k : Channel) : Prop :=
  Trainable p.lowFreq p.nFft
    (samples masked p.lowFreq p.maker ((commonGap frame).getD defaultInterval) frame k)

omit [Spectral F] in
theorem lookup_perMetricWindows (p : TrendParams F) (sampleIntervalNs : ℕ)
    (train : TelemetryFrame F) (entityId : String) (k : Channel) :
    ((perMetricWindows p sampleIntervalNs train entityId).lookup k).getD [] =
      if k.entityId = entityId then
        samples masked p.lowFreq p.maker sampleIntervalNs train k else [] := by
  have hmap : (p.maker.windows train).map (fun w => aligned w entityId sampleIntervalNs) =
      (p.maker.windows train).flatMap fun w => [entityId].map fun e =>
        aligned w e sampleIntervalNs := List.map_eq_flatMap
  rw [perMetricWindows,hmap,lookup_gathered masked p.lowFreq (fun _ => List.nodup_singleton _)]
  by_cases hk : k.entityId = entityId
  · rw [if_pos hk,List.filter_eq_self.mpr fun _ _ => by simpa using hk]
    rfl
  · rw [if_neg hk,List.filter_eq_nil_iff.mpr fun _ _ => by simpa using hk]
    rfl

theorem mem_keys_newModels (p : TrendParams F) (sampleIntervalNs : ℕ) (train : TelemetryFrame F)
    (k : Channel) : k ∈ (newModels p sampleIntervalNs train).map Prod.fst ↔
      Trainable p.lowFreq p.nFft
        (samples masked p.lowFreq p.maker sampleIntervalNs train k) := by
  have hentity : ∀ entityId, k ∈ (trainModels p
      (perMetricWindows p sampleIntervalNs train entityId)).map Prod.fst ↔
      Trainable p.lowFreq p.nFft (if k.entityId = entityId then
        samples masked p.lowFreq p.maker sampleIntervalNs train k else []) := by
    intro entityId
    have hnodup : ((perMetricWindows p sampleIntervalNs train entityId).map Prod.fst).Nodup :=
      nodup_foldl_gatherWindow ..
    rw [mem_keys_trainModels p hnodup,lookup_perMetricWindows]
  have hnone : ¬ Trainable p.lowFreq p.nFft ([] : List (List F)) := by
    rintro ⟨n,hn,-⟩
    cases hn
  rw [newModels,List.map_flatMap,List.mem_flatMap]
  simp only [hentity]
  constructor
  · rintro ⟨entityId,-,h⟩
    split at h
    · exact h
    · exact absurd h hnone
  · intro h
    refine ⟨k.entityId,?_,by rwa [if_pos rfl]⟩
    by_contra hk
    rw [samples_eq_nil hk] at h
    exact hnone h

/-- After a first frame there are models, and thresholds, of its trainable channels. -/
theorem mem_keys_fit_new (p : TrendParams F) (t : Training F) (k : Channel) :
    (k ∈ (fit p {} t).2.models.map Prod.fst ↔ TrainableIn p t.train k) ∧
      (k ∈ (fit p {} t).2.thresholds.map Prod.fst ↔ TrainableIn p t.train k) := by
  have hmodels : k ∈ (fit p {} t).2.models.map Prod.fst ↔ TrainableIn p t.train k :=
    (mem_keys_update_nil _ k).trans (mem_keys_newModels p _ t.train k)
  refine ⟨hmodels,(mem_keys_update_nil _ k).trans ?_⟩
  rw [List.map_map]
  exact hmodels

/-- What fitting leaves of an earlier frame: models of channels that the later one does not have
the windows for, and the interval when the later one has no gap. -/
theorem forgets_iff (p : TrendParams F) (a b : Training F) : Forgets (fit p) Same {} a b ↔
    (∀ k, TrainableIn p a.train k → TrainableIn p b.train k) ∧
      IntervalForgotten a.train b.train := by
  have hinterval : (fit p {} a).2.sampleIntervalNs = (commonGap a.train).getD defaultInterval := rfl
  have hold := mem_keys_fit_new p a
  have hnew := mem_keys_newModels p ((commonGap b.train).getD defaultInterval) b.train
  have hnodup : ((fit p {} a).2.models.map Prod.fst).Nodup := nodup_keys_update_nil _
  have hreturns : (fit p {} b).1 = true := rfl
  rw [← intervalForgotten_iff,← hinterval,Forgets,imp_iff_right hreturns]
  generalize (fit p {} a).2 = s at hold hnodup
  have hmodels := sameDict_update_iff s.models
    (newModels p ((commonGap b.train).getD defaultInterval) b.train)
  simp only [hold,hnew] at hmodels
  constructor
  · rintro ⟨-,hsame⟩
    have hint : (commonGap b.train).getD s.sampleIntervalNs =
        (commonGap b.train).getD defaultInterval := hsame.sampleIntervalNs
    refine ⟨hmodels.mp ?_,hint⟩
    have hm := hsame.models
    simp only [fit,hint] at hm
    exact hm
  · rintro ⟨hkeys,hint⟩
    have hm := hmodels.mpr hkeys
    refine ⟨rfl,?_,?_,hint⟩
    · simp only [fit,hint]
      exact hm
    · simp only [fit,hint]
      refine sameDict_update_map (nodup_keys_update hnodup _) (nodup_keys_update_nil _) hm _
        fun k hk => ?_
      exact (mem_keys_update_nil _ k).mpr ((hnew k).mpr (hkeys k ((hold k).2.mp hk)))

end Fit

/-! ## score -/

section Score

variable [NumPy F] [Spectral F] (p : TrendParams F) (adjustments : List (String × F))
  (s : State F)

def threshold (k : Channel) : F :=
  applyAdjustment adjustments k.metricId ((s.thresholds.lookup k).getD (lit 2 0))

/-- What a metric and its column give in an aligned window; a metric without an observed finite
value gives a score for missing data. -/
def metricMark (a : AlignedSeries F) (m : String × ℕ) : Option (Mark F) :=
  match s.models.lookup ⟨a.entityId,m.1⟩ with
  | none => none
  | some model =>
    let arr := finite a m.2
    if arr.length < p.lowFreq+4 then
      if arr = [] then some ⟨quality,lit 1 0,.missing⟩ else none
    else
      let score := (FreqModel.score model arr).1
      let thr := threshold adjustments s ⟨a.entityId,m.1⟩
      if thr < score then
        some ⟨m.1,ratio score thr,if model.median < NumPy.mean arr then .up else .down⟩
      else none

/-- What is found in a window. -/
def scoreWindow (entityId : String) (w : Window F) : Option (Verdict F) :=
  let a := aligned w entityId s.sampleIntervalNs
  verdict (a.metrics.zipIdx.filterMap (metricMark p adjustments s a))

/-- What `score` finds, unless the detector has not been fitted. -/
def score (frame : TelemetryFrame F) : Option (List (Incident F)) :=
  if s.fitDone then some (found keepFirst p.maker (scoreWindow p adjustments s) frame) else none

/-! ## Missing data -/

/-- There is a model of the metric, with enough observed values, and it scores them above the
threshold. -/
def Above (a : AlignedSeries F) (m : String) : Prop :=
  ∃ model ∈ s.models.lookup ⟨a.entityId,m⟩,
    p.lowFreq+4 ≤ (finite a (a.metrics.idxOf m)).length ∧
      threshold adjustments s ⟨a.entityId,m⟩ <
        (FreqModel.score model (finite a (a.metrics.idxOf m))).1

instance (a : AlignedSeries F) (m : String) : Decidable (Above p adjustments s a m) :=
  inferInstanceAs (Decidable (∃ _ ∈ _, _))

/-- There is a model of the metric, which has points but no observed finite value. -/
def Blank (a : AlignedSeries F) (m : String) : Prop :=
  (s.models.lookup ⟨a.entityId,m⟩).isSome ∧ finite a (a.metrics.idxOf m) = []

instance (a : AlignedSeries F) (m : String) : Decidable (Blank s a m) :=
  inferInstanceAs (Decidable (_ ∧ _))

/-- A window with points of a metric that is above its threshold, or blank. -/
def Marked (entityId : String) (w : Window F) : Prop :=
  ∃ m ∈ (aligned w entityId s.sampleIntervalNs).metrics,
    Above p adjustments s (aligned w entityId s.sampleIntervalNs) m ∨
      Blank s (aligned w entityId s.sampleIntervalNs) m

instance (entityId : String) (w : Window F) : Decidable (Marked p adjustments s entityId w) :=
  inferInstanceAs (Decidable (∃ _ ∈ _, _))

/-- Every run of overlapping marked windows spans one with a metric above its threshold, or with
a gap. -/
def Explained (frame : TelemetryFrame F) : Prop :=
  ∀ entityId ∈ entities frame, ∀ run ∈ OverlapRuns.runs Window.startNs Window.endNs
      ((p.maker.windows frame).filter fun w => Marked p adjustments s entityId w),
    ∃ w ∈ p.maker.windows frame, OverlapRuns.Spans Window.startNs Window.endNs run w ∧
      (Gap s.sampleIntervalNs entityId w ∨
        ∃ m, Above p adjustments s (aligned w entityId s.sampleIntervalNs) m)

variable {p adjustments s}

/-- A mark is that of a metric above its threshold, or of a blank one. -/
theorem metricMark_iff {a : AlignedSeries F} {m : String × ℕ} (hm : m.2 = a.metrics.idxOf m.1)
    (name : String) : (∃ mark ∈ metricMark p adjustments s a m, mark.name = name) ↔
      Above p adjustments s a m.1 ∧ m.1 = name ∨ Blank s a m.1 ∧ quality = name := by
  rw [metricMark,Above,Blank,← hm]
  cases s.models.lookup ⟨a.entityId,m.1⟩ with
  | none => simp
  | some model =>
    simp only [Option.mem_some,exists_eq_left',Option.isSome_some,true_and]
    by_cases hshort : (finite a m.2).length < p.lowFreq+4
    · by_cases hblank : finite a m.2 = []
      · simp [hblank]
      · simp [hshort,Nat.not_le.mpr hshort,hblank]
    · have hblank : finite a m.2 ≠ [] := by
        intro hnil
        rw [hnil] at hshort
        exact hshort (Nat.succ_pos _)
      by_cases hthr : threshold adjustments s ⟨a.entityId,m.1⟩ <
          (FreqModel.score model (finite a m.2)).1
      · simp [hshort,Nat.not_lt.mp hshort,hblank,hthr]
      · simp [hshort,hblank,hthr]

theorem observed_of_above {w : Window F} {entityId m : String}
    (h : Above p adjustments s (aligned w entityId s.sampleIntervalNs) m) :
    m ∈ (aligned w entityId s.sampleIntervalNs).metrics ∧ Shown w ⟨entityId,m⟩ := by
  obtain ⟨model,-,hlong,-⟩ := h
  refine observed_of_finite s.sampleIntervalNs fun hnone => ?_
  rw [hnone] at hlong
  exact absurd hlong (Nat.not_succ_le_zero _)

/-- The names of what is found in a window. -/
theorem exists_mark_iff (entityId : String) (w : Window F) (name : String) :
    (∃ mark ∈ (aligned w entityId s.sampleIntervalNs).metrics.zipIdx.filterMap
      (metricMark p adjustments s (aligned w entityId s.sampleIntervalNs)), mark.name = name) ↔
    ∃ m ∈ (aligned w entityId s.sampleIntervalNs).metrics,
      Above p adjustments s (aligned w entityId s.sampleIntervalNs) m ∧ m = name ∨
        Blank s (aligned w entityId s.sampleIntervalNs) m ∧ quality = name := by
  generalize ha : aligned w entityId s.sampleIntervalNs = a
  have hnodup : a.metrics.Nodup := ha ▸ nodup_metrics_aligned ..
  constructor
  · rintro ⟨mark,hmark,hname⟩
    obtain ⟨m,hm,hmark⟩ := List.mem_filterMap.mp hmark
    have hmetric : m.1 ∈ a.metrics := by
      rw [← List.zipIdx_map_fst 0 a.metrics]
      exact List.mem_map_of_mem hm
    exact ⟨m.1,hmetric,(metricMark_iff (snd_eq_idxOf hnodup hm) name).mp ⟨mark,hmark,hname⟩⟩
  · rintro ⟨m,hm,hwhy⟩
    have hidx : (m,a.metrics.idxOf m) ∈ a.metrics.zipIdx := by
      rw [List.mem_zipIdx_iff_getElem?]
      exact List.getElem?_idxOf hm
    obtain ⟨mark,hmark,hname⟩ := (metricMark_iff (m:=(m,a.metrics.idxOf m)) rfl name).mpr hwhy
    exact ⟨mark,List.mem_filterMap.mpr ⟨_,hidx,hmark⟩,hname⟩

/-- Something is found in the marked windows, and it is then an anomaly. -/
theorem scoreWindow_isSome_iff (entityId : String) (w : Window F) :
    (scoreWindow p adjustments s entityId w).isSome ↔ Marked p adjustments s entityId w := by
  have hmarks : (aligned w entityId s.sampleIntervalNs).metrics.zipIdx.filterMap
      (metricMark p adjustments s (aligned w entityId s.sampleIntervalNs)) ≠ [] ↔
        Marked p adjustments s entityId w := by
    rw [Marked]
    constructor
    · intro hne
      obtain ⟨mark,hmark⟩ := List.exists_mem_of_ne_nil _ hne
      obtain ⟨m,hm,hwhy⟩ := (exists_mark_iff entityId w mark.name).mp ⟨mark,hmark,rfl⟩
      exact ⟨m,hm,hwhy.imp And.left And.left⟩
    · rintro ⟨m,hm,habove | hblank⟩
      · obtain ⟨mark,hmark,-⟩ :=
          (exists_mark_iff entityId w m).mpr ⟨m,hm,.inl ⟨habove,rfl⟩⟩
        exact List.ne_nil_of_mem hmark
      · obtain ⟨mark,hmark,-⟩ :=
          (exists_mark_iff entityId w quality).mpr ⟨m,hm,.inr ⟨hblank,rfl⟩⟩
        exact List.ne_nil_of_mem hmark
  rw [← hmarks,scoreWindow,verdict]
  split
  · next hnil => exact iff_of_false Bool.false_ne_true (not_not.mpr (by simpa using hnil))
  · next hne => exact iff_of_true rfl (by simpa using hne)

theorem mem_scoreWindow {entityId : String} {w : Window F} {v : Verdict F}
    (h : v ∈ scoreWindow p adjustments s entityId w) : v.status = .anomaly ∧
      ∀ name, name ∈ v.scores.map Prod.fst ↔
        ∃ m ∈ (aligned w entityId s.sampleIntervalNs).metrics,
          Above p adjustments s (aligned w entityId s.sampleIntervalNs) m ∧ m = name ∨
            Blank s (aligned w entityId s.sampleIntervalNs) m ∧ quality = name := by
  rw [scoreWindow,verdict] at h
  split at h
  · cases h
  · obtain rfl := Option.some.inj h
    refine ⟨rfl,fun name => ?_⟩
    rw [mem_keys_scoresOf,exists_mark_iff]

theorem reportedRuns_eq (frame : TelemetryFrame F) (entityId : String) :
    reportedRuns p.maker (scoreWindow p adjustments s) frame entityId =
      OverlapRuns.runs Window.startNs Window.endNs
        ((p.maker.windows frame).filter fun w => Marked p adjustments s entityId w) := by
  rw [reportedRuns,reported]
  congr 1
  refine List.filter_congr fun w _ => ?_
  rw [Bool.eq_iff_iff,decide_eq_true_iff]
  exact scoreWindow_isSome_iff entityId w

/-- The detector takes missing data for an anomaly exactly where a run of windows is not
explained. -/
theorem score_missing_iff (p : TrendParams F) (adjustments : List (String × F)) (s : State F)
    (frame : TelemetryFrame F) (deleted : List Channel) :
    (∀ found ∈ score p adjustments s (without frame deleted),
      MissingIsNoAnomaly p.maker s.sampleIntervalNs (Above p adjustments s) frame deleted found) ↔
        (s.fitDone = true → Explained p adjustments s (without frame deleted)) := by
  have hdeviation : ∀ entityId w, ∀ v ∈ scoreWindow p adjustments s entityId w,
      ∀ m ∈ v.scores.map Prod.fst, m ≠ quality →
        Above p adjustments s (aligned w entityId s.sampleIntervalNs) m := by
    intro entityId w v hv m hm hquality
    obtain ⟨m',-,⟨habove,rfl⟩ | ⟨-,rfl⟩⟩ := ((mem_scoreWindow hv).2 m).mp hm
    · exact habove
    · exact absurd rfl hquality
  have hreported : ∀ entityId w m,
      Above p adjustments s (aligned w entityId s.sampleIntervalNs) m →
        ∃ v ∈ scoreWindow p adjustments s entityId w, m ∈ v.scores.map Prod.fst := by
    intro entityId w m habove
    have hm := (observed_of_above habove).1
    obtain ⟨v,hv⟩ := Option.isSome_iff_exists.mp
      ((scoreWindow_isSome_iff entityId w).mpr ⟨m,hm,.inl habove⟩)
    exact ⟨v,hv,((mem_scoreWindow hv).2 m).mpr ⟨m,hm,.inl ⟨habove,rfl⟩⟩⟩
  have hruns := missing_iff_runs keepFirst p.maker frame deleted
    (fun w entityId m h => (observed_of_above h).2) hdeviation hreported
  rw [score]
  split
  · next hfit =>
    rw [imp_iff_right hfit]
    simp only [Option.mem_some,forall_eq',hruns,reportedRuns_eq,Explained]
    refine forall₄_congr fun entityId _ run hrun => imp_iff_right ?_
    -- the first window of a run is an anomaly, as every window in which something is found
    rw [← reportedRuns_eq] at hrun
    obtain ⟨w,hw⟩ := List.exists_mem_of_ne_nil run (List.ne_nil_of_mem_splitBy hrun)
    obtain ⟨v,hv⟩ := Option.isSome_iff_exists.mp
      (List.mem_filter.mp (OverlapRuns.mem_of_mem_runs hrun hw)).2
    exact ⟨w,hw,v,hv,(mem_scoreWindow hv).1⟩
  · next hfit => simp [hfit]

end Score

end FitsDetector
end ETraceDiag
