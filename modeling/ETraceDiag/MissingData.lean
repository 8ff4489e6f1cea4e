import ETraceDiag.Refitting

/-!
# Missing data

Which of the four detectors takes missing data for an anomaly, and when.
-/

namespace ETraceDiag
namespace MissingData

open AlignedGrid DataWindow DetectorFrames FreqModel Incidents TimeTable
open Refitting (Floats)

section Detectors

variable {F : Type} [Floats F]

/-- Whatever channels are deleted from a frame, the streaming detector and the edge cascade do not
take what is missing for an anomaly. The frequency detector does not exactly when every run of
overlapping marked windows spans one with a metric above its threshold, or with a gap, and the
zero-shot detector when what it fills with zeros does not deviate, and it has seen a channel
before an anomaly ends. -/
theorem missing_iff (frame : TelemetryFrame F) (deleted : List Channel)
    (adjustments : List (String × F)) :
    (∀ p s, ∀ found ∈ StreamingDetector.score p adjustments s (without frame deleted),
      MissingIsNoAnomaly p.maker s.sampleIntervalNs (StreamingDetector.Above p adjustments s) frame
        deleted found) ∧
    (∀ p s, (∀ found ∈ FitsDetector.score p adjustments s (without frame deleted),
      MissingIsNoAnomaly p.maker s.sampleIntervalNs (FitsDetector.Above p adjustments s) frame
        deleted found) ↔
      (s.fitDone = true → FitsDetector.Explained p adjustments s (without frame deleted))) ∧
    (∀ p s state, ∀ found ∈ EdgeCascade.score p adjustments s state (without frame deleted),
      MissingIsNoAnomaly p.maker s.sampleIntervalNs (EdgeCascade.Above p adjustments s) frame
        deleted found) ∧
    (∀ f s, (∀ found ∈ TimeRcdFuse.score f s (without frame deleted),
      TimeRcdFuse.MissingIsNoAnomaly f s frame deleted found) ↔
      (s.fitDone = true →
        TimeRcdFuse.minRows ≤ (timestamps (without frame deleted)).length →
          TimeRcdFuse.Explained f s (without frame deleted))) :=
  ⟨fun p s => StreamingDetector.score_missing p adjustments s frame deleted,
    fun p s => FitsDetector.score_missing_iff p adjustments s frame deleted,
    fun p s state => EdgeCascade.score_missing p adjustments s state frame deleted,
    fun f s => TimeRcdFuse.score_missing_iff f s frame deleted⟩

end Detectors

/-! ## A frame without observed values -/

section Unobserved

variable {F : Type} [NumPy F] [Spectral F]

omit [Spectral F] in
theorem mem_metrics_of_mem {maker : SlidingWindowMaker} {frame : TelemetryFrame F} {w : Window F}
    (hw : w ∈ maker.windows frame) {p : TelemetryPoint F} (hp : p ∈ w.frame.points)
    (sampleIntervalNs : ℕ) : p.metricId ∈ (aligned w p.entityId sampleIntervalNs).metrics := by
  have hat := ((maker.mem_windows frame w).mp hw).2
  have hin := hp
  rw [hat.points] at hin
  obtain ⟨hlow,hhigh⟩ := of_decide_eq_true (List.mem_filter.mp hin).2
  rw [← hat.stop] at hhigh
  refine mem_sortedSet.mpr (List.mem_map_of_mem (List.mem_filter.mpr ⟨hp,decide_eq_true ?_⟩))
  exact ⟨rfl,Int.ofNat_le.mpr hlow,Int.ofNat_lt.mpr hhigh⟩

/-- Where nothing is observed the frequency detector finds an anomaly as soon as there is a point
of a channel that it has a model of. -/
theorem unobserved_not_missing {p : TrendParams F} {adjustments : List (String × F)}
    {s : FitsDetector.State F} (hmaker : p.maker.strideNs ≤ p.maker.windowNs)
    (hfit : s.fitDone = true) {frame : TelemetryFrame F}
    (hnone : ∀ q ∈ frame.points, ¬ Observed q) {q : TelemetryPoint F} (hq : q ∈ frame.points)
    (hmodel : (s.models.lookup (channelOf q)).isSome) :
    ¬ ∀ found ∈ FitsDetector.score p adjustments s (without frame []),
      MissingIsNoAnomaly p.maker s.sampleIntervalNs (FitsDetector.Above p adjustments s) frame []
        found := by
  rw [FitsDetector.score_missing_iff]
  intro hexplained
  have hpoints : ∀ r, r ∈ (without frame []).points ↔ r ∈ frame.points := fun r => by
    rw [without,TelemetryFrame.sub]
    simp
  have hhidden : ∀ w ∈ p.maker.windows (without frame []), ∀ k, ¬ Shown w k := by
    rintro w hw k ⟨r,hr,-,hobserved⟩
    exact hnone r ((hpoints r).mp (points_of_mem_windows hw hr)) hobserved
  obtain ⟨w,hw,hqw⟩ := SlidingWindowMaker.exists_window hmaker ((hpoints q).mpr hq)
  have hmetric := mem_metrics_of_mem hw hqw s.sampleIntervalNs
  have hblank : FitsDetector.Blank s (aligned w q.entityId s.sampleIntervalNs) q.metricId := by
    refine ⟨hmodel,?_⟩
    by_contra hne
    exact hhidden w hw _ (observed_of_finite s.sampleIntervalNs hne).2
  have hmarked : FitsDetector.Marked p adjustments s q.entityId w :=
    ⟨q.metricId,hmetric,.inr hblank⟩
  have hruns : ∃ run ∈ OverlapRuns.runs Window.startNs Window.endNs
      ((p.maker.windows (without frame [])).filter fun w =>
        FitsDetector.Marked p adjustments s q.entityId w), w ∈ run :=
    OverlapRuns.exists_run (List.mem_filter.mpr ⟨hw,decide_eq_true hmarked⟩)
  obtain ⟨run,hrun,-⟩ := hruns
  have hentity : q.entityId ∈ entities (without frame []) :=
    mem_entities.mpr ⟨q,(hpoints q).mpr hq,rfl⟩
  obtain ⟨v,hv,-,hgap | ⟨m,habove⟩⟩ := hexplained hfit q.entityId hentity run hrun
  · obtain ⟨m,hshown⟩ := shown_of_gap hgap
    exact hhidden v hv _ hshown
  · exact hhidden v hv _ (FitsDetector.observed_of_above habove).2

end Unobserved

/-! ## A stale point -/

def loadPoint (tsNs : ℕ) (quality : CausalInput.Quality) : TelemetryPoint (Option ℚ) where
  tsNs := tsNs
  entityId := "host"
  metricId := "cpu_user"
  value := some (some 1)
  quality := quality

/-- Ten observed values. -/
def tenValues : Training (Option ℚ) where
  train :=
    { points := (List.range 10).map fun i => loadPoint (10*i) .observed
      ordered := by decide
      unique := by decide }
  validation := none

/-- A frame with a stale value. -/
def staleFrame : TelemetryFrame (Option ℚ) where
  points := [loadPoint 0 .stale]
  ordered := List.pairwise_singleton _ _
  unique := List.nodup_singleton _

/-- Windows of five values. -/
def shortWindows : TrendParams (Option ℚ) where
  maker := ⟨50,50,by decide⟩
  lowFreq := 1
  nFft := 8
  potQuantile := some (99/100)
  potMultiplier := some (15/10)

theorem interval_tenValues : (commonGap tenValues.train).getD defaultInterval = 10 := by
  rw [commonGap,gaps,timestamps_eq (by decide)]
  decide

theorem trainable_tenValues :
    FitsDetector.TrainableIn shortWindows tenValues.train ⟨"host","cpu_user"⟩ := by
  have hsamples : samples masked shortWindows.lowFreq shortWindows.maker 10 tenValues.train
      ⟨"host","cpu_user"⟩ = [List.replicate 5 (some 1),List.replicate 5 (some 1)] := by
    decide +kernel
  have hgrid : nfftFor 5 8 = 8 := by simp [nfftFor,doubled]
  rw [FitsDetector.TrainableIn,interval_tenValues,hsamples]
  refine ⟨8,congrArg some hgrid,by decide,?_⟩
  simp [onGrid,LongEnough,shortWindows,hgrid]

/-- After ten values of the load a single stale one is an anomaly. -/
theorem stale_taken_for_anomaly :
    ¬ ∀ found ∈ FitsDetector.score shortWindows [] (FitsDetector.fit shortWindows {} tenValues).2
        (without staleFrame []),
      MissingIsNoAnomaly shortWindows.maker 10
        (FitsDetector.Above shortWindows [] (FitsDetector.fit shortWindows {} tenValues).2)
        staleFrame [] found := by
  have hmodel := ((FitsDetector.mem_keys_fit_new shortWindows tenValues _).1).mpr
    trainable_tenValues
  obtain ⟨model,hlookup⟩ := Dictionaries.mem_keys_iff.mp hmodel
  have hgap : (FitsDetector.fit shortWindows {} tenValues).2.sampleIntervalNs = 10 :=
    interval_tenValues
  rw [← hgap]
  refine unobserved_not_missing (by decide) rfl ?_ (List.mem_singleton_self _) ?_
  · intro q hq
    rw [List.mem_singleton.mp hq]
    decide
  · exact Option.isSome_iff_exists.mpr ⟨model,hlookup⟩

end MissingData
end ETraceDiag
