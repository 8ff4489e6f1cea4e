import ETraceDiag.Dictionaries
import ETraceDiag.FreqModel

/-!
# What the detectors read of a frame

Channels, the most common gap, the robust statistics of `Normalizer`, the columns of aligned
windows, and the loops over them that the detectors of `detection/` share.
-/

namespace ETraceDiag
namespace DetectorFrames

open AlignedGrid DataWindow Dictionaries FreqModel NumPy TimeTable
open DetectorFeedback (pyMax)
open DetectorFeedback.Calibration (lit)

/-- A metric of an entity. -/
structure Channel where
  entityId : String
  metricId : String
  deriving DecidableEq

variable {F : Type}

def channelOf (p : TelemetryPoint F) : Channel := ⟨p.entityId,p.metricId⟩

def entities (frame : TelemetryFrame F) : List String :=
  sortedSet (frame.points.map TelemetryPoint.entityId)

/-- The point is observed and has a value. -/
def Observed (p : TelemetryPoint F) : Prop := p.quality = .observed ∧ p.value.isSome

instance (p : TelemetryPoint F) : Decidable (Observed p) := inferInstanceAs (Decidable (_ ∧ _))

def ObservedIn (frame : TelemetryFrame F) (k : Channel) : Prop :=
  ∃ p ∈ frame.points, channelOf p = k ∧ Observed p

/-- A point of a discrete state: its `role` is `state`. -/
def IsState (p : TelemetryPoint F) : Prop := p.attrs.lookup "role" = some "state"

instance (p : TelemetryPoint F) : Decidable (IsState p) := inferInstanceAs (Decidable (_ = _))

/-- The frames that `fit` is called with. -/
structure Training (F : Type) where
  train : TelemetryFrame F
  validation : Option (TelemetryFrame F)

/-- The frame that thresholds are taken from. -/
def Training.cal (t : Training F) : TelemetryFrame F :=
  match t.validation with
  | some validation => if validation.points ≠ [] then validation else t.train
  | none => t.train

/-! ## The sample interval -/

def timestamps (frame : TelemetryFrame F) : List ℕ :=
  sortedSet (frame.points.map TelemetryPoint.tsNs)

def gaps (frame : TelemetryFrame F) : List ℕ :=
  ((timestamps frame).zip (timestamps frame).tail).filterMap fun ab =>
    if ab.1 < ab.2 then some (ab.2-ab.1) else none

/-- `Counter(xs).most_common(1)`: the first one of those that occur most often. -/
def mostCommon (xs : List ℕ) : Option ℕ :=
  let counter := xs.foldl (fun d x => upsert x 0 (·+1) d) []
  let first := counter.foldl (fun best e =>
    match best with
    | none => some e
    | some b => if b.2 < e.2 then some e else some b) none
  first.map Prod.fst

/-- The most common gap of a frame; without a gap the interval stays what it was. -/
def commonGap (frame : TelemetryFrame F) : Option ℕ := mostCommon (gaps frame)

/-- The interval that a new detector has. -/
def defaultInterval : ℕ := 10000000000

/-! ## Normalizer -/

/-- The statistics that the detectors read. -/
structure MetricStats (F : Type) where
  median : F
  mad : F

section Statistics

variable [NumPy F]

/-- `mad <= 0.0`. -/
def Degenerate (st : MetricStats F) : Prop := st.mad < lit 0 0 ∨ isZero st.mad = true

instance (st : MetricStats F) : Decidable (Degenerate st) :=
  inferInstanceAs (Decidable (_ ∨ _))

def robustZ (st : MetricStats F) (v : F) : F :=
  if Degenerate st ∨ ¬ isFinite v then lit 0 0 else (v-st.median)/(lit 14826 4*st.mad)

/-- The values observed of each channel. -/
def observedValues (frame : TelemetryFrame F) : List (Channel × List F) :=
  frame.points.foldl (fun per p =>
    match p.value with
    | none => per
    | some v => if p.quality = .observed then upsert (channelOf p) [] (·++[v]) per else per) []

/-- `Normalizer().fit_frame(frame)`. -/
def fitFrame (frame : TelemetryFrame F) : List (Channel × MetricStats F) :=
  (observedValues frame).map fun per =>
    let med := NumPy.median per.2
    (per.1,⟨med,madAround per.2 med⟩)

/-- The threshold of a channel from the points of a frame: `degenerate` is what it is when the
values of the channel do not vary. -/
def pointThreshold (degenerate quantile multiplier : F) (cal : TelemetryFrame F) (k : Channel)
    (st : MetricStats F) : F :=
  if Degenerate st then degenerate
  else
    let zs := cal.points.filterMap fun p =>
      if channelOf p = k ∧ p.quality = .observed then p.value.map (robustZ st) else none
    if zs.isEmpty then lit 4 0
    else pyMax (lit 15 1) (NumPy.quantile (zs.map NumPy.abs) quantile*multiplier)

end Statistics

/-! ## Columns of aligned windows -/

section Columns

variable [NumPy F]

/-- `align_window` on a window. -/
def aligned (w : Window F) (entityId : String) (sampleIntervalNs : ℕ) : AlignedSeries F :=
  alignWindow w.frame entityId w.startNs w.endNs sampleIntervalNs

def column (a : AlignedSeries F) (mi : ℕ) : List (F × Bool) :=
  (a.values.zip a.observedMask).map fun row =>
    ((row.1[mi]?).getD NanFloat.nan,(row.2[mi]?).getD false)

/-- `vals[mask]`. -/
def masked (a : AlignedSeries F) (mi : ℕ) : List F :=
  (column a mi).filterMap fun c => if c.2 then some c.1 else none

/-- The values that are observed and finite. -/
def finite (a : AlignedSeries F) (mi : ℕ) : List F := (masked a mi).filter fun v => isFinite v

/-! ## Models of channels -/

variable [Spectral F]

/-- The parameters of the frequency models, and of their thresholds. -/
structure TrendParams (F : Type) where
  maker : SlidingWindowMaker
  lowFreq : ℕ
  nFft : ℤ
  potQuantile : F
  potMultiplier : F

/-- The samples of an aligned window come to those of its channels, where there are enough. -/
def gatherWindow (values : AlignedSeries F → ℕ → List F) (lowFreq : ℕ)
    (perMetric : List (Channel × List (List F))) (a : AlignedSeries F) :
    List (Channel × List (List F)) :=
  a.metrics.zipIdx.foldl (fun d m =>
    let x := values a m.2
    if x.length < lowFreq+4 then d else upsert ⟨a.entityId,m.1⟩ [] (·++[x]) d) perMetric

/-- The model of a channel from its windows. -/
def trainModel (p : TrendParams F) (k : Channel) (wins : List (List F)) : MetricFreqModel F :=
  let med := NumPy.median wins.flatten
  (fit (new k.entityId k.metricId p.lowFreq p.nFft med (orOne (madAround wins.flatten med)))
    wins).1

/-- The models that have a map. -/
def trainModels (p : TrendParams F) (perMetric : List (Channel × List (List F))) :
    List (Channel × MetricFreqModel F) :=
  perMetric.filterMap fun per =>
    let model := trainModel p per.1 per.2
    if model.W.isSome then some (per.1,model) else none

/-- The threshold of a model from the windows of a frame. -/
def trendThreshold (p : TrendParams F) (sampleIntervalNs : ℕ) (cal : TelemetryFrame F)
    (k : Channel) (model : MetricFreqModel F) : F :=
  let zs := (p.maker.windows cal).filterMap fun w =>
    let a := aligned w k.entityId sampleIntervalNs
    let arr := finite a (a.metrics.idxOf k.metricId)
    if k.metricId ∉ a.metrics ∨ arr.length < p.lowFreq+4 then none
    else some (score model arr).1
  if zs.isEmpty then lit 2 0
  else pyMax (lit 5 1) (NumPy.quantile zs p.potQuantile*p.potMultiplier+lit 1 6)

end Columns

/-! ## Intervals -/

/-- Not all points are of one time. -/
def TwoTimes (frame : TelemetryFrame F) : Prop :=
  ∃ p ∈ frame.points, ∃ q ∈ frame.points, p.tsNs ≠ q.tsNs

theorem isSome_foldl {α β : Type} {f : Option β → α → Option β}
    (hf : ∀ b a, (f (some b) a).isSome = true) (as : List α) :
    ∀ b, (as.foldl f (some b)).isSome = true := by
  induction as with
  | nil => exact fun _ => rfl
  | cons a as ih =>
    intro b
    obtain ⟨b',hb'⟩ := Option.isSome_iff_exists.mp (hf b a)
    rw [List.foldl_cons,hb']
    exact ih b'

theorem mostCommon_eq_none_iff (xs : List ℕ) : mostCommon xs = none ↔ xs = [] := by
  cases xs with
  | nil => exact iff_of_true rfl rfl
  | cons x xs =>
    refine iff_of_false (fun h => ?_) (List.cons_ne_nil x xs)
    have hkey : x ∈ ((x::xs).foldl (fun d x => upsert x 0 (·+1) d) ([] : List (ℕ × ℕ))).map
        Prod.fst :=
      (mem_keys_foldl_upsert id (fun _ => 0) (fun _ n => n+1) x (x::xs) []).mpr (.inl (by simp))
    rw [mostCommon,Option.map_eq_none_iff] at h
    cases hcounter : (x::xs).foldl (fun d x => upsert x 0 (·+1) d) ([] : List (ℕ × ℕ)) with
    | nil =>
      rw [hcounter] at hkey
      cases hkey
    | cons e counter =>
      rw [hcounter,List.foldl_cons] at h
      refine absurd (isSome_foldl (fun b e => ?_) counter e) (by rw [h]; exact Bool.false_ne_true)
      dsimp only
      split <;> rfl

theorem mem_timestamps {frame : TelemetryFrame F} {t : ℕ} :
    t ∈ timestamps frame ↔ ∃ p ∈ frame.points, p.tsNs = t := by
  rw [timestamps,mem_sortedSet,List.mem_map]

theorem timestamps_eq {frame : TelemetryFrame F}
    (h : (frame.points.map TelemetryPoint.tsNs).Pairwise (· < ·)) :
    timestamps frame = frame.points.map TelemetryPoint.tsNs := by
  refine sortedSet_eq _ (List.dedup_eq_self.mpr ?_) h
  exact h.imp fun hlt => hlt.ne

/-- There are two times when the first one is followed by another. -/
theorem twoTimes_iff (frame : TelemetryFrame F) :
    TwoTimes frame ↔ ∃ t u ts, timestamps frame = t::u::ts ∧ t < u := by
  have hsorted : (timestamps frame).Pairwise (· < ·) := sortedSet_pairwise _
  constructor
  · rintro ⟨p,hp,q,hq,hne⟩
    have htp := mem_timestamps.mpr ⟨p,hp,rfl⟩
    have htq := mem_timestamps.mpr ⟨q,hq,rfl⟩
    match hts : timestamps frame with
    | [] =>
      rw [hts] at htp
      cases htp
    | [t] =>
      rw [hts] at htp htq
      exact absurd ((List.mem_singleton.mp htp).trans (List.mem_singleton.mp htq).symm) hne
    | t::u::ts =>
      rw [hts] at hsorted
      exact ⟨t,u,ts,rfl,(List.pairwise_cons.mp hsorted).1 u List.mem_cons_self⟩
  · rintro ⟨t,u,ts,hts,hlt⟩
    obtain ⟨p,hp,rfl⟩ := mem_timestamps.mp (hts ▸ List.mem_cons_self : t ∈ timestamps frame)
    obtain ⟨q,hq,rfl⟩ := mem_timestamps.mp
      (hts ▸ List.mem_cons_of_mem _ List.mem_cons_self : u ∈ timestamps frame)
    exact ⟨p,hp,q,hq,hlt.ne⟩

/-- There is a gap exactly when there are two times. -/
theorem commonGap_isSome_iff (frame : TelemetryFrame F) :
    (commonGap frame).isSome ↔ TwoTimes frame := by
  have hsorted : (timestamps frame).Pairwise (· < ·) := sortedSet_pairwise _
  rw [← not_iff_not,Option.not_isSome_iff_eq_none,commonGap,mostCommon_eq_none_iff,twoTimes_iff,
    gaps]
  match hts : timestamps frame with
  | [] => simp
  | [t] => simp
  | t::u::ts =>
    rw [hts] at hsorted
    have hlt : t < u := (List.pairwise_cons.mp hsorted).1 u List.mem_cons_self
    simp [hlt]

theorem commonGap_eq_none {frame : TelemetryFrame F} (h : frame.points = []) :
    commonGap frame = none := by
  rw [← Option.not_isSome_iff_eq_none,commonGap_isSome_iff]
  rintro ⟨p,hp,-⟩
  rw [h] at hp
  cases hp

theorem not_observedIn {frame : TelemetryFrame F} (h : frame.points = []) (k : Channel) :
    ¬ ObservedIn frame k := by
  rintro ⟨p,hp,-⟩
  rw [h] at hp
  cases hp

/-! ## Fitting twice -/

/-- `fit`, which returns or raises and leaves the detector in some state, has forgotten `a` after
it has been called with `b`: where it returns on a new detector it returns after `a` too, and
leaves the same. -/
def Forgets {σ τ : Type} (fit : σ → τ → Bool × σ) (Same : σ → σ → Prop) (new : σ) (a b : τ) :
    Prop :=
  (fit new b).1 = true →
    (fit (fit new a).2 b).1 = true ∧ Same (fit (fit new a).2 b).2 (fit new b).2

/-- The second frame has a gap, or the first one has none but the default interval. -/
def IntervalForgotten (a b : TelemetryFrame F) : Prop :=
  TwoTimes b ∨ ∀ gap ∈ commonGap a, gap = defaultInterval

theorem intervalForgotten_iff (a b : TelemetryFrame F) :
    (commonGap b).getD ((commonGap a).getD defaultInterval) =
      (commonGap b).getD defaultInterval ↔ IntervalForgotten a b := by
  rw [IntervalForgotten,← commonGap_isSome_iff]
  cases commonGap b with
  | some gap => exact iff_of_true rfl (.inl rfl)
  | none => cases commonGap a <;> simp

/-! ## Statistics -/

section StatisticsKeys

variable [NumPy F]

omit [NumPy F] in
theorem mem_keys_observedValues (frame : TelemetryFrame F) (k : Channel) :
    k ∈ (observedValues frame).map Prod.fst ↔ ObservedIn frame k := by
  have hfold : ∀ (ps : List (TelemetryPoint F)) (per : List (Channel × List F)),
      k ∈ (ps.foldl (fun per p => match p.value with
        | none => per
        | some v => if p.quality = .observed then upsert (channelOf p) [] (·++[v]) per
          else per) per).map Prod.fst ↔
        (∃ p ∈ ps, channelOf p = k ∧ Observed p) ∨ k ∈ per.map Prod.fst := by
    intro ps
    induction ps with
    | nil => intro per; simp
    | cons p ps ih =>
      intro per
      rw [List.foldl_cons,ih,List.exists_mem_cons_iff]
      cases hv : p.value with
      | none => simp [Observed,hv]
      | some v =>
        by_cases hq : p.quality = .observed
        · simp only [hq,if_true,mem_keys_upsert,Observed,hv,Option.isSome_some,and_self,and_true,
            eq_comm (a:=k)]
          exact or_left_comm.trans or_assoc.symm
        · simp [Observed,hq]
  rw [observedValues,hfold,List.map_nil,or_iff_left List.not_mem_nil,ObservedIn]

/-- There are statistics of a channel exactly when a value of it is observed. -/
theorem mem_keys_fitFrame (frame : TelemetryFrame F) (k : Channel) :
    k ∈ (fitFrame frame).map Prod.fst ↔ ObservedIn frame k := by
  rw [← mem_keys_observedValues,fitFrame,List.map_map]
  rfl

end StatisticsKeys

/-! ## Samples of a channel -/

section Samples

variable [NumPy F]

/-- The samples of a metric in an aligned window, if there are enough. -/
def sample (values : AlignedSeries F → ℕ → List F) (lowFreq : ℕ) (a : AlignedSeries F)
    (m : String) : Option (List F) :=
  if m ∈ a.metrics ∧ lowFreq+4 ≤ (values a (a.metrics.idxOf m)).length then
    some (values a (a.metrics.idxOf m))
  else none

/-- The samples of a channel, window by window. -/
def samples (values : AlignedSeries F → ℕ → List F) (lowFreq : ℕ) (maker : SlidingWindowMaker)
    (sampleIntervalNs : ℕ) (frame : TelemetryFrame F) (k : Channel) : List (List F) :=
  (maker.windows frame).filterMap fun w =>
    sample values lowFreq (aligned w k.entityId sampleIntervalNs) k.metricId

omit [NumPy F] in
theorem points_of_mem_windows {maker : SlidingWindowMaker} {frame : TelemetryFrame F}
    {w : Window F} (hw : w ∈ maker.windows frame) {p : TelemetryPoint F}
    (hp : p ∈ w.frame.points) : p ∈ frame.points := by
  rw [((maker.mem_windows frame w).mp hw).2.points] at hp
  exact List.mem_of_mem_filter hp

theorem mem_metrics_aligned {w : Window F} {entityId : String} {sampleIntervalNs : ℕ} {m : String}
    (h : m ∈ (aligned w entityId sampleIntervalNs).metrics) :
    ∃ p ∈ w.frame.points, channelOf p = ⟨entityId,m⟩ := by
  obtain ⟨p,hp,rfl⟩ := List.mem_map.mp (mem_sortedSet.mp h)
  obtain ⟨hmem,hin⟩ := List.mem_filter.mp hp
  obtain ⟨rfl,-⟩ := of_decide_eq_true hin
  exact ⟨p,hmem,rfl⟩

theorem nodup_metrics_aligned (w : Window F) (entityId : String) (sampleIntervalNs : ℕ) :
    (aligned w entityId sampleIntervalNs).metrics.Nodup :=
  (sortedSet_pairwise _).imp fun h => h.ne

omit [NumPy F] in
theorem mem_entities {frame : TelemetryFrame F} {entityId : String} :
    entityId ∈ entities frame ↔ ∃ p ∈ frame.points, p.entityId = entityId := by
  rw [entities,mem_sortedSet,List.mem_map]

/-- A window without points of an entity has no samples of it. -/
theorem sample_eq_none {values : AlignedSeries F → ℕ → List F} {lowFreq : ℕ} {w : Window F}
    {k : Channel} (hk : k.entityId ∉ entities w.frame) (sampleIntervalNs : ℕ) :
    sample values lowFreq (aligned w k.entityId sampleIntervalNs) k.metricId = none := by
  refine if_neg ?_
  rintro ⟨hm,-⟩
  obtain ⟨p,hp,hchannel⟩ := mem_metrics_aligned hm
  exact hk (mem_entities.mpr ⟨p,hp,congrArg Channel.entityId hchannel⟩)

/-- An entity without points has no samples. -/
theorem samples_eq_nil {values : AlignedSeries F → ℕ → List F} {lowFreq : ℕ}
    {maker : SlidingWindowMaker} {train : TelemetryFrame F} {k : Channel}
    (hk : k.entityId ∉ entities train) (sampleIntervalNs : ℕ) :
    samples values lowFreq maker sampleIntervalNs train k = [] := by
  refine List.filterMap_eq_nil_iff.mpr fun w hw => sample_eq_none (fun hin => hk ?_) _
  obtain ⟨p,hp,hentity⟩ := mem_entities.mp hin
  exact mem_entities.mpr ⟨p,points_of_mem_windows hw hp,hentity⟩

omit [NumPy F] in
/-- Of a list without repeats an element and its index are found once. -/
theorem filterMap_zipIdx {α β : Type} [DecidableEq α] (x : α) (P : ℕ → Prop) [DecidablePred P]
    (f : ℕ → β) {xs : List α} (hxs : xs.Nodup) : ∀ n,
    (xs.zipIdx n).filterMap (fun m => if m.1 = x ∧ P m.2 then some (f m.2) else none) =
      if x ∈ xs ∧ P (n+xs.idxOf x) then [f (n+xs.idxOf x)] else [] := by
  induction xs with
  | nil => intro n; simp
  | cons y xs ih =>
    intro n
    obtain ⟨hnot,hrest⟩ := List.nodup_cons.mp hxs
    rw [List.zipIdx_cons]
    by_cases hy : y = x
    · subst hy
      have htail : (xs.zipIdx (n+1)).filterMap
          (fun m => if m.1 = y ∧ P m.2 then some (f m.2) else none) = [] := by
        rw [ih hrest,if_neg fun h => hnot h.1]
      by_cases hP : P n
      · simp [hP,htail]
      · simp [hP,htail]
    · have hnext : n+(y::xs).idxOf x = n+1+xs.idxOf x := by
        rw [List.idxOf_cons_ne xs hy]
        omega
      simp only [List.filterMap_cons,hy,false_and,if_false]
      rw [ih hrest,hnext]
      simp [Ne.symm hy]

variable (values : AlignedSeries F → ℕ → List F) (lowFreq : ℕ)

omit [NumPy F] in
/-- What a window adds to a channel. -/
theorem lookup_gatherWindow {a : AlignedSeries F} (ha : a.metrics.Nodup) (k : Channel)
    (d : List (Channel × List (List F))) :
    ((gatherWindow values lowFreq d a).lookup k).getD [] = (d.lookup k).getD []++
      if a.entityId = k.entityId then (sample values lowFreq a k.metricId).toList else [] := by
  have hfold : ∀ (ms : List (String × ℕ)) (d : List (Channel × List (List F))),
      ((ms.foldl (fun d m => if (values a m.2).length < lowFreq+4 then d
        else upsert ⟨a.entityId,m.1⟩ [] (·++[values a m.2]) d) d).lookup k).getD [] =
      (d.lookup k).getD []++ms.filterMap fun m =>
        if m.1 = k.metricId ∧ (a.entityId = k.entityId ∧ lowFreq+4 ≤ (values a m.2).length) then
          some (values a m.2) else none := by
    intro ms
    induction ms with
    | nil => intro d; simp
    | cons m ms ih =>
      intro d
      rw [List.foldl_cons,ih]
      by_cases hshort : (values a m.2).length < lowFreq+4
      · simp only [if_pos hshort,List.filterMap_cons,Nat.not_le.mpr hshort,and_false,if_false]
      · rw [if_neg hshort,lookup_upsert]
        by_cases hk : k = ⟨a.entityId,m.1⟩
        · subst hk
          simp only [if_true,List.filterMap_cons,Nat.not_lt.mp hshort,and_self,Option.getD_some,
            List.append_assoc,List.singleton_append]
        · have hother : ¬ (m.1 = k.metricId ∧ a.entityId = k.entityId ∧
              lowFreq+4 ≤ (values a m.2).length) := by
            rintro ⟨hm,he,-⟩
            exact hk (by rw [hm,he])
          simp only [if_neg hk,List.filterMap_cons,if_neg hother]
  rw [gatherWindow,hfold,filterMap_zipIdx k.metricId
    (fun mi => a.entityId = k.entityId ∧ lowFreq+4 ≤ (values a mi).length) (values a) ha 0,
    Nat.zero_add]
  congr 1
  rw [sample]
  by_cases he : a.entityId = k.entityId
  · simp only [he,true_and,if_true]
    split <;> rfl
  · simp only [he,false_and,and_false,if_false]

omit [NumPy F] in
theorem nodup_gatherWindow (a : AlignedSeries F) {d : List (Channel × List (List F))}
    (hd : (d.map Prod.fst).Nodup) : ((gatherWindow values lowFreq d a).map Prod.fst).Nodup := by
  rw [gatherWindow]
  generalize a.metrics.zipIdx = ms
  induction ms generalizing d with
  | nil => exact hd
  | cons m ms ih =>
    rw [List.foldl_cons]
    dsimp only
    split
    · exact ih hd
    · exact ih (nodup_keys_upsert _ _ _ hd)

omit [NumPy F] in
/-- What windows add to a channel. -/
theorem lookup_foldl_gatherWindow {as : List (AlignedSeries F)}
    (has : ∀ a ∈ as, a.metrics.Nodup) (k : Channel) : ∀ d : List (Channel × List (List F)),
    ((as.foldl (gatherWindow values lowFreq) d).lookup k).getD [] = (d.lookup k).getD []++
      as.flatMap fun a =>
        if a.entityId = k.entityId then (sample values lowFreq a k.metricId).toList else [] := by
  induction as with
  | nil => intro d; simp
  | cons a as ih =>
    intro d
    rw [List.foldl_cons,ih (fun b hb => has b (List.mem_cons_of_mem _ hb)),
      lookup_gatherWindow values lowFreq (has a List.mem_cons_self),List.flatMap_cons,
      List.append_assoc]

omit [NumPy F] in
theorem nodup_foldl_gatherWindow (as : List (AlignedSeries F)) :
    ((as.foldl (gatherWindow values lowFreq) []).map Prod.fst).Nodup := by
  induction as using List.reverseRecOn with
  | nil => exact List.nodup_nil
  | append_singleton as a ih =>
    rw [List.foldl_append]
    exact nodup_gatherWindow values lowFreq a ih

omit [NumPy F] in
theorem flatMap_ite_eq {α β : Type} [DecidableEq α] (x : α) (f : α → List β) {xs : List α}
    (hxs : xs.Nodup) : (xs.flatMap fun y => if y = x then f y else []) =
      if x ∈ xs then f x else [] := by
  induction xs with
  | nil => rfl
  | cons y xs ih =>
    obtain ⟨hnot,hrest⟩ := List.nodup_cons.mp hxs
    rw [List.flatMap_cons,ih hrest]
    by_cases hy : y = x
    · subst hy
      rw [if_pos rfl,if_neg hnot,List.append_nil,if_pos List.mem_cons_self]
    · rw [if_neg hy,List.nil_append]
      simp only [List.mem_cons,Ne.symm hy,false_or]

/-- The samples of a channel from windows that are aligned for some of their entities. -/
theorem lookup_gathered {entities : Window F → List String} (he : ∀ w, (entities w).Nodup)
    (sampleIntervalNs : ℕ) (ws : List (Window F)) (k : Channel) :
    (((ws.flatMap fun w => (entities w).map fun e => aligned w e sampleIntervalNs).foldl
      (gatherWindow values lowFreq) []).lookup k).getD [] =
        (ws.filter fun w => k.entityId ∈ entities w).filterMap fun w =>
          sample values lowFreq (aligned w k.entityId sampleIntervalNs) k.metricId := by
  have hnodup : ∀ a ∈ ws.flatMap fun w => (entities w).map fun e => aligned w e sampleIntervalNs,
      a.metrics.Nodup := by
    intro a ha
    obtain ⟨w,-,ha⟩ := List.mem_flatMap.mp ha
    obtain ⟨e,-,rfl⟩ := List.mem_map.mp ha
    exact nodup_metrics_aligned w e sampleIntervalNs
  rw [lookup_foldl_gatherWindow values lowFreq hnodup,List.lookup_nil,Option.getD_none,
    List.nil_append,List.flatMap_assoc]
  simp only [List.flatMap_map]
  induction ws with
  | nil => rfl
  | cons w ws ih =>
    have hfirst := flatMap_ite_eq k.entityId (fun e =>
      (sample values lowFreq (aligned w e sampleIntervalNs) k.metricId).toList) (he w)
    have hrest := ih fun a ha => hnodup a (List.mem_flatMap.mpr (by
      obtain ⟨v,hv,ha⟩ := List.mem_flatMap.mp ha
      exact ⟨v,List.mem_cons_of_mem _ hv,ha⟩))
    rw [List.flatMap_cons,hrest]
    refine (congrArg (·++_) hfirst).trans ?_
    by_cases hmem : k.entityId ∈ entities w
    · rw [if_pos hmem,List.filter_cons_of_pos (by simpa using hmem)]
      simp only [List.filterMap_eq_flatMap_toList,List.flatMap_cons]
    · rw [if_neg hmem,List.filter_cons_of_neg (by simpa using hmem),List.nil_append]

variable [Spectral F]

theorem trainModel_isSome_iff (p : TrendParams F) (k : Channel) (wins : List (List F)) :
    (trainModel p k wins).W.isSome ↔ Trainable p.lowFreq p.nFft wins := by
  rw [trainModel]
  constructor
  · intro h
    by_contra hno
    rw [fit_untrainable hno] at h
    cases h
  · exact fun h => (fit_trainable h).2.2.1

/-- A model is kept for the channels whose windows are trainable. -/
theorem mem_keys_trainModels (p : TrendParams F) {d : List (Channel × List (List F))}
    (hd : (d.map Prod.fst).Nodup) (k : Channel) :
    k ∈ (trainModels p d).map Prod.fst ↔
      Trainable p.lowFreq p.nFft ((d.lookup k).getD []) := by
  simp only [trainModels,List.mem_map,List.mem_filterMap]
  constructor
  · rintro ⟨e,⟨per,hper,he⟩,rfl⟩
    split at he
    · next hsome =>
      obtain rfl := Option.some.inj he
      rw [lookup_of_mem hd (v:=per.2) hper]
      exact (trainModel_isSome_iff p per.1 per.2).mp hsome
    · cases he
  · intro h
    cases hk : d.lookup k with
    | none =>
      rw [hk] at h
      obtain ⟨n,hn,-⟩ := h
      cases hn
    | some wins =>
      rw [hk] at h
      obtain ⟨as,bs,rfl,-⟩ := List.lookup_eq_some_iff.mp hk
      have hmem : (k,wins) ∈ as++(k,wins)::bs := List.mem_append_right _ List.mem_cons_self
      exact ⟨_,⟨(k,wins),hmem,if_pos ((trainModel_isSome_iff p k wins).mpr h)⟩,rfl⟩

end Samples

end DetectorFrames
end ETraceDiag
