import ETraceDiag.Refitting
import Mathlib.Tactic.Linarith

/-!
# The cross-scale gate

When the gate of the edge cascade calls a window an anomaly, and what becomes of that in the
incidents. Both rings have to trigger a metric in one direction; what hides this is only that the
dictionary of the event ring has the missing data under a name that a metric may have, too.
-/

namespace ETraceDiag
namespace EdgeCascade

open AlignedGrid DataWindow DetectorFrames Dictionaries FreqModel Incidents NumPy TimeTable
open CausalInput (Direction WindowStatus)
open DetectorFeedback (Calibration pyMax pyMin)
open DetectorFeedback.Calibration (lit)

/-- Six tenths of a number up to one are no more than six tenths. -/
class DampFloat (F : Type) extends StateFloat F where
  damp_one : ¬ lit 6 1 < (lit 1 0 : F)*lit 6 1
  damp_lt : ∀ x : F, x < lit 1 0 → ¬ lit 6 1 < x*lit 6 1

variable {F : Type}

/-! ## Triggers -/

section Triggers

variable [StateFloat F] [Spectral F] (p : Params F) (adjustments : List (String × F))
  (s : State F) (stats : List (Channel × MetricStats F)) (a : AlignedSeries F)

/-- The event ring triggers the metric, in a direction. -/
def EventTrigger (m : String) (d : Direction) : Prop :=
  ∃ st ∈ stats.lookup ⟨a.entityId,m⟩, ∃ z ∈ zmax st (finite a (a.metrics.idxOf m)),
    eventThreshold adjustments s ⟨a.entityId,m⟩ < z ∧
      d = if st.median < NumPy.mean (finite a (a.metrics.idxOf m)) then .up else .down

/-- The trend ring triggers it. -/
def TrendTrigger (m : String) (d : Direction) : Prop :=
  ∃ model ∈ s.trendModels.lookup ⟨a.entityId,m⟩,
    p.lowFreq+4 ≤ (finite a (a.metrics.idxOf m)).length ∧
      trendThresholdOf adjustments s ⟨a.entityId,m⟩ <
        (FreqModel.score model (finite a (a.metrics.idxOf m))).1 ∧
      d = if model.median < NumPy.mean (finite a (a.metrics.idxOf m)) then .up else .down

/-- Both rings trigger one of the metrics in one direction. -/
def Confirmed (metrics : List String) (m : String) : Prop :=
  m ∈ metrics ∧ ∃ d, EventTrigger adjustments s stats a m d ∧ TrendTrigger p adjustments s a m d

/-- There are statistics of the metric, but no observed finite value. -/
def Blank (m : String) : Prop :=
  (stats.lookup ⟨a.entityId,m⟩).isSome ∧ finite a (a.metrics.idxOf m) = []

/-- The metric has the name of the missing data, and after it data is found missing. -/
def Hidden (metrics : List String) (m : String) : Prop :=
  m = quality ∧ (p.maxMissingFrac < (evaluate stats a metrics).missingFrac ∨
    ∃ before after, metrics = before++m::after ∧ ∃ k ∈ after, Blank stats a k)

end Triggers

/-! ## The dictionaries of the rings -/

section Marks

/-- The mark that a dictionary keeps under a name. -/
def lastMark (marks : List (Mark F)) (m : String) : Option (Mark F) :=
  (marks.filter fun mark => mark.name = m).getLast?

theorem lookup_scoresOf (marks : List (Mark F)) (m : String) :
    (scoresOf marks).lookup m = (lastMark marks m).map Mark.score := by
  rw [scoresOf,lookup_update_nil_last,List.filter_map,List.getLast?_map,Option.map_map]
  rfl

theorem lookup_directionsOf (marks : List (Mark F)) (m : String) :
    (directionsOf marks).lookup m = (lastMark marks m).map Mark.direction := by
  rw [directionsOf,lookup_update_nil_last,List.filter_map,List.getLast?_map,Option.map_map]
  rfl

theorem lastMark_append (xs ys : List (Mark F)) (m : String) :
    lastMark (xs++ys) m = (lastMark ys m).or (lastMark xs m) := by
  rw [lastMark,List.filter_append,List.getLast?_append]
  rfl

theorem mem_of_lastMark {marks : List (Mark F)} {m : String} {mark : Mark F}
    (h : lastMark marks m = some mark) : mark ∈ marks ∧ mark.name = m := by
  obtain ⟨hmem,hname⟩ := List.mem_filter.mp (List.mem_of_getLast? h)
  exact ⟨hmem,of_decide_eq_true hname⟩

theorem lastMark_eq_none {marks : List (Mark F)} {m : String} :
    lastMark marks m = none ↔ ∀ mark ∈ marks, mark.name ≠ m := by
  rw [lastMark,List.getLast?_eq_none_iff,List.filter_eq_nil_iff]
  simp

variable [StateFloat F]

/-- A metric is strong when both rings have it, in one direction. -/
theorem isSome_strongMark (event trend : List (Mark F)) (m : String) :
    (strongMark event trend m).isSome ↔
      ∃ e ∈ lastMark event m, ∃ t ∈ lastMark trend m, e.direction = t.direction := by
  rw [strongMark,lookup_scoresOf,lookup_scoresOf,lookup_directionsOf,lookup_directionsOf]
  cases lastMark event m with
  | none => simp
  | some e =>
    cases lastMark trend m with
    | none => simp
    | some t => by_cases h : e.direction = t.direction <;> simp [h]

/-- What is not strong but in one of the rings is uncertain. -/
theorem isSome_uncertainMark (event trend : List (Mark F)) (m : String)
    (h : lastMark event m ≠ none ∨ lastMark trend m ≠ none) :
    (strongMark event trend m).isSome ∨ (uncertainMark event trend m).isSome := by
  rw [strongMark,uncertainMark,lookup_scoresOf,lookup_scoresOf,lookup_directionsOf,
    lookup_directionsOf]
  cases he : lastMark event m with
  | none =>
    cases ht : lastMark trend m with
    | none => simp [he,ht] at h
    | some t => simp
  | some e =>
    cases lastMark trend m with
    | none => simp
    | some t => by_cases hd : e.direction = t.direction <;> simp [hd]

end Marks

section Rings

variable [StateFloat F] [Spectral F] {p : Params F} {adjustments : List (String × F)}
  {s : State F} {stats : List (Channel × MetricStats F)} {a : AlignedSeries F}
  {metrics : List String} {m : String}

omit [StateFloat F] [Spectral F] in
/-- Of marks that have the names of their metrics the dictionary keeps each. -/
theorem lastMark_filterMap {f : String → Option (Mark F)}
    (hf : ∀ m, ∀ mark ∈ f m, mark.name = m) (metrics : List String) (m : String) :
    lastMark (metrics.filterMap f) m = if m ∈ metrics then f m else none := by
  have hone : ∀ x, lastMark (f x).toList m = if m = x then f m else none := by
    intro x
    by_cases hm : m = x
    · subst hm
      rw [if_pos rfl]
      cases hx : f m with
      | none => rfl
      | some mark => simp [lastMark,hf m mark hx]
    · rw [if_neg hm,lastMark_eq_none]
      intro mark hmark hname
      exact hm (hname.symm.trans (hf x mark (Option.mem_toList.mp hmark)))
  induction metrics with
  | nil => rfl
  | cons x metrics ih =>
    have hcons : (x::metrics).filterMap f = (f x).toList++metrics.filterMap f := by
      rw [List.filterMap_cons]
      cases f x <;> rfl
    rw [hcons,lastMark_append,ih,hone]
    by_cases hm : m = x
    · subst hm
      by_cases hin : m ∈ metrics <;> simp [hin]
    · by_cases hin : m ∈ metrics <;> simp [hm,hin]

theorem trendMark_spec (d : Direction) : (∃ t ∈ trendMark p adjustments s a m, t.direction = d) ↔
    TrendTrigger p adjustments s a m d := by
  rw [trendMark,TrendTrigger]
  cases s.trendModels.lookup ⟨a.entityId,m⟩ with
  | none => simp
  | some model =>
    by_cases hlen : (finite a (a.metrics.idxOf m)).length < p.lowFreq+4
    · simp [hlen,Nat.not_le.mpr hlen]
    · by_cases hthr : trendThresholdOf adjustments s ⟨a.entityId,m⟩ <
          (FreqModel.score model (finite a (a.metrics.idxOf m))).1
      · simp [hlen,Nat.not_lt.mp hlen,hthr,eq_comm]
      · simp [hlen,hthr]

theorem name_trendMark : ∀ m, ∀ t ∈ trendMark p adjustments s a m, t.name = m := by
  intro m t ht
  rw [Option.mem_def,trendMark] at ht
  split at ht
  · cases ht
  · dsimp only at ht
    split at ht
    · cases ht
    · split at ht
      · rw [← Option.some.inj ht]
      · cases ht

omit [Spectral F] in
theorem zmax_eq_none {st : MetricStats F} {arr : List F} : zmax st arr = none ↔ arr = [] := by
  cases arr <;> simp [zmax]

/-- The event ring says of a metric that it is blank, or that it is triggered. -/
theorem eventMark_cases {mark : Mark F} (h : eventMark adjustments s stats a m = some mark) :
    (Blank stats a m ∧ mark.name = quality ∧ mark.direction = .missing) ∨
      (mark.name = m ∧ EventTrigger adjustments s stats a m mark.direction) := by
  rw [eventMark] at h
  split at h
  · cases h
  · next st hst =>
    dsimp only at h
    split at h
    · next hz =>
      rw [← Option.some.inj h]
      exact .inl ⟨⟨by rw [hst]; rfl,zmax_eq_none.mp hz⟩,rfl,rfl⟩
    · next z hz =>
      split at h
      · next hthr =>
        rw [← Option.some.inj h]
        exact .inr ⟨rfl,st,hst,z,hz,hthr,rfl⟩
      · cases h

theorem eventMark_blank (h : Blank stats a m) :
    eventMark adjustments s stats a m = some ⟨quality,lit 1 0,.missing⟩ := by
  obtain ⟨hsome,hnone⟩ := h
  obtain ⟨st,hst⟩ := Option.isSome_iff_exists.mp hsome
  rw [eventMark,hst,hnone]
  rfl

theorem eventMark_trigger {d : Direction} (h : EventTrigger adjustments s stats a m d) :
    ∃ mark, eventMark adjustments s stats a m = some mark ∧ mark.name = m ∧
      mark.direction = d := by
  obtain ⟨st,hst,z,hz,hthr,rfl⟩ := h
  rw [Option.mem_def] at hst hz
  simp only [eventMark,hst,hz,if_pos hthr]
  exact ⟨_,rfl,rfl,rfl⟩

theorem direction_ne_missing {d : Direction} (h : EventTrigger adjustments s stats a m d) :
    d ≠ .missing := by
  obtain ⟨st,-,z,-,-,rfl⟩ := h
  split <;> decide

omit [Spectral F] in
/-- Where the event ring has something the trend ring runs. -/
theorem needTrend_of_event {event : List (Mark F)} (h : event ≠ []) (ring : RingOutput F) :
    NeedTrend p event ring := by
  rw [NeedTrend]
  by_cases hquality : quality ∈ event.map Mark.name
  · exact .inr (.inr (.inr hquality))
  · exact .inl ⟨h,hquality⟩

/-- The marks that come after those of a metric. -/
def laterMarks (p : Params F) (adjustments : List (String × F)) (s : State F)
    (stats : List (Channel × MetricStats F)) (a : AlignedSeries F) (metrics after : List String) :
    List (Mark F) :=
  after.filterMap (eventMark adjustments s stats a)++
    if p.maxMissingFrac < (evaluate stats a metrics).missingFrac then
      [⟨quality,pyMin (lit 1 0) (evaluate stats a metrics).missingFrac,.missing⟩]
    else []

theorem eventMarks_split (before after : List String) :
    eventMarks p adjustments s stats a (before++m::after) =
      before.filterMap (eventMark adjustments s stats a)++
        ((eventMark adjustments s stats a m).toList++
          laterMarks p adjustments s stats a (before++m::after) after) := by
  have hsplit : (before++m::after).filterMap (eventMark adjustments s stats a) =
      before.filterMap (eventMark adjustments s stats a)++
        ((eventMark adjustments s stats a m).toList++
          after.filterMap (eventMark adjustments s stats a)) := by
    rw [List.filterMap_append,List.filterMap_cons]
    cases eventMark adjustments s stats a m <;> rfl
  rw [eventMarks,hsplit,laterMarks]
  split <;> simp

/-- A mark of another metric that has the name is of a blank one. -/
theorem blank_of_other {ms : List String} (hm : m ∉ ms) {mark : Mark F}
    (hmark : mark ∈ ms.filterMap (eventMark adjustments s stats a)) (hname : mark.name = m) :
    m = quality ∧ mark.direction = .missing ∧ ∃ k ∈ ms, Blank stats a k := by
  obtain ⟨k,hk,hmark⟩ := List.mem_filterMap.mp hmark
  rcases eventMark_cases hmark with ⟨hblank,hquality,hmissing⟩ | ⟨hself,-⟩
  · exact ⟨hname.symm.trans hquality,hmissing,k,hk,hblank⟩
  · exact absurd (hname.symm.trans hself ▸ hk) hm

/-- What comes later hides the metric. -/
theorem hidden_iff {before after : List String} (hnodup : (before++m::after).Nodup) :
    Hidden p stats a (before++m::after) m ↔
      ∃ mark ∈ laterMarks p adjustments s stats a (before++m::after) after, mark.name = m := by
  have hafter : m ∉ after := (List.nodup_cons.mp hnodup.of_append_right).1
  have hbefore : m ∉ before := fun hin =>
    (List.disjoint_of_nodup_append hnodup) hin List.mem_cons_self
  rw [Hidden,laterMarks]
  constructor
  · rintro ⟨rfl,hfrac | ⟨before',after',heq,k,hk,hblank⟩⟩
    · rw [if_pos hfrac]
      exact ⟨_,List.mem_append_right _ (List.mem_singleton_self _),rfl⟩
    · have hnodup' := heq ▸ hnodup
      have hafter' : quality ∉ after' := (List.nodup_cons.mp hnodup'.of_append_right).1
      obtain ⟨-,-,rfl⟩ := (List.append_cons_inj_of_notMem hbefore hafter).mp heq
      refine ⟨_,List.mem_append_left _ (List.mem_filterMap.mpr ⟨k,hk,eventMark_blank hblank⟩),rfl⟩
  · rintro ⟨mark,hmark,hname⟩
    rcases List.mem_append.mp hmark with hmark | hmark
    · obtain ⟨hm,-,hblank⟩ := blank_of_other hafter hmark hname
      exact ⟨hm,.inr ⟨before,after,rfl,hblank⟩⟩
    · split at hmark
      · next hfrac =>
        rw [List.mem_singleton.mp hmark] at hname
        exact ⟨hname.symm,.inl hfrac⟩
      · cases hmark

theorem missing_of_later {before after : List String} (hnodup : (before++m::after).Nodup)
    {mark : Mark F} (hmark : mark ∈ laterMarks p adjustments s stats a (before++m::after) after)
    (hname : mark.name = m) : mark.direction = .missing := by
  have hafter : m ∉ after := (List.nodup_cons.mp hnodup.of_append_right).1
  rcases List.mem_append.mp hmark with hmark | hmark
  · exact (blank_of_other hafter hmark hname).2.1
  · split at hmark
    · rw [List.mem_singleton.mp hmark]
    · cases hmark

/-- The dictionary of the event ring has the direction of a triggered metric that is not hidden. -/
theorem last_event_iff (hnodup : metrics.Nodup) (hm : m ∈ metrics) {d : Direction}
    (hd : d ≠ .missing) :
    (∃ e ∈ lastMark (eventMarks p adjustments s stats a metrics) m, e.direction = d) ↔
      EventTrigger adjustments s stats a m d ∧ ¬ Hidden p stats a metrics m := by
  obtain ⟨before,after,rfl⟩ := List.append_of_mem hm
  have hbefore : m ∉ before := fun hin =>
    (List.disjoint_of_nodup_append hnodup) hin List.mem_cons_self
  rw [eventMarks_split,lastMark_append,lastMark_append,hidden_iff hnodup]
  cases hlater : lastMark (laterMarks p adjustments s stats a (before++m::after) after) m with
  | some e =>
    obtain ⟨hmem,hname⟩ := mem_of_lastMark hlater
    have hmissing := missing_of_later hnodup hmem hname
    refine iff_of_false ?_ fun h => h.2 ⟨e,hmem,hname⟩
    rintro ⟨e',he',rfl⟩
    obtain rfl := Option.some.inj he'
    exact hd hmissing
  | none =>
    have hnone := lastMark_eq_none.mp hlater
    rw [Option.none_or,and_iff_left fun ⟨mark,hmark,hname⟩ => hnone mark hmark hname]
    constructor
    · rintro ⟨e,he,rfl⟩
      rcases Option.or_eq_some_iff.mp he with he | ⟨-,he⟩
      · obtain ⟨hmem,hname⟩ := mem_of_lastMark he
        rcases eventMark_cases (Option.mem_toList.mp hmem) with ⟨-,-,hmissing⟩ | ⟨-,htrigger⟩
        · exact absurd hmissing hd
        · exact htrigger
      · obtain ⟨hmem,hname⟩ := mem_of_lastMark he
        exact absurd (blank_of_other hbefore hmem hname).2.1 hd
    · intro htrigger
      obtain ⟨mark,hmark,hname,hdirection⟩ := eventMark_trigger htrigger
      refine ⟨mark,?_,hdirection⟩
      rw [hmark]
      simp [lastMark,hname]

theorem last_trend_iff (hm : m ∈ metrics) {event : List (Mark F)} (hevent : event ≠ [])
    (d : Direction) :
    (∃ t ∈ lastMark (trendMarks p adjustments s stats a metrics event) m, t.direction = d) ↔
      TrendTrigger p adjustments s a m d := by
  rw [trendMarks,if_pos (needTrend_of_event hevent _),lastMark_filterMap name_trendMark,if_pos hm,
    trendMark_spec]

/-- A metric is strong exactly when both rings trigger it in one direction, and it is not
hidden. -/
theorem isSome_strong_iff (hnodup : metrics.Nodup) (hm : m ∈ metrics) :
    (strongMark (eventMarks p adjustments s stats a metrics)
        (trendMarks p adjustments s stats a metrics
          (eventMarks p adjustments s stats a metrics)) m).isSome ↔
      Confirmed p adjustments s stats a metrics m ∧ ¬ Hidden p stats a metrics m := by
  rw [isSome_strongMark,Confirmed,and_iff_right hm]
  constructor
  · rintro ⟨e,he,t,ht,hsame⟩
    have hevent := List.ne_nil_of_mem (mem_of_lastMark he).1
    have htrend := (last_trend_iff hm hevent t.direction).mp ⟨t,ht,rfl⟩
    have hmissing : t.direction ≠ .missing := by
      obtain ⟨model,-,-,-,hdirection⟩ := htrend
      rw [hdirection]
      split <;> decide
    obtain ⟨htrigger,hshown⟩ := (last_event_iff hnodup hm hmissing).mp ⟨e,he,hsame⟩
    exact ⟨⟨_,htrigger,htrend⟩,hshown⟩
  · rintro ⟨⟨d,htrigger,htrend⟩,hshown⟩
    obtain ⟨e,he,hdirection⟩ :=
      (last_event_iff hnodup hm (direction_ne_missing htrigger)).mpr ⟨htrigger,hshown⟩
    have hevent := List.ne_nil_of_mem (mem_of_lastMark he).1
    obtain ⟨t,ht,hsame⟩ := (last_trend_iff hm hevent d).mpr htrend
    exact ⟨e,he,t,ht,hdirection.trans hsame.symm⟩

end Rings

/-! ## The gate -/

section Gate

variable [StateFloat F] {event trend : List (Mark F)} {metrics : List String} {m : String}

/-- The metrics of a window that a ring has something of. -/
def InRing (event trend : List (Mark F)) (m : String) : Prop :=
  lastMark event m ≠ none ∨ lastMark trend m ≠ none

/-- The mark of the missing data. -/
def missingMarks (event : List (Mark F)) : List (Mark F) :=
  match (scoresOf event).lookup quality with
  | none => []
  | some q => [⟨quality,q,.missing⟩]

theorem gate_eq (event trend : List (Mark F)) (metrics : List String) :
    gate event trend metrics =
      if metrics.filterMap (strongMark event trend) ≠ [] then
        let marks := metrics.filterMap (uncertainMark event trend)++
          metrics.filterMap (strongMark event trend)++missingMarks event
        some ⟨scoresOf marks,directionsOf marks,.anomaly⟩
      else if missingMarks event ≠ [] then
        some ⟨scoresOf (missingMarks event),directionsOf (missingMarks event),.uncertain⟩
      else if metrics.filterMap (uncertainMark event trend) ≠ [] then
        some ⟨scoresOf (metrics.filterMap (uncertainMark event trend)),
          directionsOf (metrics.filterMap (uncertainMark event trend)),.uncertain⟩
      else none := rfl

/-- The gate finds an anomaly when a metric is strong, and then keeps the score of every metric
that a ring has something of. -/
theorem gate_anomaly {v : Verdict F} (h : gate event trend metrics = some v) :
    (v.status = .anomaly ↔ ∃ m ∈ metrics, (strongMark event trend m).isSome) ∧
      (v.status = .anomaly → ∀ m ∈ metrics, InRing event trend m →
        m ∈ v.scores.map Prod.fst) := by
  have hstrong : metrics.filterMap (strongMark event trend) ≠ [] ↔
      ∃ m ∈ metrics, (strongMark event trend m).isSome := by
    rw [ne_eq,List.filterMap_eq_nil_iff]
    simp [Option.isSome_iff_ne_none]
  rw [gate_eq] at h
  split at h
  · next hne =>
    rw [← Option.some.inj h]
    refine ⟨iff_of_true rfl (hstrong.mp hne),fun _ m hm hring => ?_⟩
    rw [mem_keys_scoresOf]
    rcases isSome_uncertainMark event trend m hring with hsome | hsome
    · obtain ⟨mark,hmark⟩ := Option.isSome_iff_exists.mp hsome
      refine ⟨mark,?_,(strongMark_spec hmark).1⟩
      exact List.mem_append_left _ (List.mem_append_right _ (List.mem_filterMap.mpr ⟨m,hm,hmark⟩))
    · obtain ⟨mark,hmark⟩ := Option.isSome_iff_exists.mp hsome
      refine ⟨mark,?_,(uncertainMark_spec hmark).1⟩
      exact List.mem_append_left _ (List.mem_append_left _ (List.mem_filterMap.mpr ⟨m,hm,hmark⟩))
  · next hnone =>
    have hno : ¬ ∃ m ∈ metrics, (strongMark event trend m).isSome := mt hstrong.mpr hnone
    have hstatus : v.status ≠ .anomaly := by
      split at h
      · rw [← Option.some.inj h]
        exact fun hstatus => by cases hstatus
      · split at h
        · rw [← Option.some.inj h]
          exact fun hstatus => by cases hstatus
        · cases h
    exact ⟨iff_of_false hstatus hno,fun hverdict => absurd hverdict hstatus⟩

/-- The gate lets pass whatever the rings have. -/
theorem isSome_gate (hevent : ∀ e ∈ event, e.name ∈ metrics ∨ e.name = quality)
    (htrend : ∀ t ∈ trend, t.name ∈ metrics) :
    (gate event trend metrics).isSome ↔ event ≠ [] ∨ trend ≠ [] := by
  constructor
  · intro h
    by_contra hno
    rw [not_or,not_not,not_not] at hno
    obtain ⟨rfl,rfl⟩ := hno
    simp [gate,strongMark,uncertainMark,scoresOf,update] at h
  · intro h
    have hring : (∃ m ∈ metrics, InRing event trend m) ∨ lastMark event quality ≠ none := by
      have hlast : ∀ (marks : List (Mark F)), ∀ mark ∈ marks, lastMark marks mark.name ≠ none :=
        fun marks mark hmark hnone => lastMark_eq_none.mp hnone mark hmark rfl
      rcases h with hne | hne
      · obtain ⟨e,he⟩ := List.exists_mem_of_ne_nil _ hne
        rcases hevent e he with hin | hquality
        · exact .inl ⟨e.name,hin,.inl (hlast event e he)⟩
        · exact .inr (hquality ▸ hlast event e he)
      · obtain ⟨t,ht⟩ := List.exists_mem_of_ne_nil _ hne
        exact .inl ⟨t.name,htrend t ht,.inr (hlast trend t ht)⟩
    rw [gate_eq]
    split
    · rfl
    · next hstrong =>
      split
      · rfl
      · next hmissing =>
        split
        · rfl
        · next huncertain =>
          exfalso
          rw [not_not] at hstrong hmissing huncertain
          rcases hring with ⟨m,hm,hring⟩ | hquality
          · rcases isSome_uncertainMark event trend m hring with hsome | hsome
            · rw [List.filterMap_eq_nil_iff.mp hstrong m hm] at hsome
              cases hsome
            · rw [List.filterMap_eq_nil_iff.mp huncertain m hm] at hsome
              cases hsome
          · obtain ⟨mark,hmark⟩ := Option.ne_none_iff_exists'.mp hquality
            rw [missingMarks,lookup_scoresOf,hmark] at hmissing
            cases hmissing

end Gate

/-! ## Windows -/

/-- No metric of an entity is listed twice. -/
theorem nodup_splitMetrics (entityId : String) (w : Window F) :
    (splitMetrics entityId w).1.Nodup ∧ (splitMetrics entityId w).2.Nodup := by
  have hnew : ∀ {ms : List String} {m : String}, ms.Nodup → m ∉ ms → (ms++[m]).Nodup := by
    intro ms m hms hm
    rw [← List.concat_eq_append]
    exact hms.concat hm
  rw [splitMetrics]
  induction w.frame.points using List.reverseRecOn with
  | nil => exact ⟨List.nodup_nil,List.nodup_nil⟩
  | append_singleton ps p ih =>
    rw [List.foldl_append,List.foldl_cons,List.foldl_nil]
    split
    · exact ih
    · split
      · exact ih
      · next hno =>
        rw [not_or] at hno
        split
        · exact ⟨ih.1,hnew ih.2 hno.1⟩
        · exact ⟨hnew ih.1 hno.2,ih.2⟩

section Windows

variable [StateFloat F] [Spectral F] (p : Params F) (adjustments : List (String × F))
  (s : State F) (stats : List (Channel × MetricStats F)) (entityId : String) (w : Window F)

/-- Both rings trigger a metric of the entity in one direction. -/
def ConfirmedIn (m : String) : Prop :=
  Confirmed p adjustments s stats (aligned w entityId s.sampleIntervalNs)
    (splitMetrics entityId w).1 m

def HiddenIn (m : String) : Prop :=
  Hidden p stats (aligned w entityId s.sampleIntervalNs) (splitMetrics entityId w).1 m

/-- One of the rings triggers a metric of the entity. -/
def TriggeredIn (m : String) : Prop :=
  m ∈ (splitMetrics entityId w).1 ∧
    ((∃ d, EventTrigger adjustments s stats (aligned w entityId s.sampleIntervalNs) m d) ∨
      ∃ d, TrendTrigger p adjustments s (aligned w entityId s.sampleIntervalNs) m d)

/-- The window has rows, its missing cells are few or a gap, and one of the rings has a mark. -/
def Reported : Prop :=
  let a := aligned w entityId s.sampleIntervalNs
  let metrics := (splitMetrics entityId w).1
  let event := eventMarks p adjustments s stats a metrics
  a.tsNs ≠ [] ∧ ¬ (p.maxMissingFrac < (evaluate stats a metrics).missingFrac ∧
    ¬ realMidStreamGap a) ∧
      (event ≠ [] ∨ trendMarks p adjustments s stats a metrics event ≠ [])

instance : Decidable (Reported p adjustments s stats entityId w) :=
  inferInstanceAs (Decidable (_ ∧ _ ∧ _))

variable {p adjustments s stats entityId w}

theorem name_eventMarks {a : AlignedSeries F} {metrics : List String} :
    ∀ e ∈ eventMarks p adjustments s stats a metrics, e.name ∈ metrics ∨ e.name = quality := by
  intro e he
  have hring : e ∈ metrics.filterMap (eventMark adjustments s stats a) →
      e.name ∈ metrics ∨ e.name = quality := by
    intro hmem
    obtain ⟨k,hk,hmark⟩ := List.mem_filterMap.mp hmem
    rcases eventMark_cases hmark with ⟨-,hquality,-⟩ | ⟨hname,-⟩
    · exact .inr hquality
    · exact .inl (hname ▸ hk)
  rw [eventMarks] at he
  split at he
  · rcases List.mem_append.mp he with he | he
    · exact hring he
    · exact .inr (by rw [List.mem_singleton.mp he])
  · exact hring he

theorem name_trendMarks {a : AlignedSeries F} {metrics : List String} {event : List (Mark F)} :
    ∀ t ∈ trendMarks p adjustments s stats a metrics event, t.name ∈ metrics := by
  intro t ht
  rw [trendMarks] at ht
  split at ht
  · obtain ⟨k,hk,hmark⟩ := List.mem_filterMap.mp ht
    rwa [name_trendMark k t hmark]
  · cases ht

/-- What `_score_window` returns is the gate's, with other scores under the same names. -/
theorem scoreWindow_gate (hasState : String → Bool) (entityId : String) (w : Window F)
    {v : Verdict F} (h : scoreWindow p adjustments s stats hasState entityId w = some v) :
    ∃ u, gate (eventMarks p adjustments s stats (aligned w entityId s.sampleIntervalNs)
        (splitMetrics entityId w).1)
      (trendMarks p adjustments s stats (aligned w entityId s.sampleIntervalNs)
        (splitMetrics entityId w).1 (eventMarks p adjustments s stats
          (aligned w entityId s.sampleIntervalNs) (splitMetrics entityId w).1))
      (splitMetrics entityId w).1 = some u ∧ v.status = u.status ∧
        v.scores.map Prod.fst = u.scores.map Prod.fst := by
  rw [scoreWindow] at h
  dsimp only at h
  split at h
  · cases h
  · obtain ⟨u,hgate,rfl⟩ := Option.map_eq_some_iff.mp h
    refine ⟨u,hgate,?_⟩
    split
    · exact ⟨rfl,keys_stateBranch _ _ _⟩
    · exact ⟨rfl,rfl⟩

theorem isSome_scoreWindow (hasState : String → Bool) (entityId : String) (w : Window F) :
    (scoreWindow p adjustments s stats hasState entityId w).isSome ↔
      Reported p adjustments s stats entityId w := by
  rw [scoreWindow,Reported]
  dsimp only
  split
  · next h =>
    refine iff_of_false (by simp) fun hreported => ?_
    rcases h with hrows | hskipped
    · exact hreported.1 hrows
    · exact hreported.2.1 hskipped
  · next h =>
    rw [not_or] at h
    rw [Option.isSome_map,isSome_gate name_eventMarks name_trendMarks,and_iff_right h.1,
      and_iff_right h.2]

/-- A window is an anomaly exactly when both rings trigger a metric that is not hidden; it has the
scores of all metrics that a ring triggers then. -/
theorem scoreWindow_anomaly {hasState : String → Bool} {v : Verdict F}
    (h : scoreWindow p adjustments s stats hasState entityId w = some v) :
    (v.status = .anomaly ↔ ∃ m, ConfirmedIn p adjustments s stats entityId w m ∧
        ¬ HiddenIn p s stats entityId w m) ∧
      (v.status = .anomaly → ∀ m, TriggeredIn p adjustments s stats entityId w m →
        m ∈ v.scores.map Prod.fst) := by
  obtain ⟨u,hgate,hstatus,hkeys⟩ := scoreWindow_gate hasState entityId w h
  obtain ⟨hanomaly,hkept⟩ := gate_anomaly hgate
  have hnodup := (nodup_splitMetrics entityId w).1
  rw [hstatus,hkeys]
  refine ⟨hanomaly.trans ?_,fun hverdict m hm => hkept hverdict m hm.1 ?_⟩
  · constructor
    · rintro ⟨m,hm,hstrong⟩
      exact ⟨m,(isSome_strong_iff hnodup hm).mp hstrong⟩
    · rintro ⟨m,hconfirmed,hshown⟩
      exact ⟨m,hconfirmed.1,(isSome_strong_iff hnodup hconfirmed.1).mpr ⟨hconfirmed,hshown⟩⟩
  · obtain ⟨k,hk,hstrong⟩ := hanomaly.mp hverdict
    obtain ⟨e,he,-⟩ := (isSome_strongMark _ _ k).mp hstrong
    have hevent := List.ne_nil_of_mem (mem_of_lastMark he).1
    obtain ⟨hin,⟨d,htrigger⟩ | ⟨d,htrigger⟩⟩ := hm
    · left
      obtain ⟨mark,hmark,hname,-⟩ := eventMark_trigger htrigger
      refine fun hnone => lastMark_eq_none.mp hnone mark ?_ hname
      have hring := List.mem_filterMap.mpr ⟨m,hin,hmark⟩
      rw [eventMarks]
      split
      · exact List.mem_append_left _ hring
      · exact hring
    · right
      obtain ⟨t,ht,-⟩ := (last_trend_iff hin hevent d).mpr htrigger
      rw [Option.mem_def.mp ht]
      exact Option.some_ne_none t

end Windows

/-! ## Incidents -/

section Runs

variable [DampFloat F] [Spectral F] (p : Params F) (adjustments : List (String × F))
  (s : State F) (state : Option (TelemetryFrame F)) (stats : List (Channel × MetricStats F))
  (frame : TelemetryFrame F)

def hasStateOf (state : Option (TelemetryFrame F)) (entityId : String) : Bool :=
  state.any fun state => entityId ∈ entities state

/-- The windows in which something is found for an entity. -/
def windowsOf (entityId : String) : List (Window F) :=
  (p.maker.windows frame).filter fun w => Reported p adjustments s stats entityId w

/-- The runs of them that overlap. -/
def runsOf (entityId : String) : List (List (Window F)) :=
  OverlapRuns.runs Window.startNs Window.endNs (windowsOf p adjustments s stats frame entityId)

/-- An incident is an anomaly exactly when in one of its windows both rings trigger a metric in one
direction, what is uncertain is not more severe than six tenths, and an anomalous window keeps
the scores of all metrics that a ring triggers. -/
structure Gated (found : List (Incident F)) : Prop where
  anomaly : ∀ inc ∈ found, inc.status = .anomaly ↔
    ∃ w ∈ windowsOf p adjustments s stats frame inc.entityId, Covers inc w ∧
      ∃ m, ConfirmedIn p adjustments s stats inc.entityId w m
  uncertain : ∀ inc ∈ found, inc.status = .uncertain → ¬ lit 6 1 < inc.severity
  kept : ∀ inc ∈ found, ∀ w ∈ windowsOf p adjustments s stats frame inc.entityId, Covers inc w →
    ∀ v ∈ scoreWindow p adjustments s stats (hasStateOf state) inc.entityId w,
      v.status = .anomaly → ∀ m, TriggeredIn p adjustments s stats inc.entityId w m →
        m ∈ v.scores.map Prod.fst ∧ m ∈ inc.scores.map Prod.fst

/-- Where both rings trigger a metric in a run, they do one that is not hidden. -/
def ShowsConfirmed : Prop :=
  ∀ entityId ∈ entities frame, ∀ run ∈ runsOf p adjustments s stats frame entityId,
    (∃ w ∈ run, ∃ m, ConfirmedIn p adjustments s stats entityId w m) →
      ∃ w ∈ run, ∃ m, ConfirmedIn p adjustments s stats entityId w m ∧
        ¬ HiddenIn p s stats entityId w m

variable {p adjustments s state stats frame}

omit [Spectral F] in
/-- A damped severity is no more than six tenths. -/
theorem severity_uncertain {d : Verdict F} (h : d.status = .uncertain) :
    ¬ lit 6 1 < severity d := by
  have hdamped : ∀ x : F, ¬ lit 6 1 < pyMin (lit 1 0) x*lit 6 1 := by
    intro x
    rw [pyMin]
    split
    · next hx => exact DampFloat.damp_lt x hx
    · exact DampFloat.damp_one
  rw [severity,if_pos h]
  exact hdamped _

theorem reported_eq (entityId : String) :
    reported p.maker (scoreWindow p adjustments s stats (hasStateOf state)) frame entityId =
      windowsOf p adjustments s stats frame entityId := by
  refine List.filter_congr fun w _ => ?_
  rw [Bool.eq_iff_iff,isSome_scoreWindow,decide_eq_true_eq]

/-- The windows of an incident are those of its run. -/
theorem covers_iff_mem_run {inc : Incident F} {run : List (Window F)}
    (hrun : run ∈ runsOf p adjustments s stats frame inc.entityId)
    (hjoins : Joins (scoreWindow p adjustments s stats (hasStateOf state)) run inc) (w : Window F) :
    (w ∈ windowsOf p adjustments s stats frame inc.entityId ∧ Covers inc w) ↔ w ∈ run := by
  have hstarts := reported_starts p.maker
    (scoreWindow p adjustments s stats (hasStateOf state)) frame inc.entityId
  have hstops := reported_ends p.maker
    (scoreWindow p adjustments s stats (hasStateOf state)) frame inc.entityId
  rw [reported_eq] at hstarts hstops
  have horder : ∀ x ∈ windowsOf p adjustments s stats frame inc.entityId,
      x.startNs ≤ x.endNs := by
    intro x hx
    rw [windows_end p.maker (List.mem_of_mem_filter hx)]
    exact Nat.le_add_right _ _
  rw [hjoins.covers]
  constructor
  · rintro ⟨hw,hspans⟩
    exact OverlapRuns.mem_run_of_spans hstarts horder hrun hw hspans
  · exact fun hw => ⟨OverlapRuns.mem_of_mem_runs hrun hw,
      OverlapRuns.spans_of_mem hstarts hstops hrun hw⟩

/-- What an incident says of its windows. -/
theorem joins_anomaly {inc : Incident F} {run : List (Window F)}
    (hrun : run ∈ runsOf p adjustments s stats frame inc.entityId)
    (hjoins : Joins (scoreWindow p adjustments s stats (hasStateOf state)) run inc) :
    inc.status = .anomaly ↔ ∃ w ∈ run, ∃ m,
      ConfirmedIn p adjustments s stats inc.entityId w m ∧
        ¬ HiddenIn p s stats inc.entityId w m := by
  rw [hjoins.anomaly]
  refine exists_congr fun w => and_congr_right fun hw => ?_
  have hreported := of_decide_eq_true
    (List.mem_filter.mp (OverlapRuns.mem_of_mem_runs hrun hw)).2
  obtain ⟨v,hv⟩ := Option.isSome_iff_exists.mp
    ((isSome_scoreWindow (hasStateOf state) inc.entityId w).mpr hreported)
  rw [← (scoreWindow_anomaly hv).1,hv]
  simp

variable (p adjustments s state stats frame)

/-- The incidents say what the rings do exactly where no run has nothing but hidden metrics. -/
theorem found_gated_iff : Gated p adjustments s state stats frame
      (found keepFirst p.maker (scoreWindow p adjustments s stats (hasStateOf state)) frame) ↔
    ShowsConfirmed p adjustments s stats frame := by
  have hruns : ∀ entityId, reportedRuns p.maker
      (scoreWindow p adjustments s stats (hasStateOf state)) frame entityId =
        runsOf p adjustments s stats frame entityId := fun entityId => by
    rw [reportedRuns,reported_eq,runsOf]
  constructor
  · intro h entityId he run hrun hconfirmed
    obtain ⟨inc,hinc,rfl,hjoins⟩ := exists_incident keepFirst p.maker
      (scoreWindow p adjustments s stats (hasStateOf state)) he (by rwa [hruns])
    refine (joins_anomaly hrun hjoins).mp ((h.anomaly inc hinc).mpr ?_)
    obtain ⟨w,hw,hm⟩ := hconfirmed
    obtain ⟨hin,hcovers⟩ := (covers_iff_mem_run hrun hjoins w).mpr hw
    exact ⟨w,hin,hcovers,hm⟩
  · intro h
    have hrun : ∀ inc ∈ found keepFirst p.maker
        (scoreWindow p adjustments s stats (hasStateOf state)) frame,
        inc.entityId ∈ entities frame ∧
          ∃ run ∈ runsOf p adjustments s stats frame inc.entityId,
            Joins (scoreWindow p adjustments s stats (hasStateOf state)) run inc := by
      intro inc hinc
      have hexists := exists_run keepFirst p.maker _ hinc
      rwa [hruns] at hexists
    refine ⟨fun inc hinc => ?_,fun inc hinc hstatus => ?_,fun inc hinc w hw hcovers => ?_⟩
    · obtain ⟨he,run,hrun,hjoins⟩ := hrun inc hinc
      rw [joins_anomaly hrun hjoins]
      constructor
      · rintro ⟨w,hw,m,hm,-⟩
        obtain ⟨hin,hcovers⟩ := (covers_iff_mem_run hrun hjoins w).mpr hw
        exact ⟨w,hin,hcovers,m,hm⟩
      · rintro ⟨w,hin,hcovers,hm⟩
        exact h inc.entityId he run hrun
          ⟨w,(covers_iff_mem_run hrun hjoins w).mp ⟨hin,hcovers⟩,hm⟩
    · obtain ⟨entityId,-,run,-,d,-,rfl⟩ := (mem_found keepFirst p.maker _).mp hinc
      exact severity_uncertain hstatus
    · intro v hv hstatus m hm
      obtain ⟨-,run,hrun,hjoins⟩ := hrun inc hinc
      have hkept := (scoreWindow_anomaly hv).2 hstatus m hm
      have hin := (covers_iff_mem_run hrun hjoins w).mp ⟨hw,hcovers⟩
      exact ⟨hkept,(hjoins.names m).mpr ⟨w,hin,v,hv,hkept⟩⟩

/-- What a detector that has been fitted returns is right about both rings exactly where, in each
run of overlapping windows that something is found in, a metric that both rings trigger in one
direction is not the only one of them that has the name of the missing data and is followed by
some. -/
theorem score_gated_iff :
    (∀ stats ∈ s.normalizer, ∀ found ∈ score p adjustments s state frame,
      Gated p adjustments s state stats frame found) ↔
    (∀ stats ∈ s.normalizer, s.fitDone = true → ShowsConfirmed p adjustments s stats frame) := by
  refine forall₂_congr fun stats hstats => ?_
  rw [score,Option.mem_def.mp hstats]
  dsimp only
  split
  · next hfit =>
    rw [imp_iff_right hfit,← found_gated_iff p adjustments s state stats frame]
    simp only [Option.mem_some,forall_eq']
    rfl
  · next hfit => simp [hfit]

end Runs

section Fitted

variable [StateFloat F] [Spectral F] (p : Params F) (t : Training F) (interval : ℕ)

/-- What is left of a first training, once its interval is known. -/
def fitted : State F where
  normalizer := some (fitFrame t.train)
  eventThresholds := update [] (eventThresholds p t)
  trendModels := update [] (newModels p interval t.train)
  trendThresholds := update [] ((update [] (newModels p interval t.train)).map fun e =>
    (e.1,trendThreshold p.trend interval t.cal e.1 e.2))
  sampleIntervalNs := interval
  stateMemory := fitStateMemory t.train
  fitDone := true

variable {p t interval}

theorem fit_new (hpoints : t.train.points ≠ []) (hfinite : ¬ InfiniteState t.train)
    (hgap : commonGap t.train = some interval) : fit p {} t = (true,fitted p t interval) := by
  rw [fit,if_neg hpoints,if_neg hfinite]
  simp only [fitRings,hgap]
  rfl

end Fitted

/-! ## A metric with the name of the missing data -/

/-- Numbers and none, with the square roots that are rational. -/
def Exact : Type := Option ℚ

namespace Exact

/-- The value at a position of a list that is sorted by insertion. -/
def valueAt (xs : List ℚ) (pos : ℚ) : Option ℚ := do
  let sorted := xs.insertionSort (·≤·)
  let below ← sorted[pos.floor.toNat]?
  let above := (sorted[pos.floor.toNat+1]?).getD below
  pure (below+(pos-pos.floor)*(above-below))

def median (xs : List (Option ℚ)) : Option ℚ := do
  let ns ← numbers xs
  valueAt ns (((ns.length : ℚ)-1)/(1+1))

def quantile (xs : List (Option ℚ)) (q : Option ℚ) : Option ℚ := do
  let ns ← numbers xs
  valueAt ns (((ns.length : ℚ)-1)*(← q))

def std (xs : List (Option ℚ)) : Option ℚ := do
  let ns ← numbers xs
  let mean := ns.sum/ns.length
  let variance := (ns.map fun x => (x-mean)*(x-mean)).sum/ns.length
  let root := mkRat variance.num.toNat.sqrt variance.den.sqrt
  if root*root = variance then some root else none

instance : StateFloat Exact where
  toNumPy :=
    { (inferInstanceAs (NumPy (Option ℚ)) : NumPy (Option ℚ)) with
      median := median
      std := std
      quantile := quantile }
  round q := Refitting.roundHalfEven (Option.getD q 0)
  ofInt i := some (i : ℚ)

theorem damp_lt {x : Option ℚ} (hx : Calibration.toLT.lt x (lit 1 0)) :
    ¬ Calibration.toLT.lt (lit 6 1) (x*lit 6 1) := by
  cases x with
  | none =>
    rintro ⟨-,-,y,hy,-⟩
    cases hy
  | some x =>
    simp only [lit_eq,some_mul_some,some_lt_some] at hx ⊢
    norm_num at hx ⊢
    linarith

instance : DampFloat Exact where
  damp_one := by decide +kernel
  damp_lt _ := damp_lt

instance : Spectral Exact := inferInstanceAs (Spectral (Option ℚ))

end Exact

def valuePoint (tsNs : ℕ) (value : ℚ) : TelemetryPoint Exact where
  tsNs := tsNs
  entityId := "host"
  metricId := quality
  value := some (some value)
  quality := .observed

/-- Two times five zeros, and then values that vary, which no window has five of. -/
def training : Training Exact where
  train :=
    { points := [0,10,20,30,40,100,110,120,130,140].map (valuePoint · 0)++
        [200,220,300,320,400,420].flatMap fun tsNs => [valuePoint tsNs 1,valuePoint (tsNs+10) (-1)]
      ordered := by decide
      unique := by decide }
  validation := none

/-- Five values with a gap between them, where there are ten cells. -/
def gapFrame : TelemetryFrame Exact where
  points :=
    [valuePoint 0 6,valuePoint 10 (-6),valuePoint 20 2,valuePoint 70 (-2),valuePoint 80 0]
  ordered := by decide
  unique := by decide

def tenCells : Params Exact where
  maker := ⟨100,100,by decide⟩
  lowFreq := 1
  nFft := 8
  eventPotQuantile := lit 99 2
  eventPotMultiplier := lit 15 1
  trendPotQuantile := lit 99 2
  trendPotMultiplier := lit 15 1
  confidenceThreshold := lit 5 1
  maxMissingFrac := lit 4 1
  driftResidualZ := lit 5 1

theorem commonGap_training : commonGap training.train = some 10 := by
  rw [commonGap,gaps,timestamps_eq (by decide)]
  decide

/-- The state that the training leaves. -/
def trained : State Exact := fitted tenCells training 10

theorem fit_training : fit tenCells {} training = (true,trained) :=
  fit_new (by decide) (by decide) commonGap_training

/-- Of the only incident it is uncertain what it is. -/
theorem score_trained : (score tenCells [] trained none gapFrame).map (List.map fun inc =>
    (inc.entityId,inc.startNs,inc.endNs,inc.status)) = some [("host",0,100,.uncertain)] := by
  decide +kernel

/-- What the rings give for the metric in the window of the frame. -/
theorem marks_trained : ∀ w ∈ tenCells.maker.windows gapFrame,
    (w.startNs = 0 ∧ w.endNs = 100 ∧ quality ∈ (splitMetrics "host" w).1) ∧
      (∃ e ∈ eventMark [] trained (fitFrame training.train) (aligned w "host" 10) quality,
        e.direction = .down) ∧
      ∃ t ∈ trendMark tenCells [] trained (aligned w "host" 10) quality,t.direction = .down := by
  decide +kernel

theorem windowsOf_trained :
    windowsOf tenCells [] trained (fitFrame training.train) gapFrame "host" ≠ [] := by
  decide +kernel

/-- Both rings find that the values of the metric fall, and the incident is uncertain. -/
theorem falling_quality_not_gated : ¬ ∀ stats ∈ (fit tenCells {} training).2.normalizer,
    ∀ found ∈ score tenCells [] (fit tenCells {} training).2 none gapFrame,
      Gated tenCells [] (fit tenCells {} training).2 none stats gapFrame found := by
  rw [fit_training]
  intro h
  obtain ⟨found,hfound,hincs⟩ := Option.map_eq_some_iff.mp score_trained
  obtain ⟨inc,hinc,heq⟩ := List.mem_map.mp (hincs ▸ List.mem_singleton_self _)
  obtain ⟨hentity,hstart,hend,hstatus⟩ : inc.entityId = "host" ∧ inc.startNs = 0 ∧
      inc.endNs = 100 ∧ inc.status = .uncertain := by
    simpa using heq
  have hanomaly := (h _ rfl found hfound).anomaly inc hinc
  rw [hentity,hstatus] at hanomaly
  obtain ⟨w,hw⟩ := List.exists_mem_of_ne_nil _ windowsOf_trained
  obtain ⟨⟨hfirst,hlast,hin⟩,⟨e,he,hevent⟩,htrend⟩ := marks_trained w (List.mem_of_mem_filter hw)
  refine absurd (hanomaly.mpr ⟨w,hw,?_,quality,hin,.down,?_,(trendMark_spec _).mp htrend⟩) (by simp)
  · rw [Covers,hstart,hend,hfirst,hlast]
    exact ⟨le_rfl,le_rfl⟩
  · rcases eventMark_cases he with ⟨-,-,hmissing⟩ | ⟨-,htrigger⟩
    · rw [hevent] at hmissing
      cases hmissing
    · rwa [hevent] at htrigger

end EdgeCascade
end ETraceDiag
