import ETraceDiag.DetectorFrames
import ETraceDiag.OverlapRuns

/-!
# Incidents from windows

How the detectors that look at windows put those in which they have found something together, and
what it means that missing data is not an anomaly.
-/

namespace ETraceDiag
namespace Incidents

open AlignedGrid DataWindow DetectorFrames Dictionaries NumPy TimeTable
open CausalInput (Direction WindowStatus)
open DetectorFeedback (pyMax pyMin)
open DetectorFeedback.Calibration (lit)
open OverlapRuns (JoinOf Spans)

variable {F : Type}

/-- A score and a direction, under the name of a metric or `_quality`. -/
structure Mark (F : Type) where
  name : String
  score : F
  direction : Direction

/-- The name that scores of missing data have. -/
def quality : String := "_quality"

def scoresOf (marks : List (Mark F)) : List (String × F) :=
  update [] (marks.map fun m => (m.name,m.score))

def directionsOf (marks : List (Mark F)) : List (String × Direction) :=
  update [] (marks.map fun m => (m.name,m.direction))

/-- What is found in a window. -/
structure Verdict (F : Type) where
  scores : List (String × F)
  directions : List (String × Direction)
  status : WindowStatus

structure Detected (F : Type) extends Verdict F where
  startNs : ℕ
  endNs : ℕ

/-- What `_make_incident` makes; the entity is part of the identifier. -/
structure Incident (F : Type) where
  entityId : String
  startNs : ℕ
  endNs : ℕ
  status : WindowStatus
  severity : F
  scores : List (String × F)
  directions : List (String × Direction)

section Code

variable [NumPy F]

/-- `_apply_adjustment`, with the adjustments of the base class. -/
def applyAdjustment (adjustments : List (String × F)) (metricId : String) (base : F) : F :=
  let t := (adjustments.lookup ("tighten::"++metricId)).getD (lit 1 0)
  let l := (adjustments.lookup ("loosen::"++metricId)).getD (lit 1 0)
  base*l/t

/-- A score in units of the threshold, of which one is enough. -/
def ratio (score thr : F) : F := pyMin (lit 1 0) (score/pyMax thr (lit 1 9))

def mergeScores (cur scores : List (String × F)) : List (String × F) :=
  scores.foldl (fun cur e => upsert e.1 (lit 0 0) (fun c => pyMax c e.2) cur) cur

/-- `keep` is the direction that stays when a name has one and there is another. -/
def mergeDirections (keep : Direction → Direction → Direction)
    (cur dirs : List (String × Direction)) : List (String × Direction) :=
  dirs.foldl (fun cur e => upsert e.1 e.2 (fun c => keep c e.2) cur) cur

/-- An overlapping window comes to the current one. -/
def join (keep : Direction → Direction → Direction) (cur d : Detected F) : Detected F where
  startNs := cur.startNs
  endNs := max cur.endNs d.endNs
  scores := mergeScores cur.scores d.scores
  directions := mergeDirections keep cur.directions d.directions
  status := if d.status = .anomaly then .anomaly else cur.status

/-- The largest score, up to one; it counts for less when the status is uncertain. -/
def severity (d : Verdict F) : F :=
  let s := pyMin (lit 1 0) (match d.scores with
    | [] => lit 0 0
    | e::es => es.foldl (fun s e => pyMax s e.2) e.2)
  if d.status = .uncertain then s*lit 6 1 else s

/-- `_make_incident`. -/
def makeIncident (entityId : String) (d : Detected F) : Incident F where
  entityId := entityId
  startNs := d.startNs
  endNs := d.endNs
  status := d.status
  severity := severity d.toVerdict
  scores := d.scores
  directions := d.directions

/-- `_merge` and `_merge_detected`. -/
def mergeDetected (keep : Direction → Direction → Direction) (entityId : String)
    (detected : List (Detected F)) : List (Incident F) :=
  (OverlapRuns.merge Detected.startNs Detected.endNs (join keep)
    (detected.mergeSort fun a b => a.startNs ≤ b.startNs)).map (makeIncident entityId)

/-- The loops of `score`, with what is found in a window for an entity. -/
def found (keep : Direction → Direction → Direction) (maker : SlidingWindowMaker)
    (scoreWindow : String → Window F → Option (Verdict F)) (frame : TelemetryFrame F) :
    List (Incident F) :=
  (entities frame).flatMap fun entityId =>
    mergeDetected keep entityId ((maker.windows frame).filterMap fun w =>
      (scoreWindow entityId w).map fun v => { v with startNs := w.startNs, endNs := w.endNs })

end Code

/-! ## Missing data -/

/-- The frame without the points of some channels. -/
def without (frame : TelemetryFrame F) (deleted : List Channel) : TelemetryFrame F :=
  frame.sub (frame.points.filter fun p => channelOf p ∉ deleted) List.filter_sublist

/-- The channel has an observed value in the window. -/
def Shown (w : Window F) (k : Channel) : Prop :=
  ∃ p ∈ w.frame.points, channelOf p = k ∧ Observed p

/-- The window is part of the incident. -/
def Covers (inc : Incident F) (w : Window F) : Prop :=
  inc.startNs ≤ w.startNs ∧ w.endNs ≤ inc.endNs

variable [NumPy F]

/-- Observed values of the metric, which has not been deleted, score above its threshold. -/
structure Evidence (Above : AlignedSeries F → String → Prop) (sampleIntervalNs : ℕ)
    (deleted : List Channel) (entityId : String) (w : Window F) (m : String) : Prop where
  above : Above (aligned w entityId sampleIntervalNs) m
  shown : Shown w ⟨entityId,m⟩
  kept : (⟨entityId,m⟩ : Channel) ∉ deleted

/-- There is a gap in the window. -/
def Gap (sampleIntervalNs : ℕ) (entityId : String) (w : Window F) : Prop :=
  MidStreamGap (aligned w entityId sampleIntervalNs).rowObserved

/-- Behind the incidents that are found when some channels are deleted is not that they are
missing: an anomaly has a window in which one of its metrics scores above threshold, or with a
gap, and no other metrics have scores. -/
structure MissingIsNoAnomaly (maker : SlidingWindowMaker) (sampleIntervalNs : ℕ)
    (Above : AlignedSeries F → String → Prop) (frame : TelemetryFrame F) (deleted : List Channel)
    (found : List (Incident F)) : Prop where
  anomaly : ∀ inc ∈ found, inc.status = .anomaly →
    ∃ w ∈ maker.windows (without frame deleted), Covers inc w ∧
      (Gap sampleIntervalNs inc.entityId w ∨ ∃ m ∈ inc.scores.map Prod.fst,
        Evidence Above sampleIntervalNs deleted inc.entityId w m)
  deviation : ∀ inc ∈ found, ∀ m ∈ inc.scores.map Prod.fst, m ≠ quality →
    ∃ w ∈ maker.windows (without frame deleted), Covers inc w ∧
      Evidence Above sampleIntervalNs deleted inc.entityId w m

/-! ## Observed cells -/

section Cells

omit [NumPy F] in
/-- A cell that is marked has got an observed value. -/
theorem observed_of_leftIn [NanFloat F] {grid t : ℤ} {m : String} {pts : List (TelemetryPoint F)}
    (h : (leftIn grid pts t m).2 = true) : ∃ p ∈ pts, p.metricId = m ∧ Observed p := by
  rw [leftIn] at h
  cases hlast : (cellPoints grid pts t m).getLast? with
  | none =>
    rw [hlast] at h
    cases h
  | some p =>
    obtain ⟨hp,hin⟩ := List.mem_filter.mp (List.mem_of_getLast? hlast)
    obtain ⟨hvalue,-,hm⟩ := of_decide_eq_true hin
    obtain ⟨v,hv⟩ := Option.isSome_iff_exists.mp hvalue
    rw [hlast,Option.bind_some,TelemetryPoint.cell?,hv] at h
    exact ⟨p,hp,hm,of_decide_eq_true h,hvalue⟩

variable {w : Window F} {entityId : String} {sampleIntervalNs : ℕ}

theorem shown_of_mask {row : List Bool}
    (hrow : row ∈ (aligned w entityId sampleIntervalNs).observedMask) {mi : ℕ}
    (h : row[mi]? = some true) :
    ∃ m, (aligned w entityId sampleIntervalNs).metrics[mi]? = some m ∧ Shown w ⟨entityId,m⟩ := by
  obtain ⟨cells,hcells,rfl⟩ := List.mem_map.mp hrow
  obtain ⟨t,-,rfl⟩ := List.mem_map.mp hcells
  have hcolumns := alignRow_columns w.frame entityId w.startNs w.endNs sampleIntervalNs t
  change (List.map Prod.snd (alignRow (cellValues (max 1 (sampleIntervalNs : ℤ))
    (w.startNs-w.startNs%max 1 (sampleIntervalNs : ℤ))
    (if (w.startNs : ℤ) < w.endNs then (w.endNs : ℤ)-1 else w.startNs)
    (columnMetrics w.frame entityId w.startNs w.endNs)
    (entityPoints w.frame entityId w.startNs w.endNs))
    (columnMetrics w.frame entityId w.startNs w.endNs) t))[mi]? = some true at h
  rw [hcolumns,List.map_map,List.getElem?_map,Option.map_eq_some_iff] at h
  obtain ⟨m,hm,hmarked⟩ := h
  obtain ⟨p,hp,hpm,hobserved⟩ := observed_of_leftIn hmarked
  obtain ⟨hmem,hin⟩ := List.mem_filter.mp hp
  refine ⟨m,hm,p,hmem,?_,hobserved⟩
  rw [channelOf,hpm,(of_decide_eq_true hin).1]

theorem shown_of_column {mi : ℕ} {c : F × Bool}
    (hc : c ∈ column (aligned w entityId sampleIntervalNs) mi) (h : c.2 = true) :
    ∃ m, (aligned w entityId sampleIntervalNs).metrics[mi]? = some m ∧ Shown w ⟨entityId,m⟩ := by
  obtain ⟨row,hrow,rfl⟩ := List.mem_map.mp hc
  suffices hset : row.2[mi]? = some true from shown_of_mask (List.of_mem_zip hrow).2 hset
  change (row.2[mi]?).getD false = true at h
  cases hget : row.2[mi]? with
  | none =>
    rw [hget] at h
    cases h
  | some b =>
    rw [hget] at h
    exact congrArg some h

/-- A metric with an observed cell is one of the window, and shown. -/
theorem observed_of_masked (sampleIntervalNs : ℕ) {m : String}
    (h : masked (aligned w entityId sampleIntervalNs)
      ((aligned w entityId sampleIntervalNs).metrics.idxOf m) ≠ []) :
    m ∈ (aligned w entityId sampleIntervalNs).metrics ∧ Shown w ⟨entityId,m⟩ := by
  obtain ⟨x,hx⟩ := List.exists_mem_of_ne_nil _ h
  obtain ⟨c,hc,hsome⟩ := List.mem_filterMap.mp hx
  have hmark : c.2 = true := by
    by_contra hno
    rw [if_neg hno] at hsome
    cases hsome
  obtain ⟨m',hm',hshown⟩ := shown_of_column hc hmark
  obtain ⟨hlt,hget⟩ := List.getElem?_eq_some_iff.mp hm'
  rw [List.getElem_idxOf hlt] at hget
  exact ⟨List.idxOf_lt_length_iff.mp hlt,hget ▸ hshown⟩

theorem observed_of_finite (sampleIntervalNs : ℕ) {m : String}
    (h : finite (aligned w entityId sampleIntervalNs)
      ((aligned w entityId sampleIntervalNs).metrics.idxOf m) ≠ []) :
    m ∈ (aligned w entityId sampleIntervalNs).metrics ∧ Shown w ⟨entityId,m⟩ := by
  refine observed_of_masked sampleIntervalNs fun hnone => h ?_
  rw [finite,hnone,List.filter_nil]

/-- Where a row has an observed cell some metric is shown. -/
theorem shown_of_gap (h : Gap sampleIntervalNs entityId w) : ∃ m, Shown w ⟨entityId,m⟩ := by
  obtain ⟨i,-,-,-,-,hi,-,-⟩ := h
  obtain ⟨row,hrow,hany⟩ := List.mem_map.mp (List.mem_of_getElem? hi)
  obtain ⟨b,hb,htrue⟩ := List.any_eq_true.mp hany
  obtain rfl : b = true := htrue
  obtain ⟨mi,hmi⟩ := List.mem_iff_getElem?.mp hb
  obtain ⟨m,-,hm⟩ := shown_of_mask hrow hmi
  exact ⟨m,hm⟩

omit [NumPy F] in
/-- No deleted channel is shown. -/
theorem not_mem_deleted {maker : SlidingWindowMaker} {frame : TelemetryFrame F}
    {deleted : List Channel} (hw : w ∈ maker.windows (without frame deleted)) {k : Channel}
    (h : Shown w k) : k ∉ deleted := by
  obtain ⟨p,hp,rfl,-⟩ := h
  exact of_decide_eq_true (List.mem_filter.mp (points_of_mem_windows hw hp)).2

end Cells

/-! ## What an incident is made of -/

theorem snd_eq_idxOf {xs : List String} (hxs : xs.Nodup) {m : String × ℕ} (hm : m ∈ xs.zipIdx) :
    m.2 = xs.idxOf m.1 := by
  have hget := List.mem_zipIdx_iff_getElem?.mp hm
  obtain ⟨hlt,heq⟩ := List.getElem?_eq_some_iff.mp hget
  rw [← heq,List.Nodup.idxOf_getElem hxs]

/-- The direction that comes first stays. -/
def keepFirst (cur _ : Direction) : Direction := cur

/-- What marks come to; without a mark nothing is found. -/
def verdict (marks : List (Mark F)) : Option (Verdict F) :=
  if marks.isEmpty then none else some ⟨scoresOf marks,directionsOf marks,.anomaly⟩

section Merging

omit [NumPy F] in
theorem mem_keys_scoresOf (marks : List (Mark F)) (name : String) :
    name ∈ (scoresOf marks).map Prod.fst ↔ ∃ mark ∈ marks, mark.name = name := by
  rw [scoresOf,mem_keys_update_nil,List.map_map,List.mem_map]
  rfl

theorem mem_keys_mergeScores (cur scores : List (String × F)) (name : String) :
    name ∈ (mergeScores cur scores).map Prod.fst ↔
      name ∈ scores.map Prod.fst ∨ name ∈ cur.map Prod.fst :=
  mem_keys_foldl_upsert Prod.fst (fun _ => lit 0 0) (fun e c => pyMax c e.2) name scores cur

theorem endNs_join (keep : Direction → Direction → Direction) (a b : Detected F) :
    (join keep a b).endNs = max a.endNs b.endNs := rfl

/-- Windows that come to one leave where it starts, and bring what they have. -/
theorem foldl_join (keep : Direction → Direction → Direction) (ds : List (Detected F)) :
    ∀ d : Detected F, (ds.foldl (join keep) d).startNs = d.startNs ∧
      (∀ name, name ∈ (ds.foldl (join keep) d).scores.map Prod.fst ↔
        ∃ x ∈ d::ds, name ∈ x.scores.map Prod.fst) ∧
      ((ds.foldl (join keep) d).status = .anomaly ↔ ∃ x ∈ d::ds, x.status = .anomaly) := by
  induction ds with
  | nil => intro d; simp
  | cons e ds ih =>
    intro d
    obtain ⟨hstart,hnames,hstatus⟩ := ih (join keep d e)
    rw [List.foldl_cons]
    refine ⟨hstart,fun name => ?_,?_⟩
    · have hkeys := mem_keys_mergeScores d.scores e.scores name
      rw [hnames,List.exists_mem_cons_iff,List.exists_mem_cons_iff,List.exists_mem_cons_iff,
        ← or_assoc,or_comm (a:=name ∈ d.scores.map Prod.fst),← hkeys]
      rfl
    · have hfirst : (join keep d e).status = .anomaly ↔
          d.status = .anomaly ∨ e.status = .anomaly := by
        change (if e.status = .anomaly then WindowStatus.anomaly else d.status) = _ ↔ _
        split
        · next he => exact iff_of_true rfl (.inr he)
        · next he => rw [or_iff_left he]
      rw [hstatus,List.exists_mem_cons_iff,List.exists_mem_cons_iff,List.exists_mem_cons_iff,
        hfirst,or_assoc]

variable (keep : Direction → Direction → Direction) (maker : SlidingWindowMaker)
  (scoreWindow : String → Window F → Option (Verdict F))

/-- The windows in which something is found for an entity. -/
def reported (frame : TelemetryFrame F) (entityId : String) : List (Window F) :=
  (maker.windows frame).filter fun w => (scoreWindow entityId w).isSome

/-- The runs of such windows. -/
def reportedRuns (frame : TelemetryFrame F) (entityId : String) : List (List (Window F)) :=
  OverlapRuns.runs Window.startNs Window.endNs (reported maker scoreWindow frame entityId)

/-- The incident is what was found in the windows of the run. -/
structure Joins (run : List (Window F)) (inc : Incident F) : Prop where
  covers : ∀ w, Covers inc w ↔ Spans Window.startNs Window.endNs run w
  names : ∀ name, name ∈ inc.scores.map Prod.fst ↔
    ∃ w ∈ run, ∃ v ∈ scoreWindow inc.entityId w, name ∈ v.scores.map Prod.fst
  anomaly : inc.status = .anomaly ↔
    ∃ w ∈ run, ∃ v ∈ scoreWindow inc.entityId w, v.status = .anomaly

/-- What is found in a window, with its times. -/
def detect (entityId : String) (w : Window F) : Detected F :=
  { (scoreWindow entityId w).getD ⟨[],[],.normal⟩ with startNs := w.startNs, endNs := w.endNs }

omit [NumPy F] in
theorem detected_eq_map (entityId : String) (ws : List (Window F)) :
    (ws.filterMap fun w => (scoreWindow entityId w).map fun v =>
      ({ v with startNs := w.startNs, endNs := w.endNs } : Detected F)) =
    (ws.filter fun w => (scoreWindow entityId w).isSome).map (detect scoreWindow entityId) := by
  induction ws with
  | nil => rfl
  | cons w ws ih =>
    cases hw : scoreWindow entityId w with
    | none => simp only [List.filterMap_cons,hw,Option.map_none,ih,List.filter_cons,
        Option.isSome_none,Bool.false_eq_true,if_false]
    | some v => simp only [List.filterMap_cons,hw,Option.map_some,ih,List.filter_cons,
        Option.isSome_some,if_true,List.map_cons,detect,Option.getD_some]

omit [NumPy F] in
theorem windows_end {frame : TelemetryFrame F} {w : Window F} (hw : w ∈ maker.windows frame) :
    w.endNs = w.startNs+maker.windowNs := ((maker.mem_windows frame w).mp hw).2.stop

omit [NumPy F] in
theorem reported_starts (frame : TelemetryFrame F) (entityId : String) :
    (reported maker scoreWindow frame entityId).Pairwise fun a b => a.startNs < b.startNs :=
  (List.pairwise_map.mp (maker.windows_sorted frame)).sublist List.filter_sublist

omit [NumPy F] in
theorem reported_ends (frame : TelemetryFrame F) (entityId : String) :
    (reported maker scoreWindow frame entityId).Pairwise fun a b => a.endNs ≤ b.endNs := by
  refine (reported_starts maker scoreWindow frame entityId).imp_of_mem fun {a b} ha hb h => ?_
  rw [windows_end maker (List.mem_of_mem_filter ha),windows_end maker (List.mem_of_mem_filter hb)]
  exact Nat.add_le_add_right h.le _

/-- The joined windows of a run end with the last one. -/
theorem endNs_foldl_detect (entityId : String) {w : Window F} {ws : List (Window F)}
    (h : (w::ws).Pairwise fun a b => a.endNs ≤ b.endNs) :
    ((ws.map (detect scoreWindow entityId)).foldl (join keep)
        (detect scoreWindow entityId w)).endNs =
      ((w::ws).getLast (List.cons_ne_nil w ws)).endNs := by
  have hmapped : (detect scoreWindow entityId w::ws.map (detect scoreWindow entityId)).Pairwise
      fun a b => a.endNs ≤ b.endNs := by
    rw [← List.map_cons,List.pairwise_map]
    exact h
  rw [OverlapRuns.stop_foldl_join (endNs_join keep) hmapped]
  simp only [← List.map_cons,List.getLast_map]
  rfl

omit [NumPy F] in
/-- What is detected in windows in which something is found. -/
theorem exists_detect {entityId : String} {ws : List (Window F)}
    (hsome : ∀ w ∈ ws, (scoreWindow entityId w).isSome) (P : Verdict F → Prop) :
    (∃ x ∈ ws.map (detect scoreWindow entityId), P x.toVerdict) ↔
      ∃ w ∈ ws, ∃ v ∈ scoreWindow entityId w, P v := by
  simp only [List.mem_map,exists_exists_and_eq_and]
  refine exists_congr fun w => and_congr_right fun hw => ?_
  obtain ⟨v,hv⟩ := Option.isSome_iff_exists.mp (hsome w hw)
  rw [detect,hv]
  simp

/-- The incident of a run. -/
theorem joins_makeIncident {frame : TelemetryFrame F} {entityId : String}
    {run : List (Window F)} (hrun : run ∈ reportedRuns maker scoreWindow frame entityId)
    {d : Detected F} (hd : JoinOf (join keep) (run.map (detect scoreWindow entityId)) d) :
    Joins scoreWindow run (makeIncident entityId d) := by
  obtain ⟨x,xs,hmap,rfl⟩ := hd
  obtain ⟨w,ws,rfl,rfl,rfl⟩ := List.map_eq_cons_iff.mp hmap
  obtain ⟨hstart,hnames,hstatus⟩ :=
    foldl_join keep (ws.map (detect scoreWindow entityId)) (detect scoreWindow entityId w)
  have hend := endNs_foldl_detect keep scoreWindow entityId
    (OverlapRuns.pairwise_of_mem_runs (reported_ends maker scoreWindow frame entityId) hrun)
  have hsome : ∀ v ∈ w::ws, (scoreWindow entityId v).isSome := fun v hv =>
    (List.mem_filter.mp (OverlapRuns.mem_of_mem_runs hrun hv)).2
  have hfound := exists_detect scoreWindow hsome
  refine ⟨fun u => ?_,fun name => ?_,?_⟩
  · rw [Covers,Spans,List.getLast?_eq_some_getLast (List.cons_ne_nil w ws)]
    simp only [makeIncident,hstart,hend,List.head?_cons,Option.mem_some,exists_eq_left']
    rfl
  · exact (hnames name).trans (hfound fun v => name ∈ v.scores.map Prod.fst)
  · exact hstatus.trans (hfound fun v => v.status = .anomaly)

theorem mem_found {frame : TelemetryFrame F} {inc : Incident F} :
    inc ∈ found keep maker scoreWindow frame ↔ ∃ entityId ∈ entities frame,
      ∃ run ∈ reportedRuns maker scoreWindow frame entityId, ∃ d,
        JoinOf (join keep) (run.map (detect scoreWindow entityId)) d ∧
          makeIncident entityId d = inc := by
  rw [found,List.mem_flatMap]
  refine exists_congr fun entityId => and_congr_right fun _ => ?_
  have hsort : (((reported maker scoreWindow frame entityId).map
      (detect scoreWindow entityId)).mergeSort fun a b => a.startNs ≤ b.startNs) =
        (reported maker scoreWindow frame entityId).map (detect scoreWindow entityId) := by
    refine List.mergeSort_of_pairwise ?_
    rw [List.pairwise_map]
    exact (reported_starts maker scoreWindow frame entityId).imp fun h => decide_eq_true h.le
  have hends : ((reported maker scoreWindow frame entityId).map
      (detect scoreWindow entityId)).Pairwise fun a b => a.endNs ≤ b.endNs := by
    rw [List.pairwise_map]
    exact reported_ends maker scoreWindow frame entityId
  rw [mergeDetected,detected_eq_map,← reported,hsort,List.mem_map]
  simp only [OverlapRuns.mem_merge (endNs_join keep) hends,OverlapRuns.runs_map,List.mem_map,
    exists_exists_and_eq_and]
  constructor
  · rintro ⟨d,⟨run,hrun,hjoin⟩,hinc⟩
    exact ⟨run,hrun,d,hjoin,hinc⟩
  · rintro ⟨run,hrun,d,hjoin,hinc⟩
    exact ⟨d,⟨run,hrun,hjoin⟩,hinc⟩

/-- Every incident is that of a run. -/
theorem exists_run {frame : TelemetryFrame F} {inc : Incident F}
    (h : inc ∈ found keep maker scoreWindow frame) : inc.entityId ∈ entities frame ∧
      ∃ run ∈ reportedRuns maker scoreWindow frame inc.entityId, Joins scoreWindow run inc := by
  obtain ⟨entityId,he,run,hrun,d,hd,rfl⟩ := (mem_found keep maker scoreWindow).mp h
  exact ⟨he,run,hrun,joins_makeIncident keep maker scoreWindow hrun hd⟩

/-- Every run has an incident. -/
theorem exists_incident {frame : TelemetryFrame F} {entityId : String}
    (he : entityId ∈ entities frame) {run : List (Window F)}
    (hrun : run ∈ reportedRuns maker scoreWindow frame entityId) :
    ∃ inc ∈ found keep maker scoreWindow frame, inc.entityId = entityId ∧
      Joins scoreWindow run inc := by
  obtain ⟨w,ws,rfl⟩ := List.exists_cons_of_ne_nil (List.ne_nil_of_mem_splitBy hrun)
  have hjoin : JoinOf (join keep) ((w::ws).map (detect scoreWindow entityId))
      ((ws.map (detect scoreWindow entityId)).foldl (join keep) (detect scoreWindow entityId w)) :=
    ⟨_,_,rfl,rfl⟩
  exact ⟨_,(mem_found keep maker scoreWindow).mpr ⟨entityId,he,_,hrun,_,hjoin,rfl⟩,rfl,
    joins_makeIncident keep maker scoreWindow hrun hjoin⟩

variable {scoreWindow} {sampleIntervalNs : ℕ} {Above : AlignedSeries F → String → Prop}
  {frame : TelemetryFrame F} {deleted : List Channel}

theorem evidence_of_above {entityId m : String} {w : Window F}
    (hshown : ∀ w entityId m, Above (aligned w entityId sampleIntervalNs) m →
      Shown w ⟨entityId,m⟩) (hw : w ∈ maker.windows (without frame deleted))
    (h : Above (aligned w entityId sampleIntervalNs) m) :
    Evidence Above sampleIntervalNs deleted entityId w m :=
  ⟨h,hshown w entityId m h,not_mem_deleted hw (hshown w entityId m h)⟩

omit [NumPy F] in
/-- The windows of a run are covered by its incident. -/
theorem covers_of_mem {inc : Incident F} {run : List (Window F)}
    (hrun : run ∈ reportedRuns maker scoreWindow (without frame deleted) inc.entityId)
    (hjoins : Joins scoreWindow run inc) {w : Window F} (hw : w ∈ run) :
    w ∈ maker.windows (without frame deleted) ∧ Covers inc w := by
  refine ⟨List.mem_of_mem_filter (OverlapRuns.mem_of_mem_runs hrun hw),(hjoins.covers w).mpr ?_⟩
  exact OverlapRuns.spans_of_mem (reported_starts maker scoreWindow _ _)
    (reported_ends maker scoreWindow _ _) hrun hw

/-- Where the scores of windows are of metrics above threshold, those of incidents are, too. -/
theorem deviation_of_verdicts
    (hshown : ∀ w entityId m, Above (aligned w entityId sampleIntervalNs) m →
      Shown w ⟨entityId,m⟩)
    (hdeviation : ∀ entityId w, ∀ v ∈ scoreWindow entityId w, ∀ m ∈ v.scores.map Prod.fst,
      m ≠ quality → Above (aligned w entityId sampleIntervalNs) m) :
    ∀ inc ∈ found keep maker scoreWindow (without frame deleted),
      ∀ m ∈ inc.scores.map Prod.fst, m ≠ quality →
        ∃ w ∈ maker.windows (without frame deleted), Covers inc w ∧
          Evidence Above sampleIntervalNs deleted inc.entityId w m := by
  intro inc hinc m hm hquality
  obtain ⟨-,run,hrun,hjoins⟩ := exists_run keep maker scoreWindow hinc
  obtain ⟨w,hw,v,hv,hname⟩ := (hjoins.names m).mp hm
  obtain ⟨hwindow,hcovers⟩ := covers_of_mem maker hrun hjoins hw
  exact ⟨w,hwindow,hcovers,
    evidence_of_above maker hshown hwindow (hdeviation _ w v hv m hname hquality)⟩

variable (frame deleted)

/-- A detector whose windows say what they are anomalies for does not take missing data for an
anomaly. -/
theorem missing_of_verdicts
    (hshown : ∀ w entityId m, Above (aligned w entityId sampleIntervalNs) m →
      Shown w ⟨entityId,m⟩)
    (hdeviation : ∀ entityId w, ∀ v ∈ scoreWindow entityId w, ∀ m ∈ v.scores.map Prod.fst,
      m ≠ quality → Above (aligned w entityId sampleIntervalNs) m)
    (hanomaly : ∀ entityId w, ∀ v ∈ scoreWindow entityId w, v.status = .anomaly →
      Gap sampleIntervalNs entityId w ∨ ∃ m ∈ v.scores.map Prod.fst,
        Above (aligned w entityId sampleIntervalNs) m) :
    MissingIsNoAnomaly maker sampleIntervalNs Above frame deleted
      (found keep maker scoreWindow (without frame deleted)) := by
  refine ⟨fun inc hinc hstatus => ?_,deviation_of_verdicts keep maker hshown hdeviation⟩
  obtain ⟨-,run,hrun,hjoins⟩ := exists_run keep maker scoreWindow hinc
  obtain ⟨w,hw,v,hv,hverdict⟩ := hjoins.anomaly.mp hstatus
  obtain ⟨hwindow,hcovers⟩ := covers_of_mem maker hrun hjoins hw
  refine ⟨w,hwindow,hcovers,(hanomaly _ w v hv hverdict).imp_right ?_⟩
  rintro ⟨m,hm,habove⟩
  exact ⟨m,(hjoins.names m).mpr ⟨w,hw,v,hv,hm⟩,evidence_of_above maker hshown hwindow habove⟩

/-- A detector that finds something wherever a metric is above threshold takes missing data for
an anomaly unless each run with an anomaly spans a window with such a metric, or with a gap. -/
theorem missing_iff_runs
    (hshown : ∀ w entityId m, Above (aligned w entityId sampleIntervalNs) m →
      Shown w ⟨entityId,m⟩)
    (hdeviation : ∀ entityId w, ∀ v ∈ scoreWindow entityId w, ∀ m ∈ v.scores.map Prod.fst,
      m ≠ quality → Above (aligned w entityId sampleIntervalNs) m)
    (hreported : ∀ entityId w m, Above (aligned w entityId sampleIntervalNs) m →
      ∃ v ∈ scoreWindow entityId w, m ∈ v.scores.map Prod.fst) :
    MissingIsNoAnomaly maker sampleIntervalNs Above frame deleted
      (found keep maker scoreWindow (without frame deleted)) ↔
    ∀ entityId ∈ entities (without frame deleted),
      ∀ run ∈ reportedRuns maker scoreWindow (without frame deleted) entityId,
        (∃ w ∈ run, ∃ v ∈ scoreWindow entityId w, v.status = .anomaly) →
          ∃ w ∈ maker.windows (without frame deleted), Spans Window.startNs Window.endNs run w ∧
            (Gap sampleIntervalNs entityId w ∨
              ∃ m, Above (aligned w entityId sampleIntervalNs) m) := by
  constructor
  · intro hmissing entityId he run hrun hverdict
    obtain ⟨inc,hinc,rfl,hjoins⟩ := exists_incident keep maker scoreWindow he hrun
    obtain ⟨w,hw,hcovers,hwhy⟩ := hmissing.anomaly inc hinc (hjoins.anomaly.mpr hverdict)
    refine ⟨w,hw,(hjoins.covers w).mp hcovers,hwhy.imp_right ?_⟩
    exact fun ⟨m,_,hevidence⟩ => ⟨m,hevidence.above⟩
  · intro hruns
    refine ⟨fun inc hinc hstatus => ?_,deviation_of_verdicts keep maker hshown hdeviation⟩
    obtain ⟨he,run,hrun,hjoins⟩ := exists_run keep maker scoreWindow hinc
    obtain ⟨w,hw,hspans,hwhy⟩ := hruns inc.entityId he run hrun (hjoins.anomaly.mp hstatus)
    refine ⟨w,hw,(hjoins.covers w).mpr hspans,hwhy.imp_right ?_⟩
    rintro ⟨m,habove⟩
    obtain ⟨v,hv,hm⟩ := hreported inc.entityId w m habove
    have horder : ∀ x ∈ reported maker scoreWindow (without frame deleted) inc.entityId,
        x.startNs ≤ x.endNs := by
      intro x hx
      rw [windows_end maker (List.mem_of_mem_filter hx)]
      exact Nat.le_add_right _ _
    have hmem : w ∈ reported maker scoreWindow (without frame deleted) inc.entityId :=
      List.mem_filter.mpr ⟨hw,Option.isSome_iff_exists.mpr ⟨v,hv⟩⟩
    have hin := OverlapRuns.mem_run_of_spans (reported_starts maker scoreWindow _ _) horder hrun
      hmem hspans
    exact ⟨m,(hjoins.names m).mpr ⟨w,hin,v,hv,hm⟩,evidence_of_above maker hshown hw habove⟩

end Merging

end Incidents
end ETraceDiag
