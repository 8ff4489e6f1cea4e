import ETraceDiag.CausalInput
import ETraceDiag.Incidents
import ETraceDiag.OverlapGroups
import ETraceDiag.StreamingDetector
import Mathlib.Tactic.NormNum

/-!
# What merging comes to

Windows in which something has been found are merged by the detectors, and their incidents once
more before the root causes are looked for. The law that all of them are to follow, and where
two of them do not.
-/

namespace ETraceDiag
namespace MergeLaw

open CausalInput (Direction IncidentWindow WindowStatus)
open DetectorFeedback (Calibration pyMax pyMin)
open DetectorFeedback.Calibration (lit)
open Dictionaries Incidents NumPy TimeTable
open OverlapGroups (Cluster groups)

/-! ## ToraiRCA._merge_overlapping -/

section Code

variable {F : Type} [Calibration F]

/-- An overlapping incident comes to the last one. -/
def joinIncidents (last inc : IncidentWindow F) : IncidentWindow F where
  incidentId := last.incidentId
  startTsNs := last.startTsNs
  endTsNs := max last.endTsNs inc.endTsNs
  windowOrder := last.windowOrder.trans (le_max_left _ _)
  detectedAtNs := last.detectedAtNs
  status := if last.status = .anomaly ∨ inc.status = .anomaly then .anomaly else .uncertain
  severity := pyMax last.severity inc.severity
  metricScores := update last.metricScores inc.metricScores
  directions := update last.directions inc.directions

/-- By start, and of those that start together the longest one first. -/
def Before (a b : IncidentWindow F) : Prop :=
  a.startTsNs < b.startTsNs ∨ a.startTsNs = b.startTsNs ∧ b.endTsNs ≤ a.endTsNs

instance (a b : IncidentWindow F) : Decidable (Before a b) := inferInstanceAs (Decidable (_ ∨ _))

omit [Calibration F] in
theorem Before.trans {a b c : IncidentWindow F} (hab : Before a b) (hbc : Before b c) :
    Before a c := by
  unfold Before at *
  omega

omit [Calibration F] in
theorem Before.total (a b : IncidentWindow F) : Before a b ∨ Before b a := by
  unfold Before
  omega

def sortIncidents (incidents : List (IncidentWindow F)) : List (IncidentWindow F) :=
  incidents.mergeSort fun a b => Before a b

/-- `_merge_overlapping`. -/
def mergeOverlapping (incidents : List (IncidentWindow F)) : List (IncidentWindow F) :=
  OverlapRuns.merge IncidentWindow.startTsNs IncidentWindow.endTsNs joinIncidents
    (sortIncidents incidents)

end Code

/-! ## The law -/

/-- What there is of a window before and after merging. -/
structure Piece where
  startNs : ℕ
  endNs : ℕ
  scores : List (String × ℚ)
  severity : ℚ
  status : WindowStatus

def Within (o p : Piece) : Prop := o.startNs ≤ p.startNs ∧ p.endNs ≤ o.endNs

instance (o p : Piece) : Decidable (Within o p) := inferInstanceAs (Decidable (_ ∧ _))

/-- The scores, the severity and the status are those of the windows. -/
structure Merged (windows : List Piece) (o : Piece) : Prop where
  score : ∀ m v, o.scores.lookup m = some v ↔
    IsGreatest {s | ∃ p ∈ windows, p.scores.lookup m = some s} v
  severity : IsGreatest {s | ∃ p ∈ windows, p.severity = s} o.severity
  anomaly : o.status = .anomaly ↔ ∃ p ∈ windows, p.status = .anomaly

/-- The law of merging. -/
structure Law (windows outs : List Piece) : Prop where
  apart : outs.Pairwise fun a b => a.endNs < b.startNs
  time : ∀ t, (∃ o ∈ outs, o.startNs ≤ t ∧ t ≤ o.endNs) ↔
    ∃ p ∈ windows, p.startNs ≤ t ∧ t ≤ p.endNs
  interior : ∀ t, (∃ o ∈ outs, o.startNs ≤ t ∧ t < o.endNs) ↔
    ∃ p ∈ windows, p.startNs ≤ t ∧ t < p.endNs
  within : ∀ p ∈ windows, ∃ o ∈ outs, Within o p
  merged : ∀ o ∈ outs, Merged (windows.filter fun p => Within o p) o

theorem Merged.congr {ps qs : List Piece} (h : ∀ p, p ∈ ps ↔ p ∈ qs) {o : Piece}
    (hmerged : Merged ps o) : Merged qs o := by
  obtain ⟨hscore,hseverity,hanomaly⟩ := hmerged
  simp only [h] at hscore hseverity hanomaly
  exact ⟨hscore,hseverity,hanomaly⟩

section Groups

variable {α : Type} {piece : α → Piece} {ins sorted : List α} {f : Cluster α → Piece}

/-- The groups of overlapping windows. -/
def groupsOf (piece : α → Piece) (sorted : List α) : List (Cluster α) :=
  groups (fun a => (piece a).startNs) (fun a => (piece a).endNs) sorted

/-- A pass over the sorted windows makes one of each group. -/
structure IsPass (piece : α → Piece) (ins sorted : List α) (f : Cluster α → Piece) : Prop where
  perm : sorted.Perm ins
  sorted : sorted.Pairwise fun a b => (piece a).startNs ≤ (piece b).startNs
  order : ∀ a, (piece a).startNs ≤ (piece a).endNs
  start : ∀ g, (f g).startNs = (piece g.first).startNs
  stop : ∀ g, (f g).endNs = g.stop fun a => (piece a).endNs

namespace IsPass

variable (h : IsPass piece ins sorted f)
include h

theorem exists_group {a : α} (ha : a ∈ ins) : ∃ g ∈ groupsOf piece sorted, a ∈ g.members := by
  have hin := h.perm.mem_iff.mpr ha
  rw [← OverlapGroups.flatMap_members (fun a => (piece a).startNs)
    (fun a => (piece a).endNs) sorted] at hin
  exact List.mem_flatMap.mp hin

theorem mem_of_group {g : Cluster α} (hg : g ∈ groupsOf piece sorted) {a : α}
    (ha : a ∈ g.members) : a ∈ ins := by
  refine h.perm.mem_iff.mp ?_
  rw [← OverlapGroups.flatMap_members (fun a => (piece a).startNs)
    (fun a => (piece a).endNs) sorted]
  exact List.mem_flatMap.mpr ⟨g,hg,ha⟩

theorem mem_members_iff {g : Cluster α} (hg : g ∈ groupsOf piece sorted) {a : α} (ha : a ∈ ins) :
    a ∈ g.members ↔ Within (f g) (piece a) := by
  rw [Within,h.start,h.stop]
  exact OverlapGroups.mem_members_iff h.sorted (fun x _ => h.order x) hg (h.perm.mem_iff.mpr ha)

/-- The windows within a merged one are those of its group. -/
theorem mem_filter_within {g : Cluster α} (hg : g ∈ groupsOf piece sorted) (p : Piece) :
    p ∈ g.members.map piece ↔ p ∈ (ins.map piece).filter fun p => Within (f g) p := by
  rw [List.mem_filter,decide_eq_true_eq,List.mem_map,List.mem_map]
  constructor
  · rintro ⟨a,ha,rfl⟩
    have hin := h.mem_of_group hg ha
    exact ⟨⟨a,hin,rfl⟩,(h.mem_members_iff hg hin).mp ha⟩
  · rintro ⟨⟨a,ha,rfl⟩,hwithin⟩
    exact ⟨a,(h.mem_members_iff hg ha).mpr hwithin,rfl⟩

theorem exists_within {p : Piece} (hp : p ∈ ins.map piece) :
    ∃ o ∈ (groupsOf piece sorted).map f, Within o p := by
  obtain ⟨a,ha,rfl⟩ := List.mem_map.mp hp
  obtain ⟨g,hg,hmem⟩ := h.exists_group ha
  exact ⟨f g,List.mem_map_of_mem hg,(h.mem_members_iff hg ha).mp hmem⟩

/-- A time before the end of a group is in one of its windows. -/
theorem interior {g : Cluster α} (hg : g ∈ groupsOf piece sorted) {t : ℕ}
    (hlow : (f g).startNs ≤ t) (hhigh : t < (f g).endNs) :
    ∃ p ∈ ins.map piece, p.startNs ≤ t ∧ t < p.endNs := by
  rw [h.start] at hlow
  rw [h.stop] at hhigh
  obtain ⟨a,ha,hat⟩ :=
    ((OverlapGroups.groups_spec (fun a => (piece a).endNs) h.sorted).1 g hg).covered t hlow
      hhigh
  exact ⟨piece a,List.mem_map_of_mem (h.mem_of_group hg ha),hat⟩

/-- Its end is the end of one of its windows. -/
theorem exists_end {g : Cluster α} (hg : g ∈ groupsOf piece sorted) :
    ∃ p ∈ ins.map piece, p.startNs ≤ (f g).endNs ∧ (f g).endNs ≤ p.endNs := by
  obtain ⟨a,ha,hend⟩ := g.exists_stop fun a => (piece a).endNs
  rw [h.stop,← hend]
  exact ⟨piece a,List.mem_map_of_mem (h.mem_of_group hg ha),h.order a,le_rfl⟩

/-- A pass follows the law exactly when what it makes of each group is what the windows of the
group come to. -/
theorem law_iff : Law (ins.map piece) ((groupsOf piece sorted).map f) ↔
    ∀ g ∈ groupsOf piece sorted, Merged (g.members.map piece) (f g) := by
  constructor
  · intro hlaw g hg
    exact (hlaw.merged (f g) (List.mem_map_of_mem hg)).congr fun p =>
      (h.mem_filter_within hg p).symm
  · intro hmerged
    refine ⟨?_,fun t => ⟨?_,?_⟩,fun t => ⟨?_,?_⟩,fun p hp => h.exists_within hp,?_⟩
    · rw [List.pairwise_map]
      refine (OverlapGroups.groups_spec (fun a => (piece a).endNs) h.sorted).2.imp ?_
      intro a b hab
      rwa [h.stop,h.start]
    · rintro ⟨o,ho,hlow,hhigh⟩
      obtain ⟨g,hg,rfl⟩ := List.mem_map.mp ho
      rcases Nat.lt_or_eq_of_le hhigh with hlt | rfl
      · obtain ⟨p,hp,hat⟩ := h.interior hg hlow hlt
        exact ⟨p,hp,hat.1,hat.2.le⟩
      · exact h.exists_end hg
    · rintro ⟨p,hp,hlow,hhigh⟩
      obtain ⟨o,ho,hin⟩ := h.exists_within hp
      exact ⟨o,ho,hin.1.trans hlow,hhigh.trans hin.2⟩
    · rintro ⟨o,ho,hlow,hhigh⟩
      obtain ⟨g,hg,rfl⟩ := List.mem_map.mp ho
      exact h.interior hg hlow hhigh
    · rintro ⟨p,hp,hlow,hhigh⟩
      obtain ⟨o,ho,hin⟩ := h.exists_within hp
      exact ⟨o,ho,hin.1.trans hlow,hhigh.trans_le hin.2⟩
    · intro o ho
      obtain ⟨g,hg,rfl⟩ := List.mem_map.mp ho
      exact (hmerged g hg).congr (h.mem_filter_within hg)

end IsPass

end Groups

/-! ## The detectors -/

/-- What a detector finds in a window; no score is negative. -/
structure Found where
  startNs : ℕ
  endNs : ℕ
  order : startNs ≤ endNs
  scores : List (String × ℚ)
  unique : (scores.map Prod.fst).Nodup
  nonneg : ∀ e ∈ scores, 0 ≤ e.2
  directions : List (String × Direction)

/-- The status is not of every detector. -/
structure Detection extends Found where
  anomalous : Bool

def Found.anomaly (w : Found) : Detection := { w with anomalous := true }

def Detection.status (w : Detection) : WindowStatus := if w.anomalous then .anomaly else .uncertain

def lifted (scores : List (String × ℚ)) : List (String × Option ℚ) :=
  scores.map fun e => (e.1,some e.2)

def Detection.detected (w : Detection) : Detected (Option ℚ) where
  startNs := w.startNs
  endNs := w.endNs
  scores := lifted w.scores
  directions := w.directions
  status := w.status

/-- The largest score, up to one. -/
def top (scores : List (String × ℚ)) : ℚ := min 1 ((scores.map Prod.snd).foldl max 0)

/-- A window with the severity that an incident of it alone has. -/
def Detection.piece (w : Detection) : Piece where
  startNs := w.startNs
  endNs := w.endNs
  scores := w.scores
  severity := if w.anomalous then top w.scores else top w.scores*(6/10)
  status := w.status

/-- The incident has exact scores. -/
structure Shows (inc : Incident (Option ℚ)) (p : Piece) : Prop where
  startNs : inc.startNs = p.startNs
  endNs : inc.endNs = p.endNs
  scores : inc.scores = lifted p.scores
  severity : inc.severity = some p.severity
  status : inc.status = p.status

theorem foldl_lifted (es : List (String × ℚ)) : ∀ s : ℚ,
    (lifted es).foldl (fun s e => pyMax s e.2) (some s) =
      some ((es.map Prod.snd).foldl max s) := by
  induction es with
  | nil => exact fun s => rfl
  | cons e es ih =>
    intro s
    rw [lifted,List.map_cons,List.foldl_cons,pyMax_some,List.map_cons,List.foldl_cons,← ih]
    rfl

theorem severity_lifted {scores : List (String × ℚ)} (hnonneg : ∀ e ∈ scores, 0 ≤ e.2)
    (directions : List (String × Direction)) (status : WindowStatus) :
    severity ⟨lifted scores,directions,status⟩ =
      some (if status = .uncertain then top scores*(6/10) else top scores) := by
  cases scores with
  | nil => cases status <;> simp [severity,lifted,top]
  | cons e es =>
    have hlargest := foldl_lifted es e.2
    rw [lifted] at hlargest
    have hfirst : max 0 e.2 = e.2 := max_eq_right (hnonneg e List.mem_cons_self)
    cases status <;>
      simp [severity,lifted,top,hlargest,hfirst]

theorem severity_detected (w : Detection) :
    severity w.detected.toVerdict = some w.piece.severity := by
  refine (severity_lifted w.nonneg w.directions w.status).trans ?_
  cases hw : w.anomalous <;> simp [Detection.status,Detection.piece,hw]

theorem shows_makeIncident (entityId : String) (w : Detection) :
    Shows (makeIncident entityId w.detected) w.piece :=
  ⟨rfl,rfl,rfl,severity_detected w,rfl⟩

/-- `mergeScores` of exact scores. -/
def mergeExact (cur scores : List (String × ℚ)) : List (String × ℚ) :=
  scores.foldl (fun cur e => upsert e.1 0 (fun c => max c e.2) cur) cur

theorem lifted_mergeExact (scores : List (String × ℚ)) : ∀ cur : List (String × ℚ),
    lifted (mergeExact cur scores) = mergeScores (lifted cur) (lifted scores) := by
  induction scores with
  | nil => exact fun cur => rfl
  | cons e scores ih =>
    intro cur
    refine (ih (upsert e.1 0 (fun c => max c e.2) cur)).trans ?_
    have hstep : lifted (upsert e.1 0 (fun c => max c e.2) cur) =
        upsert e.1 (lit 0 0) (fun c => pyMax c (some e.2)) (lifted cur) := by
      have hzero : (lit 0 0 : Option ℚ) = some 0 := by simp
      rw [hzero]
      exact map_upsert some e.1 0 (fun v => (pyMax_some v e.2).symm) cur
    rw [hstep]
    rfl

theorem nonneg_upsert {k : String} {v : ℚ} {d : List (String × ℚ)} (h : ∀ e ∈ d, 0 ≤ e.2) :
    ∀ e ∈ upsert k 0 (fun c => max c v) d, 0 ≤ e.2 := by
  induction d with
  | nil => simp [upsert]
  | cons x d ih =>
    obtain ⟨hx,hrest⟩ := List.forall_mem_cons.mp h
    rw [upsert]
    split
    · exact List.forall_mem_cons.mpr ⟨le_max_of_le_left hx,hrest⟩
    · exact List.forall_mem_cons.mpr ⟨hx,ih hrest⟩

theorem nonneg_mergeExact (scores : List (String × ℚ)) : ∀ {cur : List (String × ℚ)},
    (∀ e ∈ cur, 0 ≤ e.2) → ∀ e ∈ mergeExact cur scores, 0 ≤ e.2 := by
  induction scores with
  | nil => exact id
  | cons e scores ih => exact fun h => ih (nonneg_upsert h)

/-- Of two dictionaries the larger score of each metric stays. -/
theorem lookup_mergeExact {scores : List (String × ℚ)} (hunique : (scores.map Prod.fst).Nodup)
    (hscores : ∀ e ∈ scores, 0 ≤ e.2) (m : String) : ∀ cur : List (String × ℚ),
    (mergeExact cur scores).lookup m = Option.merge max (cur.lookup m) (scores.lookup m) := by
  induction scores with
  | nil => intro cur; cases h : cur.lookup m <;> simp [mergeExact,h]
  | cons e scores ih =>
    intro cur
    obtain ⟨k,v⟩ := e
    obtain ⟨hnot,hrest⟩ := List.nodup_cons.mp hunique
    obtain ⟨hv,hnonneg⟩ := List.forall_mem_cons.mp hscores
    refine (ih hrest hnonneg (upsert k 0 (fun c => max c v) cur)).trans ?_
    rw [lookup_upsert]
    by_cases hm : m = k
    · subst hm
      rw [if_pos rfl,lookup_eq_none.mpr hnot,List.lookup_cons_self]
      cases h : cur.lookup m <;> simp [hv]
    · rw [if_neg hm,List.lookup_cons,beq_false_of_ne hm]

theorem forall_scores_iff {scores : List (String × ℚ)} (hunique : (scores.map Prod.fst).Nodup)
    (b : ℚ) : (∀ e ∈ scores, e.2 ≤ b) ↔ ∀ m v, scores.lookup m = some v → v ≤ b := by
  constructor
  · intro h m v hv
    exact h (m,v) (mem_of_lookup hv)
  · intro h e he
    exact h e.1 e.2 (lookup_of_mem hunique he)

theorem foldl_max_le_iff (xs : List (String × ℚ)) (b : ℚ) : ∀ m : ℚ,
    (xs.map Prod.snd).foldl max m ≤ b ↔ m ≤ b ∧ ∀ e ∈ xs, e.2 ≤ b := by
  induction xs with
  | nil => simp
  | cons e xs ih =>
    intro m
    rw [List.map_cons,List.foldl_cons,ih,max_le_iff,List.forall_mem_cons,and_assoc]

/-- The largest score is that of either side. -/
theorem top_mergeExact {cur scores : List (String × ℚ)} (hcur : (cur.map Prod.fst).Nodup)
    (hunique : (scores.map Prod.fst).Nodup) (hscores : ∀ e ∈ scores, 0 ≤ e.2) :
    top (mergeExact cur scores) = max (top cur) (top scores) := by
  have hkeys : ((mergeExact cur scores).map Prod.fst).Nodup :=
    nodup_keys_foldl_upsert Prod.fst _ _ scores hcur
  have hmax : ((mergeExact cur scores).map Prod.snd).foldl max 0 =
      max ((cur.map Prod.snd).foldl max 0) ((scores.map Prod.snd).foldl max 0) := by
    refine eq_of_forall_ge_iff fun b => ?_
    rw [max_le_iff,foldl_max_le_iff,foldl_max_le_iff,foldl_max_le_iff,forall_scores_iff hkeys,
      forall_scores_iff hcur,forall_scores_iff hunique,← and_and_left]
    refine and_congr_right fun _ => ?_
    rw [← forall_and]
    refine forall_congr' fun m => ?_
    rw [lookup_mergeExact hunique hscores]
    cases cur.lookup m <;> cases scores.lookup m <;> simp
  rw [top,top,top,hmax,min_max_distrib_left]

section Detectors

variable (keep : Direction → Direction → Direction)

/-- `join` of exact scores. -/
def joinFound (cur w : Detection) : Detection where
  startNs := cur.startNs
  endNs := max cur.endNs w.endNs
  order := cur.order.trans (le_max_left _ _)
  scores := mergeExact cur.scores w.scores
  unique := nodup_keys_foldl_upsert Prod.fst _ _ w.scores cur.unique
  nonneg := nonneg_mergeExact w.scores cur.nonneg
  directions := mergeDirections keep cur.directions w.directions
  anomalous := w.anomalous || cur.anomalous

theorem detected_joinFound (cur w : Detection) :
    (joinFound keep cur w).detected = join keep cur.detected w.detected := by
  have hscores := lifted_mergeExact w.scores cur.scores
  have hstatus : (joinFound keep cur w).status =
      if w.status = .anomaly then .anomaly else cur.status := by
    change (if (w.anomalous || cur.anomalous) = true then _ else _) = _
    cases hw : w.anomalous <;> simp [Detection.status,hw]
  rw [Detection.detected,hstatus]
  exact congrArg (fun scores => (⟨⟨scores,_,_⟩,_,_⟩ : Detected (Option ℚ))) hscores

/-- The windows by start. -/
def byStart (windows : List Detection) : List Detection :=
  windows.mergeSort fun a b => a.startNs ≤ b.startNs

theorem byStart_pairwise (windows : List Detection) :
    (byStart windows).Pairwise fun a b => a.startNs ≤ b.startNs := by
  refine (List.pairwise_mergeSort (fun a b c hab hbc => ?_) (fun a b => ?_) windows).imp
    of_decide_eq_true
  · exact decide_eq_true ((of_decide_eq_true hab).trans (of_decide_eq_true hbc))
  · simpa using Nat.le_total a.startNs b.startNs

/-- What the merged windows come to. -/
def mergedPieces (windows : List Detection) : List Piece :=
  (groupsOf Detection.piece (byStart windows)).map fun g => (g.joined (joinFound keep)).piece

/-- The incidents of a detector are its merged windows. -/
theorem shows_mergeDetected (entityId : String) (windows : List Detection) :
    List.Forall₂ Shows (mergeDetected keep entityId (windows.map Detection.detected))
      (mergedPieces keep windows) := by
  have hsort : ((windows.map Detection.detected).mergeSort fun a b => a.startNs ≤ b.startNs) =
      (byStart windows).map Detection.detected :=
    (List.map_mergeSort (f:=Detection.detected) (r:=fun a b => decide (a.startNs ≤ b.startNs))
      fun _ _ _ _ => rfl).symm
  have hmerge := OverlapGroups.merge_map Detected.startNs Detected.endNs Detection.detected
    (join keep) (joinFound keep) (detected_joinFound keep) (byStart windows)
  have hgroups := OverlapGroups.merge_eq (Detected.startNs ∘ Detection.detected)
    (Detected.endNs ∘ Detection.detected) (joinFound keep) (fun _ _ => rfl)
    (byStart windows)
  rw [mergeDetected,hsort,hmerge,hgroups,mergedPieces,List.map_map,List.map_map]
  refine List.forall₂_map_left_iff.mpr (List.forall₂_map_right_iff.mpr ?_)
  exact List.forall₂_same.mpr fun g _ => shows_makeIncident entityId _

theorem isPass_detectors (windows : List Detection) : IsPass Detection.piece windows
    (byStart windows) fun g => (g.joined (joinFound keep)).piece where
  perm := List.mergeSort_perm _ _
  sorted := byStart_pairwise windows
  order := fun w => w.order
  start := fun g => Cluster.first_joined (joinFound keep)
    (f:=fun w : Detection => w.startNs) (fun _ _ => rfl) g
  stop := fun g => Cluster.stop_joined (joinFound keep)
    (f:=fun w : Detection => w.endNs) (fun _ _ => rfl) g

theorem top_nonneg (w : Detection) : 0 ≤ top w.scores :=
  le_min zero_le_one (((foldl_max_le_iff w.scores _ 0).mp le_rfl).1)

theorem severity_le_top (w : Detection) : w.piece.severity ≤ top w.scores := by
  change (if w.anomalous = true then top w.scores else top w.scores*(6/10)) ≤ top w.scores
  split
  · exact le_rfl
  · exact mul_le_of_le_one_right (top_nonneg w) (by norm_num)

/-- An anomaly is as severe as its largest score, what is uncertain only when there is none. -/
theorem severity_eq_top (w : Detection) :
    w.piece.severity = top w.scores ↔ w.anomalous = true ∨ top w.scores = 0 := by
  change (if w.anomalous = true then top w.scores else top w.scores*(6/10)) = top w.scores ↔ _
  split
  · next h => simp [h]
  · next h =>
    have hne : (6/10 : ℚ) ≠ 1 := by norm_num
    rw [or_iff_right h,mul_right_eq_self₀,or_iff_right hne]

/-- Where there is an anomalous window, the largest score is that of one. -/
def LargestAnomalous (windows : List Detection) : Prop :=
  (∃ w ∈ windows, w.anomalous = true) →
    ∃ w ∈ windows, w.anomalous = true ∧ ∀ v ∈ windows, top v.scores ≤ top w.scores

theorem severities_eq (windows : List Detection) :
    {s | ∃ p ∈ windows.map Detection.piece, p.severity = s} =
      {s | ∃ w ∈ windows, w.piece.severity = s} := by
  simp

/-- The severity of a group is the greatest one exactly where the largest score is that of an
anomalous window, if there is one. -/
theorem severity_joined_iff (g : Cluster Detection) :
    IsGreatest {s | ∃ w ∈ g.members, w.piece.severity = s}
        (g.joined (joinFound keep)).piece.severity ↔ LargestAnomalous g.members := by
  have hstatus : (g.joined (joinFound keep)).anomalous = true ↔
      ∃ w ∈ g.members, w.anomalous = true :=
    g.exists_joined (joinFound keep) (P:=fun w : Detection => w.anomalous = true) fun a b => by
      rw [joinFound,Bool.or_eq_true,or_comm]
  have htop : top (g.joined (joinFound keep)).scores = g.stop fun w => top w.scores :=
    g.stop_joined (joinFound keep) (f:=fun w : Detection => top w.scores) fun a b =>
      top_mergeExact a.unique b.unique b.nonneg
  obtain ⟨u,hu,hlargest⟩ := g.exists_stop fun w => top w.scores
  have hle := g.le_stop fun w => top w.scores
  by_cases hany : ∃ w ∈ g.members, w.anomalous = true
  · have hseverity := (severity_eq_top (g.joined (joinFound keep))).mpr (.inl (hstatus.mpr hany))
    rw [hseverity,htop,LargestAnomalous,imp_iff_right hany]
    constructor
    · rintro ⟨⟨w,hw,heq⟩,-⟩
      -- a window as severe as that has the largest score, and is anomalous if it is not zero
      have hwtop : top w.scores = g.stop fun w => top w.scores :=
        le_antisymm (hle w hw) (heq ▸ severity_le_top w)
      rcases (severity_eq_top w).mp (heq.trans hwtop.symm) with hanomalous | hzero
      · exact ⟨w,hw,hanomalous,fun v hv => (hle v hv).trans hwtop.ge⟩
      · obtain ⟨a,ha,hanomalous⟩ := hany
        refine ⟨a,ha,hanomalous,fun v hv => (hle v hv).trans ?_⟩
        rw [← hwtop,hzero]
        exact top_nonneg a
    · rintro ⟨w,hw,hanomalous,hmax⟩
      refine ⟨⟨w,hw,?_⟩,?_⟩
      · rw [(severity_eq_top w).mpr (.inl hanomalous)]
        exact le_antisymm (hle w hw) (hlargest ▸ hmax u hu)
      · rintro s ⟨v,hv,rfl⟩
        exact (severity_le_top v).trans (hle v hv)
  · have hnone : ∀ w ∈ g.members, w.piece.severity = top w.scores*(6/10) := by
      intro w hw
      exact if_neg fun hw' => hany ⟨w,hw,hw'⟩
    have hseverity : (g.joined (joinFound keep)).piece.severity =
        top (g.joined (joinFound keep)).scores*(6/10) := if_neg (mt hstatus.mp hany)
    rw [hseverity,htop]
    refine iff_of_true ⟨⟨u,hu,?_⟩,?_⟩ fun h => absurd h hany
    · rw [hnone u hu,hlargest]
    · rintro s ⟨v,hv,rfl⟩
      rw [hnone v hv]
      exact mul_le_mul_of_nonneg_right (hle v hv) (by norm_num)

theorem merged_joined_iff (g : Cluster Detection) :
    Merged (g.members.map Detection.piece) (g.joined (joinFound keep)).piece ↔
      LargestAnomalous g.members := by
  rw [← severity_joined_iff keep]
  constructor
  · intro h
    rw [← severities_eq]
    exact h.severity
  · intro h
    refine ⟨fun m v => ?_,(severities_eq g.members).symm ▸ h,?_⟩
    · have hgreatest := g.greatest_joined (joinFound keep)
        (f:=fun w : Detection => w.scores.lookup m)
        (fun a b => lookup_mergeExact b.unique b.nonneg m a.scores) v
      refine hgreatest.trans ?_
      simp [Cluster.values,Detection.piece]
    · have hany := g.exists_joined (joinFound keep)
        (P:=fun w : Detection => w.status = .anomaly) fun a b => by
          change (if (b.anomalous || a.anomalous) = true then _ else _) = _ ↔ _
          cases ha : a.anomalous <;> cases hb : b.anomalous <;> simp [Detection.status,ha,hb]
      refine hany.trans ?_
      simp [Detection.piece]

variable {keep}

theorem Shows.unique {inc : Incident (Option ℚ)} {p q : Piece} (hp : Shows inc p)
    (hq : Shows inc q) : p = q := by
  have hlift : Function.Injective fun e : String × ℚ => (e.1,some e.2) := by
    rintro ⟨m,v⟩ ⟨m',v'⟩ h
    simpa using h
  have hscores : p.scores = q.scores :=
    List.map_injective_iff.mpr hlift (hp.scores.symm.trans hq.scores)
  have hseverity := Option.some.inj (hp.severity.symm.trans hq.severity)
  obtain ⟨pstart,pend,pscores,pseverity,pstatus⟩ := p
  obtain ⟨qstart,qend,qscores,qseverity,qstatus⟩ := q
  obtain rfl : pstart = qstart := hp.startNs.symm.trans hq.startNs
  obtain rfl : pend = qend := hp.endNs.symm.trans hq.endNs
  obtain rfl : pscores = qscores := hscores
  obtain rfl : pseverity = qseverity := hseverity
  obtain rfl : pstatus = qstatus := hp.status.symm.trans hq.status
  rfl

variable (keep)

/-- The incidents of a detector follow the law. -/
def Follows (windows : List Detection) : Prop := ∀ entityId, ∃ outs,
  List.Forall₂ Shows (mergeDetected keep entityId (windows.map Detection.detected)) outs ∧
    Law (windows.map Detection.piece) outs

theorem follows_iff (windows : List Detection) : Follows keep windows ↔
    ∀ g ∈ groupsOf Detection.piece (byStart windows), LargestAnomalous g.members := by
  have hlaw : Law (windows.map Detection.piece) (mergedPieces keep windows) ↔
      ∀ g ∈ groupsOf Detection.piece (byStart windows), LargestAnomalous g.members := by
    rw [mergedPieces,(isPass_detectors keep windows).law_iff]
    exact forall₂_congr fun g _ => merged_joined_iff keep g
  rw [← hlaw]
  constructor
  · intro h
    obtain ⟨outs,hshows,hfollows⟩ := h ""
    have hunique := List.right_unique_forall₂' (fun _ _ _ hp hq => hp.unique hq) hshows
      (shows_mergeDetected keep "" windows)
    rwa [← hunique]
  · exact fun h entityId => ⟨_,shows_mergeDetected keep entityId windows,h⟩

theorem exists_top (g : Cluster Detection) :
    ∃ u ∈ g.members, ∀ v ∈ g.members, top v.scores ≤ top u.scores := by
  obtain ⟨u,hu,hlargest⟩ := g.exists_stop fun w : Detection => top w.scores
  refine ⟨u,hu,fun v hv => ?_⟩
  have hle := g.le_stop (fun w : Detection => top w.scores) v hv
  rw [← hlargest] at hle
  exact hle

/-- Where every window is an anomaly nothing counts for less. -/
theorem follows_anomaly (windows : List Found) : Follows keep (windows.map Found.anomaly) := by
  rw [follows_iff]
  intro g hg _
  have hanomalous : ∀ w ∈ g.members, w.anomalous = true := by
    intro w hw
    obtain ⟨v,-,hv⟩ := List.mem_map.mp ((isPass_detectors keep _).mem_of_group hg hw)
    rw [← hv]
    rfl
  obtain ⟨u,hu,hlargest⟩ := exists_top g
  exact ⟨u,hu,hanomalous u hu,hlargest⟩

end Detectors

/-! ## The causal engine -/

/-- An incident whose scores are a dictionary. -/
structure Emitted extends IncidentWindow ℚ where
  unique : (metricScores.map Prod.fst).Nodup

def pieceOf (inc : IncidentWindow ℚ) : Piece :=
  ⟨inc.startTsNs,inc.endTsNs,inc.metricScores,inc.severity,inc.status⟩

def Emitted.piece (inc : Emitted) : Piece := pieceOf inc.toIncidentWindow

def joinEmitted (last inc : Emitted) : Emitted :=
  { joinIncidents last.toIncidentWindow inc.toIncidentWindow with
    unique := nodup_keys_update last.unique inc.metricScores }

/-- The order of `_merge_overlapping`. -/
def sortEmitted (incidents : List Emitted) : List Emitted :=
  incidents.mergeSort fun a b => Before a.toIncidentWindow b.toIncidentWindow

theorem sortEmitted_pairwise (incidents : List Emitted) :
    (sortEmitted incidents).Pairwise fun a b => a.startTsNs ≤ b.startTsNs := by
  refine (List.pairwise_mergeSort (fun a b c hab hbc => ?_) (fun a b => ?_) incidents).imp
    fun {a b} hab => ?_
  · exact decide_eq_true ((of_decide_eq_true hab).trans (of_decide_eq_true hbc))
  · have htotal := Before.total a.toIncidentWindow b.toIncidentWindow
    simpa using htotal
  · exact (of_decide_eq_true hab).elim Nat.le_of_lt fun h => h.1.le

/-- Of every metric the last score is the greatest one. -/
def LastGreatest (incidents : List Emitted) : Prop :=
  ∀ m, ∀ v ∈ (incidents.filterMap fun inc => inc.metricScores.lookup m).getLast?,
    ∀ s ∈ incidents.filterMap fun inc => inc.metricScores.lookup m, s ≤ v

theorem mergeOverlapping_eq (incidents : List Emitted) :
    (mergeOverlapping (incidents.map Emitted.toIncidentWindow)).map pieceOf =
      (groupsOf Emitted.piece (sortEmitted incidents)).map fun g =>
        (g.joined joinEmitted).piece := by
  have hsort : sortIncidents (incidents.map Emitted.toIncidentWindow) =
      (sortEmitted incidents).map Emitted.toIncidentWindow :=
    (List.map_mergeSort (f:=Emitted.toIncidentWindow)
      (r:=fun a b : Emitted => decide (Before a.toIncidentWindow b.toIncidentWindow))
      (s:=fun a b : IncidentWindow ℚ => decide (Before a b)) fun _ _ _ _ => rfl).symm
  have hmerge := OverlapGroups.merge_map (IncidentWindow.startTsNs (F:=ℚ))
    (IncidentWindow.endTsNs (F:=ℚ)) Emitted.toIncidentWindow joinIncidents joinEmitted
    (fun _ _ => rfl) (sortEmitted incidents)
  have hgroups := OverlapGroups.merge_eq
    (IncidentWindow.startTsNs (F:=ℚ) ∘ Emitted.toIncidentWindow)
    (IncidentWindow.endTsNs (F:=ℚ) ∘ Emitted.toIncidentWindow) joinEmitted
    (fun _ _ => rfl) (sortEmitted incidents)
  rw [mergeOverlapping,hsort,hmerge,hgroups,List.map_map,List.map_map]
  rfl

theorem isPass_emitted (incidents : List Emitted) : IsPass Emitted.piece incidents
    (sortEmitted incidents) fun g => (g.joined joinEmitted).piece where
  perm := List.mergeSort_perm _ _
  sorted := sortEmitted_pairwise incidents
  order := fun inc => inc.windowOrder
  start := fun g => Cluster.first_joined joinEmitted
    (f:=fun inc : Emitted => inc.startTsNs) (fun _ _ => rfl) g
  stop := fun g => Cluster.stop_joined joinEmitted
    (f:=fun inc : Emitted => inc.endTsNs) (fun _ _ => rfl) g

theorem lookup_joinEmitted (last inc : Emitted) (m : String) :
    (joinEmitted last inc).metricScores.lookup m =
      (inc.metricScores.lookup m).or (last.metricScores.lookup m) := by
  refine (lookup_update inc.metricScores m last.metricScores).trans ?_
  rw [lookup_update_nil inc.unique]

theorem severity_joinEmitted (last inc : Emitted) :
    (joinEmitted last inc).severity = max last.severity inc.severity := by
  change pyMax last.severity inc.severity = _
  rw [pyMax,max_def_lt]

theorem severity_joined_emitted (g : Cluster Emitted) :
    IsGreatest {s | ∃ p ∈ g.members.map Emitted.piece, p.severity = s}
      (g.joined joinEmitted).piece.severity := by
  have hseverity := g.stop_joined joinEmitted (f:=fun inc : Emitted => inc.severity)
    severity_joinEmitted
  change IsGreatest _ (g.joined joinEmitted).severity
  rw [hseverity]
  obtain ⟨u,hu,hmax⟩ := g.exists_stop fun inc : Emitted => inc.severity
  refine ⟨⟨u.piece,List.mem_map_of_mem hu,hmax⟩,?_⟩
  rintro s ⟨p,hp,hs⟩
  obtain ⟨inc,hinc,hpiece⟩ := List.mem_map.mp hp
  have hle := g.le_stop (fun inc : Emitted => inc.severity) inc hinc
  rw [← hs,← hpiece]
  exact hle

/-- A group of incidents comes to what it is to come to but for scores that are replaced by
smaller ones. -/
theorem merged_emitted_iff (g : Cluster Emitted) :
    Merged (g.members.map Emitted.piece) (g.joined joinEmitted).piece ↔
      LastGreatest g.members := by
  have hlookup : ∀ m, (g.joined joinEmitted).metricScores.lookup m =
      (g.members.filterMap fun inc => inc.metricScores.lookup m).getLast? := fun m =>
    g.last_joined joinEmitted (f:=fun inc : Emitted => inc.metricScores.lookup m)
      fun a b => lookup_joinEmitted a b m
  have hset : ∀ m, {s | ∃ p ∈ g.members.map Emitted.piece, p.scores.lookup m = some s} =
      {s | s ∈ g.members.filterMap fun inc => inc.metricScores.lookup m} := by
    intro m
    ext s
    simp [Emitted.piece,pieceOf]
  constructor
  · intro h m v hv s hs
    have hgreatest := (h.score m v).mp ((hlookup m).trans hv)
    rw [hset] at hgreatest
    exact hgreatest.2 hs
  · intro h
    have hlast : ∀ m v, (g.members.filterMap fun inc => inc.metricScores.lookup m).getLast? =
        some v → IsGreatest {s | s ∈ g.members.filterMap fun inc => inc.metricScores.lookup m} v :=
      fun m v hv => ⟨List.mem_of_getLast? hv,h m v hv⟩
    refine ⟨fun m v => ?_,?_,?_⟩
    · rw [hset]
      refine Iff.trans (Eq.congr_left (hlookup m)) ⟨hlast m v,fun hv => ?_⟩
      cases hend : (g.members.filterMap fun inc => inc.metricScores.lookup m).getLast? with
      | none =>
        have hmem : v ∈ g.members.filterMap fun inc => inc.metricScores.lookup m := hv.1
        rw [List.getLast?_eq_none_iff.mp hend] at hmem
        cases hmem
      | some w => rw [(hlast m w hend).unique hv]
    · exact severity_joined_emitted g
    · have hany := g.exists_joined joinEmitted
        (P:=fun inc : Emitted => inc.status = .anomaly) fun a b => by
          change (if a.status = .anomaly ∨ b.status = .anomaly then WindowStatus.anomaly
            else .uncertain) = _ ↔ _
          split
          · next h => exact iff_of_true rfl h
          · next h => exact iff_of_false (by decide) h
      refine hany.trans ?_
      simp [Emitted.piece,pieceOf]

/-- The incidents of a call follow the law. -/
def EngineFollows (incidents : List Emitted) : Prop :=
  Law (incidents.map Emitted.piece)
    ((mergeOverlapping (incidents.map Emitted.toIncidentWindow)).map pieceOf)

theorem engineFollows_iff (incidents : List Emitted) : EngineFollows incidents ↔
    ∀ g ∈ groupsOf Emitted.piece (sortEmitted incidents), LastGreatest g.members := by
  rw [EngineFollows,mergeOverlapping_eq,(isPass_emitted incidents).law_iff]
  exact forall₂_congr fun g _ => merged_emitted_iff g

/-- Two detectors always follow the law. The one with two rings does exactly where in each group of
overlapping windows with an anomaly the largest score is that of an anomaly, and the causal engine
where in each group of overlapping incidents the last score of a metric is its greatest one. -/
theorem merging_law_iff (found : List Found) (windows : List Detection)
    (incidents : List Emitted) :
    Follows StreamingDetector.keep (found.map Found.anomaly) ∧
    Follows keepFirst (found.map Found.anomaly) ∧
    (Follows keepFirst windows ↔
      ∀ g ∈ groupsOf Detection.piece (byStart windows), LargestAnomalous g.members) ∧
    (EngineFollows incidents ↔
      ∀ g ∈ groupsOf Emitted.piece (sortEmitted incidents), LastGreatest g.members) :=
  ⟨follows_anomaly StreamingDetector.keep found,follows_anomaly keepFirst found,
    follows_iff keepFirst windows,engineFollows_iff incidents⟩

/-! ## A score that goes down -/

/-- An incident of the load alone. -/
def loadIncident (startTsNs : ℕ) (score : ℚ) : Emitted where
  incidentId := "inc"
  startTsNs := startTsNs
  endTsNs := startTsNs+10
  windowOrder := Nat.le_add_right _ _
  detectedAtNs := startTsNs
  status := .anomaly
  severity := score
  metricScores := [("cpu",score)]
  directions := [("cpu",.up)]
  unique := List.nodup_singleton _

/-- Of two incidents that overlap the later one's score stays, although it is the smaller one. -/
theorem not_engineFollows_falling :
    ¬ EngineFollows [loadIncident 0 (9/10),loadIncident 5 (3/10)] := by
  rw [engineFollows_iff]
  intro h
  have hsort : sortEmitted [loadIncident 0 (9/10),loadIncident 5 (3/10)] =
      [loadIncident 0 (9/10),loadIncident 5 (3/10)] := by
    refine List.mergeSort_of_pairwise ?_
    simp [Before,loadIncident]
  rw [hsort] at h
  have hfalling := h ⟨loadIncident 0 (9/10),[loadIncident 5 (3/10)]⟩ (List.mem_singleton_self _)
    "cpu" (3/10) rfl (9/10) List.mem_cons_self
  exact absurd hfalling (by norm_num)

end MergeLaw
end ETraceDiag
