import ETraceDiag.AnomalyFeed
import Mathlib.Algebra.BigOperators.Group.List.Basic
import Mathlib.Algebra.Order.BigOperators.Group.List
import Mathlib.Algebra.Order.Field.Basic
import Mathlib.Algebra.Order.Ring.Rat
import Mathlib.Tactic.Ring

/-!
# The type of an anomaly

What becomes of the channels of an incident in the reply. The detector puts their scores into a
dictionary under the metric alone, `_result` looks the group of a metric up among the channels of
the host and adds the scores up for each group. The arithmetic is exact.
-/

namespace ETraceDiag
namespace AnomalyType

open CausalInput TimeTable
open AnomalyFeed (Group Source hostChannels)

/-! ## The detector -/

/-- The `attrs` group of the points of a source. -/
def group : Source → Group
  | .host ch _ => ch.group
  | .net ch _ => ch.group
  | .proc _ ch _ => ch.group

/-- Every point that a message gives is of a source, and of one only. -/
theorem existsUnique_source {F : Type} [AnomalyFeed.Numbers F] {msg : JsonValue F}
    {prev prev' : AnomalyFeed.Prev F} {points : List (TelemetryPoint F)}
    (h : AnomalyFeed.anomalyFeaturesToPoints msg prev = (prev',.ok points)) :
    ∀ p ∈ points, ∃! src : Source, (src.entityId,src.metricId) = (p.entityId,p.metricId) := by
  rw [AnomalyFeed.anomalyFeaturesToPoints] at h
  cases hts : AnomalyFeed.messageTs msg with
  | error e => rw [hts] at h; cases h
  | ok ts =>
    rw [hts] at h
    obtain ⟨-,hpoints,-⟩ := AnomalyFeed.pointLoop_ok _ (congrArg Prod.snd h)
    intro p hp
    rw [hpoints] at hp
    obtain ⟨r,-,rfl⟩ := List.mem_map.mp hp
    exact ⟨r.1,rfl,fun src hsrc => AnomalyFeed.Source.name_injective hsrc⟩

/-- A channel of the fit, with its median and its median deviation. -/
structure FitChannel (F : Type) where
  source : Source
  med : F
  mad : F

variable {F : Type} [Field F] [LinearOrder F]

/-- `zc[k]`. -/
def deviation (ch : FitChannel F) (x : F) : F :=
  |x-ch.med|/(14826/10000*max ch.mad (1/10^8))

def deviations (fit : List (FitChannel F)) (row : List F) : List (Source × F) :=
  List.zipWith (fun ch x => (ch.source,deviation ch x)) fit row

/-- `float(np.sum(zc)) or 1.0`. -/
def zsum (ds : List (Source × F)) : F :=
  let s := (ds.map Prod.snd).sum
  if s = 0 then 1 else s

/-- The channels that contribute at the peak, with their scores. -/
def contributions (fit : List (FitChannel F)) (row : List F) : List (Source × F) :=
  let ds := deviations fit row
  (ds.filter fun d => 0 < d.2).map fun d => (d.1,d.2/zsum ds)

/-- The dictionary of the incident: a metric has the score of its last channel. -/
def metricScores (cs : List (Source × F)) : List (String × F) :=
  cs.foldl (fun d c => upsert c.1.metricId c.2 (fun _ => c.2) d) []

/-! ## The reply -/

/-- `_group_of`. -/
def groupOf (metricId : String) : Group :=
  ((hostChannels.find? (·.metricId = metricId)).map (·.group)).getD .cpu

def groupScores (scores : List (String × F)) : List (Group × F) :=
  scores.foldl (fun d e => upsert (groupOf e.1) 0 (·+e.2) d) []

/-- `max(group_scores,key=group_scores.get)`: of equal ones the first. -/
def heaviest : List (Group × F) → Option (Group × F)
  | [] => none
  | e::es => some (es.foldl (fun a b => if a.2 < b.2 then b else a) e)

structure AnomalyReply (F : Type) where
  v : ℕ := 1
  seq : ℕ := 0
  tsNs : ℕ
  isAnomaly : Bool := true
  type : String
  confidence : F
  indicators : List (String × F)

/-- `_result`; `round` rounds to four places. -/
def result (round : F → F) (inc : IncidentWindow F) (now : ℕ) : AnomalyReply F :=
  let scores := groupScores inc.metricScores
  { tsNs := now
    type := ((heaviest scores).map fun e => e.1.name).getD "cpu"
    confidence := round inc.severity
    indicators := (scores.mergeSort fun a b => b.2 ≤ a.2).map fun e => (e.1.name,round e.2) }

/-! ## What the reply is to say -/

def total (cs : List (Source × F)) : F := (cs.map Prod.snd).sum

/-- The summed score of the contributing channels of a group. -/
def groupSum (cs : List (Source × F)) (g : Group) : F := total (cs.filter (group ·.1 = g))

/-- The type is a group with the largest sum, and the confidences are the sums of the groups,
however they are rounded. -/
def Typed (cs : List (Source × F)) : Prop :=
  ∀ (round : F → F) (inc : IncidentWindow F) (now : ℕ), inc.metricScores = metricScores cs →
    (∃ g : Group, (result round inc now).type = g.name ∧ ∀ g', groupSum cs g' ≤ groupSum cs g) ∧
      ∀ i ∈ (result round inc now).indicators,
        ∃ g : Group, i.1 = g.name ∧ i.2 = round (groupSum cs g)

/-! ## What is counted for a group -/

/-- The channels whose score no later channel of the same metric replaces. -/
def counted : List (Source × F) → List (Source × F)
  | [] => []
  | c::cs => if c.1.metricId ∈ cs.map (·.1.metricId) then counted cs else c::counted cs

/-- The channels whose score is replaced. -/
def replaced : List (Source × F) → List (Source × F)
  | [] => []
  | c::cs => if c.1.metricId ∈ cs.map (·.1.metricId) then c::replaced cs else replaced cs

/-- The scores of a group that are not counted for it. -/
def lost (cs : List (Source × F)) (g : Group) : F :=
  groupSum (replaced cs) g+
    total ((counted cs).filter fun c => group c.1 = g ∧ groupOf c.1.metricId ≠ g)

/-- The scores that are counted for a group that they are not of. -/
def gained (cs : List (Source × F)) (g : Group) : F :=
  total ((counted cs).filter fun c => group c.1 ≠ g ∧ groupOf c.1.metricId = g)

/-- The reply speaks of the group. -/
def Reported (cs : List (Source × F)) (g : Group) : Prop :=
  ∃ c ∈ cs, groupOf c.1.metricId = g

/-- What the groups in the reply lose they gain, and none that is missing outweighs them. -/
structure Balanced (cs : List (Source × F)) : Prop where
  even : ∀ g, Reported cs g → lost cs g = gained cs g
  missing : ∀ g, ¬ Reported cs g → 0 < groupSum cs g →
    ∃ g', Reported cs g' ∧ groupSum cs g ≤ groupSum cs g'

/-! ## The dictionary -/

theorem upsert_perm {κ ν : Type} [DecidableEq κ] (k : κ) (v : ν) {d : List (κ × ν)}
    (h : (d.map Prod.fst).Nodup) :
    (upsert k v (fun _ => v) d).Perm (d.filter (·.1 ≠ k)++[(k,v)]) := by
  induction d with
  | nil => exact List.Perm.refl _
  | cons e d ih =>
    obtain ⟨hnot,hd⟩ := List.nodup_cons.mp h
    rw [upsert]
    by_cases he : e.1 = k
    · have hall : d.filter (·.1 ≠ k) = d := List.filter_eq_self.mpr fun e' he' => by
        rw [decide_eq_true_eq]
        rintro rfl
        exact hnot (he ▸ List.mem_map_of_mem he')
      rw [if_pos he,List.filter_cons_of_neg (by simp [he]),hall]
      exact (List.perm_append_singleton _ _).symm
    · rw [if_neg he,List.filter_cons_of_pos (by simp [he]),List.cons_append]
      exact (ih hd).cons e

omit [Field F] [LinearOrder F] in
/-- The entries of the dictionary are those of the channels that are counted. -/
theorem foldl_upsert_perm (cs : List (Source × F)) : ∀ {d : List (String × F)},
    (d.map Prod.fst).Nodup →
    (cs.foldl (fun d c => upsert c.1.metricId c.2 (fun _ => c.2) d) d).Perm
      (d.filter (·.1 ∉ cs.map (·.1.metricId))++(counted cs).map fun c => (c.1.metricId,c.2)) := by
  induction cs with
  | nil =>
    intro d _
    simp [counted]
  | cons c cs ih =>
    intro d hd
    have hrest : ((upsert c.1.metricId c.2 (fun _ => c.2) d).filter
        (·.1 ∉ cs.map (·.1.metricId))).Perm
          (d.filter (·.1 ∉ (c::cs).map (·.1.metricId))++
            if c.1.metricId ∈ cs.map (·.1.metricId) then [] else [(c.1.metricId,c.2)]) := by
      refine ((upsert_perm c.1.metricId c.2 hd).filter _).trans ?_
      rw [List.filter_append,List.filter_filter]
      refine List.Perm.of_eq (congrArg₂ _ (List.filter_congr fun e _ => ?_) ?_)
      · by_cases he : e.1 = c.1.metricId <;> simp [he]
      · by_cases hc : c.1.metricId ∈ cs.map (·.1.metricId)
        · rw [if_pos hc,List.filter_cons_of_neg (by simpa using hc),List.filter_nil]
        · rw [if_neg hc,List.filter_cons_of_pos (by simpa using hc),List.filter_nil]
    rw [List.foldl_cons]
    refine (ih (nodup_keys_upsert _ _ _ hd)).trans ((hrest.append_right _).trans ?_)
    rw [counted,List.append_assoc]
    by_cases hc : c.1.metricId ∈ cs.map (·.1.metricId)
    · rw [if_pos hc,if_pos hc,List.nil_append]
    · rw [if_neg hc,if_neg hc,List.map_cons]
      rfl

omit [Field F] [LinearOrder F] in
theorem metricScores_perm (cs : List (Source × F)) :
    (metricScores cs).Perm ((counted cs).map fun c => (c.1.metricId,c.2)) :=
  foldl_upsert_perm cs (List.nodup_nil)

omit [Field F] [LinearOrder F] in
theorem mem_counted_metric (cs : List (Source × F)) (m : String) :
    (∃ c ∈ counted cs, c.1.metricId = m) ↔ ∃ c ∈ cs, c.1.metricId = m := by
  induction cs with
  | nil => rfl
  | cons c cs ih =>
    rw [counted]
    split
    · next hc =>
      rw [ih,List.exists_mem_cons_iff]
      refine ⟨.inr,fun h => h.elim (fun hm => ?_) id⟩
      obtain ⟨c',hc',heq⟩ := List.mem_map.mp hc
      exact ⟨c',hc',heq.trans hm⟩
    · rw [List.exists_mem_cons_iff,List.exists_mem_cons_iff,ih]

/-! ## Sums over groups -/

omit [LinearOrder F] in
theorem lookup_foldl_groups (g : Group) (scores : List (String × F)) :
    ∀ d : List (Group × F),
      (scores.foldl (fun d e => upsert (groupOf e.1) 0 (·+e.2) d) d).lookup g =
        if ∃ e ∈ scores, groupOf e.1 = g then
          some ((d.lookup g).getD 0+((scores.filter (groupOf ·.1 = g)).map Prod.snd).sum)
        else d.lookup g := by
  induction scores with
  | nil => intro d; simp
  | cons e scores ih =>
    intro d
    rw [List.foldl_cons,ih,lookup_upsert]
    by_cases he : groupOf e.1 = g
    · have hex : ∃ e' ∈ e::scores, groupOf e'.1 = g := ⟨e,List.mem_cons_self ..,he⟩
      rw [if_pos hex,if_pos he.symm,List.filter_cons_of_pos (by simp [he]),List.map_cons,
        List.sum_cons,Option.getD_some,he,← add_assoc]
      split
      · rfl
      · next hno =>
        have hnil : scores.filter (groupOf ·.1 = g) = [] := by
          rw [List.filter_eq_nil_iff]
          intro e' he' hg
          exact hno ⟨e',he',by simpa using hg⟩
        rw [hnil,List.map_nil,List.sum_nil,add_zero]
    · rw [if_neg (Ne.symm he),List.filter_cons_of_neg (by simp [he])]
      simp only [List.exists_mem_cons_iff,he,false_or]

omit [LinearOrder F] in
theorem mem_groupScores (scores : List (String × F)) (g : Group) (s : F) :
    (g,s) ∈ groupScores scores ↔ (∃ e ∈ scores, groupOf e.1 = g) ∧
      ((scores.filter (groupOf ·.1 = g)).map Prod.snd).sum = s := by
  have hn : ((groupScores scores).map Prod.fst).Nodup :=
    nodup_keys_foldl_upsert (fun e : String × F => groupOf e.1) (fun _ => 0) (fun e v => v+e.2)
      scores List.nodup_nil
  have hlookup := lookup_foldl_groups g scores []
  rw [← groupScores,List.lookup_nil,Option.getD_none,zero_add] at hlookup
  constructor
  · intro hmem
    rw [lookup_of_mem hn hmem] at hlookup
    split at hlookup
    · next hex => exact ⟨hex,(Option.some.inj hlookup).symm⟩
    · cases hlookup
  · rintro ⟨hex,rfl⟩
    rw [if_pos hex] at hlookup
    obtain ⟨l₁,l₂,hl,-⟩ := List.lookup_eq_some_iff.mp hlookup
    rw [hl]
    simp

/-- What the reply has as the sum of a group. -/
def countedSum (cs : List (Source × F)) (g : Group) : F :=
  total ((counted cs).filter (groupOf ·.1.metricId = g))

omit [LinearOrder F] in
/-- The groups of the reply with their sums. -/
theorem mem_groupScores_metricScores (cs : List (Source × F)) (g : Group) (s : F) :
    (g,s) ∈ groupScores (metricScores cs) ↔ Reported cs g ∧ countedSum cs g = s := by
  have hperm := metricScores_perm cs
  have hex : (∃ e ∈ metricScores cs, groupOf e.1 = g) ↔ Reported cs g := by
    have hmetric : Reported cs g ↔ ∃ m, (∃ c ∈ cs, c.1.metricId = m) ∧ groupOf m = g :=
      ⟨fun ⟨c,hc,hg⟩ => ⟨_,⟨c,hc,rfl⟩,hg⟩,fun ⟨_,⟨c,hc,hm⟩,hg⟩ => ⟨c,hc,hm ▸ hg⟩⟩
    rw [hmetric]
    constructor
    · rintro ⟨e,he,hg⟩
      obtain ⟨c,hc,rfl⟩ := List.mem_map.mp (hperm.mem_iff.mp he)
      exact ⟨_,(mem_counted_metric cs _).mp ⟨c,hc,rfl⟩,hg⟩
    · rintro ⟨m,hm,hg⟩
      obtain ⟨c,hc,rfl⟩ := (mem_counted_metric cs m).mpr hm
      exact ⟨_,hperm.mem_iff.mpr (List.mem_map.mpr ⟨c,hc,rfl⟩),hg⟩
  have hsum : (((metricScores cs).filter (groupOf ·.1 = g)).map Prod.snd).sum =
      countedSum cs g := by
    rw [((hperm.filter _).map Prod.snd).sum_eq,List.filter_map,List.map_map]
    rfl
  rw [mem_groupScores,hex,hsum]

omit [LinearOrder F] in
theorem total_filter_and (cs : List (Source × F)) (p q : Source × F → Prop) [DecidablePred p]
    [DecidablePred q] : total (cs.filter (p ·)) =
      total (cs.filter fun c => p c ∧ q c)+total (cs.filter fun c => p c ∧ ¬ q c) := by
  induction cs with
  | nil => simp [total]
  | cons c cs ih =>
    simp only [total] at ih ⊢
    by_cases hp : p c
    · by_cases hq : q c
      · simp [hp,hq,ih,add_assoc]
      · simp [hp,hq,ih,add_left_comm]
    · simp [hp,ih]

omit [LinearOrder F] in
theorem groupSum_split (cs : List (Source × F)) (g : Group) :
    groupSum cs g = groupSum (counted cs) g+groupSum (replaced cs) g := by
  induction cs with
  | nil => simp [groupSum,counted,replaced,total]
  | cons c cs ih =>
    simp only [groupSum,total] at ih ⊢
    rw [counted,replaced]
    by_cases hc : c.1.metricId ∈ cs.map (·.1.metricId) <;> by_cases hg : group c.1 = g
    · simp [hc,hg,ih,add_left_comm]
    · simp [hc,hg,ih]
    · simp [hc,hg,ih,add_assoc]
    · simp [hc,hg,ih]

omit [LinearOrder F] in
/-- What is counted for a group is its sum but for what it loses and gains. -/
theorem countedSum_add_lost (cs : List (Source × F)) (g : Group) :
    countedSum cs g+lost cs g = groupSum cs g+gained cs g := by
  have hcounted := total_filter_and (counted cs) (fun c => groupOf c.1.metricId = g)
    (fun c => group c.1 = g)
  have hgroup := total_filter_and (counted cs) (fun c => group c.1 = g)
    (fun c => groupOf c.1.metricId = g)
  have hboth : total ((counted cs).filter fun c => groupOf c.1.metricId = g ∧ group c.1 = g) =
      total ((counted cs).filter fun c => group c.1 = g ∧ groupOf c.1.metricId = g) := by
    simp only [and_comm]
  have hgain : total ((counted cs).filter fun c => groupOf c.1.metricId = g ∧ ¬ group c.1 = g) =
      gained cs g := by
    simp only [gained,and_comm,ne_eq]
  have hsplit := groupSum_split cs g
  rw [hboth,hgain] at hcounted
  have hcount : countedSum cs g = _ := hcounted
  have hown : groupSum (counted cs) g = _ := hgroup
  rw [hcount,hsplit,hown,lost]
  ring

omit [LinearOrder F] in
theorem countedSum_eq_iff (cs : List (Source × F)) (g : Group) :
    countedSum cs g = groupSum cs g ↔ lost cs g = gained cs g := by
  have h := countedSum_add_lost cs g
  constructor
  · intro heq
    rw [heq] at h
    exact add_left_cancel h
  · intro heq
    rw [heq] at h
    exact add_right_cancel h

/-! ## The reply -/

omit [Field F] in
theorem foldl_heavier (es : List (Group × F)) : ∀ e : Group × F,
    es.foldl (fun a b => if a.2 < b.2 then b else a) e ∈ e::es ∧
      ∀ e' ∈ e::es, e'.2 ≤ (es.foldl (fun a b => if a.2 < b.2 then b else a) e).2 := by
  induction es with
  | nil => intro e; simp
  | cons b es ih =>
    intro e
    rw [List.foldl_cons]
    obtain ⟨hmem,hmax⟩ := ih (if e.2 < b.2 then b else e)
    have hstep : (if e.2 < b.2 then b else e) ∈ [e,b] ∧
        ∀ e' ∈ [e,b], e'.2 ≤ (if e.2 < b.2 then b else e).2 := by
      split
      · next h => simp [h.le]
      · next h => simp [not_lt.mp h]
    constructor
    · rcases List.mem_cons.mp hmem with h | h
      · rw [h]
        have hsub : [e,b] ⊆ e::b::es := by simp
        exact hsub hstep.1
      · exact List.mem_cons_of_mem _ (List.mem_cons_of_mem _ h)
    · have hhead := hmax _ (List.mem_cons_self ..)
      intro e' he'
      by_cases hin : e' ∈ [e,b]
      · exact (hstep.2 e' hin).trans hhead
      · have hes : e' ∈ es := by
          simp only [List.mem_cons,List.not_mem_nil,or_false,not_or] at he' hin
          tauto
        exact hmax e' (List.mem_cons_of_mem _ hes)

omit [Field F] in
theorem heaviest_spec {es : List (Group × F)} (h : es ≠ []) :
    ∃ e ∈ es, heaviest es = some e ∧ ∀ e' ∈ es, e'.2 ≤ e.2 := by
  cases es with
  | nil => exact absurd rfl h
  | cons b es =>
    obtain ⟨hmem,hmax⟩ := foldl_heavier es b
    exact ⟨_,hmem,rfl,hmax⟩

theorem name_injective : Function.Injective Group.name := by
  intro a b h
  cases a <;> cases b <;> first | rfl | exact absurd h (by decide)

omit [LinearOrder F] in
theorem groupScores_ne_nil {cs : List (Source × F)} (h : cs ≠ []) :
    groupScores (metricScores cs) ≠ [] := by
  obtain ⟨c,hc⟩ := List.exists_mem_of_ne_nil cs h
  exact List.ne_nil_of_mem
    ((mem_groupScores_metricScores cs (groupOf c.1.metricId) _).mpr ⟨⟨c,hc,rfl⟩,rfl⟩)

/-- The type that the reply has is that of its heaviest group. -/
theorem exists_heaviest {cs : List (Source × F)} (h : cs ≠ []) : ∃ g,
    heaviest (groupScores (metricScores cs)) = some (g,countedSum cs g) ∧ Reported cs g ∧
      ∀ g', Reported cs g' → countedSum cs g' ≤ countedSum cs g := by
  obtain ⟨⟨g,x⟩,hmem,hheaviest,hmax⟩ := heaviest_spec (groupScores_ne_nil h)
  obtain ⟨hrep,rfl⟩ := (mem_groupScores_metricScores cs g x).mp hmem
  exact ⟨g,hheaviest,hrep,fun g' hg' =>
    hmax _ ((mem_groupScores_metricScores cs g' _).mpr ⟨hg',rfl⟩)⟩

/-- An incident at one moment. -/
def incidentOf (scores : List (String × F)) : IncidentWindow F where
  incidentId := ""
  startTsNs := 0
  endTsNs := 0
  windowOrder := le_rfl
  detectedAtNs := 0
  status := .anomaly
  severity := 0
  metricScores := scores
  directions := []

theorem mem_indicators (round : F → F) (inc : IncidentWindow F) (now : ℕ) (i : String × F) :
    i ∈ (result round inc now).indicators ↔
      ∃ e ∈ groupScores inc.metricScores, (e.1.name,round e.2) = i := by
  rw [result,List.mem_map]
  simp only [List.mem_mergeSort]

section Order

variable [IsStrictOrderedRing F]

theorem deviation_nonneg (ch : FitChannel F) (x : F) : 0 ≤ deviation ch x := by
  have hmad : (0 : F) < max ch.mad (1/10^8) := lt_max_of_lt_right (by positivity)
  exact div_nonneg (abs_nonneg _) (mul_pos (by positivity) hmad).le

theorem zsum_pos (fit : List (FitChannel F)) (row : List F) :
    0 < zsum (deviations fit row) := by
  have hsum : 0 ≤ ((deviations fit row).map Prod.snd).sum := by
    refine List.sum_nonneg fun x hx => ?_
    obtain ⟨d,hd,rfl⟩ := List.mem_map.mp hx
    rw [deviations,← List.map_uncurry_zip_eq_zipWith] at hd
    obtain ⟨⟨ch,y⟩,-,rfl⟩ := List.mem_map.mp hd
    exact deviation_nonneg ch y
  rw [zsum]
  split
  · exact one_pos
  · next hne => exact lt_of_le_of_ne hsum (Ne.symm hne)

theorem contributions_pos (fit : List (FitChannel F)) (row : List F) :
    ∀ c ∈ contributions fit row, 0 < c.2 := by
  intro c hc
  obtain ⟨d,hd,rfl⟩ := List.mem_map.mp hc
  have hpos : 0 < d.2 := by simpa using (List.mem_filter.mp hd).2
  exact div_pos hpos (zsum_pos fit row)

theorem groupSum_nonneg {cs : List (Source × F)} (hpos : ∀ c ∈ cs, 0 < c.2) (g : Group) :
    0 ≤ groupSum cs g := by
  refine List.sum_nonneg fun x hx => ?_
  obtain ⟨c,hc,rfl⟩ := List.mem_map.mp hx
  exact (hpos c (List.mem_filter.mp hc).1).le

theorem typed_iff_balanced {cs : List (Source × F)} (hpos : ∀ c ∈ cs, 0 < c.2) :
    Typed cs ↔ Balanced cs := by
  have hsums := mem_groupScores_metricScores cs
  constructor
  · intro h
    obtain ⟨⟨g,hg,hmax⟩,hind⟩ := h id (incidentOf (metricScores cs)) 0 rfl
    have heven : ∀ g, Reported cs g → countedSum cs g = groupSum cs g := by
      intro g hrep
      obtain ⟨g',hname,hsum⟩ := hind (g.name,countedSum cs g)
        ((mem_indicators ..).mpr ⟨_,(hsums g _).mpr ⟨hrep,rfl⟩,rfl⟩)
      obtain rfl := name_injective hname
      exact hsum
    refine ⟨fun g hrep => (countedSum_eq_iff cs g).mp (heven g hrep),fun g' _ hg' => ?_⟩
    have hne : cs ≠ [] := by
      rintro rfl
      exact lt_irrefl _ hg'
    obtain ⟨g₀,hheavy,hrep,-⟩ := exists_heaviest hne
    have htype : (result id (incidentOf (metricScores cs)) 0).type = g₀.name := by
      change ((heaviest (groupScores (metricScores cs))).map _).getD "cpu" = _
      rw [hheavy]
      rfl
    obtain rfl := name_injective (hg.symm.trans htype)
    exact ⟨g,hrep,hmax g'⟩
  · intro h round inc now hinc
    have heven (g : Group) (hrep : Reported cs g) : countedSum cs g = groupSum cs g :=
      (countedSum_eq_iff cs g).mpr (h.even g hrep)
    constructor
    · by_cases hnil : cs = []
      · subst hnil
        refine ⟨.cpu,?_,fun g' => le_of_eq rfl⟩
        rw [result,hinc]
        rfl
      · obtain ⟨g,hheavy,hrep,hmax⟩ := exists_heaviest hnil
        refine ⟨g,?_,fun g' => ?_⟩
        · rw [result,hinc,hheavy]
          rfl
        · have hreported (g' : Group) (hg' : Reported cs g') : groupSum cs g' ≤ groupSum cs g := by
            rw [← heven g' hg',← heven g hrep]
            exact hmax g' hg'
          by_cases hg' : Reported cs g'
          · exact hreported g' hg'
          · rcases (groupSum_nonneg hpos g').lt_or_eq with hlt | hzero
            · obtain ⟨g'',hrep'',hle⟩ := h.missing g' hg' hlt
              exact hle.trans (hreported g'' hrep'')
            · rw [← hzero]
              exact groupSum_nonneg hpos g
    · intro i hi
      obtain ⟨⟨g,s⟩,he,rfl⟩ := (mem_indicators ..).mp hi
      rw [hinc] at he
      obtain ⟨hrep,rfl⟩ := (hsums g s).mp he
      exact ⟨g,rfl,by rw [heven g hrep]⟩

/-- The reply has the right type and the right sums exactly when what is counted for the groups
in it balances. -/
theorem contributions_typed_iff (fit : List (FitChannel F)) (row : List F) :
    Typed (contributions fit row) ↔ Balanced (contributions fit row) :=
  typed_iff_balanced (contributions_pos fit row)

end Order

/-! ## Channels that are found again -/

/-- The channels of the host are found again, the others are taken for channels of the CPU. -/
theorem groupOf_metricId (src : Source) : groupOf src.metricId =
    match src with
    | .host ch _ => ch.group
    | _ => .cpu := by
  have hhost : ∀ ch ∈ hostChannels, groupOf ch.metricId = ch.group := by decide +kernel
  have hnet : ∀ ch ∈ AnomalyFeed.netChannels, groupOf ch.metricId = .cpu := by decide +kernel
  have hproc : ∀ ch ∈ AnomalyFeed.procChannels, groupOf ch.metricId = .cpu := by decide +kernel
  cases src with
  | host ch hch => exact hhost ch hch
  | net ch hch => exact hnet ch hch
  | proc pid ch hch => exact hproc ch hch

/-- No metric contributes twice, and the channels are those of the host or of the CPU. -/
structure Plain (cs : List (Source × F)) : Prop where
  once : (cs.map (·.1.metricId)).Nodup
  found : ∀ c ∈ cs, groupOf c.1.metricId = group c.1

omit [Field F] [LinearOrder F] in
theorem counted_of_nodup {cs : List (Source × F)} (h : (cs.map (·.1.metricId)).Nodup) :
    counted cs = cs ∧ replaced cs = [] := by
  induction cs with
  | nil => exact ⟨rfl,rfl⟩
  | cons c cs ih =>
    obtain ⟨hnot,hrest⟩ := List.nodup_cons.mp h
    obtain ⟨hc,hr⟩ := ih hrest
    rw [counted,replaced,if_neg hnot,if_neg hnot,hc,hr]
    exact ⟨rfl,rfl⟩

/-- Plain channels lose and gain nothing. -/
theorem Plain.balanced {cs : List (Source × F)} (h : Plain cs) : Balanced cs := by
  obtain ⟨hcounted,hreplaced⟩ := counted_of_nodup h.once
  refine ⟨fun g _ => ?_,fun g hno hpos => ?_⟩
  · have hlost : cs.filter (fun c => group c.1 = g ∧ groupOf c.1.metricId ≠ g) = [] := by
      rw [List.filter_eq_nil_iff]
      intro c hc
      simp [h.found c hc]
    have hgained : cs.filter (fun c => group c.1 ≠ g ∧ groupOf c.1.metricId = g) = [] := by
      rw [List.filter_eq_nil_iff]
      intro c hc
      simp [h.found c hc]
    rw [lost,gained,hcounted,hreplaced,hlost,hgained,groupSum,List.filter_nil,total,List.map_nil,
      List.sum_nil,add_zero]
  · have hnil : cs.filter (group ·.1 = g) = [] := by
      rw [List.filter_eq_nil_iff]
      intro c hc hg
      exact hno ⟨c,hc,(h.found c hc).trans (by simpa using hg)⟩
    rw [groupSum,hnil] at hpos
    exact absurd hpos (lt_irrefl 0)

/-! ## A busy CPU and a busy network -/

def netRx : Source := .net ⟨["network","rx_bytes"],"net_rx",.net,.cumulative⟩ (by decide)

def cpuUser : Source := .host ⟨["host","total","user"],"cpu_user",.cpu,.cumulative⟩ (by decide)

/-- The CPU alone is off. -/
theorem busyCpu_typed : Typed (contributions [⟨cpuUser,0,1⟩] [(1 : ℚ)]) := by
  refine (contributions_typed_iff _ _).mpr (Plain.balanced ⟨?_,?_⟩)
  · have hone : (contributions [⟨cpuUser,0,1⟩] [(1 : ℚ)]).map (·.1.metricId) = ["cpu_user"] := by
      decide +kernel
    rw [hone]
    exact List.nodup_singleton _
  · have hall : ∀ src ∈ (contributions [⟨cpuUser,0,1⟩] [(1 : ℚ)]).map Prod.fst,
        groupOf src.metricId = group src := by
      decide +kernel
    exact fun c hc => hall c.1 (List.mem_map_of_mem hc)

/-- The network is three times as far off as the CPU. -/
theorem busyNetwork_not_typed :
    ¬ Typed (contributions [⟨netRx,0,1⟩,⟨cpuUser,0,1⟩] [(3 : ℚ),1]) := by
  intro h
  obtain ⟨-,hind⟩ := h id (incidentOf (metricScores
    (contributions [⟨netRx,0,1⟩,⟨cpuUser,0,1⟩] [(3 : ℚ),1]))) 0 rfl
  have hone : ("cpu",(1 : ℚ)) ∈ (result id (incidentOf (metricScores
      (contributions [⟨netRx,0,1⟩,⟨cpuUser,0,1⟩] [(3 : ℚ),1]))) 0).indicators := by
    decide +kernel
  obtain ⟨g,hname,hsum⟩ := hind _ hone
  obtain rfl : Group.cpu = g := name_injective hname
  exact absurd hsum (by decide +kernel)

end AnomalyType
end ETraceDiag
