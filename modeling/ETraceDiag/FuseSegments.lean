import ETraceDiag.Refitting
import Mathlib.Algebra.BigOperators.Ring.List
import Mathlib.Algebra.Order.BigOperators.Group.List
import Mathlib.Algebra.Order.Field.Basic
import Mathlib.Algebra.Order.Ring.Rat
import Mathlib.Tactic.NormNum

/-!
# Segments of the zero-shot detector

The loop that makes incidents of flagged ticks. The deviations of the channels at the worst tick
are divided by their sum, and then kept under the metrics alone.
-/

namespace ETraceDiag
namespace TimeRcdFuse

open AlignedGrid DataWindow DetectorFrames Dictionaries Incidents NumPy TimeTable
open CausalInput (Direction WindowStatus)
open FlagRuns (IsRun)
open DetectorFeedback (pyMax pyMin)
open DetectorFeedback.Calibration (lit)

/-! ## _segments -/

/-- An incident with the time at which it is detected. -/
structure Segment (F : Type) extends Incident F where
  detectedNs : ℕ

/-- What `_segments` is called with. -/
structure Scored (F : Type) where
  flag : List Bool
  severity : List F
  ts : List ℕ
  mat : List (List F)

section Code

variable {F : Type} [Checkpoint F]

/-- `np.argmax` of the ticks from `i` to `j`. -/
def Scored.peak (x : Scored F) (i j : ℕ) : ℕ := argmax ((x.severity.drop i).take (j+1-i))+i

def segment (s : State F) (x : Scored F) (i j : ℕ) : Segment F :=
  let peak := x.peak i j
  let severity := pyMin (lit 1 0) ((x.severity[peak]?).getD NanFloat.nan)
  let mat := (x.mat[peak]?).getD []
  let zc := deviations s.med s.mad mat
  let zsum := orOne (Checkpoint.sum zc)
  let deviating := ((s.channels.zip zc).zip (mat.zip s.med)).filter fun c => lit 0 0 < c.1.2
  { entityId := "host"
    startNs := (x.ts[i]?).getD 0
    endNs := (x.ts[j]?).getD 0
    detectedNs := (x.ts[peak]?).getD 0
    status := if severity < lit 5 1 then .uncertain else .anomaly
    severity := severity
    scores := update [] (deviating.map fun c => (c.1.1.metricId,c.1.2/zsum))
    directions := update [] (deviating.map fun c =>
      (c.1.1.metricId,if c.2.2 < c.2.1 then Direction.up else Direction.down)) }

/-- The contract of an incident window. -/
def Accepted (seg : Segment F) : Prop :=
  NanFloat.isNan seg.severity = false ∧ ¬ seg.severity < lit 0 0 ∧ ¬ lit 1 0 < seg.severity ∧
    seg.startNs ≤ seg.endNs

instance (seg : Segment F) : Decidable (Accepted seg) := inferInstanceAs (Decidable (_ ∧ _))

/-- `_segments` before it leaves out what is suppressed; it raises for what is no incident
window. -/
def segments (s : State F) (x : Scored F) : Option (List (Segment F)) :=
  if x.flag.any id then
    (FlagRuns.segments x.flag).mapM fun ij =>
      if Accepted (segment s x ij.1 ij.2) then some (segment s x ij.1 ij.2) else none
  else some []

/-- What `score` calls it with. -/
def scored (f : Fusion F) (s : State F) (frame : TelemetryFrame F) : Scored F where
  flag := flags f s frame
  severity := severities f s frame
  ts := timestamps frame
  mat := matrix s frame

theorem segments_eq_some {s : State F} {x : Scored F} {out : List (Segment F)} :
    segments s x = some out ↔
      (∀ ij ∈ FlagRuns.segments x.flag, Accepted (segment s x ij.1 ij.2)) ∧
        out = (FlagRuns.segments x.flag).map fun ij => segment s x ij.1 ij.2 := by
  have hchecked : ∀ (spans : List (ℕ × ℕ)) (out : List (Segment F)), (spans.mapM fun ij =>
      if Accepted (segment s x ij.1 ij.2) then some (segment s x ij.1 ij.2) else none) = some out ↔
      (∀ ij ∈ spans, Accepted (segment s x ij.1 ij.2)) ∧
        out = spans.map fun ij => segment s x ij.1 ij.2 := by
    intro spans
    induction spans with
    | nil => simp [eq_comm]
    | cons ij spans ih =>
      intro out
      rw [List.mapM_cons,List.forall_mem_cons,List.map_cons]
      by_cases hok : Accepted (segment s x ij.1 ij.2)
      · cases hrest : spans.mapM fun ij =>
            if Accepted (segment s x ij.1 ij.2) then some (segment s x ij.1 ij.2) else none with
        | none =>
          simp only [hok,if_true,Option.bind_eq_bind,Option.bind_some,Option.bind_none,true_and]
          refine iff_of_false (Option.some_ne_none out).symm fun hall => ?_
          rw [(ih _).mpr ⟨hall.1,rfl⟩] at hrest
          cases hrest
        | some rest =>
          obtain ⟨hall,rfl⟩ := (ih rest).mp hrest
          simp only [hok,if_true,Option.bind_eq_bind,Option.bind_some,Option.pure_def,
            Option.some.injEq,true_and]
          exact ⟨fun h => ⟨hall,h.symm⟩,fun h => h.2.symm⟩
      · simp [hok]
  rw [segments]
  split
  · exact hchecked (FlagRuns.segments x.flag) out
  · next hany =>
    have hnil : FlagRuns.segments x.flag = [] := by
      refine List.eq_nil_iff_forall_not_mem.mpr fun ij hij => hany ?_
      have hrun := (FlagRuns.mem_segments x.flag ij.1 ij.2).mp hij
      exact List.any_eq_true.mpr ⟨true,List.mem_of_getElem? (hrun.flagged ij.1 le_rfl hrun.le),rfl⟩
    rw [hnil]
    simp [eq_comm]

/-- Where `_segments` returns, it gives the incidents that `score` finds. -/
theorem score_of_segments {f : Fusion F} {s : State F} {frame : TelemetryFrame F}
    {out : List (Segment F)} (hfit : s.fitDone = true) (hn : minRows ≤ (timestamps frame).length)
    (h : segments s (scored f s frame) = some out) :
    score f s frame = some (out.map Segment.toIncident) := by
  obtain ⟨-,rfl⟩ := segments_eq_some.mp h
  rw [score,if_pos hfit,if_neg (Nat.not_lt.mpr hn),List.map_map]
  rfl

end Code

/-! ## Exact arithmetic -/

/-- What a detector that has been fitted keeps of its channels. -/
structure Fitted where
  channels : List Channel
  med : List ℚ
  mad : List ℚ
  q99 : ℚ
  med_length : med.length = channels.length
  mad_length : mad.length = channels.length

def Fitted.state (d : Fitted) : State (Option ℚ) where
  channels := d.channels
  med := d.med.map some
  mad := d.mad.map some
  q99 := some d.q99
  fitDone := true

/-- Flags, severities and rows at increasing times. -/
structure Ticks (d : Fitted) where
  flag : List Bool
  severity : List ℚ
  ts : List ℕ
  mat : List (List ℚ)
  severity_length : severity.length = flag.length
  ts_length : ts.length = flag.length
  mat_length : mat.length = flag.length
  increasing : ts.Pairwise (· < ·)
  width : ∀ row ∈ mat, row.length = d.channels.length

def Ticks.scored {d : Fitted} (x : Ticks d) : Scored (Option ℚ) where
  flag := x.flag
  severity := x.severity.map some
  ts := x.ts
  mat := x.mat.map (List.map some)

/-- A channel at a tick. -/
structure Reading where
  channel : Channel
  value : ℚ
  med : ℚ
  mad : ℚ

namespace Reading

def scale (r : Reading) : ℚ := 14826/10^4*max r.mad (1/10^8)

def deviation (r : Reading) : ℚ := |r.value-r.med|/r.scale

def direction (r : Reading) : Direction := if r.med < r.value then .up else .down

theorem scale_pos (r : Reading) : 0 < r.scale := by
  have hleast : (0 : ℚ) < 1/10^8 := by norm_num
  exact mul_pos (by norm_num) (lt_max_of_lt_right hleast)

theorem deviation_nonneg (r : Reading) : 0 ≤ r.deviation :=
  div_nonneg (abs_nonneg _) r.scale_pos.le

/-- A channel deviates where it is not at its median. -/
theorem deviation_eq_zero (r : Reading) : r.deviation = 0 ↔ r.value = r.med := by
  rw [deviation,div_eq_zero_iff,or_iff_left r.scale_pos.ne',abs_eq_zero,sub_eq_zero]

end Reading

def readingsOf : List Channel → List ℚ → List ℚ → List ℚ → List Reading
  | k::ks, x::xs, m::ms, a::as => ⟨k,x,m,a⟩::readingsOf ks xs ms as
  | _, _, _, _ => []

/-- The channels at a tick that has a row. -/
def readings (d : Fitted) (row : List ℚ) : List Reading := readingsOf d.channels row d.med d.mad

def total (rs : List Reading) : ℚ := (rs.map Reading.deviation).sum

/-- The scores and directions account for the channels that deviate. -/
structure Accounts (rs : List Reading) (inc : Incident (Option ℚ)) : Prop where
  unique : (inc.scores.map Prod.fst).Nodup
  nothing : (∀ r ∈ rs, r.deviation = 0) → inc.scores = [] ∧ inc.directions = []
  every : ∀ r ∈ rs, r.deviation ≠ 0 → r.channel.metricId ∈ inc.scores.map Prod.fst
  carried : ∀ e ∈ inc.scores, ∃ r ∈ rs, r.deviation ≠ 0 ∧
    e = (r.channel.metricId,some (r.deviation/total rs)) ∧
      inc.directions.lookup e.1 = some r.direction
  sum : (∃ r ∈ rs, r.deviation ≠ 0) → Checkpoint.sum (inc.scores.map Prod.snd) = some 1

/-- The incident is the run of ticks from `i` to `j`. -/
structure Describes {d : Fitted} (x : Ticks d) (ij : ℕ × ℕ) (seg : Segment (Option ℚ)) :
    Prop where
  starts : x.ts[ij.1]? = some seg.startNs
  ends : x.ts[ij.2]? = some seg.endNs
  detected : ∃ k, x.ts[k]? = some seg.detectedNs ∧ ij.1 ≤ k ∧ k ≤ ij.2 ∧
    (∃ s ∈ x.severity[k]?, ∀ n, ij.1 ≤ n → n ≤ ij.2 → ∀ y ∈ x.severity[n]?, y ≤ s) ∧
      ∃ row ∈ x.mat[k]?, Accounts (readings d row) seg.toIncident

/-- The incidents are the maximal runs of flagged ticks, in order. -/
def Partition {d : Fitted} (x : Ticks d) (out : List (Segment (Option ℚ))) : Prop :=
  ∃ spans : List (ℕ × ℕ), (∀ i j, (i,j) ∈ spans ↔ IsRun x.flag i j) ∧
    spans.Pairwise (fun ab cd => ab.2 < cd.1) ∧ List.Forall₂ (Describes x) spans out

/-- The first tick of a greatest severity from `i` to `j`. -/
structure IsPeak (severity : List ℚ) (i j k : ℕ) : Prop where
  low : i ≤ k
  high : k ≤ j
  greatest : ∃ s ∈ severity[k]?, ∀ n, i ≤ n → n ≤ j → ∀ y ∈ severity[n]?, y ≤ s ∧ (n < k → y < s)

/-- No two channels that deviate share a metric. -/
def ToldApart (rs : List Reading) : Prop :=
  ((rs.filter fun r => r.deviation ≠ 0).map fun r => r.channel.metricId).Nodup

/-! ## What a run comes to -/

theorem sum_some (xs : List ℚ) : Checkpoint.sum (xs.map some) = some xs.sum := by
  suffices h : ∀ t : ℚ, (xs.map some).foldl (·+·) (some t) = some (t+xs.sum) from
    (h 0).trans (by rw [zero_add])
  induction xs with
  | nil => intro t; simp
  | cons x xs ih =>
    intro t
    rw [List.map_cons,List.foldl_cons,some_add_some,ih,List.sum_cons,add_assoc]

theorem deviation_some (r : Reading) :
    deviation (some r.med) (some r.mad) (some r.value) = some r.deviation := by
  simp only [deviation,some_sub_some,abs_some,lit_eq,pyMax_some,some_mul_some,Nat.cast_ofNat,
    Nat.cast_one]
  exact some_div_some _ _ r.scale_pos.ne'

/-- The deviations, and the columns that the loop zips, are those of the readings. -/
theorem columns_readings {ks : List Channel} : ∀ {xs ms as : List ℚ}, xs.length = ks.length →
    ms.length = ks.length → as.length = ks.length →
    deviations (ms.map some) (as.map some) (xs.map some) =
        ((readingsOf ks xs ms as).map Reading.deviation).map some ∧
      (ks.zip (deviations (ms.map some) (as.map some) (xs.map some))).zip
          ((xs.map some).zip (ms.map some)) =
        (readingsOf ks xs ms as).map fun r =>
          ((r.channel,some r.deviation),(some r.value,some r.med)) := by
  induction ks with
  | nil =>
    intro xs ms as hxs _ _
    rw [List.eq_nil_of_length_eq_zero hxs]
    exact ⟨rfl,rfl⟩
  | cons k ks ih =>
    intro xs ms as hxs hms has
    obtain ⟨x,xs,rfl⟩ := List.exists_cons_of_length_eq_add_one hxs
    obtain ⟨m,ms,rfl⟩ := List.exists_cons_of_length_eq_add_one hms
    obtain ⟨a,as,rfl⟩ := List.exists_cons_of_length_eq_add_one has
    obtain ⟨hdeviations,hzip⟩ := ih (Nat.succ.inj hxs) (Nat.succ.inj hms) (Nat.succ.inj has)
    have hfirst := deviation_some ⟨k,x,m,a⟩
    simp only [deviations] at hdeviations hzip
    constructor
    · simp only [deviations,List.map_cons,List.zip_cons_cons,List.zipWith_cons_cons,readingsOf,
        hdeviations,hfirst]
    · simp only [deviations,List.map_cons,List.zip_cons_cons,List.zipWith_cons_cons,readingsOf,
        hzip,hfirst]

/-- The comparison of `argmax`. -/
def better (best : Option ℚ × ℕ) (y : Option ℚ × ℕ) : Option ℚ × ℕ :=
  if ¬ NanFloat.isNan best.1 ∧
      (NanFloat.isNan y.1 ∨ (DetectorFeedback.Calibration.toLT (F:=Option ℚ)).lt best.1 y.1) then
    (y.1,y.2+1) else best

theorem better_some (a b : ℚ) (i j : ℕ) :
    better (some a,i) (some b,j) = if a < b then (some b,j+1) else (some a,i) := by
  simp [better]

/-- `np.argmax` of numbers is the first position of a greatest one. -/
theorem argmax_some (x : ℚ) (xs : List ℚ) : ∃ s ∈ (x::xs)[argmax ((x::xs).map some)]?,
    ∀ n, ∀ y ∈ (x::xs)[n]?, y ≤ s ∧ (n < argmax ((x::xs).map some) → y < s) := by
  suffices h : ∃ s k, (xs.map some).zipIdx.foldl better (some x,0) = (some s,k) ∧
      (x::xs)[k]? = some s ∧ ∀ n, ∀ y ∈ (x::xs)[n]?, y ≤ s ∧ (n < k → y < s) by
    obtain ⟨s,k,hfold,hs,hall⟩ := h
    have hk : argmax ((x::xs).map some) = k := congrArg Prod.snd hfold
    rw [hk]
    exact ⟨s,hs,hall⟩
  induction xs using List.reverseRecOn with
  | nil =>
    refine ⟨x,0,rfl,rfl,fun n y hy => ?_⟩
    cases n with
    | zero => exact ⟨(Option.some.inj hy).ge,fun h => absurd h (Nat.lt_irrefl 0)⟩
    | succ n => cases hy
  | append_singleton xs z ih =>
    obtain ⟨s,k,hfold,hs,hall⟩ := ih
    have hk : k < (x::xs).length := (List.getElem?_eq_some_iff.mp hs).1
    -- an element is one of those before, or the last one
    have hcases : ∀ n, ∀ y ∈ (x::(xs++[z]))[n]?,
        y ∈ (x::xs)[n]? ∨ n = (x::xs).length ∧ y = z := by
      intro n y hy
      rw [← List.cons_append] at hy
      rcases Nat.lt_trichotomy n (x::xs).length with hlt | rfl | hgt
      · rw [List.getElem?_append_left hlt] at hy
        exact .inl hy
      · rw [List.getElem?_concat_length] at hy
        exact .inr ⟨rfl,(Option.some.inj hy).symm⟩
      · have hlength : n < ((x::xs)++[z]).length := (List.getElem?_eq_some_iff.mp hy).1
        rw [List.length_append,List.length_singleton] at hlength
        omega
    rw [List.map_append,List.zipIdx_append,List.foldl_append,hfold,List.length_map]
    change ∃ s' k', better (some s,k) (some z,0+xs.length) = (some s',k') ∧ _
    rw [better_some,Nat.zero_add]
    split
    · next hlt =>
      refine ⟨z,xs.length+1,rfl,by simp,fun n y hy => ?_⟩
      rcases hcases n y hy with hy | ⟨rfl,rfl⟩
      · have hys := (hall n y hy).1.trans_lt hlt
        exact ⟨hys.le,fun _ => hys⟩
      · exact ⟨le_rfl,fun h => absurd h (Nat.lt_irrefl _)⟩
    · next hle =>
      refine ⟨s,k,rfl,?_,fun n y hy => ?_⟩
      · rw [← List.cons_append,List.getElem?_append_left hk,hs]
      · rcases hcases n y hy with hy | ⟨rfl,rfl⟩
        · exact hall n y hy
        · exact ⟨not_lt.mp hle,fun h => absurd h (Nat.not_lt.mpr hk.le)⟩

section Runs

variable {d : Fitted} {x : Ticks d} {i j k : ℕ}

theorem run_lt (h : IsRun x.flag i j) (hk : i ≤ k) (hkj : k ≤ j) : k < x.flag.length :=
  (List.getElem?_eq_some_iff.mp (h.flagged k hk hkj)).1

/-- The code finds the peak of a run. -/
theorem isPeak_peak (h : IsRun x.flag i j) : IsPeak x.severity i j (x.scored.peak i j) := by
  have hlt : j < x.severity.length := by
    rw [x.severity_length]
    exact run_lt h h.le le_rfl
  have hlength : ((x.severity.drop i).take (j+1-i)).length = j+1-i := by
    rw [List.length_take,List.length_drop]
    exact min_eq_left (Nat.sub_le_sub_right hlt i)
  have hget : ∀ n, n ≤ j-i → ((x.severity.drop i).take (j+1-i))[n]? = x.severity[i+n]? := by
    intro n hn
    have hle := h.le
    rw [List.getElem?_take_of_lt (by omega),List.getElem?_drop]
  have hpeak : x.scored.peak i j = argmax (((x.severity.drop i).take (j+1-i)).map some)+i := by
    rw [Scored.peak,List.map_take,List.map_drop]
    rfl
  have hle := h.le
  cases hslice : (x.severity.drop i).take (j+1-i) with
  | nil =>
    rw [hslice,List.length_nil] at hlength
    omega
  | cons s ss =>
    obtain ⟨m,hm,hall⟩ := argmax_some s ss
    have hrange := (List.getElem?_eq_some_iff.mp hm).1
    rw [← hslice] at hm hall hrange
    rw [hlength] at hrange
    rw [hpeak]
    refine ⟨Nat.le_add_left i _,by omega,m,?_,fun n hin hnj y hy => ?_⟩
    · rwa [Option.mem_def,hget _ (by omega),Nat.add_comm] at hm
    · have hy' : y ∈ ((x.severity.drop i).take (j+1-i))[n-i]? := by
        rwa [hget (n-i) (by omega),Nat.add_sub_cancel' hin]
      exact ⟨(hall (n-i) y hy').1,fun hlt => (hall (n-i) y hy').2 (by omega)⟩

/-- There is one first greatest severity. -/
theorem IsPeak.unique {severity : List ℚ} {k' : ℕ} (h : IsPeak severity i j k)
    (h' : IsPeak severity i j k') : k = k' := by
  obtain ⟨s,hs,hall⟩ := h.greatest
  obtain ⟨s',hs',hall'⟩ := h'.greatest
  rcases Nat.lt_trichotomy k k' with hlt | heq | hgt
  · have hbelow := (hall' k h.low h.high s hs).2 hlt
    exact absurd (hall k' h'.low h'.high s' hs').1 (not_le.mpr hbelow)
  · exact heq
  · have hbelow := (hall k' h'.low h'.high s' hs').2 hgt
    exact absurd (hall' k h.low h.high s hs).1 (not_le.mpr hbelow)

end Runs

/-! ## What the scores account for -/

section Shares

variable {rs : List Reading}

/-- The channels that deviate, under their metrics. -/
def shares (rs : List Reading) : List (String × Reading) :=
  update [] ((rs.filter fun r => r.deviation ≠ 0).map fun r => (r.channel.metricId,r))

theorem exists_reading {e : String × Reading} (he : e ∈ shares rs) :
    ∃ r ∈ rs, r.deviation ≠ 0 ∧ e = (r.channel.metricId,r) := by
  obtain hin | hin := mem_of_mem_update _ [] e he
  · obtain ⟨r,hr,rfl⟩ := List.mem_map.mp hin
    obtain ⟨hr,hne⟩ := List.mem_filter.mp hr
    exact ⟨r,hr,of_decide_eq_true hne,rfl⟩
  · cases hin

theorem total_eq_zero : total rs = 0 ↔ ∀ r ∈ rs, r.deviation = 0 := by
  constructor
  · intro h r hr
    refine List.all_zero_of_le_zero_le_of_sum_eq_zero (fun q hq => ?_) h (List.mem_map_of_mem hr)
    obtain ⟨r,-,rfl⟩ := List.mem_map.mp hq
    exact r.deviation_nonneg
  · intro h
    refine List.sum_eq_zero fun q hq => ?_
    obtain ⟨r,hr,rfl⟩ := List.mem_map.mp hq
    exact h r hr

theorem total_filter (rs : List Reading) :
    total (rs.filter fun r => r.deviation ≠ 0) = total rs := by
  induction rs with
  | nil => rfl
  | cons r rs ih =>
    simp only [total,List.map_cons,List.sum_cons] at ih ⊢
    by_cases hr : r.deviation = 0
    · rw [List.filter_cons_of_neg (by simpa using hr),ih,hr,zero_add]
    · rw [List.filter_cons_of_pos (by simpa using hr),List.map_cons,List.sum_cons,ih]

/-- The shares are everything exactly when no two channels that deviate share a metric. -/
theorem total_shares (rs : List Reading) : total ((shares rs).map Prod.snd) = total rs ↔
    ToldApart rs := by
  obtain ⟨lost,hperm,hlost⟩ := update_nil_perm
    ((rs.filter fun r => r.deviation ≠ 0).map fun r => (r.channel.metricId,r))
  have hsum : total rs = total ((shares rs).map Prod.snd)+total (lost.map Prod.snd) := by
    have hsums := ((hperm.map Prod.snd).map Reading.deviation).sum_eq
    have hsame : ((rs.filter fun r => r.deviation ≠ 0).map fun r =>
        (r.channel.metricId,r)).map Prod.snd = rs.filter fun r => r.deviation ≠ 0 := by
      rw [List.map_map]
      exact List.map_id _
    rw [List.map_append,List.map_append,List.sum_append,hsame] at hsums
    rw [← total_filter rs]
    exact hsums
  have htold : ToldApart rs ↔ lost = [] := by
    rw [hlost,ToldApart,List.map_map]
    rfl
  rw [hsum,htold,left_eq_add,total_eq_zero]
  constructor
  · intro hzero
    refine List.eq_nil_iff_forall_not_mem.mpr fun e he => ?_
    obtain ⟨r,hr,rfl⟩ := List.mem_map.mp (hperm.mem_iff.mpr (List.mem_append_right _ he))
    have hne : r.deviation ≠ 0 := of_decide_eq_true (List.mem_filter.mp hr).2
    exact hne (hzero r (List.mem_map_of_mem (f:=Prod.snd) he))
  · rintro rfl r hr
    cases hr

/-- The scores add up to the part of the total that is kept. -/
theorem sum_scores {inc : Incident (Option ℚ)}
    (hscores : inc.scores = (shares rs).map fun e => (e.1,some (e.2.deviation/total rs))) :
    Checkpoint.sum (inc.scores.map Prod.snd) =
      some (total ((shares rs).map Prod.snd)/total rs) := by
  have hvalues : inc.scores.map Prod.snd =
      (((shares rs).map Prod.snd).map fun r => r.deviation/total rs).map some := by
    rw [hscores,List.map_map,List.map_map,List.map_map]
    rfl
  rw [hvalues,sum_some]
  simp only [div_eq_mul_inv,List.sum_map_mul_right]
  rfl

/-- The scores and directions that the code gives account for the channels exactly when no two
that deviate share a metric. -/
theorem accounts_iff {inc : Incident (Option ℚ)}
    (hscores : inc.scores = (shares rs).map fun e => (e.1,some (e.2.deviation/total rs)))
    (hdirections : inc.directions = (shares rs).map fun e => (e.1,e.2.direction)) :
    Accounts rs inc ↔ ToldApart rs := by
  have hkeys : inc.scores.map Prod.fst = (shares rs).map Prod.fst := by
    rw [hscores,List.map_map]
    rfl
  have hunique : ((shares rs).map Prod.fst).Nodup := nodup_keys_update_nil _
  have hsum := sum_scores hscores
  constructor
  · intro h
    by_cases hall : ∀ r ∈ rs, r.deviation = 0
    · have hnone : (rs.filter fun r => r.deviation ≠ 0) = [] :=
        List.filter_eq_nil_iff.mpr fun r hr => by simp [hall r hr]
      rw [ToldApart,hnone]
      exact List.nodup_nil
    · have hone := h.sum (by simpa using hall)
      rw [hsum,Option.some.injEq,div_eq_one_iff_eq (mt total_eq_zero.mp hall)] at hone
      exact (total_shares rs).mp hone
  · intro h
    refine ⟨hkeys ▸ hunique,fun hall => ?_,fun r hr hne => ?_,fun e he => ?_,fun hsome => ?_⟩
    · have hnone : shares rs = [] := List.eq_nil_iff_forall_not_mem.mpr fun e he => by
        obtain ⟨r,hr,hne,-⟩ := exists_reading he
        exact hne (hall r hr)
      rw [hscores,hdirections,hnone]
      exact ⟨rfl,rfl⟩
    · rw [hkeys,shares,mem_keys_update_nil,List.map_map]
      exact List.mem_map_of_mem (List.mem_filter.mpr ⟨hr,decide_eq_true hne⟩)
    · rw [hscores] at he
      obtain ⟨e,hshare,rfl⟩ := List.mem_map.mp he
      obtain ⟨r,hr,hne,rfl⟩ := exists_reading hshare
      refine ⟨r,hr,hne,rfl,?_⟩
      rw [hdirections]
      refine lookup_of_mem ?_ (List.mem_map.mpr ⟨_,hshare,rfl⟩)
      rwa [List.map_map]
    · have hne : total rs ≠ 0 := fun hzero => by
        obtain ⟨r,hr,hne⟩ := hsome
        exact hne (total_eq_zero.mp hzero r hr)
      rw [hsum,(total_shares rs).mpr h,div_self hne]

end Shares

/-! ## Every run -/

section Segments

variable {d : Fitted} {x : Ticks d} {i j k : ℕ}

theorem exists_severity (x : Ticks d) (hk : k < x.flag.length) : ∃ s, x.severity[k]? = some s :=
  ⟨_,List.getElem?_eq_getElem (x.severity_length ▸ hk)⟩

theorem exists_row (x : Ticks d) (hk : k < x.flag.length) : ∃ row, x.mat[k]? = some row :=
  ⟨_,List.getElem?_eq_getElem (x.mat_length ▸ hk)⟩

theorem scored_ts (x : Ticks d) (hk : k < x.flag.length) :
    x.ts[k]? = some ((x.scored.ts[k]?).getD 0) := by
  change x.ts[k]? = some ((x.ts[k]?).getD 0)
  rw [List.getElem?_eq_getElem (x.ts_length ▸ hk)]
  rfl

/-- Times tell ticks apart. -/
theorem tick_inj {t : ℕ} (hj : x.ts[j]? = some t) (hk : x.ts[k]? = some t) : j = k := by
  have hdistinct : x.ts.Nodup := x.increasing.imp Nat.ne_of_lt
  obtain ⟨hlt,-⟩ := List.getElem?_eq_some_iff.mp hj
  exact (List.getElem?_inj hlt hdistinct).mp (hj.trans hk.symm)

/-- The channels that the loop keeps at a tick. -/
def deviating (rs : List Reading) : List ((Channel × Option ℚ) × Option ℚ × Option ℚ) :=
  (rs.filter fun r => r.deviation ≠ 0).map fun r =>
    ((r.channel,some r.deviation),(some r.value,some r.med))

theorem deviating_eq (rs : List Reading) :
    ((rs.map fun r => ((r.channel,some r.deviation),(some r.value,some r.med))).filter fun c =>
      (DetectorFeedback.Calibration.toLT (F:=Option ℚ)).lt (lit 0 0) c.1.2) = deviating rs := by
  rw [List.filter_map]
  refine congrArg _ (List.filter_congr fun r _ => ?_)
  have hnonneg := r.deviation_nonneg
  simp [hnonneg.lt_iff_ne']

theorem scores_deviating (rs : List Reading) :
    update [] ((deviating rs).map fun c => (c.1.1.metricId,c.1.2/orOne (some (total rs)))) =
      (shares rs).map fun e => (e.1,some (e.2.deviation/total rs)) := by
  have hshare : ∀ r ∈ rs.filter fun r => r.deviation ≠ 0,
      some r.deviation/orOne (some (total rs)) = some (r.deviation/total rs) := by
    intro r hr
    obtain ⟨hr,hne⟩ := List.mem_filter.mp hr
    have htotal : total rs ≠ 0 := fun hzero => of_decide_eq_true hne (total_eq_zero.mp hzero r hr)
    have hone : orOne (some (total rs)) = some (total rs) := if_neg (by simpa [isZero] using htotal)
    rw [hone,some_div_some _ _ htotal]
  rw [shares,map_update (f:=fun r : Reading => some (r.deviation/total rs)),deviating,List.map_map,
    List.map_map,List.map_nil]
  exact congrArg _ (List.map_congr_left fun r hr => congrArg _ (hshare r hr))

theorem directions_deviating (rs : List Reading) :
    update [] ((deviating rs).map fun c => (c.1.1.metricId,
        if (DetectorFeedback.Calibration.toLT (F:=Option ℚ)).lt c.2.2 c.2.1 then Direction.up
        else Direction.down)) =
      (shares rs).map fun e => (e.1,e.2.direction) := by
  rw [shares,map_update (f:=Reading.direction),deviating,List.map_map,List.map_map,List.map_nil]
  simp [Function.comp_def,Reading.direction]

theorem scores_segment {row : List ℚ} (hrow : x.mat[x.scored.peak i j]? = some row) :
    (segment d.state x.scored i j).scores =
        ((shares (readings d row)).map fun e =>
          (e.1,some (e.2.deviation/total (readings d row)))) ∧
      (segment d.state x.scored i j).directions =
        (shares (readings d row)).map fun e => (e.1,e.2.direction) := by
  have hmat : (x.scored.mat[x.scored.peak i j]?).getD [] = row.map some := by
    change ((x.mat.map (List.map some))[x.scored.peak i j]?).getD [] = _
    rw [List.getElem?_map,hrow]
    rfl
  obtain ⟨hdeviations,hzip⟩ := columns_readings (x.width row (List.mem_of_getElem? hrow))
    d.med_length d.mad_length
  have hsum : Checkpoint.sum (deviations d.state.med d.state.mad (row.map some)) =
      some (total (readings d row)) :=
    (congrArg Checkpoint.sum hdeviations).trans (sum_some _)
  have hcolumns := (congrArg (List.filter fun c => decide
    ((DetectorFeedback.Calibration.toLT (F:=Option ℚ)).lt (lit 0 0) c.1.2)) hzip).trans
      (deviating_eq (readings d row))
  change ((d.state.channels.zip (deviations d.state.med d.state.mad (row.map some))).zip
    ((row.map some).zip d.state.med)).filter _ = _ at hcolumns
  rw [← scores_deviating,← directions_deviating,← hsum,← hcolumns,← hmat]
  exact ⟨rfl,rfl⟩

/-- The contract asks of the incident of a run that its severity is not negative. -/
theorem accepted_segment (h : IsRun x.flag i j) {s : ℚ}
    (hs : x.severity[x.scored.peak i j]? = some s) :
    Accepted (segment d.state x.scored i j) ↔ 0 ≤ s := by
  have hseverity : (segment d.state x.scored i j).severity = some (min 1 s) := by
    have hget : (x.scored.severity[x.scored.peak i j]?).getD NanFloat.nan = some s := by
      change ((x.severity.map some)[x.scored.peak i j]?).getD NanFloat.nan = _
      rw [List.getElem?_map,hs]
      rfl
    change pyMin (lit 1 0) ((x.scored.severity[x.scored.peak i j]?).getD NanFloat.nan) = _
    rw [hget]
    simp
  have hle : (segment d.state x.scored i j).startNs ≤ (segment d.state x.scored i j).endNs := by
    have hi := scored_ts x (run_lt h le_rfl h.le)
    have hj := scored_ts x (run_lt h h.le le_rfl)
    obtain ⟨hilt,hi⟩ := List.getElem?_eq_some_iff.mp hi
    obtain ⟨hjlt,hj⟩ := List.getElem?_eq_some_iff.mp hj
    change (x.scored.ts[i]?).getD 0 ≤ (x.scored.ts[j]?).getD 0
    rw [← hi,← hj]
    rcases Nat.eq_or_lt_of_le h.le with rfl | hlt
    · exact le_rfl
    · exact (List.pairwise_iff_getElem.mp x.increasing i j hilt hjlt hlt).le
  rw [Accepted,hseverity]
  simp [hle]

/-- What the incident of a run says of its ticks is right but for the sum of its scores. -/
theorem describes_segment (h : IsRun x.flag i j) {row : List ℚ}
    (hrow : x.mat[x.scored.peak i j]? = some row) :
    Describes x (i,j) (segment d.state x.scored i j) ↔ ToldApart (readings d row) := by
  obtain ⟨hscores,hdirections⟩ := scores_segment hrow
  have hpeak := isPeak_peak h
  have hat := scored_ts x (run_lt h hpeak.low hpeak.high)
  rw [← accounts_iff hscores hdirections]
  constructor
  · intro hdescribes
    obtain ⟨k,hk,-,-,-,row',hrow',haccounts⟩ := hdescribes.detected
    obtain rfl : x.scored.peak i j = k := tick_inj hat hk
    obtain rfl : row = row' := Option.some.inj (hrow.symm.trans hrow')
    exact haccounts
  · intro haccounts
    obtain ⟨s,hs,hall⟩ := hpeak.greatest
    exact
      { starts := scored_ts x (run_lt h le_rfl h.le)
        ends := scored_ts x (run_lt h h.le le_rfl)
        detected := ⟨_,hat,hpeak.low,hpeak.high,
          ⟨s,hs,fun n hin hnj y hy => (hall n hin hnj y hy).1⟩,row,hrow,haccounts⟩ }

/-- Where the incidents are right, so is what is said of each run. -/
theorem describes_of_partition {out : List (Segment (Option ℚ))}
    (hout : out ∈ segments d.state x.scored) (hpartition : Partition x out)
    (hrun : IsRun x.flag i j) : Describes x (i,j) (segment d.state x.scored i j) := by
  obtain ⟨spans,hspans,-,hdescribes⟩ := hpartition
  obtain ⟨-,rfl⟩ := segments_eq_some.mp hout
  obtain ⟨n,hn⟩ := List.mem_iff_get.mp ((hspans i j).mpr hrun)
  have hlt := n.isLt.trans_eq hdescribes.length_eq
  have hdescribed := hdescribes.get n.isLt hlt
  rw [Fin.eta,hn] at hdescribed
  obtain ⟨⟨a,b⟩,hab,hseg⟩ := List.mem_map.mp (List.get_mem _ ⟨n,hlt⟩)
  have hrun' := (FlagRuns.mem_segments x.flag a b).mp hab
  rw [← hseg] at hdescribed
  -- a run is known by the times at which it starts and ends
  obtain rfl : i = a :=
    tick_inj hdescribed.starts (scored_ts x (run_lt hrun' le_rfl hrun'.le))
  obtain rfl : j = b := tick_inj hdescribed.ends (scored_ts x (run_lt hrun' hrun'.le le_rfl))
  exact hdescribed

/-- The loop gives the maximal runs of flagged ticks, each with the scores of its worst tick, in
exactly those calls in which no greatest severity of a run is negative and no two channels that
deviate at the first tick of a greatest severity share a metric. -/
theorem segments_partition_iff (x : Ticks d) :
    (∃ out ∈ segments d.state x.scored, Partition x out) ↔
      ∀ i j k, IsRun x.flag i j → IsPeak x.severity i j k →
        (∀ s ∈ x.severity[k]?, 0 ≤ s) ∧ ∀ row ∈ x.mat[k]?, ToldApart (readings d row) := by
  constructor
  · rintro ⟨out,hout,hpartition⟩ i j k hrun hpeak
    obtain rfl := (isPeak_peak hrun).unique hpeak
    have hall := (segments_eq_some.mp hout).1 (i,j) ((FlagRuns.mem_segments x.flag i j).mpr hrun)
    refine ⟨fun s hs => (accepted_segment hrun hs).mp hall,fun row hrow => ?_⟩
    exact (describes_segment hrun hrow).mp (describes_of_partition hout hpartition hrun)
  · intro hall
    refine ⟨_,segments_eq_some.mpr ⟨fun ij hij => ?_,rfl⟩,FlagRuns.segments x.flag,
      FlagRuns.mem_segments x.flag,FlagRuns.pairwise_segments x.flag,?_⟩
    · have hrun := (FlagRuns.mem_segments x.flag ij.1 ij.2).mp hij
      have hpeak := isPeak_peak hrun
      obtain ⟨s,hs⟩ := exists_severity x (run_lt hrun hpeak.low hpeak.high)
      exact (accepted_segment hrun hs).mpr ((hall _ _ _ hrun hpeak).1 s hs)
    · refine List.forall₂_map_right_iff.mpr (List.forall₂_same.mpr fun ij hij => ?_)
      have hrun := (FlagRuns.mem_segments x.flag ij.1 ij.2).mp hij
      have hpeak := isPeak_peak hrun
      obtain ⟨row,hrow⟩ := exists_row x (run_lt hrun hpeak.low hpeak.high)
      exact (describes_segment hrun hrow).mpr ((hall _ _ _ hrun hpeak).2 row hrow)

end Segments

/-! ## Two processes -/

/-- The load of two processes. -/
def twoProcesses : Fitted where
  channels := [⟨"db","cpu"⟩,⟨"web","cpu"⟩]
  med := [0,0]
  mad := [1,1]
  q99 := 1
  med_length := rfl
  mad_length := rfl

/-- Both are busy. -/
def busyTick : Ticks twoProcesses where
  flag := [true]
  severity := [1]
  ts := [0]
  mat := [[1,1]]
  severity_length := rfl
  ts_length := rfl
  mat_length := rfl
  increasing := List.pairwise_singleton _ _
  width := by simp [twoProcesses]

/-- The score of the second process takes the place of the first one's. -/
theorem busyTick_not_partition :
    ¬ ∃ out ∈ segments twoProcesses.state busyTick.scored, Partition busyTick out := by
  rintro ⟨out,hout,hpartition⟩
  have hrun : IsRun busyTick.flag 0 0 :=
    { le := le_rfl
      flagged := fun k _ hk => Nat.le_zero.mp hk ▸ rfl
      before := fun k hk => absurd hk (Nat.succ_ne_zero k)
      after := by decide }
  have hpeak : busyTick.scored.peak 0 0 = 0 := Nat.le_zero.mp (isPeak_peak hrun).high
  have hrow : busyTick.mat[busyTick.scored.peak 0 0]? = some [1,1] := by
    rw [hpeak]
    rfl
  have htold := (describes_segment hrun hrow).mp (describes_of_partition hout hpartition hrun)
  simp [ToldApart,readings,readingsOf,twoProcesses,Reading.deviation_eq_zero] at htold

end TimeRcdFuse
end ETraceDiag
