import ETraceDiag.StreamingDetector

/-!
# Points one at a time

`observe_point` of the streaming detector smooths each channel as its points come in, without
scoring a window again.
-/

namespace ETraceDiag
namespace PointStream

open AlignedGrid DataWindow DetectorFrames Incidents NumPy StreamingDetector
open CausalInput (Direction)
open DetectorFeedback.Calibration (lit)

variable {F : Type} [NumPy F] (p : Params F)

/-- The next smoothed deviation. -/
def smooth (st : MetricStats F) (ewma : Option F) (v : F) : F :=
  match ewma with
  | none => robustZ st v
  | some e => p.ewmaAlpha*robustZ st v+(lit 1 0-p.ewmaAlpha)*e

/-- What is reported at a smoothed deviation. -/
def judge (adjustments : List (String × F)) (s : State F) (k : Channel) (ewma : F) :
    Option (Mark F) :=
  let thr := threshold adjustments s k
  if thr < NumPy.abs ewma then
    some ⟨k.metricId,ratio (NumPy.abs ewma) thr,if lit 0 0 < ewma then .up else .down⟩
  else none

/-- `observe_point` on the fitted detector `s` and `_ewma_state`. -/
def observePoint (adjustments : List (String × F)) (s : State F) (ewmaState : Channel → Option F)
    (pt : TelemetryPoint F) : Option (Mark F) × (Channel → Option F) :=
  match s.normalizer with
  | none => (none,ewmaState)
  | some stats =>
    match stats.lookup (channelOf pt),pt.value with
    | some st, some v =>
      if pt.quality = .observed then
        let ewma := smooth p st (ewmaState (channelOf pt)) v
        (judge adjustments s (channelOf pt) ewma,
          Function.update ewmaState (channelOf pt) (some ewma))
      else (none,ewmaState)
    | _, _ => (none,ewmaState)

/-- The state after points that come in with the adjustments of their moment. -/
def observeAll (s : State F) (ewmaState : Channel → Option F)
    (pts : List (List (String × F) × TelemetryPoint F)) : Channel → Option F :=
  pts.foldl (fun es a => (observePoint p a.1 s es a.2).2) ewmaState

/-- What the last of the points is answered. -/
def answer (s : State F) (ewmaState : Channel → Option F)
    (pts : List (List (String × F) × TelemetryPoint F)) : Option (Mark F) :=
  pts.getLast?.bind fun a => (observePoint p a.1 s (observeAll p s ewmaState pts.dropLast) a.2).1

/-- The observed value that a point gives a channel. -/
def valueFor (k : Channel) (pt : TelemetryPoint F) : Option F :=
  if channelOf pt = k ∧ pt.quality = .observed then pt.value else none

def valuesOf (k : Channel) (pts : List (List (String × F) × TelemetryPoint F)) : List F :=
  pts.filterMap fun a => valueFor k a.2

theorem ewma_concat (st : MetricStats F) (xs : List F) (v : F) :
    ewma p st (xs++[v]) = some (smooth p st (ewma p st xs) v) := by
  have hstep : ewma p st (xs++[v]) =
      match ewma p st xs with
      | none => some (robustZ st v)
      | some e => some (p.ewmaAlpha*robustZ st v+(lit 1 0-p.ewmaAlpha)*e) := by
    rw [ewma,List.foldl_append]
    rfl
  rw [hstep]
  cases ewma p st xs <;> rfl

section Fitted

variable {p} {s : State F} {stats : List (Channel × MetricStats F)}
  (hstats : s.normalizer = some stats)
include hstats

theorem observePoint_of_value {k : Channel} {st : MetricStats F} (hst : stats.lookup k = some st)
    {pt : TelemetryPoint F} {v : F} (hv : valueFor k pt = some v) (adjustments : List (String × F))
    (es : Channel → Option F) : observePoint p adjustments s es pt =
      (judge adjustments s k (smooth p st (es k) v),
        Function.update es k (some (smooth p st (es k) v))) := by
  rw [valueFor] at hv
  split at hv
  · rename_i hpt
    obtain ⟨rfl,hq⟩ := hpt
    simp only [observePoint,hstats,hst,hv,if_pos hq]
  · cases hv

/-- A point that gives the channel no value leaves its state alone. -/
theorem observePoint_frame {k : Channel} {pt : TelemetryPoint F} (hv : valueFor k pt = none)
    (adjustments : List (String × F)) (es : Channel → Option F) :
    (observePoint p adjustments s es pt).2 k = es k := by
  simp only [observePoint,hstats]
  split
  · rename_i st v _ hvalue
    split
    · rename_i hq
      have hk : channelOf pt ≠ k := fun hk => by
        rw [valueFor,if_pos ⟨hk,hq⟩,hvalue] at hv
        cases hv
      exact Function.update_of_ne hk.symm _ _
    · rfl
  · rfl

/-- Whatever other channels do in between, a channel has the smoothed deviation of its own
values. -/
theorem observeAll_eq {k : Channel} {st : MetricStats F} (hst : stats.lookup k = some st)
    {es : Channel → Option F} (hk : es k = none)
    (pts : List (List (String × F) × TelemetryPoint F)) :
    observeAll p s es pts k = ewma p st (valuesOf k pts) := by
  induction pts using List.reverseRecOn with
  | nil => exact hk
  | append_singleton pts a ih =>
    have hrun : observeAll p s es (pts++[a]) =
        (observePoint p a.1 s (observeAll p s es pts) a.2).2 := by
      rw [observeAll,List.foldl_append]
      rfl
    have hvalues : valuesOf k (pts++[a]) = valuesOf k pts++(valueFor k a.2).toList := by
      rw [valuesOf,List.filterMap_append]
      cases hv : valueFor k a.2 <;> simp [hv] <;> rfl
    rw [hrun,hvalues]
    cases hv : valueFor k a.2 with
    | none =>
      rw [observePoint_frame hstats hv,Option.toList_none,List.append_nil,ih]
    | some v =>
      rw [observePoint_of_value hstats hst hv,Option.toList_some,ewma_concat,ih]
      exact Function.update_self ..

end Fitted

theorem metricMark_eq (adjustments : List (String × F)) (s : State F)
    {stats : List (Channel × MetricStats F)} {a : AlignedSeries F} {m : String × ℕ}
    {st : MetricStats F} (hst : stats.lookup ⟨a.entityId,m.1⟩ = some st) :
    metricMark p adjustments s stats a m =
      (ewma p st (masked a m.2)).bind (judge adjustments s ⟨a.entityId,m.1⟩) := by
  simp only [metricMark,hst]
  cases ewma p st (masked a m.2) <;> rfl

def params : Params (Option ℚ) := ⟨⟨20,20,by decide⟩,some (1/2),some 1,some 1,some 1⟩

def cpu : Channel := ⟨"host","cpu"⟩

def fitted : State (Option ℚ) where
  normalizer := some [(cpu,⟨some 0,some 1⟩),(⟨"host","mem"⟩,⟨some 0,some 1⟩)]

def reading (metric : String) (ts : ℕ) (v : ℚ) :
    List (String × Option ℚ) × TelemetryPoint (Option ℚ) :=
  ([],⟨ts,"host",metric,some (some v),.observed,[]⟩)

def cpuWindow : AlignedSeries (Option ℚ) where
  entityId := "host"
  tsNs := [0,10]
  metrics := ["cpu"]
  values := [[some 4],[some 8]]
  observedMask := [[true],[true]]
  values_length := rfl
  observedMask_length := rfl

end PointStream
end ETraceDiag
