import ETraceDiag.EdgeCascade
import ETraceDiag.FitsDetector
import ETraceDiag.StreamingDetector
import ETraceDiag.TimeRcdFuse

/-!
# Fitting a second time

What a detector that has been fitted before keeps of the earlier frame, for each of the four
detectors.
-/

namespace ETraceDiag
namespace Refitting

open DataWindow DetectorFrames FreqModel

/-- The arithmetic of all detectors. -/
class Floats (F : Type) extends EdgeCascade.StateFloat F, TimeRcdFuse.Checkpoint F, Spectral F

/-- `round`: to the even one of two integers that are as near. -/
def roundHalfEven (q : ℚ) : ℤ :=
  let below := q.floor
  let rest := q-below
  if rest < 1/2 ∨ rest = 1/2 ∧ below%2 = 0 then below else below+1

/-- The median of the elements around each one, with the list reflected at its ends. -/
def medianAround (xs : List (Option ℚ)) (k : ℤ) : List (Option ℚ) :=
  let reflected := xs.reverse++xs++xs.reverse
  (List.range xs.length).map fun i =>
    NumPy.median ((reflected.drop (xs.length+i-k.toNat/2)).take k.toNat)

/-- Exact arithmetic with a network that finds nothing. -/
instance : Floats (Option ℚ) where
  round q := roundHalfEven (q.getD 0)
  ofInt i := some i
  predict mat := mat.map fun _ => some 0
  medianFilter := medianAround
  sum xs := xs.foldl (·+·) (some 0)
  bounded := id
  length_predict mat := by rw [List.length_map]
  length_medianFilter xs k := by rw [medianAround,List.length_map,List.length_range]

variable {F : Type} [Floats F]

/-- Each detector has forgotten the first frame exactly when the second one has all channels of
the first one that `fit` writes something down about, and an interval if the first one had
another than the default. -/
theorem refit_forgets_iff (a b : Training F) :
    (∀ p, Forgets (StreamingDetector.fit p) StreamingDetector.Same {} a b ↔
      (b.train.points ≠ [] → (∀ k, ObservedIn a.train k → ObservedIn b.train k) ∧
        IntervalForgotten a.train b.train)) ∧
    (∀ p, Forgets (FitsDetector.fit p) FitsDetector.Same {} a b ↔
      (∀ k, FitsDetector.TrainableIn p a.train k → FitsDetector.TrainableIn p b.train k) ∧
        IntervalForgotten a.train b.train) ∧
    (∀ p, Forgets (EdgeCascade.fit p) EdgeCascade.Same {} a b ↔
      (b.train.points ≠ [] → ¬ EdgeCascade.InfiniteState b.train →
        (∀ k, ObservedIn a.train k → ObservedIn b.train k) ∧
          (∀ k, EdgeCascade.TrainableIn p a.train k → EdgeCascade.TrainableIn p b.train k) ∧
            IntervalForgotten a.train b.train)) ∧
    (Forgets TimeRcdFuse.fit TimeRcdFuse.Same (TimeRcdFuse.new : TimeRcdFuse.State F) a b ↔
      (TimeRcdFuse.Fittable b.train → TimeRcdFuse.Fittable a.train →
        ∀ k, TimeRcdFuse.ChannelIn a.train k ↔ TimeRcdFuse.ChannelIn b.train k)) :=
  ⟨fun p => StreamingDetector.forgets_iff p a b,fun p => FitsDetector.forgets_iff p a b,
    fun p => EdgeCascade.forgets_iff p a b,TimeRcdFuse.forgets_iff a b⟩

/-! ## A channel that is gone -/

def pointOf (metricId : String) : TelemetryPoint (Option ℚ) where
  tsNs := 0
  entityId := "host"
  metricId := metricId
  value := some (some 1)
  quality := .observed

/-- A frame with one observed value. -/
def frameOf (metricId : String) : Training (Option ℚ) where
  train :=
    { points := [pointOf metricId]
      ordered := List.pairwise_singleton _ _
      unique := List.nodup_singleton _ }
  validation := none

def minuteWindows : StreamingDetector.Params (Option ℚ) where
  maker := ⟨60000000000,30000000000,by decide⟩
  ewmaAlpha := some (2/10)
  potQuantile := some (99/100)
  potMultiplier := some (15/10)
  minObservedFrac := some (5/10)

/-- The threshold of the processor's load is still there when only memory is trained on. -/
theorem second_channel_not_forgets : ¬ Forgets (StreamingDetector.fit minuteWindows)
    StreamingDetector.Same {} (frameOf "cpu_user") (frameOf "mem_used") := by
  intro h
  obtain ⟨hkeys,-⟩ := (StreamingDetector.forgets_iff ..).mp h (List.cons_ne_nil _ _)
  obtain ⟨p,hp,hchannel,-⟩ := hkeys ⟨"host","cpu_user"⟩
    ⟨pointOf "cpu_user",List.mem_singleton.mpr rfl,rfl,rfl,rfl⟩
  obtain rfl := List.mem_singleton.mp hp
  exact absurd hchannel (by decide)

end Refitting
end ETraceDiag
