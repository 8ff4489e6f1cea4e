import ETraceDiag.VersionedStore

/-!
# Feedback to a detector

`BaseDetector` of `detection/base.py`: the incidents that it has found, what feedback does to
the incidents it suppresses, to its adjustments and to its version, and `update` of the
registered detectors, which all go through it.
-/

namespace ETraceDiag
namespace DetectorFeedback

open TimeTable
open VersionedStore (FeedbackLabel FeedbackEvent ScoredWindow)

/-- The floats that the calibration computes with; `lit m e` is m/10^e. -/
class Calibration (F : Type) extends Add F, Sub F, Mul F, LT F where
  decLt : DecidableLT F
  lit : ℕ → ℕ → F

instance Calibration.instDecidableLT {F : Type} [Calibration F] : DecidableLT F :=
  Calibration.decLt

instance : Calibration ℚ where
  decLt := inferInstance
  lit m e := mkRat m (10^e)

variable {F E : Type}

/-! ## Versions -/

/-- `int()`; numerals with a sign, a blank or an underscore are left out. -/
def int? (cs : List Char) : Option ℕ :=
  if cs ≠ [] ∧ cs.all Char.isDigit = true then some (Nat.ofDigitChars 10 cs 0) else none

/-- `_bump_version`. -/
def bumpVersion (version : String) : String :=
  match version.toList.splitOn '.' with
  | [base,minor,patch] =>
    match int? minor,int? patch with
    | some m,some p => String.ofList base++"."++toString m++"."++toString (p+1)
    | _,_ => version++".1"
  | _ => version++".1"

/-! ## The base class -/

structure BaseDetector (F : Type) where
  modelVersion : String
  parents : List String := []
  suppressed : List (String × FeedbackLabel) := []
  emitted : List (String × ScoredWindow F) := []
  thresholdAdjustments : List (String × F) := []
  feedbackLabels : List (String × List FeedbackLabel) := []

/-- The codes of a `FeedbackError`. -/
inductive FeedbackError
  | unknownIncident
  | versionMismatch
  | unknownMetric
  deriving DecidableEq

/-- The part of a card that says which version it is of. -/
structure ModelCard where
  modelVersion : String
  parents : List String

/-- The labels that speak against an incident. -/
def Negative (label : FeedbackLabel) : Prop := label = .falsePositive ∨ label = .rejected

instance (label : FeedbackLabel) : Decidable (Negative label) :=
  inferInstanceAs (Decidable (_ ∨ _))

def labelsOf (d : BaseDetector F) (incidentId : String) : List FeedbackLabel :=
  (d.feedbackLabels.lookup incidentId).getD []

/-- What `update` checks before it changes anything: the incident that the feedback is about. -/
def validate (d : BaseDetector F) (fb : FeedbackEvent) :
    Except FeedbackError (ScoredWindow F) := do
  let some inc := d.emitted.lookup fb.incidentId | .error .unknownIncident
  if fb.modelVersion ≠ "" ∧ fb.modelVersion ≠ d.modelVersion then .error .versionMismatch
  else if fb.label ≠ .wrongRootCause ∧ fb.targetId ∉ inc.metricScores.map Prod.fst then
    .error .unknownMetric
  else .ok inc

section Update

variable [Calibration F]

/-- A factor that has grown once more. -/
def adjust (key : String) (factor : F) (d : BaseDetector F) : BaseDetector F :=
  { d with thresholdAdjustments :=
      upsert key (Calibration.lit 1 0) (·*factor) d.thresholdAdjustments }

/-- The calibration and the suppression for a label. -/
def calibrate (d : BaseDetector F) (inc : ScoredWindow F) (fb : FeedbackEvent) : BaseDetector F :=
  let scored := fb.targetId ∈ inc.metricScores.map Prod.fst
  match fb.label with
  | .falsePositive =>
    let d := { d with
      suppressed := upsert fb.incidentId fb.label (fun _ => fb.label) d.suppressed }
    if scored then adjust ("loosen::"++fb.targetId) (Calibration.lit 115 2) d else d
  | .rejected =>
    { d with suppressed := upsert fb.incidentId fb.label (fun _ => fb.label) d.suppressed }
  | .truePositive =>
    let d :=
      if ∃ l ∈ labelsOf d fb.incidentId, Negative l then d
      else { d with suppressed := d.suppressed.filter (·.1 ≠ fb.incidentId) }
    if scored then adjust ("tighten::"++fb.targetId) (Calibration.lit 102 2) d else d
  | _ => d

/-- The feedback is on record, and there is a new version. -/
def note (d : BaseDetector F) (fb : FeedbackEvent) : BaseDetector F :=
  { d with
    feedbackLabels := upsert fb.incidentId [] (·++[fb.label]) d.feedbackLabels
    parents := d.parents++[d.modelVersion]
    modelVersion := bumpVersion d.modelVersion }

/-- `BaseDetector.update`. -/
def BaseDetector.update (d : BaseDetector F) (fb : FeedbackEvent) :
    Except FeedbackError (BaseDetector F) := do
  let inc ← validate d fb
  .ok (note (calibrate d inc fb) fb)

end Update

def register (d : BaseDetector F) (inc : ScoredWindow F) : BaseDetector F :=
  { d with emitted := upsert inc.incidentId inc (fun _ => inc) d.emitted }

def isSuppressed (d : BaseDetector F) (inc : ScoredWindow F) : Bool :=
  inc.incidentId ∈ d.suppressed.map Prod.fst

/-! ## The registered detectors -/

/-- The classes; the first one is registered under two names, `shesd` and `streaming`. -/
inductive Kind
  | streaming
  | fits
  | edgeCascade
  | timeRcdFuse
  deriving DecidableEq

/-- The second part of the version that a detector starts with. -/
def Kind.minor : Kind → ℕ
  | .streaming => 2
  | .fits => 3
  | .edgeCascade => 4
  | .timeRcdFuse => 1

/-- A detector: `threshold` is there in `TimeRCDFuseDetector` only, `fitted` is what else the
subclass keeps, and no feedback reaches it. -/
structure Detector (F E : Type) where
  base : BaseDetector F
  threshold : F
  fitted : E

def start (k : Kind) (threshold : F) (fitted : E) : Detector F E where
  base := { modelVersion := "0."++toString k.minor++".0" }
  threshold := threshold
  fitted := fitted

section Calls

variable [Calibration F]

/-- `min` and `max` of Python: the first argument unless the second one is beyond it. -/
def pyMin (a b : F) : F := if b < a then b else a

def pyMax (a b : F) : F := if a < b then b else a

/-- What `TimeRCDFuseDetector.update` does to its threshold, before the base class has seen the
feedback. -/
def shiftThreshold (threshold : F) : FeedbackLabel → F
  | .falsePositive | .rejected =>
    pyMin (Calibration.lit 95 2) (threshold+Calibration.lit 2 2)
  | .truePositive => pyMax (Calibration.lit 2 1) (threshold-Calibration.lit 1 2)
  | _ => threshold

/-- `update` of a registered detector, and the detector after it, also where it raises. -/
def update (k : Kind) (d : Detector F E) (fb : FeedbackEvent) :
    Except FeedbackError ModelCard × Detector F E :=
  let d := match k with
    | .timeRcdFuse => { d with threshold := shiftThreshold d.threshold fb.label }
    | _ => d
  match d.base.update fb with
  | .error e => (.error e,d)
  | .ok base => (.ok ⟨base.modelVersion,base.parents⟩,{ d with base := base })

/-- A call of a method. Whatever the engine is, it finds some incidents and leaves its own part
in some state. -/
inductive Call (F E : Type)
  | fit (fitted : E)
  | score (found : List (ScoredWindow F)) (fitted : E)
  | update (fb : FeedbackEvent)

/-- The detector after a call. -/
def step (k : Kind) (d : Detector F E) : Call F E → Detector F E
  | .fit fitted => { d with fitted := fitted }
  | .score found fitted => { d with base := found.foldl register d.base, fitted := fitted }
  | .update fb => (update k d fb).2

/-- The incidents that `score` returns. -/
def returned (d : BaseDetector F) (found : List (ScoredWindow F)) : List (ScoredWindow F) :=
  found.filter fun inc => !isSuppressed (found.foldl register d) inc

end Calls

/-! ## Registering -/

/-- Scoring changes nothing but the registry. -/
theorem foldl_register (found : List (ScoredWindow F)) : ∀ d : BaseDetector F,
    found.foldl register d = { d with emitted := (found.foldl register d).emitted } := by
  induction found with
  | nil => intro d; rfl
  | cons inc found ih =>
    intro d
    rw [List.foldl_cons,ih]
    rfl

section Steps

variable [Calibration F]

theorem update_error {k : Kind} {d : Detector F E} {fb : FeedbackEvent} {e : FeedbackError}
    (h : validate d.base fb = .error e) : update k d fb = (.error e,
      { d with threshold :=
          if k = .timeRcdFuse then shiftThreshold d.threshold fb.label else d.threshold }) := by
  cases k <;> simp [update,BaseDetector.update,h,bind,Except.bind]

theorem update_ok {k : Kind} {d : Detector F E} {fb : FeedbackEvent} {inc : ScoredWindow F}
    (h : validate d.base fb = .ok inc) :
    (update k d fb).2.base = note (calibrate d.base inc fb) fb ∧
      (update k d fb).1 = .ok ⟨(update k d fb).2.base.modelVersion,
        (update k d fb).2.base.parents⟩ := by
  cases k <;> simp [update,BaseDetector.update,h,bind,Except.bind]

@[simp] theorem adjust_suppressed (key : String) (factor : F) (d : BaseDetector F) :
    (adjust key factor d).suppressed = d.suppressed := rfl

@[simp] theorem adjust_feedbackLabels (key : String) (factor : F) (d : BaseDetector F) :
    (adjust key factor d).feedbackLabels = d.feedbackLabels := rfl

@[simp] theorem adjust_modelVersion (key : String) (factor : F) (d : BaseDetector F) :
    (adjust key factor d).modelVersion = d.modelVersion := rfl

@[simp] theorem adjust_parents (key : String) (factor : F) (d : BaseDetector F) :
    (adjust key factor d).parents = d.parents := rfl

/-- The calibration leaves the version and the history as they are. -/
theorem calibrate_rest (d : BaseDetector F) (inc : ScoredWindow F) (fb : FeedbackEvent) :
    (calibrate d inc fb).modelVersion = d.modelVersion ∧
      (calibrate d inc fb).parents = d.parents ∧
      (calibrate d inc fb).feedbackLabels = d.feedbackLabels := by
  cases hl : fb.label with
  | truePositive => simp only [calibrate,hl]; split_ifs <;> exact ⟨rfl,rfl,rfl⟩
  | falsePositive => simp only [calibrate,hl]; split_ifs <;> exact ⟨rfl,rfl,rfl⟩
  | _ => simp [calibrate,hl]

/-! ## Suppression -/

/-- The incident is suppressed, and what speaks against it is on record. -/
structure Silenced (d : BaseDetector F) (incidentId : String) : Prop where
  suppressed : incidentId ∈ d.suppressed.map Prod.fst
  recorded : ∃ l ∈ labelsOf d incidentId, Negative l

theorem mem_suppressed_calibrate {d : BaseDetector F} {fb : FeedbackEvent} {incidentId : String}
    (inc : ScoredWindow F) (h : Silenced d incidentId) :
    incidentId ∈ (calibrate d inc fb).suppressed.map Prod.fst := by
  obtain ⟨hsup,hneg⟩ := h
  have hadd : incidentId ∈
      (upsert fb.incidentId fb.label (fun _ => fb.label) d.suppressed).map Prod.fst :=
    (mem_keys_upsert ..).mpr (.inr hsup)
  cases hl : fb.label with
  | falsePositive =>
    rw [hl] at hadd
    simp only [calibrate,hl]
    split_ifs <;> exact hadd
  | rejected =>
    rw [hl] at hadd
    simp only [calibrate,hl]
    exact hadd
  | truePositive =>
    -- a suppression is lifted only for an incident that nothing speaks against
    have hkeep : incidentId ∈ (if ∃ l ∈ labelsOf d fb.incidentId, Negative l then d
        else { d with suppressed := d.suppressed.filter (·.1 ≠ fb.incidentId) }).suppressed.map
          Prod.fst := by
      split
      · exact hsup
      · next hno =>
        have hne : incidentId ≠ fb.incidentId := by
          rintro rfl
          exact hno hneg
        obtain ⟨e,he,rfl⟩ := List.mem_map.mp hsup
        exact List.mem_map.mpr ⟨e,List.mem_filter.mpr ⟨he,by simpa using hne⟩,rfl⟩
    simp only [calibrate,hl]
    split_ifs at hkeep ⊢ <;> exact hkeep
  | _ =>
    simp only [calibrate,hl]
    exact hsup

omit [Calibration F] in
theorem labelsOf_note (d : BaseDetector F) (fb : FeedbackEvent) (incidentId : String) :
    labelsOf (note d fb) incidentId =
      if incidentId = fb.incidentId then labelsOf d incidentId++[fb.label]
      else labelsOf d incidentId := by
  rw [labelsOf,note,lookup_upsert]
  split
  · next h => rw [h]; rfl
  · rfl

omit [Calibration F] in
/-- What speaks against an incident stays on record. -/
theorem recorded_note {d : BaseDetector F} {incidentId : String}
    (h : ∃ l ∈ labelsOf d incidentId, Negative l) (fb : FeedbackEvent) :
    ∃ l ∈ labelsOf (note d fb) incidentId, Negative l := by
  obtain ⟨l,hl,hneg⟩ := h
  refine ⟨l,?_,hneg⟩
  rw [labelsOf_note]
  split
  · exact List.mem_append_left _ hl
  · exact hl

/-- Feedback of any kind leaves a silenced incident silenced. -/
theorem silenced_note {d : BaseDetector F} {incidentId : String} (h : Silenced d incidentId)
    (inc : ScoredWindow F) (fb : FeedbackEvent) :
    Silenced (note (calibrate d inc fb) fb) incidentId where
  suppressed := mem_suppressed_calibrate inc h
  recorded := by
    refine recorded_note ?_ fb
    rw [labelsOf,(calibrate_rest d inc fb).2.2]
    exact h.recorded

/-- Negative feedback silences the incident that it is about. -/
theorem silenced_of_negative (d : BaseDetector F) (inc : ScoredWindow F) {fb : FeedbackEvent}
    (h : Negative fb.label) : Silenced (note (calibrate d inc fb) fb) fb.incidentId where
  suppressed := by
    have hadd : fb.incidentId ∈
        (upsert fb.incidentId fb.label (fun _ => fb.label) d.suppressed).map Prod.fst :=
      (mem_keys_upsert ..).mpr (.inl rfl)
    rcases h with hl | hl
    · rw [hl] at hadd
      simp only [note,calibrate,hl]
      split_ifs <;> exact hadd
    · rw [hl] at hadd
      simp only [note,calibrate,hl]
      exact hadd
  recorded := ⟨fb.label,by rw [labelsOf_note,if_pos rfl]; exact List.mem_append_right _ (by simp),h⟩

/-- No call of a detector lifts the suppression. -/
theorem silenced_step {d : Detector F E} {incidentId : String} (h : Silenced d.base incidentId)
    (k : Kind) (call : Call F E) : Silenced (step k d call).base incidentId := by
  cases call with
  | fit fitted => exact h
  | score found fitted =>
    rw [step,foldl_register]
    exact ⟨h.suppressed,h.recorded⟩
  | update fb =>
    rw [step]
    cases hv : validate d.base fb with
    | error e => rw [update_error hv]; exact h
    | ok inc => rw [(update_ok hv).1]; exact silenced_note h inc fb

theorem silenced_run {incidentId : String} (k : Kind) (calls : List (Call F E)) :
    ∀ {d : Detector F E}, Silenced d.base incidentId →
      Silenced (Transition.run (step k) d calls).base incidentId := by
  induction calls with
  | nil => exact fun h => h
  | cons call calls ih => exact fun h => ih (silenced_step h k call)

/-- An incident that has had negative feedback is never returned again, whatever is called in
between. -/
theorem negative_never_returned {k : Kind} {d : Detector F E} {fb : FeedbackEvent}
    (hneg : Negative fb.label) {card : ModelCard} (hok : (update k d fb).1 = .ok card)
    (calls : List (Call F E)) (found : List (ScoredWindow F)) :
    ∀ inc ∈ returned (Transition.run (step k) d (.update fb::calls)).base found,
      inc.incidentId ≠ fb.incidentId := by
  have hstart : Silenced (step k d (.update fb)).base fb.incidentId := by
    rw [step]
    cases hv : validate d.base fb with
    | error e => rw [update_error hv] at hok; cases hok
    | ok inc => rw [(update_ok hv).1]; exact silenced_of_negative d.base inc hneg
  rintro inc hinc heq
  have hsilenced := (silenced_run k calls hstart).suppressed
  have hshown := (List.mem_filter.mp hinc).2
  rw [foldl_register,isSuppressed,heq,Transition.run_cons,decide_eq_true hsilenced] at hshown
  cases hshown

def hostWindow : ScoredWindow ℚ where
  incidentId := "inc-1"
  startTsNs := 0
  endTsNs := 30000000000
  windowOrder := by decide
  detectedAtNs := 60000000000
  status := .anomaly
  severity := 1
  metricScores := [("io_ticks",1)]
  directions := [("io_ticks",.up)]
  modelVersion := "0.1.0"

def about (incidentId : String) (label : FeedbackLabel) : FeedbackEvent where
  incidentId := incidentId
  label := label
  targetId := "io_ticks"
  modelVersion := ""

/-- Not even confirming the incident brings it back. -/
theorem rejected_then_confirmed :
    "inc-1" ∉ (returned (Transition.run (step .fits)
        (step .fits (start .fits (Calibration.lit 5 1) ()) (.score [hostWindow] ()))
        [.update (about "inc-1" .rejected),.update (about "inc-1" .truePositive)]).base
          [hostWindow]).map fun inc => inc.incidentId := by
  intro h
  obtain ⟨inc,hinc,hid⟩ := List.mem_map.mp h
  exact negative_never_returned (k:=.fits) (.inr rfl) (update_ok rfl).2
    [.update (about "inc-1" .truePositive)] [hostWindow] inc hinc hid

/-! ## Versions on record -/

def versionText (minor patch : ℕ) : String := "0."++toString minor++"."++toString patch

omit [Calibration F] in
theorem int?_toString (n : ℕ) : int? (toString n).toList = some n := by
  have hdigits : (toString n).toList = Nat.toDigits 10 n := Nat.toList_repr
  have hall : (Nat.toDigits 10 n).all Char.isDigit = true := List.all_eq_true.mpr fun c hc =>
    Nat.isDigit_of_mem_toDigits (by decide) (by decide) hc
  have hne : Nat.toDigits 10 n ≠ [] := Nat.toDigits_ne_nil
  rw [hdigits,int?,if_pos ⟨hne,hall⟩,Nat.ofDigitChars_toDigits (by decide) (by decide)]

omit [Calibration F] in
theorem splitOn_versionText (minor patch : ℕ) : (versionText minor patch).toList.splitOn '.' =
    [['0'],(toString minor).toList,(toString patch).toList] := by
  have hdot (n : ℕ) : '.' ∉ (toString n).toList := by
    have hdigits : (toString n).toList = Nat.toDigits 10 n := Nat.toList_repr
    rw [hdigits]
    intro h
    exact absurd (Nat.isDigit_of_mem_toDigits (by decide) (by decide) h) (by decide)
  have htext : (versionText minor patch).toList =
      ['.'].intercalate [['0'],(toString minor).toList,(toString patch).toList] := by
    simp [versionText,List.intercalate,List.intersperse]
  rw [htext]
  refine List.splitOn_intercalate '.' ?_ (by simp)
  intro l hl
  simp only [List.mem_cons,List.not_mem_nil,or_false] at hl
  rcases hl with rfl | rfl | rfl
  · decide
  · exact hdot minor
  · exact hdot patch

omit [Calibration F] in
theorem bumpVersion_versionText (minor patch : ℕ) :
    bumpVersion (versionText minor patch) = versionText minor (patch+1) := by
  rw [bumpVersion,splitOn_versionText]
  simp only [int?_toString]
  rfl

omit [Calibration F] in
theorem versionText_inj {minor p q : ℕ} (h : versionText minor p = versionText minor q) :
    p = q := by
  have hsplit := congrArg (fun v : String => v.toList.splitOn '.') h
  simp only [splitOn_versionText,List.cons.injEq,and_true,true_and] at hsplit
  have hint := congrArg int? hsplit
  rw [int?_toString,int?_toString] at hint
  exact Option.some.inj hint

/-- After so many feedbacks the parents are all versions that there have been. -/
structure Versions (k : Kind) (n : ℕ) (d : BaseDetector F) : Prop where
  current : d.modelVersion = versionText k.minor n
  parents : d.parents = (List.range n).map (versionText k.minor)

theorem versions_note {k : Kind} {n : ℕ} {d : BaseDetector F} (h : Versions k n d)
    (inc : ScoredWindow F) (fb : FeedbackEvent) :
    Versions k (n+1) (note (calibrate d inc fb) fb) := by
  obtain ⟨hversion,hparents,-⟩ := calibrate_rest d inc fb
  refine ⟨?_,?_⟩
  · rw [note,hversion,h.current,bumpVersion_versionText]
  · rw [note,hversion,hparents,h.current,h.parents,List.range_succ,List.map_append]
    rfl

/-- A call adds a version or leaves them as they are. -/
theorem versions_step {k : Kind} {n : ℕ} {d : Detector F E} (h : Versions k n d.base)
    (call : Call F E) : ∃ m, n ≤ m ∧ Versions k m (step k d call).base := by
  cases call with
  | fit fitted => exact ⟨n,le_rfl,h⟩
  | score found fitted =>
    rw [step,foldl_register]
    exact ⟨n,le_rfl,h.current,h.parents⟩
  | update fb =>
    rw [step]
    cases hv : validate d.base fb with
    | error e =>
      rw [update_error hv]
      exact ⟨n,le_rfl,h⟩
    | ok inc =>
      rw [(update_ok hv).1]
      exact ⟨n+1,Nat.le_succ n,versions_note h inc fb⟩

theorem versions_run {k : Kind} (calls : List (Call F E)) : ∀ {n : ℕ} {d : Detector F E},
    Versions k n d.base → ∃ m, n ≤ m ∧ Versions k m (Transition.run (step k) d calls).base := by
  induction calls with
  | nil => exact fun h => ⟨_,le_rfl,h⟩
  | cons call calls ih =>
    intro n d h
    obtain ⟨m,hnm,hm⟩ := versions_step h call
    obtain ⟨m',hmm',hm'⟩ := ih hm
    exact ⟨m',hnm.trans hmm',hm'⟩

omit [Calibration F] in
theorem versions_start (k : Kind) (threshold : F) (fitted : E) :
    Versions k 0 (start k threshold fitted).base where
  current := by
    have hend : ".0" = "."++toString 0 := by decide
    rw [start,versionText,hend]
    exact String.append_assoc.symm
  parents := rfl

/-! ## Feedback that is taken, and feedback that is not -/

/-- Feedback that raises changes nothing; feedback that is taken leads to a version that there
has not been, and puts the previous one on record. -/
def Honest (k : Kind) (d₀ : Detector F E) (calls : List (Call F E)) (fb : FeedbackEvent) : Prop :=
  let d := Transition.run (step k) d₀ calls
  match update k d fb with
  | (.error _,d') => d' = d
  | (.ok card,d') => card = ⟨d'.base.modelVersion,d'.base.parents⟩ ∧
      d'.base.parents = d.base.parents++[d.base.modelVersion] ∧
      ∀ before, before <+: calls →
        card.modelVersion ≠ (Transition.run (step k) d₀ before).base.modelVersion

/-- The threshold is where the feedback would move it to. -/
def AtBound (k : Kind) (d : Detector F E) (fb : FeedbackEvent) : Prop :=
  k = .timeRcdFuse → shiftThreshold d.threshold fb.label = d.threshold

/-- Feedback is atomic and versioned exactly when what is rejected would not move the threshold. -/
theorem feedback_honest_iff (k : Kind) (threshold : F) (fitted : E) (calls : List (Call F E))
    (fb : FeedbackEvent) : Honest k (start k threshold fitted) calls fb ↔
      ((∃ e, validate (Transition.run (step k) (start k threshold fitted) calls).base fb =
          .error e) →
        AtBound k (Transition.run (step k) (start k threshold fitted) calls) fb) := by
  generalize hd : Transition.run (step k) (start k threshold fitted) calls = d
  rw [Honest,hd]
  cases hv : validate d.base fb with
  | error e =>
    rw [update_error hv]
    have hsame : ({ d with threshold :=
        if k = .timeRcdFuse then shiftThreshold d.threshold fb.label else d.threshold } :
          Detector F E) = d ↔ AtBound k d fb := by
      rw [Detector.mk.injEq]
      by_cases hk : k = .timeRcdFuse <;> simp [AtBound,hk]
    change _ = d ↔ _
    rw [hsame]
    exact ⟨fun h _ => h,fun h => h ⟨e,rfl⟩⟩
  | ok inc =>
    obtain ⟨hbase,hcard⟩ := update_ok (k:=k) hv
    refine iff_of_true ?_ (fun ⟨e,he⟩ => by cases he)
    obtain ⟨n,-,hn⟩ := versions_run calls (versions_start k threshold fitted)
    rw [hd] at hn
    have hnext := versions_note hn inc fb
    rw [← hbase] at hnext
    have hparents : (update k d fb).2.base.parents = d.base.parents++[d.base.modelVersion] := by
      rw [hnext.parents,hn.parents,hn.current,List.range_succ,List.map_append]
      rfl
    have hfresh : ∀ before, before <+: calls → (update k d fb).2.base.modelVersion ≠
        (Transition.run (step k) (start k threshold fitted) before).base.modelVersion := by
      rintro before ⟨after,rfl⟩ heq
      obtain ⟨m,-,hm⟩ := versions_run before (versions_start k threshold fitted)
      obtain ⟨m',hmm',hm'⟩ := versions_run after hm
      rw [← Transition.run_append,hd] at hm'
      -- the version before is the last one at the latest
      have hm'n : m' = n := versionText_inj (hm'.current.symm.trans hn.current)
      have hmn : n+1 = m := versionText_inj (hnext.current.symm.trans (heq.trans hm.current))
      omega
    rcases hu : update k d fb with ⟨result,d'⟩
    rw [hu] at hcard hparents hfresh
    change result = .ok ⟨d'.base.modelVersion,d'.base.parents⟩ at hcard
    subst hcard
    exact ⟨rfl,hparents,hfresh⟩

/-- Feedback on an incident that the detector has never seen moves its threshold. -/
theorem unknown_moves_threshold :
    ¬ Honest (F:=ℚ) (E:=Unit) .timeRcdFuse (start .timeRcdFuse (Calibration.lit 5 1) ()) []
      (about "inc-2" .falsePositive) := by
  intro h
  have hsame : (update .timeRcdFuse
      (start .timeRcdFuse (Calibration.lit 5 1) () : Detector ℚ Unit)
      (about "inc-2" .falsePositive)).2 = start .timeRcdFuse (Calibration.lit 5 1) () := h
  have hthreshold := congrArg Detector.threshold hsame
  exact absurd hthreshold (by decide +kernel)

end Steps

end DetectorFeedback
end ETraceDiag
