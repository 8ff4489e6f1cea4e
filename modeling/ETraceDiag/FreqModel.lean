import ETraceDiag.NumPy

/-!
# The frequency model of a metric

`_nfft_for` and `_MetricFreqModel` of `detection/fits_adapter.py`. The transforms and the
statistics are those of numpy, and the fit of the map is that of `ComplexFit`; the second
components of `fit` and `score` are the lengths of the grids to whose spectra the map is applied.
-/

namespace ETraceDiag

namespace FreqModel

open NumPy
open DetectorFeedback.Calibration (lit)

/-- The transforms between samples and spectra with coefficients `Coef`, and the maps that are
fitted to low and high parts of spectra and applied to a low part. -/
class Spectral (F : Type) where
  Coef : Type
  Map : Type
  rfft : List F → ℕ → List Coef
  irfft : List Coef → ℕ → List F
  fitComplexLinear : List (List Coef) → List (List Coef) → Map
  predHigh : List Coef → Map → List Coef
  size : Map → ℕ
  length_rfft : ∀ x n, (rfft x n).length = n/2+1

open Spectral

/-- `while n < x_size: n *= 2`. -/
def doubled (xSize n : ℕ) : ℕ := if 0 < n ∧ n < xSize then doubled xSize (n*2) else n
termination_by xSize-n

/-- `_nfft_for`. -/
def nfftFor (xSize : ℕ) (baseFft : ℤ) : ℕ := doubled xSize (max baseFft 1).toNat

structure MetricFreqModel (F : Type) [Spectral F] where
  entityId : String
  metricId : String
  lowFreq : ℕ
  nFft : ℤ
  median : F
  mad : F
  W : Option (Map F) := none
  residMedian : F
  residMad : F
  params : ℕ := 0

section Code

variable {F : Type} [NumPy F] [Spectral F]

/-- `_MetricFreqModel(...)`. -/
def new (entityId metricId : String) (lowFreq : ℕ) (nFft : ℤ) (median mad : F) :
    MetricFreqModel F where
  entityId := entityId
  metricId := metricId
  lowFreq := lowFreq
  nFft := nFft
  median := median
  mad := mad
  residMedian := lit 0 0
  residMad := lit 1 0

/-- Windows with fewer samples are passed over. -/
def LongEnough (lowFreq : ℕ) (x : List F) : Prop := lowFreq+4 ≤ x.length

instance (lowFreq : ℕ) (x : List F) : Decidable (LongEnough lowFreq x) :=
  inferInstanceAs (Decidable (_ ≤ _))

/-- What the first loop of `fit` gathers. -/
structure Gathered (F : Type) [Spectral F] where
  fixedN : Option ℕ := none
  lows : List (List (Coef F)) := []
  highs : List (List (Coef F)) := []

/-- A round of the first loop of `fit`: the first window that is long enough fixes the grid. -/
def gather (lowFreq : ℕ) (nFft : ℤ) (g : Gathered F) (x : List F) : Gathered F :=
  if ¬ LongEnough lowFreq x then g
  else
    let n := nfftFor x.length nFft
    if g.fixedN.isSome ∧ g.fixedN ≠ some n then g
    else
      let low := (rfft x n).take lowFreq
      let high := (rfft x n).drop lowFreq
      if high.length = 0 ∨ low.length = 0 then { g with fixedN := some n }
      else { fixedN := some n, lows := g.lows++[low], highs := g.highs++[high] }

/-- How far a window is from what the map makes of its low part. -/
def residual (lowFreq : ℕ) (nFft : ℤ) (W : Map F) (x : List F) : F × ℕ :=
  let n := nfftFor x.length nFft
  let low := (rfft x n).take lowFreq
  let xHat := (irfft (low++predHigh low W) n).take x.length
  (std (List.zipWith (·-·) x xHat),n)

/-- `fit`. -/
def fit (m : MetricFreqModel F) (windows : List (List F)) : MetricFreqModel F × List ℕ :=
  let g : Gathered F := windows.foldl (gather m.lowFreq m.nFft) {}
  if g.lows.length < 2 then (m,[])
  else
    let W := fitComplexLinear g.lows g.highs
    let m := { m with W := some W, params := 2*size W }
    let train := (windows.filter fun x => LongEnough m.lowFreq x).map (residual m.lowFreq m.nFft W)
    let trainResid := train.map Prod.fst
    let m :=
      if trainResid.isEmpty then m
      else
        let residMedian := NumPy.median trainResid
        { m with residMedian := residMedian, residMad := orOne (madAround trainResid residMedian) }
    (m,train.map Prod.snd)

/-- `score`. -/
def score (m : MetricFreqModel F) (x : List F) : F × List ℕ :=
  match m.W with
  | none => (lit 0 0,[])
  | some W =>
    if ¬ LongEnough m.lowFreq x then (lit 0 0,[])
    else
      let (resid,n) := residual m.lowFreq m.nFft W x
      let z := (resid-m.residMedian)/(lit 14826 4*m.residMad+lit 1 9)
      (DetectorFeedback.pyMax (lit 0 0) z,[n])

/-! ## One grid -/

/-- The grid of the first window that is long enough. -/
def firstGrid (lowFreq : ℕ) (nFft : ℤ) (windows : List (List F)) : Option ℕ :=
  (windows.find? fun x => LongEnough lowFreq x).map fun x => nfftFor x.length nFft

end Code

section Gather

variable {F : Type} [Spectral F]

/-- The spectra of a grid have a low and a high part. -/
def HasParts (lowFreq n : ℕ) : Prop := 0 < lowFreq ∧ lowFreq ≤ n/2

instance (lowFreq n : ℕ) : Decidable (HasParts lowFreq n) := inferInstanceAs (Decidable (_ ∧ _))

/-- The windows on a grid. -/
def onGrid (lowFreq : ℕ) (nFft : ℤ) (n : ℕ) (windows : List (List F)) : List (List F) :=
  windows.filter fun x => LongEnough lowFreq x ∧ nfftFor x.length nFft = n

/-- Two windows at least are on the grid of the first one, and its spectra have both parts. -/
def Trainable (lowFreq : ℕ) (nFft : ℤ) (windows : List (List F)) : Prop :=
  ∃ n ∈ firstGrid lowFreq nFft windows,
    HasParts lowFreq n ∧ 2 ≤ (onGrid lowFreq nFft n windows).length

theorem hasParts_iff (lowFreq n : ℕ) (x : List F) : HasParts lowFreq n ↔
    ¬ (((rfft x n).drop lowFreq).length = 0 ∨ ((rfft x n).take lowFreq).length = 0) := by
  rw [HasParts,List.length_drop,List.length_take,length_rfft]
  omega

theorem gather_short {lowFreq : ℕ} {nFft : ℤ} (g : Gathered F) {x : List F}
    (hx : ¬ LongEnough lowFreq x) : gather lowFreq nFft g x = g := if_pos hx

/-- A window on another grid is passed over. -/
theorem gather_other {lowFreq : ℕ} {nFft : ℤ} {g : Gathered F} {n : ℕ} {x : List F}
    (hg : g.fixedN = some n) (hn : nfftFor x.length nFft ≠ n) :
    gather lowFreq nFft g x = g := by
  rw [gather]
  split
  · rfl
  · refine if_pos ⟨by rw [hg]; rfl,?_⟩
    rw [hg]
    exact fun h => hn (Option.some.inj h).symm

/-- A window on the grid leaves its parts, if it has both. -/
theorem gather_same {lowFreq : ℕ} (nFft : ℤ) {g : Gathered F} {x : List F}
    (hx : LongEnough lowFreq x)
    (hg : ∀ n ∈ g.fixedN, nfftFor x.length nFft = n) :
    (gather lowFreq nFft g x).fixedN = some (nfftFor x.length nFft) ∧
      (gather lowFreq nFft g x).lows.length = g.lows.length+
        if HasParts lowFreq (nfftFor x.length nFft) then 1 else 0 := by
  have hsame : ¬ (g.fixedN.isSome ∧ g.fixedN ≠ some (nfftFor x.length nFft)) := by
    rintro ⟨hsome,hne⟩
    obtain ⟨n,hn⟩ := Option.isSome_iff_exists.mp hsome
    rw [hn,hg n hn] at hne
    exact hne rfl
  rw [gather,if_neg (not_not.mpr hx),if_neg hsame]
  have hparts := hasParts_iff lowFreq (nfftFor x.length nFft) x
  by_cases hyes : HasParts lowFreq (nfftFor x.length nFft)
  · rw [if_neg (hparts.mp hyes),if_pos hyes]
    exact ⟨rfl,by simp⟩
  · rw [if_pos (not_not.mp (mt hparts.mpr hyes)),if_neg hyes]
    exact ⟨rfl,rfl⟩

theorem foldl_gather_fixed {lowFreq : ℕ} {nFft : ℤ} {n : ℕ} (windows : List (List F)) :
    ∀ {g : Gathered F}, g.fixedN = some n →
      (windows.foldl (gather lowFreq nFft) g).lows.length = g.lows.length+
        if HasParts lowFreq n then (onGrid lowFreq nFft n windows).length else 0 := by
  induction windows with
  | nil => intro g _; simp [onGrid]
  | cons x windows ih =>
    intro g hg
    rw [List.foldl_cons,onGrid]
    by_cases hx : LongEnough lowFreq x ∧ nfftFor x.length nFft = n
    · obtain ⟨hlong,rfl⟩ := hx
      obtain ⟨hfixed,hlows⟩ := gather_same nFft hlong fun m hm => by
        rw [hg] at hm
        exact Option.some.inj hm
      rw [ih hfixed,hlows,List.filter_cons_of_pos (by simpa using hlong),← onGrid]
      split
      · rw [List.length_cons]
        omega
      · rfl
    · rw [List.filter_cons_of_neg (by simpa using hx),← onGrid]
      have hkeep : gather lowFreq nFft g x = g := by
        by_cases hlong : LongEnough lowFreq x
        · exact gather_other hg fun hn => hx ⟨hlong,hn⟩
        · exact gather_short g hlong
      rw [hkeep,ih hg]

/-- The first loop gathers enough exactly when the windows are trainable. -/
theorem two_le_gathered_iff (lowFreq : ℕ) (nFft : ℤ) (windows : List (List F)) :
    2 ≤ (windows.foldl (gather lowFreq nFft) ({} : Gathered F)).lows.length ↔
      Trainable lowFreq nFft windows := by
  induction windows with
  | nil => simp [Trainable,firstGrid]
  | cons x windows ih =>
    rw [List.foldl_cons]
    by_cases hlong : LongEnough lowFreq x
    · obtain ⟨hfixed,hlows⟩ := gather_same nFft (g:=({} : Gathered F)) hlong
        fun m hm => by cases hm
      rw [foldl_gather_fixed windows hfixed,hlows]
      have hfirst : firstGrid lowFreq nFft (x::windows) = some (nfftFor x.length nFft) := by
        rw [firstGrid,List.find?_cons_of_pos (by simpa using hlong),Option.map_some]
      have hgrid : (onGrid lowFreq nFft (nfftFor x.length nFft) (x::windows)).length =
          (onGrid lowFreq nFft (nfftFor x.length nFft) windows).length+1 := by
        rw [onGrid,List.filter_cons_of_pos (by simpa using hlong),List.length_cons,← onGrid]
      rw [Trainable,hfirst]
      simp only [Option.mem_some,exists_eq_left',hgrid]
      by_cases hparts : HasParts lowFreq (nfftFor x.length nFft)
      · simp only [hparts,if_true,true_and,List.length_nil,Nat.zero_add,Nat.add_comm]
      · simp [hparts]
    · rw [gather_short _ hlong,ih]
      have hfirst : firstGrid lowFreq nFft (x::windows) = firstGrid lowFreq nFft windows := by
        rw [firstGrid,List.find?_cons_of_neg (by simpa using hlong),← firstGrid]
      have hgrid : ∀ n, onGrid lowFreq nFft n (x::windows) = onGrid lowFreq nFft n windows := by
        intro n
        rw [onGrid,List.filter_cons_of_neg (by simp [hlong]),← onGrid]
      simp only [Trainable,hfirst,hgrid]

theorem fixedN_gather_step (lowFreq : ℕ) (nFft : ℤ) {g : Gathered F} {n : ℕ}
    (hg : g.fixedN = some n) (x : List F) : (gather lowFreq nFft g x).fixedN = some n := by
  by_cases hlong : LongEnough lowFreq x
  · by_cases hn : nfftFor x.length nFft = n
    · have hsame := gather_same nFft hlong fun m hm => by
        rw [hg] at hm
        exact hn.trans (Option.some.inj hm)
      rw [hsame.1,hn]
    · rw [gather_other hg hn,hg]
  · rw [gather_short g hlong,hg]

/-- The grid that the first loop fixes is that of the first window that is long enough. -/
theorem fixedN_gathered (lowFreq : ℕ) (nFft : ℤ) (windows : List (List F)) :
    (windows.foldl (gather lowFreq nFft) ({} : Gathered F)).fixedN =
      firstGrid lowFreq nFft windows := by
  have hkeep : ∀ (windows : List (List F)) {g : Gathered F} {n : ℕ}, g.fixedN = some n →
      (windows.foldl (gather lowFreq nFft) g).fixedN = some n := by
    intro windows
    induction windows with
    | nil => exact fun hg => hg
    | cons x windows ih => exact fun hg => ih (fixedN_gather_step lowFreq nFft hg x)
  induction windows with
  | nil => rfl
  | cons x windows ih =>
    rw [List.foldl_cons]
    by_cases hlong : LongEnough lowFreq x
    · have hstart := (gather_same nFft (g:=({} : Gathered F)) hlong
        fun m hm => by cases hm).1
      rw [hkeep windows hstart,firstGrid,List.find?_cons_of_pos (by simpa using hlong)]
      rfl
    · rw [gather_short _ hlong,ih,firstGrid,firstGrid,
        List.find?_cons_of_neg (by simpa using hlong)]

end Gather

section OneGrid

variable {F : Type} [NumPy F] [Spectral F]

/-- The map is applied to spectra of the grid that it was fitted on, in the fit and in the scores
of later windows, and to no others. -/
def OneGrid (m : MetricFreqModel F) (windows scored : List (List F)) : Prop :=
  ∀ n ∈ (windows.foldl (gather m.lowFreq m.nFft) ({} : Gathered F)).fixedN,
    (∀ k ∈ (fit m windows).2, k = n) ∧ ∀ x ∈ scored, ∀ k ∈ (score (fit m windows).1 x).2, k = n

/-- All windows that are long enough have the grid of the first one. -/
def SameGrid (lowFreq : ℕ) (nFft : ℤ) (windows scored : List (List F)) : Prop :=
  ∀ n ∈ firstGrid lowFreq nFft windows, ∀ x ∈ windows++scored, LongEnough lowFreq x →
    nfftFor x.length nFft = n

theorem fit_untrainable {m : MetricFreqModel F} {windows : List (List F)}
    (h : ¬ Trainable m.lowFreq m.nFft windows) : fit m windows = (m,[]) := by
  rw [← two_le_gathered_iff,Nat.not_le] at h
  rw [fit,if_pos h]

/-- A fit applies the map to every window that is long enough. -/
theorem fit_trainable {m : MetricFreqModel F} {windows : List (List F)}
    (h : Trainable m.lowFreq m.nFft windows) :
    (fit m windows).1.lowFreq = m.lowFreq ∧ (fit m windows).1.nFft = m.nFft ∧
      (fit m windows).1.W.isSome ∧
      (fit m windows).2 = (windows.filter fun x => LongEnough m.lowFreq x).map fun x =>
        nfftFor x.length m.nFft := by
  rw [← two_le_gathered_iff] at h
  rw [fit,if_neg (Nat.not_lt.mpr h)]
  refine ⟨?_,?_,?_,?_⟩
  · dsimp only
    split <;> rfl
  · dsimp only
    split <;> rfl
  · dsimp only
    split <;> rfl
  · simp only [List.map_map]
    rfl

theorem score_trained {m : MetricFreqModel F} (h : m.W.isSome) (x : List F) :
    (score m x).2 = if LongEnough m.lowFreq x then [nfftFor x.length m.nFft] else [] := by
  obtain ⟨W,hW⟩ := Option.isSome_iff_exists.mp h
  rw [score,hW]
  dsimp only
  by_cases hx : LongEnough m.lowFreq x
  · rw [if_neg (not_not.mpr hx),if_pos hx]
    rfl
  · rw [if_pos hx,if_neg hx]

theorem oneGrid_trainable {m : MetricFreqModel F} {windows : List (List F)}
    (h : Trainable m.lowFreq m.nFft windows) (scored : List (List F)) :
    OneGrid m windows scored ↔ SameGrid m.lowFreq m.nFft windows scored := by
  obtain ⟨hlow,hfft,hsome,hcalibrated⟩ := fit_trainable h
  simp only [OneGrid,fixedN_gathered,score_trained hsome,hlow,hfft,hcalibrated,SameGrid,
    List.mem_map,List.mem_filter,decide_eq_true_eq,List.mem_append]
  constructor
  · rintro hall n hn x (hx | hx) hlong
    · exact (hall n hn).1 _ ⟨x,⟨hx,hlong⟩,rfl⟩
    · exact (hall n hn).2 x hx _ (by rw [if_pos hlong]; exact List.mem_singleton_self _)
  · intro hsame n hn
    refine ⟨?_,?_⟩
    · rintro k ⟨x,⟨hx,hlong⟩,rfl⟩
      exact hsame n hn x (.inl hx) hlong
    · intro x hx k hk
      split at hk
      · next hlong =>
        rw [List.mem_singleton.mp hk]
        exact hsame n hn x (.inr hx) hlong
      · cases hk

/-- A model without a map applies none. -/
theorem oneGrid_untrainable {m : MetricFreqModel F} (hW : m.W = none) {windows : List (List F)}
    (h : ¬ Trainable m.lowFreq m.nFft windows) (scored : List (List F)) :
    OneGrid m windows scored := by
  rw [OneGrid,fit_untrainable h]
  intro n _
  refine ⟨by simp,?_⟩
  intro x _ k hk
  simp [score,hW] at hk

/-- The map of a model keeps to its grid exactly when there is no map, or all windows that are
long enough are on one grid. -/
theorem oneGrid_iff (entityId metricId : String) (lowFreq : ℕ) (nFft : ℤ) (median mad : F)
    (windows scored : List (List F)) :
    OneGrid (new entityId metricId lowFreq nFft median mad) windows scored ↔
      (Trainable lowFreq nFft windows → SameGrid lowFreq nFft windows scored) := by
  by_cases h : Trainable lowFreq nFft windows
  · rw [oneGrid_trainable (m:=new entityId metricId lowFreq nFft median mad) h,
      imp_iff_right h]
    rfl
  · exact iff_of_true (oneGrid_untrainable rfl h scored) fun ht => absurd ht h

end OneGrid

/-! ## Silence -/

/-- Transforms and maps on samples that are all zero: spectra are zero, and the fitted map, given
by the number of its values, predicts zero. -/
instance silent : Spectral (Option ℚ) where
  Coef := Option ℚ
  Map := ℕ
  rfft _ n := List.replicate (n/2+1) (lit 0 0)
  irfft _ n := List.replicate n (lit 0 0)
  fitComplexLinear _ highs := (highs.headD []).length
  predHigh _ W := List.replicate W (lit 0 0)
  size W := W
  length_rfft _ _ := List.length_replicate

/-- So many samples that are zero. -/
def silence (n : ℕ) : List (Option ℚ) := List.replicate n (lit 0 0)

/-- Two windows of 20 samples, and then one of 70. -/
theorem longer_window_not_oneGrid :
    ¬ OneGrid (new "host" "cpu_user" 3 16 (some 0) (some 1))
      [silence 20,silence 20] [silence 70] := by
  intro h
  have hgrid : nfftFor 20 16 = 32 := by simp [nfftFor,doubled]
  have hother : nfftFor 70 16 = 128 := by simp [nfftFor,doubled]
  have hfirst : firstGrid 3 16 [silence 20,silence 20] = some 32 := congrArg some hgrid
  have htrainable : Trainable 3 16 [silence 20,silence 20] := by
    refine ⟨32,hfirst,by decide,?_⟩
    simp [onGrid,LongEnough,silence,hgrid]
  have hsame := (oneGrid_trainable (m:=new "host" "cpu_user" 3 16 (some 0) (some 1)) htrainable
    [silence 70]).mp h
  have hlast := hsame 32 hfirst (silence 70) (by simp) (by simp [LongEnough,silence,new])
  change nfftFor 70 16 = 32 at hlast
  rw [hother] at hlast
  cases hlast

end FreqModel
end ETraceDiag
