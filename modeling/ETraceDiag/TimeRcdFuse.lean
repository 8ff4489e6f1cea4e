import ETraceDiag.FlagRuns
import ETraceDiag.Incidents
import Mathlib.Data.Prod.Lex

/-!
# The zero-shot detector

`TimeRCDFuseDetector` of `detection/time_rcd_fuse.py`: the scores that a frozen network gives to
the rows of a matrix of all channels, fused with the largest deviation in each row.
-/

namespace ETraceDiag
namespace TimeRcdFuse

open AlignedGrid DataWindow DetectorFrames Dictionaries Incidents NumPy TimeTable
open CausalInput (Direction WindowStatus)
open FlagRuns (IsRun)
open DetectorFeedback (pyMax pyMin)
open DetectorFeedback.Calibration (lit)

variable {F : Type}

/-- The network, the filter of scipy, and what else numpy does to the matrix: an infinity becomes
the largest float of its sign. -/
class Checkpoint (F : Type) extends NumPy F where
  predict : List (List F) → List F
  medianFilter : List F → ℤ → List F
  sum : List F → F
  bounded : F → F
  length_predict : ∀ mat, (predict mat).length = mat.length
  length_medianFilter : ∀ xs k, (medianFilter xs k).length = xs.length

/-! ## Channels in order -/

/-- Tuples are compared from the left. -/
def Channel.lex (k : Channel) : String ×ₗ String := toLex (k.entityId,k.metricId)

theorem Channel.lex_injective : Function.Injective Channel.lex := by
  rintro ⟨e,m⟩ ⟨e',m'⟩ h
  obtain ⟨rfl,rfl⟩ := Prod.mk.inj (toLex.injective h)
  rfl

instance : LinearOrder Channel where
  le a b := Channel.lex a ≤ Channel.lex b
  le_refl a := le_refl (Channel.lex a)
  le_trans a b c hab hbc := le_trans (α:=String ×ₗ String) hab hbc
  le_antisymm a b hab hba := Channel.lex_injective (le_antisymm hab hba)
  le_total a b := le_total (Channel.lex a) (Channel.lex b)
  toDecidableLE := fun a b => inferInstanceAs (Decidable (Channel.lex a ≤ Channel.lex b))
  toDecidableEq := inferInstance

/-- The channels that a frame has an observed point of, with a value or not. -/
def channelsOf (frame : TelemetryFrame F) : List Channel :=
  sortedSet ((frame.points.filter fun p => p.quality = .observed).map channelOf)

/-! ## The matrix -/

section Matrix

variable [Checkpoint F]

/-- The value observed of a channel at a time. -/
def cell (frame : TelemetryFrame F) (k : Channel) (t : ℕ) : F :=
  ((frame.points.filterMap fun p =>
    if p.quality = .observed ∧ channelOf p = k ∧ p.tsNs = t then p.value else none).getLast?).getD
      NanFloat.nan

/-- `pd_ffill` of a column: what is not a number becomes the last number before it. -/
def ffill (last : F) : List F → List F
  | [] => []
  | x::xs => if NanFloat.isNan x then last::ffill last xs else x::ffill x xs

/-- `np.nan_to_num`. -/
def nanToNum (x : F) : F := if NanFloat.isNan x then lit 0 0 else Checkpoint.bounded x

/-- The columns of `_frame_to_matrix`. -/
def columns (channels : List Channel) (frame : TelemetryFrame F) : List (List F) :=
  channels.map fun k =>
    (ffill NanFloat.nan ((timestamps frame).map (cell frame k))).map nanToNum

def rows (n : ℕ) (cols : List (List F)) : List (List F) :=
  (List.range n).map fun i => cols.map fun col => (col[i]?).getD NanFloat.nan

/-- How far a value is from the median of its channel. -/
def deviation (med mad x : F) : F := NumPy.abs (x-med)/(lit 14826 4*pyMax mad (lit 1 8))

/-- The deviations of a row. -/
def deviations (med mad row : List F) : List F :=
  List.zipWith (fun x c => deviation c.1 c.2 x) row (med.zip mad)

/-- `np.max` of some numbers. -/
def maximum : List F → F
  | [] => lit 0 0
  | x::xs => xs.foldl pyMax x

/-- `_robust_z`. -/
def robustZ (med mad : List F) (mat : List (List F)) : List F :=
  mat.map fun row => maximum (deviations med mad row)

end Matrix

/-! ## fit -/

/-- The rows that a frame has to have. -/
def minRows : ℕ := 16

structure State (F : Type) where
  channels : List Channel := []
  med : List F := []
  mad : List F := []
  q99 : F
  fitDone : Bool := false

section Fit

variable [Checkpoint F]

def new : State F where
  q99 := lit 0 0

/-- The statistics of the channels in a matrix. -/
def withChannels (s : State F) (channels : List Channel) (cols : List (List F)) : State F :=
  let med := cols.map NumPy.median
  { s with channels := channels, med := med, mad := List.zipWith madAround cols med }

/-- `fit` once the channels are known. Without a channel there is no largest deviation, and the
call raises. -/
def fitChannels (s : State F) (channels : List Channel) (frame : TelemetryFrame F) :
    Bool × State F :=
  let n := (timestamps frame).length
  let cols := columns channels frame
  if n < minRows then (false,s)
  else
    let s := withChannels s channels cols
    if channels = [] then (false,s)
    else
      let z := robustZ s.med s.mad (rows n cols)
      (true,{ s with q99 := pyMax (NumPy.quantile z (lit 99 2)) (lit 1 8), fitDone := true })

/-- The channels of a detector, which are those of a frame as long as it has none. -/
def channelsFor (s : State F) (frame : TelemetryFrame F) : List Channel :=
  if s.channels ≠ [] then s.channels else channelsOf frame

/-- `fit`, which does not use the seed; whether it returns, and the state after it. -/
def fit (s : State F) (t : Training F) : Bool × State F :=
  fitChannels s (channelsFor s t.train) t.train

/-- The same channels and statistics. -/
structure Same (s s' : State F) : Prop where
  channels : s.channels = s'.channels
  med : s.med = s'.med
  mad : s.mad = s'.mad
  q99 : s.q99 = s'.q99

/-! ## Fitting twice -/

def ChannelIn (frame : TelemetryFrame F) (k : Channel) : Prop :=
  ∃ p ∈ frame.points, channelOf p = k ∧ p.quality = .observed

/-- The frame has enough times, and an observed point. -/
structure Fittable (frame : TelemetryFrame F) : Prop where
  rows : minRows ≤ (timestamps frame).length
  channels : ∃ k, ChannelIn frame k

omit [Checkpoint F] in
theorem mem_channelsOf {frame : TelemetryFrame F} {k : Channel} :
    k ∈ channelsOf frame ↔ ChannelIn frame k := by
  rw [channelsOf,mem_sortedSet,List.mem_map]
  simp only [List.mem_filter,decide_eq_true_eq,ChannelIn,and_assoc,and_comm (a:=channelOf _ = k)]

omit [Checkpoint F] in
theorem channelsOf_eq_iff (a b : TelemetryFrame F) :
    channelsOf a = channelsOf b ↔ ∀ k, ChannelIn a k ↔ ChannelIn b k := by
  simp only [← mem_channelsOf]
  refine ⟨fun h k => by rw [h],fun h => ?_⟩
  refine sortedSet_congr fun k => ?_
  have hk := h k
  rwa [channelsOf,channelsOf,mem_sortedSet,mem_sortedSet] at hk

omit [Checkpoint F] in
theorem channelsOf_ne_nil_iff (frame : TelemetryFrame F) :
    channelsOf frame ≠ [] ↔ ∃ k, ChannelIn frame k := by
  simp only [← mem_channelsOf]
  exact ⟨List.exists_mem_of_ne_nil _,fun ⟨_,hk⟩ => List.ne_nil_of_mem hk⟩

omit [Checkpoint F] in
theorem fittable_iff (frame : TelemetryFrame F) :
    Fittable frame ↔ minRows ≤ (timestamps frame).length ∧ channelsOf frame ≠ [] := by
  rw [channelsOf_ne_nil_iff]
  exact ⟨fun h => ⟨h.rows,h.channels⟩,fun h => ⟨h.1,h.2⟩⟩

/-- Where the call returns nothing depends on the state before it but for the channels. -/
theorem fitChannels_returns (s : State F) {channels : List Channel} {frame : TelemetryFrame F}
    (hn : minRows ≤ (timestamps frame).length) (hc : channels ≠ []) :
    (fitChannels s channels frame).1 = true ∧
      (fitChannels s channels frame).2 = (fitChannels new channels frame).2 ∧
      (fitChannels s channels frame).2.channels = channels := by
  simp only [fitChannels,Nat.not_lt.mpr hn,if_false,hc]
  exact ⟨trivial,rfl,rfl⟩

theorem fitChannels_fst (s : State F) (channels : List Channel) (frame : TelemetryFrame F) :
    (fitChannels s channels frame).1 = true ↔
      minRows ≤ (timestamps frame).length ∧ channels ≠ [] := by
  rw [fitChannels]
  dsimp only
  split
  · next h => simp [Nat.not_le.mpr h]
  · next h =>
    split
    · next hc => simp [hc]
    · next hc => simp [hc,Nat.not_lt.mp h]

/-- What a first frame leaves: its channels, when there are enough times. -/
theorem channels_fit_new (t : Training F) : (fit (new : State F) t).2.channels =
    if minRows ≤ (timestamps t.train).length then channelsOf t.train else [] := by
  have hnew : channelsFor (new : State F) t.train = channelsOf t.train := rfl
  rw [fit,hnew,fitChannels]
  dsimp only
  by_cases hn : (timestamps t.train).length < minRows
  · rw [if_pos hn,if_neg (Nat.not_le.mpr hn)]
    rfl
  · rw [if_neg hn,if_pos (Nat.not_lt.mp hn)]
    split <;> rfl

/-- What fitting leaves of an earlier frame: its channels, once it has had any. -/
theorem forgets_iff (a b : Training F) : Forgets fit Same (new : State F) a b ↔
    (Fittable b.train → Fittable a.train → ∀ k, ChannelIn a.train k ↔ ChannelIn b.train k) := by
  have hnew : channelsFor (new : State F) b.train = channelsOf b.train := rfl
  rw [← channelsOf_eq_iff,Forgets,fit,fit,hnew,fitChannels_fst,fitChannels_fst,← fittable_iff]
  refine forall_congr' fun hb => ?_
  obtain ⟨hn,hc⟩ := (fittable_iff _).mp hb
  have hfor : channelsFor (fit (new : State F) a).2 b.train = channelsOf b.train ↔
      (Fittable a.train → channelsOf a.train = channelsOf b.train) := by
    rw [channelsFor,channels_fit_new,fittable_iff]
    by_cases ha : minRows ≤ (timestamps a.train).length
    · by_cases hca : channelsOf a.train = []
      · simp [ha,hca]
      · simp [ha,hca]
    · simp [ha]
  rw [← hfor]
  constructor
  · rintro ⟨⟨-,hne⟩,hsame⟩
    have hchannels := hsame.channels
    rwa [(fitChannels_returns _ hn hne).2.2,(fitChannels_returns _ hn hc).2.2] at hchannels
  · intro heq
    rw [heq]
    refine ⟨⟨hn,hc⟩,?_⟩
    rw [(fitChannels_returns _ hn hc).2.1]
    exact ⟨rfl,rfl,rfl,rfl⟩

end Fit

/-! ## score -/

section Score

variable [Checkpoint F]

/-- The parameters of the fusion. -/
structure Fusion (F : Type) where
  fuseW : F
  threshold : F
  znThreshold : F
  medianK : ℤ

variable (f : Fusion F) (s : State F) (frame : TelemetryFrame F)

/-- The rows of `_frame_to_matrix`. -/
def matrix : List (List F) :=
  rows (timestamps frame).length (columns (channelsFor s frame) frame)

/-- The deviations of the rows, of which one is enough. -/
def zn : List F :=
  (robustZ s.med s.mad (matrix s frame)).map fun z => npMin (lit 1 0) (z/s.q99)

/-- What the network says, and the deviations. -/
def fused : List F :=
  List.zipWith (fun raw zn => (lit 1 0-f.fuseW)*raw+f.fuseW*zn)
    (Checkpoint.predict (matrix s frame)) (zn s frame)

def smooth : List F := Checkpoint.medianFilter (fused f s frame) f.medianK

def znSmooth : List F := Checkpoint.medianFilter (zn s frame) f.medianK

/-- The rows that score above a threshold. -/
def flags : List Bool :=
  List.zipWith (fun smooth zn => decide (f.threshold < smooth ∨ f.znThreshold < zn))
    (smooth f s frame) (znSmooth f s frame)

def severities : List F := List.zipWith npMax (smooth f s frame) (znSmooth f s frame)

/-- `np.argmax`: the first one that is not a number, or the first one of the largest. -/
def argmax : List F → ℕ
  | [] => 0
  | x::xs => (xs.zipIdx.foldl (fun best y =>
      if ¬ NanFloat.isNan best.1 ∧ (NanFloat.isNan y.1 ∨ best.1 < y.1) then (y.1,y.2+1) else best)
    (x,0)).2

/-- The row of the largest severity from `i` to `j`. -/
def peak (i j : ℕ) : ℕ := argmax (((severities f s frame).drop i).take (j+1-i))+i

/-- The severity of the rows from `i` to `j`. -/
def severity (i j : ℕ) : F :=
  pyMin (lit 1 0) (((severities f s frame)[peak f s frame i j]?).getD NanFloat.nan)

def tick (i : ℕ) : ℕ := ((timestamps frame)[i]?).getD 0

def row (i : ℕ) : List F := ((matrix s frame)[i]?).getD []

/-- The incident of the rows from `i` to `j`, with the channels that deviate in one of them. -/
def segmentIncident (i j : ℕ) : Incident F :=
  let mat := row s frame (peak f s frame i j)
  let zc := deviations s.med s.mad mat
  let zsum := orOne (Checkpoint.sum zc)
  let deviating := ((s.channels.zip zc).zip (mat.zip s.med)).filter fun c => lit 0 0 < c.1.2
  { entityId := "host"
    startNs := tick frame i
    endNs := tick frame j
    status := if severity f s frame i j < lit 5 1 then .uncertain else .anomaly
    severity := severity f s frame i j
    scores := update [] (deviating.map fun c => (c.1.1.metricId,c.1.2/zsum))
    directions := update [] (deviating.map fun c =>
      (c.1.1.metricId,if c.2.2 < c.2.1 then Direction.up else Direction.down)) }

/-- What `score` finds, unless the detector has not been fitted. -/
def score : Option (List (Incident F)) :=
  if s.fitDone then
    if (timestamps frame).length < minRows then some []
    else
      some ((FlagRuns.segments (flags f s frame)).map fun ij =>
        segmentIncident f s frame ij.1 ij.2)
  else none

/-! ## Missing data -/

/-- Up to a time the channel has an observed value that is a number. -/
def SeenBy (frame : TelemetryFrame F) (k : Channel) (t : ℕ) : Prop :=
  ∃ p ∈ frame.points, channelOf p = k ∧ p.quality = .observed ∧
    (∃ v ∈ p.value, NanFloat.isNan v = false) ∧ p.tsNs ≤ t

/-- The channel deviates from its median in a row. -/
def Deviates (i : ℕ) (k : Channel) : Prop :=
  ∃ c : ℕ, s.channels[c]? = some k ∧
    ∃ z ∈ (deviations s.med s.mad (row s frame i))[c]?, lit 0 0 < z

/-- Behind the incidents that are found when some channels are deleted is not that they are
missing: in an anomaly a row scores above a threshold with an observed value of a channel that
has not been deleted, and no channel deviates before it has one. -/
structure MissingIsNoAnomaly (deleted : List Channel) (found : List (Incident F)) : Prop where
  anomaly : ∀ inc ∈ found, inc.status = .anomaly → ∃ i : ℕ,
    (inc.startNs ≤ tick (without frame deleted) i ∧ tick (without frame deleted) i ≤ inc.endNs) ∧
      (flags f s (without frame deleted))[i]? = some true ∧
        ∃ k ∈ s.channels, k ∉ deleted ∧ SeenBy frame k (tick (without frame deleted) i)
  deviation : minRows ≤ (timestamps (without frame deleted)).length →
    ∀ i < (timestamps (without frame deleted)).length, ∀ k,
      Deviates s (without frame deleted) i k →
        k ∉ deleted ∧ SeenBy frame k (tick (without frame deleted) i)

/-- A zero of the channel deviates from its median. -/
def ZeroDeviates (k : Channel) : Prop :=
  ∃ c : ℕ, s.channels[c]? = some k ∧ ∃ m ∈ s.med[c]?, ∃ d ∈ s.mad[c]?,
    lit 0 0 < deviation m d (lit 0 0)

/-- Channels of which a zero deviates are seen from the first row on, and no run of rows that
score above a threshold, with a severity of a half or more, ends before a channel is seen. -/
structure Explained : Prop where
  zeros : ∀ k, ZeroDeviates s k → SeenBy frame k (tick frame 0)
  runs : ∀ a b, IsRun (flags f s frame) a b → ¬ severity f s frame a b < lit 5 1 →
    ∃ k ∈ s.channels, SeenBy frame k (tick frame b)

variable {f s frame}

theorem SeenBy.mono {k : Channel} {t t' : ℕ} (h : SeenBy frame k t) (ht : t ≤ t') :
    SeenBy frame k t' := by
  obtain ⟨p,hp,hk,hquality,hvalue,hle⟩ := h
  exact ⟨p,hp,hk,hquality,hvalue,hle.trans ht⟩

theorem seenBy_without_iff (deleted : List Channel) (k : Channel) (t : ℕ) :
    SeenBy (without frame deleted) k t ↔ k ∉ deleted ∧ SeenBy frame k t := by
  constructor
  · rintro ⟨p,hp,rfl,hrest⟩
    obtain ⟨hmem,hnot⟩ := List.mem_filter.mp hp
    exact ⟨of_decide_eq_true hnot,p,hmem,rfl,hrest⟩
  · rintro ⟨hnot,p,hp,rfl,hrest⟩
    exact ⟨p,List.mem_filter.mpr ⟨hp,decide_eq_true hnot⟩,rfl,hrest⟩

/-- A cell of a channel that is not seen by its time is not a number. -/
theorem isNan_cell {k : Channel} {t t' : ℕ} (h : ¬ SeenBy frame k t') (ht : t ≤ t') :
    NanFloat.isNan (cell frame k t) = true := by
  rw [cell]
  cases hlast : (frame.points.filterMap fun p => if p.quality = .observed ∧ channelOf p = k ∧
    p.tsNs = t then p.value else none).getLast? with
  | none => exact NanFloat.isNan_nan
  | some v =>
    obtain ⟨p,hp,hv⟩ := List.mem_filterMap.mp (List.mem_of_getLast? hlast)
    split at hv
    · next hin =>
      by_contra hno
      exact h ⟨p,hp,hin.2.1,hin.1,⟨v,hv,by simpa using hno⟩,hin.2.2.le.trans ht⟩
    · cases hv

/-- Where there has been no number the fill is what it started with. -/
theorem ffill_getElem? (last : F) : ∀ {xs : List F} {i : ℕ}, i < xs.length →
    (∀ j ≤ i, ∀ x ∈ xs[j]?, NanFloat.isNan x = true) → (ffill last xs)[i]? = some last := by
  intro xs
  induction xs with
  | nil => exact fun h => absurd h (Nat.not_lt_zero _)
  | cons x xs ih =>
    intro i hi hnan
    rw [ffill,if_pos (hnan 0 (Nat.zero_le i) x rfl)]
    cases i with
    | zero => rfl
    | succ i => exact ih (Nat.lt_of_succ_lt_succ hi) fun j hj => hnan (j+1) (Nat.succ_le_succ hj)

omit [Checkpoint F] in
theorem tick_le {i j : ℕ} (hij : i ≤ j) (hj : j < (timestamps frame).length) :
    tick frame i ≤ tick frame j := by
  have hi := hij.trans_lt hj
  rw [tick,tick,List.getElem?_eq_getElem hi,List.getElem?_eq_getElem hj]
  rcases Nat.eq_or_lt_of_le hij with rfl | hlt
  · exact le_rfl
  · exact (List.pairwise_iff_getElem.mp (sortedSet_pairwise _) i j hi hj hlt).le

/-- In the matrix a channel that is not seen is zero. -/
theorem row_unseen {i c : ℕ} (hi : i < (timestamps frame).length) {k : Channel}
    (hk : s.channels[c]? = some k) (h : ¬ SeenBy frame k (tick frame i)) :
    (row s frame i)[c]? = some (lit 0 0) := by
  have hchannels : channelsFor s frame = s.channels := by
    refine if_pos fun hnil => ?_
    rw [hnil] at hk
    cases hk
  have hnan : ∀ j ≤ i, ∀ x ∈ ((timestamps frame).map (cell frame k))[j]?,
      NanFloat.isNan x = true := by
    intro j hj x hx
    rw [List.getElem?_map,Option.mem_def,Option.map_eq_some_iff] at hx
    obtain ⟨t,ht,rfl⟩ := hx
    have htick : tick frame j = t := by rw [tick,ht]; rfl
    exact isNan_cell h (htick ▸ tick_le hj hi)
  have hfill := ffill_getElem? NanFloat.nan (by rwa [List.length_map]) hnan
  rw [row,matrix,rows,List.getElem?_map,List.getElem?_range hi,columns,hchannels]
  simp only [Option.map_some,Option.getD_some,List.getElem?_map,hk,hfill,nanToNum,
    NanFloat.isNan_nan,if_true]

/-- A channel that is not seen deviates as a zero does. -/
theorem deviates_unseen_iff {i : ℕ} (hi : i < (timestamps frame).length) {k : Channel}
    (h : ¬ SeenBy frame k (tick frame i)) : Deviates s frame i k ↔ ZeroDeviates s k := by
  refine exists_congr fun c => and_congr_right fun hk => ?_
  have hrow := row_unseen hi hk h
  simp only [deviations,Option.mem_def,List.getElem?_zipWith_eq_some,hrow]
  constructor
  · rintro ⟨z,⟨x,c,hx,hc,rfl⟩,hz⟩
    obtain rfl := Option.some.inj hx
    obtain ⟨hm,hd⟩ := List.getElem?_zip_eq_some.mp hc
    exact ⟨c.1,hm,c.2,hd,hz⟩
  · rintro ⟨m,hm,d,hd,hz⟩
    exact ⟨_,⟨_,(m,d),rfl,List.getElem?_zip_eq_some.mpr ⟨hm,hd⟩,rfl⟩,hz⟩

/-- No channel deviates before it is seen exactly when the ones that are not seen from the first
row on have zeros that do not deviate. -/
theorem deviation_iff (s : State F) {frame : TelemetryFrame F}
    (hn : 0 < (timestamps frame).length) :
    (∀ i < (timestamps frame).length, ∀ k, Deviates s frame i k → SeenBy frame k (tick frame i)) ↔
      ∀ k, ZeroDeviates s k → SeenBy frame k (tick frame 0) := by
  constructor
  · intro hall k hzero
    by_contra hno
    exact hno (hall 0 hn k ((deviates_unseen_iff hn hno).mpr hzero))
  · intro hzeros i hi k hdeviates
    by_contra hno
    have hzero := (deviates_unseen_iff hi hno).mp hdeviates
    exact hno ((hzeros k hzero).mono (tick_le (Nat.zero_le i) hi))

theorem length_flags : (flags f s frame).length = (timestamps frame).length := by
  have hmatrix : (matrix s frame).length = (timestamps frame).length := by
    rw [matrix,rows,List.length_map,List.length_range]
  have hzn : (zn s frame).length = (timestamps frame).length := by
    rw [zn,robustZ,List.length_map,List.length_map,hmatrix]
  rw [flags,List.length_zipWith,smooth,znSmooth,Checkpoint.length_medianFilter,
    Checkpoint.length_medianFilter,fused,List.length_zipWith,Checkpoint.length_predict,hmatrix,hzn,
    min_self,min_self]

theorem status_segmentIncident (i j : ℕ) : (segmentIncident f s frame i j).status = .anomaly ↔
    ¬ severity f s frame i j < lit 5 1 := by
  change (if severity f s frame i j < lit 5 1 then WindowStatus.uncertain else .anomaly) = _ ↔ _
  split
  · next h => exact iff_of_false (by decide) (not_not.mpr h)
  · next h => exact iff_of_true rfl h

/-- What an anomaly needs of its rows, said of the runs of flags. -/
theorem anomaly_iff (deleted : List Channel) :
    (∀ inc ∈ (FlagRuns.segments (flags f s (without frame deleted))).map fun ij =>
        segmentIncident f s (without frame deleted) ij.1 ij.2, inc.status = .anomaly → ∃ i : ℕ,
      (inc.startNs ≤ tick (without frame deleted) i ∧ tick (without frame deleted) i ≤ inc.endNs) ∧
        (flags f s (without frame deleted))[i]? = some true ∧
          ∃ k ∈ s.channels, k ∉ deleted ∧ SeenBy frame k (tick (without frame deleted) i)) ↔
    ∀ a b, IsRun (flags f s (without frame deleted)) a b →
      ¬ severity f s (without frame deleted) a b < lit 5 1 →
        ∃ k ∈ s.channels, SeenBy (without frame deleted) k (tick (without frame deleted) b) := by
  constructor
  · intro hall a b hrun hsevere
    have hmem := (FlagRuns.mem_segments _ a b).mpr hrun
    obtain ⟨i,⟨-,hend⟩,-,k,hk,hseen⟩ := hall _ (List.mem_map_of_mem hmem)
      ((status_segmentIncident a b).mpr hsevere)
    exact ⟨k,hk,((seenBy_without_iff deleted k _).mpr hseen).mono hend⟩
  · intro hruns inc hinc hstatus
    obtain ⟨⟨a,b⟩,hmem,rfl⟩ := List.mem_map.mp hinc
    have hrun := (FlagRuns.mem_segments _ a b).mp hmem
    obtain ⟨k,hk,hseen⟩ := hruns a b hrun ((status_segmentIncident a b).mp hstatus)
    have hlast := hrun.flagged b hrun.le le_rfl
    have hlt : b < (timestamps (without frame deleted)).length := by
      rw [← length_flags (f:=f) (s:=s)]
      exact (List.getElem?_eq_some_iff.mp hlast).1
    exact ⟨b,⟨tick_le hrun.le hlt,le_rfl⟩,hlast,k,hk,(seenBy_without_iff deleted k _).mp hseen⟩

/-- The detector takes missing data for an anomaly exactly where rows are not explained. -/
theorem score_missing_iff (f : Fusion F) (s : State F) (frame : TelemetryFrame F)
    (deleted : List Channel) :
    (∀ found ∈ score f s (without frame deleted), MissingIsNoAnomaly f s frame deleted found) ↔
      (s.fitDone = true → minRows ≤ (timestamps (without frame deleted)).length →
        Explained f s (without frame deleted)) := by
  rw [score]
  split
  · next hfit =>
    rw [imp_iff_right hfit]
    split
    · next hshort =>
      refine iff_of_true ?_ fun hn => absurd hn (Nat.not_le.mpr hshort)
      rintro found ⟨⟩
      exact ⟨fun _ h => (List.not_mem_nil h).elim,fun hn => absurd hn (Nat.not_le.mpr hshort)⟩
    · next hlong =>
      have hn := Nat.not_lt.mp hlong
      have hdeviation := deviation_iff s (Nat.lt_of_lt_of_le (Nat.succ_pos 15) hn)
      simp only [seenBy_without_iff] at hdeviation
      simp only [Option.mem_some,forall_eq',imp_iff_right hn]
      constructor
      · intro h
        refine ⟨?_,(anomaly_iff deleted).mp h.anomaly⟩
        simp only [seenBy_without_iff]
        exact hdeviation.mp (h.deviation hn)
      · intro h
        refine ⟨(anomaly_iff deleted).mpr h.runs,fun _ => hdeviation.mpr ?_⟩
        have hzeros := h.zeros
        simp only [seenBy_without_iff] at hzeros
        exact hzeros
  · next hfit => simp [hfit]

end Score

end TimeRcdFuse
end ETraceDiag
