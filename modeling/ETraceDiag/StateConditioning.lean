import ETraceDiag.CrossScaleGate

/-!
# The state branch

Which scores the state branch of the edge cascade halves: those of the metrics whose last value is
close to the number of the state, which is what `_fit_state_memory` has the median and the MAD of,
and not those whose last value is one that the metric had in that state.
-/

namespace ETraceDiag
namespace EdgeCascade

open AlignedGrid DataWindow DetectorFrames Dictionaries FreqModel Incidents NumPy TimeTable
open DetectorFeedback.Calibration (lit)

variable {F : Type}

/-! ## States of the training frame -/

section Training

variable [StateFloat F] (train : TelemetryFrame F)

/-- The state that a point says a state metric is in. -/
def stateOf (m : Channel) (p : TelemetryPoint F) : Option ℤ :=
  if IsState p ∧ channelOf p = m then
    p.value.bind fun v => if NanFloat.isNan v then none else some (StateFloat.round v)
  else none

/-- The state that a state metric is in at a time. -/
def stateAt (m : Channel) (tsNs : ℕ) : Option ℤ :=
  ((train.points.filter fun p => p.tsNs ≤ tsNs).filterMap (stateOf m)).getLast?

/-- The values of a metric that are observed while a state metric is in a state. -/
def valuesIn (k m : Channel) (id : ℤ) : List F :=
  (train.points.filter fun p => channelOf p = k ∧ p.quality = .observed ∧
    stateAt train m p.tsNs = some id).filterMap fun p => p.value.filter fun v => isFinite v

/-- The number of a state, as often as the state occurs. -/
def numbersOf (m : Channel) (id : ℤ) : List F :=
  List.replicate ((train.points.filterMap (stateOf m)).count id) (StateFloat.ofInt id)

/-- Median and MAD. -/
def centre (values : List F) : F × F :=
  (NumPy.median values,madAround values (NumPy.median values))

/-- A value is within twice the spread of others. -/
def InBand (values : List F) (x : F) : Prop :=
  values ≠ [] ∧
    ¬ lit 2 0*((centre values).2+lit 1 9) < NumPy.abs (x-(centre values).1)

instance (values : List F) (x : F) : Decidable (InBand values x) :=
  inferInstanceAs (Decidable (_ ∧ _))

variable {train}

theorem numbersOf_eq_nil {m : Channel} {id : ℤ} : numbersOf train m id = [] ↔
    id ∉ train.points.filterMap (stateOf m) := by
  rw [numbersOf,List.replicate_eq_nil_iff,List.count_eq_zero]

variable (train)

/-- A round of the loop of `_fit_state_memory`. -/
def countState (mem : List (Channel × List (ℤ × List ℤ))) (p : TelemetryPoint F) :
    List (Channel × List (ℤ × List ℤ)) :=
  match p.value with
  | none => mem
  | some v =>
    if ¬ IsState p ∨ NanFloat.isNan v then mem
    else
      let id := StateFloat.round v
      upsert (channelOf p) [] (upsert id [] (·++[id])) mem

theorem lookup_countState (mem : List (Channel × List (ℤ × List ℤ))) (p : TelemetryPoint F)
    (m : Channel) (id : ℤ) : (((countState mem p).lookup m).getD []).lookup id =
      if stateOf m p = some id then
        some (((((mem.lookup m).getD []).lookup id).getD [])++[id])
      else ((mem.lookup m).getD []).lookup id := by
  rw [countState,stateOf]
  cases p.value with
  | none => simp
  | some v =>
    rw [Option.bind_some]
    dsimp only
    by_cases hstate : IsState p
    · cases hnan : NanFloat.isNan v with
      | true => simp
      | false =>
        simp only [hstate,not_true_eq_false,Bool.false_eq_true,or_self,if_false,true_and]
        rw [lookup_upsert]
        by_cases hm : m = channelOf p
        · subst hm
          rw [if_pos rfl,if_pos rfl,Option.getD_some,lookup_upsert]
          by_cases hid : id = StateFloat.round v
          · subst hid
            simp
          · rw [if_neg hid,if_neg fun h => hid (Option.some.inj h).symm]
        · simp [hm,Ne.symm hm]
    · simp [hstate]

theorem lookup_stateValues (m : Channel) (id : ℤ) :
    (((stateValues train).lookup m).getD []).lookup id =
      if id ∈ train.points.filterMap (stateOf m) then
        some (List.replicate ((train.points.filterMap (stateOf m)).count id) id)
      else none := by
  have hloop : stateValues train = train.points.foldl countState [] := rfl
  rw [hloop]
  induction train.points using List.reverseRecOn with
  | nil => rfl
  | append_singleton points p ih =>
    rw [List.foldl_append,List.foldl_cons,List.foldl_nil,lookup_countState,ih,
      List.filterMap_append,List.count_append,List.replicate_add]
    by_cases hstate : stateOf m p = some id
    · rw [if_pos hstate]
      by_cases hin : id ∈ points.filterMap (stateOf m)
      · simp [hstate,hin]
      · simp [hstate,hin,List.count_eq_zero_of_not_mem hin]
    · have hnone : id ∉ [p].filterMap (stateOf m) := by simpa using hstate
      rw [if_neg hstate,List.count_eq_zero_of_not_mem hnone,List.replicate_zero,List.append_nil]
      simp only [List.mem_append,hnone,or_false]

/-- The statistics of the states of a channel. -/
def centres (states : List (ℤ × List ℤ)) : List (ℤ × F × F) :=
  states.map fun state => (state.1,centre (state.2.map StateFloat.ofInt))

theorem lookup_centres (states : List (ℤ × List ℤ)) (id : ℤ) :
    (centres states : List (ℤ × F × F)).lookup id =
      (states.lookup id).map fun ids => centre (ids.map StateFloat.ofInt) :=
  lookup_map_values (fun _ (ids : List ℤ) => centre (ids.map StateFloat.ofInt)) states id

/-- The memory has the statistics of the numbers of the states. -/
theorem lookup_fitStateMemory (m : Channel) (id : ℤ) :
    (((fitStateMemory train).lookup m).getD []).lookup id =
      if numbersOf train m id = [] then none else some (centre (numbersOf train m id)) := by
  have hmemory : (fitStateMemory train).lookup m = ((stateValues train).lookup m).map centres :=
    lookup_map_values (fun _ => centres) (stateValues train) m
  have hvalues := lookup_stateValues train m id
  rw [hmemory]
  cases hmem : (stateValues train).lookup m with
  | none =>
    rw [hmem,Option.getD_none,List.lookup_nil] at hvalues
    rw [Option.map_none,Option.getD_none,List.lookup_nil]
    split at hvalues
    · cases hvalues
    · next hnot => rw [if_pos (numbersOf_eq_nil.mpr hnot)]
  | some states =>
    rw [hmem,Option.getD_some] at hvalues
    rw [Option.map_some,Option.getD_some,lookup_centres,hvalues]
    by_cases hin : id ∈ train.points.filterMap (stateOf m)
    · rw [if_pos hin,if_neg fun hnil => numbersOf_eq_nil.mp hnil hin,Option.map_some,
        List.map_replicate]
      rfl
    · rw [if_neg hin,if_pos (numbersOf_eq_nil.mpr hin)]
      rfl

end Training

/-! ## The branch -/

section Branch

variable [StateFloat F] [Spectral F] (s : State F) (stats : List (Channel × MetricStats F))
  (a : AlignedSeries F)

omit [Spectral F] in
/-- The last value of a metric that is observed and finite. -/
def lastValue (m : String) : Option F := (finite a (a.metrics.idxOf m)).getLast?

/-- What the memory has of the state that a metric is in. -/
def memoryOf (m : String) : Option (F × F) :=
  if m ∉ a.metrics then none
  else (lastValue a m).bind fun x =>
    ((s.stateMemory.lookup ⟨a.entityId,m⟩).getD []).lookup (StateFloat.round x)

/-- The state metrics up to the first one whose state is not known. -/
def reached : List String → List (String × F × F)
  | [] => []
  | m::ms =>
    match memoryOf s a m with
    | none => []
    | some r => (m,r)::reached ms

/-- The last value of the metric is close to the median that the memory has. -/
def Dampens (r : F × F) (k : String) : Prop :=
  k ≠ quality ∧ (stats.lookup ⟨a.entityId,k⟩).isSome ∧
    ∃ x ∈ lastValue a k, ¬ lit 2 0*(r.2+lit 1 9) < NumPy.abs (x-r.1)

instance (r : F × F) (k : String) : Decidable (Dampens stats a r k) :=
  inferInstanceAs (Decidable (_ ∧ _ ∧ ∃ _ ∈ _, _))

/-- A score that counts half. -/
def half (x : F) : F := x*lit 5 1

/-- The branch halves the score of a metric for a state metric. -/
def Halves (ms : List String) (m k : String) : Prop :=
  ∃ r ∈ reached s a ms, r.1 = m ∧ Dampens stats a r.2 k

instance (ms : List String) (m k : String) : Decidable (Halves s stats a ms m k) :=
  inferInstanceAs (Decidable (∃ _ ∈ _, _))

variable {s stats a}

omit [Spectral F] in
theorem dampen_eq (r : F × F) (e : String × F) : dampen stats a r.1 r.2 e =
    if Dampens stats a r e.1 then (e.1,half e.2) else e := by
  by_cases h : Dampens stats a r e.1
  · rw [if_pos h,dampen]
    obtain ⟨hname,hstats,x,hx,hclose⟩ := h
    have hskip : ¬ (e.1 = quality ∨ (stats.lookup ⟨a.entityId,e.1⟩).isNone) := by
      rw [not_or,Option.isNone_eq_false_iff.mpr hstats]
      exact ⟨hname,Bool.false_ne_true⟩
    have hlast : (finite a (a.metrics.idxOf e.1)).getLast? = some x := hx
    rw [if_neg hskip,hlast]
    exact if_neg hclose
  · rw [if_neg h,dampen]
    split
    · rfl
    · next hskip =>
      rw [not_or,Bool.not_eq_true,Option.isNone_eq_false_iff] at hskip
      split
      · rfl
      · next x hx =>
        split
        · rfl
        · next hclose => exact absurd ⟨hskip.1,hskip.2,x,hx,hclose⟩ h

/-- The branch is done with the state metrics that it reaches, one after the other. -/
theorem stateBranch_eq (ms : List String) : ∀ scores, stateBranch s stats a ms scores =
    (reached s a ms).foldl (fun scores r => scores.map (dampen stats a r.2.1 r.2.2)) scores := by
  induction ms with
  | nil => exact fun _ => rfl
  | cons m ms ih =>
    intro scores
    rw [stateBranch,reached,memoryOf]
    split
    · rfl
    · rw [← lastValue]
      cases lastValue a m with
      | none => rfl
      | some x =>
        rw [Option.bind_some]
        dsimp only
        cases ((s.stateMemory.lookup ⟨a.entityId,m⟩).getD []).lookup (StateFloat.round x) with
        | none => rfl
        | some r => exact ih _

omit [Spectral F] in
/-- Each score is halved as often as states that the branch reaches ask for it. -/
theorem foldl_dampen (rs : List (String × F × F)) : ∀ scores : List (String × F),
    rs.foldl (fun scores r => scores.map (dampen stats a r.2.1 r.2.2)) scores =
      scores.map fun e => (e.1,half^[rs.countP fun r => Dampens stats a r.2 e.1] e.2) := by
  induction rs with
  | nil => exact fun scores => (List.map_id scores).symm
  | cons r rs ih =>
    intro scores
    rw [List.foldl_cons,ih,List.map_map]
    refine List.map_congr_left fun e _ => ?_
    rw [Function.comp_apply,dampen_eq,List.countP_cons]
    by_cases h : Dampens stats a r.2 e.1
    · rw [if_pos h,if_pos (decide_eq_true h),Function.iterate_succ_apply]
    · rw [if_neg h,if_neg (by simpa using h),Nat.add_zero]

/-- A state that the branch reaches comes after states that are known. -/
theorem mem_reached {ms : List String} {m : String} {r : F × F} :
    (m,r) ∈ reached s a ms ↔ memoryOf s a m = some r ∧
      ∃ before after, ms = before++m::after ∧ ∀ k ∈ before, (memoryOf s a k).isSome := by
  induction ms with
  | nil => simp [reached]
  | cons x ms ih =>
    rw [reached]
    cases hx : memoryOf s a x with
    | none =>
      refine iff_of_false List.not_mem_nil ?_
      rintro ⟨hm,before,after,heq,hknown⟩
      cases before with
      | nil =>
        obtain ⟨rfl,-⟩ := List.cons.inj heq
        rw [hx] at hm
        cases hm
      | cons y before =>
        obtain ⟨rfl,-⟩ := List.cons.inj heq
        have hsome := hknown x List.mem_cons_self
        rw [hx] at hsome
        cases hsome
    | some rx =>
      rw [List.mem_cons,ih]
      constructor
      · rintro (heq | ⟨hm,before,after,rfl,hknown⟩)
        · obtain ⟨rfl,rfl⟩ := Prod.mk.inj heq
          exact ⟨hx,[],ms,rfl,fun k hk => absurd hk List.not_mem_nil⟩
        · refine ⟨hm,x::before,after,rfl,fun k hk => ?_⟩
          rcases List.mem_cons.mp hk with rfl | hk
          · rw [hx]
            rfl
          · exact hknown k hk
      · rintro ⟨hm,before,after,heq,hknown⟩
        cases before with
        | nil =>
          obtain ⟨rfl,-⟩ := List.cons.inj heq
          exact .inl (by rw [Option.some.inj (hm.symm.trans hx)])
        | cons y before =>
          obtain ⟨rfl,rfl⟩ := List.cons.inj heq
          exact .inr ⟨hm,before,after,rfl,fun k hk => hknown k (List.mem_cons_of_mem x hk)⟩

/-- Of state metrics that are told apart as many halve a score as ask for it when they are
reached. -/
theorem countP_reached {ms : List String} (hms : ms.Nodup) (k : String) :
    (reached s a ms).countP (fun r => Dampens stats a r.2 k) =
      ms.countP fun m => Halves s stats a ms m k := by
  induction ms with
  | nil => rfl
  | cons x ms ih =>
    obtain ⟨hnot,hrest⟩ := List.nodup_cons.mp hms
    cases hx : memoryOf s a x with
    | none =>
      have hnone : reached s a (x::ms) = [] := by rw [reached,hx]
      rw [hnone,List.countP_nil,eq_comm,List.countP_eq_zero]
      rintro m - hm
      obtain ⟨r,hr,-⟩ := of_decide_eq_true hm
      rw [hnone] at hr
      cases hr
    | some rx =>
      have hcons : reached s a (x::ms) = (x,rx)::reached s a ms := by rw [reached,hx]
      have hfirst : Halves s stats a (x::ms) x k ↔ Dampens stats a rx k := by
        rw [Halves,hcons]
        constructor
        · rintro ⟨⟨m,r⟩,hr,hm,hdampens⟩
          obtain rfl : m = x := hm
          rcases List.mem_cons.mp hr with heq | hr
          · rwa [(Prod.mk.inj heq).2] at hdampens
          · obtain ⟨-,before,after,rfl,-⟩ := mem_reached.mp hr
            exact absurd (List.mem_append_right _ List.mem_cons_self) hnot
        · exact fun h => ⟨_,List.mem_cons_self,rfl,h⟩
      have hlater : ∀ m ∈ ms, (Halves s stats a ms m k ↔ Halves s stats a (x::ms) m k) := by
        intro m hm
        rw [Halves,Halves,hcons]
        constructor
        · exact fun ⟨r,hr,h⟩ => ⟨r,List.mem_cons_of_mem _ hr,h⟩
        · rintro ⟨r,hr,rfl,h⟩
          rcases List.mem_cons.mp hr with rfl | hr
          · exact absurd hm hnot
          · exact ⟨r,hr,rfl,h⟩
      rw [hcons,List.countP_cons,List.countP_cons,ih hrest]
      simp only [hfirst]
      congr 1
      refine List.countP_congr fun m hm => ?_
      rw [decide_eq_true_eq,decide_eq_true_eq]
      exact hlater m hm

/-- The branch halves each score once for each state metric that it halves it for. -/
theorem stateBranch_halves {ms : List String} (hms : ms.Nodup) (scores : List (String × F)) :
    stateBranch s stats a ms scores = scores.map fun e =>
      (e.1,half^[ms.countP fun m => Halves s stats a ms m e.1] e.2) := by
  rw [stateBranch_eq,foldl_dampen]
  refine List.map_congr_left fun e _ => ?_
  rw [countP_reached hms]

end Branch

/-! ## What the branch compares -/

section Fitted

variable [StateFloat F] [Spectral F] (p : Params F) (adjustments : List (String × F))
  (s : State F) (t : Training F) (state : Option (TelemetryFrame F)) (entityId : String)
  (w : Window F)

/-- The window as the detector sees it that has been fitted. -/
def fittedSeries : AlignedSeries F := aligned w entityId (fit p s t).2.sampleIntervalNs

/-- What is found in the window before the state branch. -/
def numericVerdict : Option (Verdict F) :=
  scoreWindow p adjustments (fit p s t).2 (fitFrame t.train) (fun _ => false) entityId w

/-- The state that a state metric is in, after its last value. -/
def currentState (m : String) : Option ℤ :=
  (lastValue (fittedSeries p s t entityId w) m).map StateFloat.round

/-- The last value of the metric is within twice the spread of the values it had in training while
the state metric was in the state that it is in. -/
def LikeOwn (m k : String) : Prop :=
  ∃ id ∈ currentState p s t entityId w m, ∃ x ∈ lastValue (fittedSeries p s t entityId w) k,
    InBand (valuesIn t.train ⟨entityId,k⟩ ⟨entityId,m⟩ id) x

/-- It is within twice the spread of the number of the state. -/
def LikeNumber (m k : String) : Prop :=
  ∃ id ∈ currentState p s t entityId w m, ∃ x ∈ lastValue (fittedSeries p s t entityId w) k,
    InBand (numbersOf t.train ⟨entityId,m⟩ id) x

/-- The state that the metric is in has occurred in training. -/
def KnownState (m : String) : Prop :=
  ∃ id ∈ currentState p s t entityId w m, id ∈ t.train.points.filterMap (stateOf ⟨entityId,m⟩)

/-- The score of the metric is halved for the state metric. -/
def HalvedFor (m k : String) : Prop :=
  hasStateOf state entityId = true ∧ Halves (fit p s t).2 (fitFrame t.train)
    (fittedSeries p s t entityId w) (splitMetrics entityId w).2 m k

instance (m k : String) : Decidable (HalvedFor p s t state entityId w m k) :=
  inferInstanceAs (Decidable (_ ∧ _))

/-- For each state metric the scores of those numeric metrics are halved whose last value is one
that they had in the same state. -/
def ComparesLike : Prop :=
  ∀ v ∈ numericVerdict p adjustments s t entityId w, ∀ m ∈ (splitMetrics entityId w).2,
    ∀ k ∈ (splitMetrics entityId w).1, k ∈ v.scores.map Prod.fst →
      (HalvedFor p s t state entityId w m k ↔ LikeOwn p s t entityId w m k)

/-- The last value is close to the number of a state that the branch gets to where it is one that
the metric had in the state, and nowhere else. -/
def NumberTells : Prop :=
  ∀ v ∈ numericVerdict p adjustments s t entityId w, ∀ m ∈ (splitMetrics entityId w).2,
    ∀ k ∈ (splitMetrics entityId w).1, k ∈ v.scores.map Prod.fst →
      ((LikeNumber p s t entityId w m k ∧ hasStateOf state entityId = true ∧ k ≠ quality ∧
          ObservedIn t.train ⟨entityId,k⟩ ∧
          ∃ before after, (splitMetrics entityId w).2 = before++m::after ∧
            ∀ m' ∈ before, KnownState p s t entityId w m') ↔
        LikeOwn p s t entityId w m k)

variable {p adjustments s t state entityId w}

theorem stateMemory_fit (h : (fit p s t).1 = true) :
    (fit p s t).2.stateMemory = fitStateMemory t.train := by
  obtain ⟨hpoints,hfinite⟩ := (fit_returns_iff p s t).mp h
  rw [fit,if_neg hpoints,if_neg hfinite]

/-- The branch finds the statistics of the number of the current state. -/
theorem memoryOf_fit (h : (fit p s t).1 = true) (m : String) (r : F × F) :
    memoryOf (fit p s t).2 (fittedSeries p s t entityId w) m = some r ↔
      ∃ id ∈ currentState p s t entityId w m, numbersOf t.train ⟨entityId,m⟩ id ≠ [] ∧
        centre (numbersOf t.train ⟨entityId,m⟩ id) = r := by
  have hentity : (fittedSeries p s t entityId w).entityId = entityId := rfl
  rw [memoryOf,currentState,stateMemory_fit h,hentity]
  by_cases hm : m ∈ (fittedSeries p s t entityId w).metrics
  · rw [if_neg (not_not.mpr hm)]
    cases lastValue (fittedSeries p s t entityId w) m with
    | none => simp
    | some x =>
      rw [Option.bind_some,lookup_fitStateMemory]
      by_cases hnil : numbersOf t.train ⟨entityId,m⟩ (StateFloat.round x) = []
      · simp [hnil]
      · simp [hnil]
  · rw [if_pos hm]
    have hnone : lastValue (fittedSeries p s t entityId w) m = none := by
      by_contra hsome
      refine hm (observed_of_finite (fit p s t).2.sampleIntervalNs fun hnil => hsome ?_).1
      rw [lastValue,fittedSeries,hnil,List.getLast?_nil]
    simp [hnone]

theorem isSome_memoryOf_fit (h : (fit p s t).1 = true) (m : String) :
    (memoryOf (fit p s t).2 (fittedSeries p s t entityId w) m).isSome ↔
      KnownState p s t entityId w m := by
  rw [Option.isSome_iff_exists,KnownState]
  simp only [memoryOf_fit h,ne_eq,numbersOf_eq_nil,not_not]
  constructor
  · rintro ⟨-,id,hid,hin,-⟩
    exact ⟨id,hid,hin⟩
  · rintro ⟨id,hid,hin⟩
    exact ⟨_,id,hid,hin,rfl⟩

/-- A score is halved for a metric that is close to the number of a state that the branch gets
to. -/
theorem halves_iff (h : (fit p s t).1 = true) (m k : String) :
    Halves (fit p s t).2 (fitFrame t.train) (fittedSeries p s t entityId w)
        (splitMetrics entityId w).2 m k ↔
      LikeNumber p s t entityId w m k ∧ k ≠ quality ∧ ObservedIn t.train ⟨entityId,k⟩ ∧
        ∃ before after, (splitMetrics entityId w).2 = before++m::after ∧
          ∀ m' ∈ before, KnownState p s t entityId w m' := by
  have hstats : ((fitFrame t.train).lookup ⟨entityId,k⟩).isSome ↔
      ObservedIn t.train ⟨entityId,k⟩ := by
    rw [← mem_keys_fitFrame,mem_keys_iff,Option.isSome_iff_exists]
  rw [← hstats]
  constructor
  · rintro ⟨⟨x,r⟩,hr,rfl,hname,hobserved,last,hlast,hclose⟩
    obtain ⟨hmemory,before,after,hsplit,hknown⟩ := mem_reached.mp hr
    obtain ⟨id,hid,hnumbers,rfl⟩ := (memoryOf_fit h x r).mp hmemory
    exact ⟨⟨id,hid,last,hlast,hnumbers,hclose⟩,hname,hobserved,before,after,hsplit,
      fun m' hm' => (isSome_memoryOf_fit h m').mp (hknown m' hm')⟩
  · rintro ⟨⟨id,hid,last,hlast,hnumbers,hclose⟩,hname,hobserved,before,after,hsplit,hknown⟩
    refine ⟨(m,centre (numbersOf t.train ⟨entityId,m⟩ id)),mem_reached.mpr ⟨?_,before,after,hsplit,
      fun m' hm' => (isSome_memoryOf_fit h m').mpr (hknown m' hm')⟩,rfl,hname,hobserved,last,hlast,
      hclose⟩
    exact (memoryOf_fit h m _).mpr ⟨id,hid,hnumbers,rfl⟩

variable (adjustments state)

/-- A window that is scored gets the numeric scores, each halved once for each state metric that it
is halved for; these are the right ones exactly where the number of a state tells what the metric
had in it. -/
theorem state_conditioning_iff (h : (fit p s t).1 = true) :
    (∀ frame, score p adjustments (fit p s t).2 state frame = some (found keepFirst p.maker
      (scoreWindow p adjustments (fit p s t).2 (fitFrame t.train) (hasStateOf state)) frame)) ∧
    scoreWindow p adjustments (fit p s t).2 (fitFrame t.train) (hasStateOf state) entityId w =
      (numericVerdict p adjustments s t entityId w).map (fun v => { v with
        scores := v.scores.map fun e => (e.1,half^[(splitMetrics entityId w).2.countP fun m =>
          HalvedFor p s t state entityId w m e.1] e.2) }) ∧
    (ComparesLike p adjustments s t state entityId w ↔
      NumberTells p adjustments s t state entityId w) := by
  refine ⟨fun frame => ?_,?_,?_⟩
  · obtain ⟨hpoints,hfinite⟩ := (fit_returns_iff p s t).mp h
    rw [score,fit,if_neg hpoints,if_neg hfinite]
    rfl
  · rw [numericVerdict,scoreWindow,scoreWindow]
    dsimp only
    split
    · rfl
    · rw [Option.map_map]
      refine Option.map_congr fun v _ => ?_
      rw [Function.comp_apply,if_neg Bool.false_ne_true]
      by_cases hstate : hasStateOf state entityId = true
      · rw [if_pos hstate,stateBranch_halves (nodup_splitMetrics entityId w).2]
        simp only [HalvedFor,hstate,true_and]
        rfl
      · rw [if_neg hstate]
        simp [HalvedFor,hstate]
  · rw [ComparesLike,NumberTells]
    refine forall₂_congr fun v hv => forall₂_congr fun m hm => forall₂_congr fun k hk =>
      imp_congr_right fun hscore => ?_
    rw [HalvedFor,halves_iff h]
    rw [and_left_comm]

end Fitted

/-- In exact arithmetic what is like the number of a state is no more than two billionths away. -/
theorem inBand_numbersOf (train : TelemetryFrame (Option ℚ)) (m : Channel) (id : ℤ) (x : ℚ) :
    InBand (numbersOf train m id) (some x) ↔
      id ∈ train.points.filterMap (stateOf m) ∧ |x-id| ≤ 2/10^9 := by
  rw [InBand,ne_eq,numbersOf_eq_nil,not_not]
  refine and_congr_right fun hin => ?_
  obtain ⟨n,hn⟩ := Nat.exists_eq_add_one.mpr (List.count_pos_iff.mpr hin)
  have hcentre : centre (numbersOf train m id) = (some (id : ℚ),some 0) := by
    have hcopies : numbersOf train m id = List.replicate (n+1) (some (id : ℚ)) := by
      rw [numbersOf,hn]
      rfl
    rw [hcopies,centre,median_replicate,madAround_replicate]
  rw [hcentre]
  dsimp only
  simp only [lit_eq,some_add_some,some_mul_some,some_sub_some,abs_some]
  rw [← not_lt]
  refine not_congr ((some_lt_some _ _).trans ?_)
  norm_num
/-! ## A load that is normal for its governor -/

def governorPoint (tsNs : ℕ) : TelemetryPoint Exact where
  tsNs := tsNs
  entityId := "host"
  metricId := "governor"
  value := some (some 1)
  quality := .observed
  attrs := [("role","state")]

def loadPoint (tsNs : ℕ) (value : ℚ) : TelemetryPoint Exact where
  tsNs := tsNs
  entityId := "host"
  metricId := "load"
  value := some (some value)
  quality := .observed

/-- A load around ten while the governor is one. -/
def governorTraining : Training Exact where
  train :=
    { points := [governorPoint 0,loadPoint 100 9,loadPoint 110 11,loadPoint 120 9,loadPoint 130 11]
      ordered := by decide
      unique := by decide }
  validation := none

/-- The load falls from 20 to ten and stays there. -/
def loadFrame : TelemetryFrame Exact where
  points := governorPoint 0::loadPoint 0 20::
    [10,20,30,40,50,60,70,80,90].map fun tsNs => loadPoint tsNs 10
  ordered := by decide
  unique := by decide

def governorFrame : TelemetryFrame Exact where
  points := [governorPoint 0]
  ordered := by decide
  unique := by decide

theorem commonGap_governorTraining : commonGap governorTraining.train = some 10 := by
  rw [commonGap,gaps,timestamps_eq (by decide)]
  decide

/-- The state that the training leaves. -/
def governorTrained : State Exact := fitted tenCells governorTraining 10

theorem fit_governorTraining : fit tenCells {} governorTraining = (true,governorTrained) :=
  fit_new (by decide) (by decide) commonGap_governorTraining

def loadWindow : Window Exact := ⟨0,100,loadFrame⟩

theorem state_conditioning_load : (fit tenCells {} governorTraining).1 = true ∧
    (ComparesLike tenCells [] {} governorTraining (some governorFrame) "host" loadWindow ↔
      NumberTells tenCells [] {} governorTraining (some governorFrame) "host" loadWindow) :=
  have hfit : (fit tenCells {} governorTraining).1 = true := by rw [fit_governorTraining]
  ⟨hfit,(state_conditioning_iff [] (some governorFrame) hfit).2.2⟩

theorem loadWindow_mem : loadWindow ∈ tenCells.maker.windows loadFrame :=
  (SlidingWindowMaker.mem_windows ..).mpr
    ⟨⟨Nat.dvd_zero _,⟨governorPoint 0,rfl,by decide⟩,loadPoint 90 10,rfl,by decide⟩,
      rfl,rfl,rfl,List.cons_ne_nil _ _⟩

/-- The window with its two metrics. -/
def loadSeries : AlignedSeries Exact :=
  alignWindow loadFrame "host" 0 100 10 (some ["governor","load"])

theorem aligned_loadWindow :
    aligned loadWindow "host" governorTrained.sampleIntervalNs = loadSeries := by
  have hmetrics : sortedSet ((entityPoints loadFrame "host" 0 100).map TelemetryPoint.metricId) =
      ["governor","load"] := sortedSet_eq _ (by decide) (by decide)
  exact congrArg (fun metrics => alignWindow loadFrame "host" 0 100 10 (some metrics)) hmetrics

theorem splitMetrics_loadWindow :
    splitMetrics "host" loadWindow = (["load"],["governor"]) := by decide

theorem fittedSeries_load : fittedSeries tenCells {} governorTraining "host" loadWindow =
    loadSeries := by
  rw [fittedSeries,fit_governorTraining]
  exact aligned_loadWindow

/-- The event ring finds the load above its threshold. -/
theorem numericVerdict_load : (numericVerdict tenCells [] {} governorTraining "host" loadWindow).map
    (fun v => v.scores.map Prod.fst) = some ["load"] := by
  rw [numericVerdict,fit_governorTraining,scoreWindow]
  simp only [aligned_loadWindow]
  decide +kernel

/-- The last value is the median that the load had while the governor was one. -/
theorem likeOwn_load :
    LikeOwn tenCells {} governorTraining "host" loadWindow "governor" "load" := by
  rw [LikeOwn,currentState,fittedSeries_load]
  decide +kernel

theorem not_halvedFor_load : ¬ HalvedFor tenCells {} governorTraining (some governorFrame) "host"
    loadWindow "governor" "load" := by
  rw [HalvedFor,fittedSeries_load,fit_governorTraining,splitMetrics_loadWindow]
  decide +kernel

/-- The score of a load that is usual for the governor stays what it was. -/
theorem usual_load_not_halved : ¬ ∀ w ∈ tenCells.maker.windows loadFrame,
    ComparesLike tenCells [] {} governorTraining (some governorFrame) "host" w := by
  intro h
  obtain ⟨v,hv,hscores⟩ := Option.map_eq_some_iff.mp numericVerdict_load
  have hcompares := h loadWindow loadWindow_mem v hv "governor"
    (by rw [splitMetrics_loadWindow]; exact List.mem_singleton_self _) "load"
    (by rw [splitMetrics_loadWindow]; exact List.mem_singleton_self _)
    (by rw [hscores]; exact List.mem_singleton_self _)
  exact not_halvedFor_load (hcompares.mpr likeOwn_load)

end EdgeCascade
end ETraceDiag
