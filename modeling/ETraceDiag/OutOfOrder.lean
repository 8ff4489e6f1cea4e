import ETraceDiag.DataWindow
import ETraceDiag.Transition

/-!
# The out-of-order buffer

`OutOfOrderBuffer` of `data/window.py`, and what a stream of calls of `accept` and `drain` lets
through.
-/

namespace ETraceDiag
namespace OutOfOrder

open DataWindow

variable {F : Type}

/-- No two points of the buffer are duplicates: that is what `accept` checks. -/
structure OutOfOrderBuffer (F : Type) where
  toleranceNs : ℤ
  newest : ℤ
  points : List (TelemetryPoint F)
  unique : (points.map TelemetryPoint.key).Nodup

def empty (toleranceNs : ℤ) : OutOfOrderBuffer F := ⟨toleranceNs,0,[],List.nodup_nil⟩

/-- `OutOfOrderError` and `DuplicatePointError`. -/
inductive Rejection
  | outOfOrder (tsNs : ℕ) (bufferToleranceNs earliestAcceptedNs : ℤ)
  | duplicate (key : String × String × ℕ × CausalInput.Quality)

theorem unique_append {points : List (TelemetryPoint F)} {p : TelemetryPoint F}
    (hpoints : (points.map TelemetryPoint.key).Nodup)
    (hp : p.key ∉ points.map TelemetryPoint.key) :
    ((points++[p]).map TelemetryPoint.key).Nodup := by
  rw [List.map_append,List.map_singleton,List.nodup_append_comm,List.singleton_append]
  exact List.nodup_cons.mpr ⟨hp,hpoints⟩

/-- `accept`, and the buffer after it, also where it raises. -/
def accept (b : OutOfOrderBuffer F) (p : TelemetryPoint F) :
    Except Rejection Unit × OutOfOrderBuffer F :=
  if b.points ≠ [] ∧ (p.tsNs : ℤ) < b.newest-b.toleranceNs then
    (.error (.outOfOrder p.tsNs b.toleranceNs (b.newest-b.toleranceNs)),b)
  else
    let newest : ℤ := if b.points = [] then p.tsNs else max b.newest p.tsNs
    if h : p.key ∈ b.points.map TelemetryPoint.key then
      (.error (.duplicate p.key),{ b with newest := newest })
    else
      (.ok (),{ b with
        newest := newest
        points := b.points++[p]
        unique := unique_append b.unique h })

/-- The points by their time. -/
def byTime (points : List (TelemetryPoint F)) : List (TelemetryPoint F) :=
  points.mergeSort fun p q => p.tsNs ≤ q.tsNs

theorem byTime_perm (points : List (TelemetryPoint F)) : (byTime points).Perm points :=
  List.mergeSort_perm _ _

theorem byTime_ordered (points : List (TelemetryPoint F)) :
    (byTime points).Pairwise fun p q => p.tsNs ≤ q.tsNs := by
  have hsorted : (byTime points).Pairwise fun p q => decide (p.tsNs ≤ q.tsNs) = true := by
    refine List.pairwise_mergeSort (fun p q r hpq hqr => ?_) (fun p q => ?_) points
    · simp only [decide_eq_true_eq] at hpq hqr ⊢
      exact hpq.trans hqr
    · simpa using le_total p.tsNs q.tsNs
  exact hsorted.imp fun h => of_decide_eq_true h

def drain (b : OutOfOrderBuffer F) : TelemetryFrame F × OutOfOrderBuffer F :=
  ({ points := byTime b.points
     ordered := byTime_ordered b.points
     unique := ((byTime_perm b.points).map TelemetryPoint.key).nodup_iff.mpr b.unique },
   { b with newest := 0, points := [], unique := List.nodup_nil })

/-! ## Streams of calls -/

inductive Call (F : Type)
  | accept (p : TelemetryPoint F)
  | drain

/-- The buffer, with what has been accepted so far and the frames that have been drained. -/
structure Stream (F : Type) where
  buffer : OutOfOrderBuffer F
  accepted : List (TelemetryPoint F) := []
  frames : List (TelemetryFrame F) := []

def start (toleranceNs : ℤ) : Stream F := { buffer := empty toleranceNs }

def step (s : Stream F) : Call F → Stream F
  | .accept p =>
    match accept s.buffer p with
    | (.ok (),b) => { s with buffer := b, accepted := s.accepted++[p] }
    | (.error _,b) => { s with buffer := b }
  | .drain =>
    let (frame,b) := drain s.buffer
    { s with buffer := b, frames := s.frames++[frame] }

/-- The points that have been drained. -/
def Stream.drained (s : Stream F) : List (TelemetryPoint F) :=
  s.frames.flatMap TelemetryFrame.points

/-- Older than one of the points by more than the tolerance. -/
def TooOld (toleranceNs : ℤ) (points : List (TelemetryPoint F)) (p : TelemetryPoint F) : Prop :=
  ∃ q ∈ points, (p.tsNs : ℤ) < q.tsNs-toleranceNs

def Duplicate (points : List (TelemetryPoint F)) (p : TelemetryPoint F) : Prop :=
  p.key ∈ points.map TelemetryPoint.key

theorem tooOld_append (toleranceNs : ℤ) (ps qs : List (TelemetryPoint F))
    (p : TelemetryPoint F) :
    TooOld toleranceNs (ps++qs) p ↔ TooOld toleranceNs ps p ∨ TooOld toleranceNs qs p := by
  simp only [TooOld,List.mem_append,or_and_right,exists_or]

theorem duplicate_append (ps qs : List (TelemetryPoint F)) (p : TelemetryPoint F) :
    Duplicate (ps++qs) p ↔ Duplicate ps p ∨ Duplicate qs p := by
  simp only [Duplicate,List.map_append,List.mem_append]

theorem TooOld.perm {toleranceNs : ℤ} {ps qs : List (TelemetryPoint F)} (h : ps.Perm qs)
    (p : TelemetryPoint F) : TooOld toleranceNs ps p ↔ TooOld toleranceNs qs p := by
  simp only [TooOld,h.mem_iff]

theorem Duplicate.perm {ps qs : List (TelemetryPoint F)} (h : ps.Perm qs)
    (p : TelemetryPoint F) : Duplicate ps p ↔ Duplicate qs p :=
  (h.map TelemetryPoint.key).mem_iff

/-! ## One call -/

/-- `_newest` is the newest time in the buffer. -/
structure Tracks (b : OutOfOrderBuffer F) : Prop where
  le : ∀ q ∈ b.points, (q.tsNs : ℤ) ≤ b.newest
  attained : b.points ≠ [] → ∃ q ∈ b.points, (q.tsNs : ℤ) = b.newest

theorem tracks_empty (toleranceNs : ℤ) : Tracks (empty toleranceNs : OutOfOrderBuffer F) :=
  ⟨fun _ hq => absurd hq List.not_mem_nil,fun h => absurd rfl h⟩

/-- To be older than the newest time by more than the tolerance is to be too old. -/
theorem Tracks.tooOld_iff {b : OutOfOrderBuffer F} (h : Tracks b) (p : TelemetryPoint F) :
    (b.points ≠ [] ∧ (p.tsNs : ℤ) < b.newest-b.toleranceNs) ↔
      TooOld b.toleranceNs b.points p := by
  constructor
  · rintro ⟨hne,hlt⟩
    obtain ⟨q,hq,hnewest⟩ := h.attained hne
    exact ⟨q,hq,hnewest ▸ hlt⟩
  · rintro ⟨q,hq,hlt⟩
    have hle := h.le q hq
    exact ⟨List.ne_nil_of_mem hq,by omega⟩

/-- The newest time after a point that has not been refused for its age. -/
def newestWith (b : OutOfOrderBuffer F) (p : TelemetryPoint F) : ℤ :=
  if b.points = [] then p.tsNs else max b.newest p.tsNs

/-- What `accept` can do. -/
theorem accept_cases {b : OutOfOrderBuffer F} (h : Tracks b) (p : TelemetryPoint F) :
    ((TooOld b.toleranceNs b.points p ∨ Duplicate b.points p) ∧
      ∃ e, accept b p = (.error e,b)) ∨
    (¬ (TooOld b.toleranceNs b.points p ∨ Duplicate b.points p) ∧ ∃ unique,
      accept b p = (.ok (),⟨b.toleranceNs,newestWith b p,b.points++[p],unique⟩)) := by
  by_cases hold : b.points ≠ [] ∧ (p.tsNs : ℤ) < b.newest-b.toleranceNs
  · exact .inl ⟨.inl ((h.tooOld_iff p).mp hold),_,by rw [accept,if_pos hold]⟩
  · have hfresh := mt (h.tooOld_iff p).mpr hold
    by_cases hdup : p.key ∈ b.points.map TelemetryPoint.key
    · refine .inl ⟨.inr hdup,.duplicate p.key,?_⟩
      -- a duplicate has the time of a point of the buffer, and the newest time stays
      obtain ⟨q,hq,hkey⟩ := List.mem_map.mp hdup
      have hts : q.tsNs = p.tsNs := congrArg (fun k => k.2.2.1) hkey
      have hle := h.le q hq
      have hnewest : newestWith b p = b.newest := by
        rw [newestWith,if_neg (List.ne_nil_of_mem hq),← hts,max_eq_left hle]
      rw [accept,if_neg hold]
      simp only [hdup,dif_pos]
      rw [← newestWith,hnewest]
    · refine .inr ⟨not_or.mpr ⟨hfresh,hdup⟩,?_⟩
      rw [accept,if_neg hold]
      simp only [hdup,not_false_eq_true,dif_neg]
      exact ⟨unique_append b.unique hdup,rfl⟩

theorem tracks_newestWith {b : OutOfOrderBuffer F} (h : Tracks b) (p : TelemetryPoint F)
    (unique : ((b.points++[p]).map TelemetryPoint.key).Nodup) :
    Tracks ⟨b.toleranceNs,newestWith b p,b.points++[p],unique⟩ := by
  by_cases hnil : b.points = []
  · constructor <;> simp [newestWith,hnil]
  · rw [newestWith,if_neg hnil]
    constructor
    · intro q hq
      rcases List.mem_append.mp hq with hq | hq
      · exact (h.le q hq).trans (le_max_left _ _)
      · rw [List.mem_singleton.mp hq]
        exact le_max_right _ _
    · intro _
      rcases le_total b.newest p.tsNs with hle | hle
      · exact ⟨p,by simp,(max_eq_right hle).symm⟩
      · obtain ⟨q,hq,hnewest⟩ := h.attained hnil
        exact ⟨q,List.mem_append_left _ hq,hnewest.trans (max_eq_left hle).symm⟩

/-! ## Streams -/

/-- What every stream keeps. -/
structure Kept (toleranceNs : ℤ) (s : Stream F) : Prop where
  tracks : Tracks s.buffer
  tolerance : s.buffer.toleranceNs = toleranceNs
  accepted : s.accepted.Perm (s.drained++s.buffer.points)

theorem kept_start (toleranceNs : ℤ) : Kept toleranceNs (start toleranceNs : Stream F) :=
  ⟨tracks_empty toleranceNs,rfl,List.Perm.nil⟩

theorem kept_step {toleranceNs : ℤ} {s : Stream F} (h : Kept toleranceNs s) (call : Call F) :
    Kept toleranceNs (step s call) := by
  cases call with
  | accept p =>
    rcases accept_cases h.tracks p with ⟨-,e,he⟩ | ⟨-,unique,hok⟩
    · rw [step,he]
      exact h
    · rw [step,hok]
      refine ⟨tracks_newestWith h.tracks p unique,h.tolerance,?_⟩
      change (s.accepted++[p]).Perm (s.drained++(s.buffer.points++[p]))
      rw [← List.append_assoc]
      exact h.accepted.append_right [p]
  | drain =>
    refine ⟨⟨fun _ hq => absurd hq List.not_mem_nil,fun hne => absurd rfl hne⟩,h.tolerance,?_⟩
    have hdrained : (step s .drain).drained = s.drained++byTime s.buffer.points := by
      rw [step,Stream.drained,List.flatMap_append]
      simp [drain,Stream.drained]
    rw [hdrained]
    change s.accepted.Perm (s.drained++byTime s.buffer.points++[])
    rw [List.append_nil]
    exact h.accepted.trans ((byTime_perm s.buffer.points).symm.append_left _)

/-- A point is accepted exactly when it is not too old for what the stream has accepted and no
duplicate of it; a point that is not leaves the buffer as it is. -/
structure AcceptsByStream (toleranceNs : ℤ) (s : Stream F) (p : TelemetryPoint F) : Prop where
  accepts : (accept s.buffer p).1 = .ok () ↔
    ¬ TooOld toleranceNs s.accepted p ∧ ¬ Duplicate s.accepted p
  unchanged : ∀ e, (accept s.buffer p).1 = .error e → (accept s.buffer p).2 = s.buffer

def CallByStream (toleranceNs : ℤ) (s : Stream F) : Call F → Prop
  | .accept p => AcceptsByStream toleranceNs s p
  | .drain => True

/-- What is too old for, or a duplicate of, a drained point is so for the buffer as well. -/
def CallByBuffer (toleranceNs : ℤ) (s : Stream F) : Call F → Prop
  | .accept p =>
    TooOld toleranceNs s.drained p ∨ Duplicate s.drained p →
      TooOld toleranceNs s.buffer.points p ∨ Duplicate s.buffer.points p
  | .drain => True

theorem callByStream_iff {toleranceNs : ℤ} {s : Stream F} (h : Kept toleranceNs s)
    (call : Call F) : CallByStream toleranceNs s call ↔ CallByBuffer toleranceNs s call := by
  cases call with
  | drain => exact Iff.rfl
  | accept p =>
    obtain ⟨htracks,rfl,haccepted⟩ := h
    have hold := (TooOld.perm haccepted p).trans (tooOld_append s.buffer.toleranceNs _ _ p)
    have hdup := (Duplicate.perm haccepted p).trans (duplicate_append _ _ p)
    simp only [CallByStream,CallByBuffer]
    rcases accept_cases htracks p with ⟨hno,e,he⟩ | ⟨hno,unique,hok⟩
    · refine iff_of_true ⟨?_,fun _ _ => by rw [he]⟩ fun _ => hno
      rw [he,hold,hdup]
      exact iff_of_false (fun heq => by cases heq) (by tauto)
    · have hunchanged : ∀ e, (accept s.buffer p).1 = .error e →
          (accept s.buffer p).2 = s.buffer := by
        intro e he
        rw [hok] at he
        cases he
      constructor
      · intro hlaw hdrained
        have hfresh := hlaw.accepts.mp (by rw [hok])
        rw [hold,hdup] at hfresh
        tauto
      · intro hbuffer
        refine ⟨?_,hunchanged⟩
        rw [hok,hold,hdup]
        exact iff_of_true rfl (by tauto)

/-- The law of the whole stream: every call keeps to it, and once the buffer is drained every
point that was accepted is in one place of one frame. -/
structure StreamLaw (toleranceNs : ℤ) (calls : List (Call F)) : Prop where
  along : Transition.Along step (CallByStream toleranceNs) (start toleranceNs) calls
  once : (step (Transition.run step (start toleranceNs) calls) .drain).accepted.Perm
    (step (Transition.run step (start toleranceNs) calls) .drain).drained

theorem kept_run {toleranceNs : ℤ} (calls : List (Call F)) : ∀ {s : Stream F},
    Kept toleranceNs s → Kept toleranceNs (Transition.run step s calls) := by
  induction calls with
  | nil => exact fun h => h
  | cons call calls ih => exact fun h => ih (kept_step h call)

/-- A stream keeps the law exactly when no call of `accept` would need a point that `drain` has
forgotten. -/
theorem streamLaw_iff (toleranceNs : ℤ) (calls : List (Call F)) :
    StreamLaw toleranceNs calls ↔
      Transition.Along step (CallByBuffer toleranceNs) (start toleranceNs) calls := by
  have hagree := Transition.Along.iff_of_invariant step (I:=Kept toleranceNs)
    (fun s call h => callByStream_iff h call) (fun s call h _ => kept_step h call) calls _
    (kept_start toleranceNs)
  rw [← hagree]
  refine ⟨StreamLaw.along,fun h => ⟨h,?_⟩⟩
  have hkept := kept_step (kept_run calls (kept_start toleranceNs)) .drain
  have hall := hkept.accepted
  change List.Perm _ (_++[]) at hall
  rwa [List.append_nil] at hall

def cpuAt (tsNs : ℕ) : TelemetryPoint ℚ where
  tsNs := tsNs
  entityId := "host"
  metricId := "cpu_user"
  value := some 1
  quality := .observed

/-- After a drain a point of any age is accepted. -/
theorem drained_not_law :
    ¬ StreamLaw (F:=ℚ) 5 [.accept (cpuAt 100),.drain,.accept (cpuAt 0)] := by
  intro h
  obtain ⟨-,-,hlast,-⟩ := h.along
  have hfresh := (hlast.accepts.mp rfl).1
  exact hfresh ⟨cpuAt 100,List.mem_singleton_self _,by decide⟩

end OutOfOrder
end ETraceDiag
