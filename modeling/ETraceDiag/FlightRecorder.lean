import Mathlib.Algebra.Ring.Nat
import Mathlib.Data.List.Sort
import Mathlib.Data.Nat.Bits
import ETraceDiag.SeqRing
import ETraceDiag.Transition

/-!
# The flight recorder

The timer commits one summed record per target and tick into the ring (`rec_commit`); the deep
collector takes the pre-window out of it when an episode starts (`Enter`, `ExtractPre`) and
drains it once per main loop and once more at the end (`DrainPost`). Either side may run
between any two map operations of the other. A map operation is atomic here, the copy of a
record included, and the record numbers stay below 2^63.
-/

namespace ETraceDiag
namespace FlightRecorder

open SeqRing Transition

/-- `ETD_RING_CAP`, a power of two; 32768 unless the build sets it. -/
structure Capacity where
  log2 : ℕ := 15
  big : 6 < log2 := by decide

def Capacity.default : Capacity := {}

def Capacity.cap (c : Capacity) : ℕ := 2^c.log2

/-- `head & (ETD_RING_CAP-1)`. -/
def Capacity.ix (c : Capacity) (i : ℕ) : ℕ := i &&& (c.cap-1)

/-- A record without its `seq`; `data` is the tid and the counters. -/
structure Snapshot (δ : Type) where
  tsNs : ℕ
  flags : ℕ
  data : δ

abbrev KernelSnapshotRec (δ : Type) := Slot (Snapshot δ)

/-- The loop over the ring: `ExtractPre`, or the `DrainPost` of a tick or of `Finalize`. -/
inductive Job
  | pre
  | post (final : Bool)
  deriving DecidableEq,Repr

/-- Where the consumer stands: in a loop, it is about to look record `i` up for the first time
(`scan`) or for the second time (`check`). -/
inductive Pc (δ : Type)
  | base
  | entered
  | scan (job : Job) (i stop : ℕ) (recs : List (KernelSnapshotRec δ))
  | check (job : Job) (i stop : ℕ) (a : KernelSnapshotRec δ) (recs : List (KernelSnapshotRec δ))
  | ready
  | done

/-- `overrun` and `sealed` are history: the records whose slot already held a later one when
they were looked up, and the number of records committed when the final drain began. -/
structure State (δ : Type) where
  ring : SeqRing.Ring (Snapshot δ)
  pc : Pc δ := .base
  prevHead : ℕ := 0
  cutoff : ℕ := 0
  preRows : List (KernelSnapshotRec δ) := []
  postRows : List (KernelSnapshotRec δ) := []
  gaps : List (ℕ×ℕ) := []
  overrun : List ℕ := []
  sealed : ℕ := 0

inductive Action (δ : Type)
  | start (now : ℕ) (deep : Bool) (data : δ)
  | copy
  | commit
  | enter (anomalyStartNs preAnomalySeconds : ℕ)
  | advance
  | drainPost (final : Bool)

variable {δ : Type}

/-! ## The consumer -/

def Job.begin (job : Job) (c : Capacity) (prevHead head : ℕ) : ℕ :=
  match job with
  | .pre => if c.cap < head then head-c.cap else 0
  | .post _ => prevHead+1

/-- The loop of `ExtractPre` runs while `i < head`, the one of `DrainPost` while `i <= head`. -/
def Job.stop (job : Job) (head : ℕ) : ℕ :=
  match job with
  | .pre => head
  | .post _ => head+1

/-- The two lookups agree on record `i`; only `ExtractPre` looks at its time. -/
def Job.accepts (job : Job) (cutoff i : ℕ) (a b : KernelSnapshotRec δ) : Bool :=
  a.seq = b.seq && a.seq = 2*i && (job ≠ .pre || cutoff ≤ b.val.tsNs)

def sortRecs (recs : List (KernelSnapshotRec δ)) : List (KernelSnapshotRec δ) :=
  recs.insertionSort fun a b => a.val.tsNs ≤ b.val.tsNs

def State.note (c : Capacity) (i : ℕ) (s : State δ) : State δ :=
  if i+c.cap < s.ring.copied then { s with overrun := s.overrun++[i] } else s

/-- The rows are written when the loop has ended. -/
def State.finish (job : Job) (stop : ℕ) (recs : List (KernelSnapshotRec δ)) (s : State δ) :
    State δ :=
  match job with
  | .pre => { s with pc := .ready, preRows := s.preRows++sortRecs recs }
  | .post final =>
    { s with
      pc := if final then .done else .ready
      prevHead := stop-1
      postRows := s.postRows++sortRecs recs }

/-- The first lookup of record `i`. -/
def State.lookupA (c : Capacity) (job : Job) (i stop : ℕ) (recs : List (KernelSnapshotRec δ))
    (s : State δ) : State δ :=
  let a := s.ring.slots (c.ix i)
  let s := s.note c i
  if a.seq % 2 = 1 then { s with pc := .scan job (i+1) stop recs }
  else { s with pc := .check job i stop a recs }

/-- The second lookup of record `i`. -/
def State.lookupB (c : Capacity) (job : Job) (i stop : ℕ) (a : KernelSnapshotRec δ)
    (recs : List (KernelSnapshotRec δ)) (s : State δ) : State δ :=
  let b := s.ring.slots (c.ix i)
  if job.accepts s.cutoff i a b then { s with pc := .scan job (i+1) stop (recs++[b]) }
  else
    let s := if a.seq = 2*i then s.note c i else s
    { s with pc := .scan job (i+1) stop recs }

/-- The next map operation of the consumer; in `entered` it is the head lookup of
`ExtractPre`. -/
def State.advance (c : Capacity) (s : State δ) : State δ :=
  match s.pc with
  | .entered =>
    let head := s.ring.head
    { s with pc := .scan .pre (Job.pre.begin c s.prevHead head) (Job.pre.stop head) [] }
  | .scan job i stop recs =>
    if i < stop then s.lookupA c job i stop recs else s.finish job stop recs
  | .check job i stop a recs => s.lookupB c job i stop a recs
  | _ => s

/-- `Enter` up to `prev_head_`, with the cutoff `ExtractPre` will use. -/
def State.enter (anomalyStartNs preAnomalySeconds : ℕ) (s : State δ) : State δ :=
  match s.pc with
  | .base =>
    let preNs := preAnomalySeconds*1000000000
    { s with
      pc := .entered
      prevHead := s.ring.head
      cutoff := if preNs < anomalyStartNs then anomalyStartNs-preNs else 0 }
  | _ => s

/-- `DrainPost` up to its loop. -/
def State.drainPost (c : Capacity) (final : Bool) (s : State δ) : State δ :=
  match s.pc with
  | .ready =>
    let head := s.ring.head
    { s with
      pc := .scan (.post final) ((Job.post final).begin c s.prevHead head)
        ((Job.post final).stop head) []
      gaps := if c.cap-64 ≤ head-s.prevHead then s.gaps++[(s.prevHead,head)] else s.gaps
      sealed := if final then s.ring.committed else s.sealed }
  | _ => s

def step (c : Capacity) (s : State δ) : Action δ → State δ
  | .start now deep data =>
    { s with ring := s.ring.start ⟨now,if deep then 1 else 0,data⟩ }
  | .copy => { s with ring := s.ring.copy c.ix }
  | .commit => { s with ring := s.ring.commit c.ix }
  | .enter anomalyStartNs preAnomalySeconds => s.enter anomalyStartNs preAnomalySeconds
  | .advance => s.advance c
  | .drainPost final => s.drainPost c final

/-- The ring array starts out zeroed. -/
def State.init (zero : δ) : State δ := { ring := Ring.init ⟨0,0,zero⟩ }

/-! ## Exactly once -/

def Pc.recs : Pc δ → List (KernelSnapshotRec δ)
  | .scan _ _ _ recs => recs
  | .check _ _ _ _ recs => recs
  | _ => []

/-- The rows written so far, then what the running loop has collected. -/
def State.rows (s : State δ) : List (KernelSnapshotRec δ) := s.preRows++s.postRows++s.pc.recs

def State.rowsOf (s : State δ) (i : ℕ) : List (KernelSnapshotRec δ) :=
  s.rows.filter (·.seq = 2*i)

def State.inGap (s : State δ) (i : ℕ) : Prop := ∃ g ∈ s.gaps, g.1 ≤ i ∧ i < g.2

/-- Record `i` is in exactly one row, or it was overwritten before it was read and a gap row
says so. -/
def State.Accounted (s : State δ) (i : ℕ) (v : Snapshot δ) : Prop :=
  s.rowsOf i = [⟨2*i,v⟩] ∨ (s.rowsOf i = [] ∧ i ∈ s.overrun ∧ s.inGap i)

/-- At the end of the episode every record that was committed before the final drain and is
not older than the pre-window is accounted for. -/
def State.ExactlyOnce (s : State δ) : Prop :=
  s.pc matches .done → ∀ i v, i < s.sealed → s.ring.items[i]? = some v →
    s.cutoff ≤ v.tsNs → s.Accounted i v

/-! ## When a step keeps the promise -/

def Job.final : Job → Bool
  | .pre => false
  | .post final => final

/-- The final drain has begun. -/
def Pc.final : Pc δ → Bool
  | .scan job _ _ _ => job.final
  | .check job _ _ _ _ => job.final
  | .done => true
  | _ => false

/-- The loop is at record `i`; no later lookup of the episode is for record `k`. -/
def Job.passed (job : Job) (prevHead i stop k : ℕ) : Prop :=
  match job with
  | .pre => k ≤ prevHead ∧ (k < i ∨ stop ≤ k)
  | .post _ => k < i

/-- The consumer will not take record `k` any more. -/
def State.passed (s : State δ) (k : ℕ) : Prop :=
  match s.pc with
  | .base => False
  | .entered => False
  | .scan job i stop _ => job.passed s.prevHead i stop k
  | .check job i stop a _ => job.passed s.prevHead (if a.seq = 2*i then i else i+1) stop k
  | .ready => k ≤ s.prevHead
  | .done => k ≤ s.prevHead

def State.limit (s : State δ) : ℕ := if s.pc.final then s.sealed else s.ring.committed

/-- The episode owes a row for record `k`. -/
def State.Due (s : State δ) (k : ℕ) (v : Snapshot δ) : Prop :=
  k < s.limit ∧ s.ring.items[k]? = some v ∧ s.cutoff ≤ v.tsNs

/-- The running loop may lose record `k`: a later drain is to take it, or a gap row names it. -/
def Job.excuses (job : Job) (s : State δ) (stop k : ℕ) : Prop :=
  match job with
  | .pre => s.prevHead < k
  | .post _ => stop ≤ k ∨ s.inGap k

def State.excused (s : State δ) (k : ℕ) : Prop :=
  match s.pc with
  | .scan job _ stop _ => job.excuses s stop k
  | .check job _ stop _ _ => job.excuses s stop k
  | _ => True

/-- The races a step must not lose: a record is not committed after the consumer has passed
its number, a record the running loop still has to read is not overwritten unless the drain
has announced a gap, the pre-window has not been overwritten when `ExtractPre` looks the head
up, and `ExtractPre` takes no record above `prev_head_`. -/
def StepOk (c : Capacity) (s : State δ) : Action δ → Prop
  | .commit => s.ring.stage = .copied → ∀ v, s.ring.items[s.ring.head-1]? = some v →
      s.cutoff ≤ v.tsNs → s.passed (s.ring.head-1) → s.pc.final = true
  | .copy => s.ring.stage = .started → ∀ k v, k+c.cap = s.ring.head-1 → s.Due k v →
      ¬ s.passed k → s.excused k
  | .advance =>
    match s.pc with
    | .entered => ∀ k v, s.Due k v → k ≤ s.prevHead → s.ring.head ≤ k+c.cap
    | .check .pre i _ a _ =>
      s.prevHead < i → Job.pre.accepts s.cutoff i a (s.ring.slots (c.ix i)) = false
    | _ => True
  | _ => True

/-! ## The invariant -/

def Job.Bounded (job : Job) (s : State δ) (i stop : ℕ) : Prop :=
  match job with
  | .pre => True
  | .post final => i ≤ stop ∧ 0 < stop ∧ stop ≤ s.ring.head+1 ∧ (final = true → s.sealed < stop)

def State.Bounded (s : State δ) : Prop :=
  match s.pc with
  | .scan job i stop _ => job.Bounded s i stop
  | .check job i stop _ _ => job.Bounded s (i+1) stop ∧ i < stop
  | .done => s.sealed ≤ s.prevHead
  | _ => True

/-- Records that have not been passed are in no row, those that have are accounted for, and
those that are still due are in their slot unless the running loop may lose them. -/
structure Inv (c : Capacity) (s : State δ) : Prop where
  ring : s.ring.Wf c.cap
  head : s.prevHead ≤ s.ring.head
  sealed : s.sealed ≤ s.ring.committed
  bounded : s.Bounded
  fresh : ∀ k, ¬ s.passed k → s.rowsOf k = []
  settled : ∀ k v, s.Due k v → s.passed k → s.Accounted k v
  waiting : ∀ k v, s.Due k v → ¬ s.passed k → s.ring.copied ≤ k+c.cap ∨ s.excused k

theorem Capacity.cap_pos (c : Capacity) : 64 < c.cap := by
  have h : 2^6 < 2^c.log2 := Nat.pow_lt_pow_right (by decide) c.big
  exact h

theorem Capacity.ix_eq (c : Capacity) (i : ℕ) : c.ix i = i % c.cap :=
  Nat.and_two_pow_sub_one_eq_mod i c.log2

theorem Capacity.ix_eq_mod (c : Capacity) : c.ix = (· % c.cap) := by
  funext i
  exact c.ix_eq i

theorem inv_init (c : Capacity) (zero : δ) : Inv c (State.init zero) := by
  refine ⟨wf_init _ _,Nat.le_refl _,Nat.le_refl _,trivial,fun _ _ => rfl,?_,?_⟩
  · intro k v hd
    exact absurd hd.1 (Nat.not_lt_zero k)
  · intro k v hd
    exact absurd hd.1 (Nat.not_lt_zero k)

theorem Inv.exactlyOnce {c : Capacity} {s : State δ} (h : Inv c s) : s.ExactlyOnce := by
  intro hdone k v hk hv hts
  have hpc : s.pc = .done := by
    cases hs : s.pc <;> simp [hs] at hdone
    rfl
  have hb := h.bounded
  simp only [State.Bounded,hpc] at hb
  refine h.settled k v ⟨?_,hv,hts⟩ ?_
  · simpa [State.limit,hpc,Pc.final] using hk
  · simp only [State.passed,hpc]
    omega

/-! ## The producer's steps -/

theorem limit_le_committed {c : Capacity} {s : State δ} (h : Inv c s) :
    s.limit ≤ s.ring.committed := by
  unfold State.limit
  split
  · exact h.sealed
  · exact Nat.le_refl _

theorem Job.Bounded.of_head {job : Job} {s : State δ} {i stop : ℕ} (h : job.Bounded s i stop)
    {r : SeqRing.Ring (Snapshot δ)} (hhead : s.ring.head ≤ r.head) :
    job.Bounded { s with ring := r } i stop := by
  cases job with
  | pre => trivial
  | post final =>
    obtain ⟨hi,hpos,hstop,hsealed⟩ := h
    refine ⟨hi,hpos,?_,hsealed⟩
    show stop ≤ r.head+1
    omega

/-- A step of the producer keeps the invariant when it makes no record due that the consumer
has passed and overwrites none that it must still read. -/
theorem Inv.produce {c : Capacity} {s : State δ} (h : Inv c s) {r : SeqRing.Ring (Snapshot δ)}
    (hwf : r.Wf c.cap) (hhead : s.ring.head ≤ r.head)
    (hcommitted : s.ring.committed ≤ r.committed)
    (hdue : ∀ k v, State.Due { s with ring := r } k v →
      s.Due k v ∨ (¬ s.passed k ∧ r.copied ≤ k+c.cap))
    (hkeep : ∀ k v, s.Due k v → ¬ s.passed k → s.ring.copied ≤ k+c.cap →
      r.copied ≤ k+c.cap ∨ s.excused k) : Inv c { s with ring := r } := by
  refine ⟨hwf,Nat.le_trans h.head hhead,Nat.le_trans h.sealed hcommitted,?_,h.fresh,?_,?_⟩
  · have hb := h.bounded
    unfold State.Bounded at hb ⊢
    show match s.pc with | _ => _
    cases hpc : s.pc with
    | scan job i stop recs => simp only [hpc] at hb ⊢; exact hb.of_head hhead
    | check job i stop a recs => simp only [hpc] at hb ⊢; exact ⟨hb.1.of_head hhead,hb.2⟩
    | base => trivial
    | entered => trivial
    | ready => trivial
    | done => simpa only [hpc] using hb
  · intro k v hd hp
    rcases hdue k v hd with hold | ⟨hnp,_⟩
    · exact h.settled k v hold hp
    · exact absurd hp hnp
  · intro k v hd hnp
    rcases hdue k v hd with hold | ⟨_,hin⟩
    · rcases h.waiting k v hold hnp with hin | hexc
      · exact hkeep k v hold hnp hin
      · exact Or.inr hexc
    · exact Or.inl hin

theorem inv_start {c : Capacity} {s : State δ} (h : Inv c s) (v : Snapshot δ) :
    Inv c { s with ring := s.ring.start v } := by
  obtain ⟨rest,hitems⟩ := start_items v s.ring
  refine h.produce (wf_start h.ring v) ?_ ?_ ?_ ?_
  · simp [Ring.head,hitems]
  · simp
  · intro k w hd
    have hlim : State.limit { s with ring := s.ring.start v } = s.limit := by simp [State.limit]
    obtain ⟨hk,hw,hts⟩ := hd
    rw [hlim] at hk
    have hlt : k < s.ring.items.length := Nat.lt_of_lt_of_le hk
      (Nat.le_trans (limit_le_committed h) (committed_le_head s.ring))
    refine Or.inl ⟨hk,?_,hts⟩
    rwa [hitems,List.getElem?_append_left hlt] at hw
  · intro k w _ _ hin
    exact Or.inl (by simpa using hin)

theorem inv_copy {c : Capacity} {s : State δ} (h : Inv c s) (hok : StepOk c s .copy) :
    Inv c { s with ring := s.ring.copy c.ix } := by
  have hwf : (s.ring.copy c.ix).Wf c.cap := by
    rw [c.ix_eq_mod]
    exact wf_copy h.ring
  refine h.produce hwf ?_ ?_ ?_ ?_
  · simp [Ring.head]
  · simp
  · intro k v hd
    exact Or.inl (by simpa [State.Due,State.limit] using hd)
  · intro k v hd hnp hin
    by_cases hs : s.ring.stage = .started
    · rw [copied_copy,if_pos hs]
      by_cases hk : k+c.cap = s.ring.head-1
      · exact Or.inr (hok hs k v hk hd hnp)
      · have hcopied : s.ring.copied = s.ring.head-1 := by simp [Ring.copied,hs]
        omega
    · rw [copied_copy,if_neg hs]
      exact Or.inl hin

theorem inv_commit {c : Capacity} {s : State δ} (h : Inv c s) (hok : StepOk c s .commit) :
    Inv c { s with ring := s.ring.commit c.ix } := by
  have hwf : (s.ring.commit c.ix).Wf c.cap := by
    rw [c.ix_eq_mod]
    exact wf_commit h.ring
  refine h.produce hwf ?_ ?_ ?_ ?_
  · simp [Ring.head]
  · rw [committed_commit]
    split
    · exact committed_le_head s.ring
    · exact Nat.le_refl _
  · intro k v hd
    obtain ⟨hk,hv,hts⟩ := hd
    have hv' : s.ring.items[k]? = some v := by simpa using hv
    by_cases hold : k < s.limit
    · exact Or.inl ⟨hold,hv',hts⟩
    have hnf : s.pc.final ≠ true := by
      intro hf
      simp only [State.limit,hf,if_true] at hk hold
      exact hold hk
    simp only [State.limit,hnf] at hk hold
    rw [if_neg (by decide),committed_commit] at hk
    by_cases hs : s.ring.stage = .copied
    · rw [if_pos hs] at hk
      have hcommitted : s.ring.committed = s.ring.head-1 := by simp [Ring.committed,hs]
      have hcopied : s.ring.copied = s.ring.head := by simp [Ring.copied,hs]
      simp only [Bool.false_eq_true,if_false] at hold
      have hlast : k = s.ring.head-1 := by omega
      subst hlast
      have hcap := c.cap_pos
      refine Or.inr ⟨fun hp => hnf (hok hs v hv' hts hp),?_⟩
      rw [copied_commit]
      omega
    · rw [if_neg hs] at hk
      exact absurd hk (by simpa using hold)
  · intro k v _ _ hin
    exact Or.inl (by simpa using hin)

/-! ## The consumer's steps -/

theorem Job.passed_succ {job : Job} {prevHead i stop k : ℕ} :
    job.passed prevHead (i+1) stop k ↔
      job.passed prevHead i stop k ∨ (k = i ∧ (job = .pre → i ≤ prevHead)) := by
  cases job with
  | pre =>
    simp only [Job.passed,true_implies]
    omega
  | post final =>
    simp only [Job.passed,reduceCtorEq,false_implies,and_true]
    omega

theorem Job.Bounded.succ {job : Job} {s : State δ} {i stop : ℕ} (h : job.Bounded s i stop)
    (hi : i < stop) : job.Bounded s (i+1) stop := by
  cases job with
  | pre => trivial
  | post final => exact ⟨hi,h.2⟩

theorem Job.excuses_inGap {job : Job} {s : State δ} {i stop : ℕ} (h : job.excuses s stop i)
    (hi : i < stop) (hpre : job = .pre → i ≤ s.prevHead) : s.inGap i := by
  cases job with
  | pre => exact absurd (hpre rfl) (Nat.not_le.mpr h)
  | post final => exact h.resolve_left (Nat.not_le.mpr hi)

theorem note_eq (c : Capacity) (i : ℕ) (s : State δ) : ∃ overrun,
    s.note c i = { s with overrun := overrun } ∧ (∀ k ∈ s.overrun, k ∈ overrun) ∧
      (i+c.cap < s.ring.copied → i ∈ overrun) := by
  by_cases hover : i+c.cap < s.ring.copied
  · exact ⟨s.overrun++[i],by simp [State.note,hover],fun k hk => by simp [hk],by simp⟩
  · exact ⟨s.overrun,by simp [State.note,hover],fun _ hk => hk,fun hlt => absurd hlt hover⟩

/-- A due record that is not in its slot has been overwritten, and the loop may lose it. -/
theorem Inv.missed {c : Capacity} {s : State δ} (h : Inv c s) {k : ℕ} {v : Snapshot δ}
    (hd : s.Due k v) (hnp : ¬ s.passed k) (hslot : s.ring.slots (c.ix k) ≠ ⟨2*k,v⟩) :
    k+c.cap < s.ring.copied ∧ s.excused k := by
  have hk : k < s.ring.committed := Nat.lt_of_lt_of_le hd.1 (limit_le_committed h)
  have hover : ¬ s.ring.copied ≤ k+c.cap := by
    intro hin
    rw [c.ix_eq] at hslot
    exact hslot (slot_of_committed h.ring hd.2.1 hk hin)
  exact ⟨Nat.not_le.mp hover,(h.waiting k v hd hnp).resolve_left hover⟩

/-- The consumer goes on without a new row. -/
theorem Inv.move {c : Capacity} {s : State δ} (h : Inv c s) {pc : Pc δ} {o : List ℕ}
    (hrecs : pc.recs = s.pc.recs) (hfinal : pc.final = s.pc.final)
    (hbounded : State.Bounded { s with pc := pc, overrun := o })
    (hoverrun : ∀ k ∈ s.overrun, k ∈ o)
    (hwaiting : ∀ k v, s.Due k v → s.ring.copied ≤ k+c.cap ∨ s.excused k →
      ¬ State.passed { s with pc := pc, overrun := o } k →
      s.ring.copied ≤ k+c.cap ∨ State.excused { s with pc := pc, overrun := o } k)
    (hpassed : ∀ k, s.passed k → State.passed { s with pc := pc, overrun := o } k)
    (hnew : ∀ k v, s.Due k v → ¬ s.passed k →
      State.passed { s with pc := pc, overrun := o } k → k ∈ o ∧ s.inGap k) :
    Inv c { s with pc := pc, overrun := o } := by
  have hrows : ∀ k, State.rowsOf { s with pc := pc, overrun := o } k = s.rowsOf k := by
    intro k
    simp only [State.rowsOf,State.rows,hrecs]
  have hdue : ∀ k v, State.Due { s with pc := pc, overrun := o } k v → s.Due k v := by
    intro k v hd
    simpa only [State.Due,State.limit,hfinal] using hd
  refine ⟨h.ring,h.head,h.sealed,hbounded,?_,?_,?_⟩
  · intro k hnp
    rw [hrows]
    exact h.fresh k fun hp => hnp (hpassed k hp)
  · intro k v hd hp
    by_cases hold : s.passed k
    · rcases h.settled k v (hdue k v hd) hold with hrow | ⟨hrow,hover,hgap⟩
      · exact Or.inl (by rw [hrows,hrow])
      · exact Or.inr ⟨by rw [hrows,hrow],hoverrun k hover,hgap⟩
    · have hgap := hnew k v (hdue k v hd) hold hp
      exact Or.inr ⟨by rw [hrows,h.fresh k hold],hgap⟩
  · intro k v hd hnp
    have hwait := h.waiting k v (hdue k v hd) fun hp => hnp (hpassed k hp)
    exact hwaiting k v (hdue k v hd) hwait hnp

/-- A lookup after which the same records are passed and excused. -/
theorem Inv.stay {c : Capacity} {s : State δ} (h : Inv c s) {pc : Pc δ} {o : List ℕ}
    (hrecs : pc.recs = s.pc.recs) (hfinal : pc.final = s.pc.final)
    (hbounded : State.Bounded { s with pc := pc, overrun := o })
    (hoverrun : ∀ k ∈ s.overrun, k ∈ o)
    (hexcused : ∀ k, State.excused { s with pc := pc, overrun := o } k ↔ s.excused k)
    (hpassed : ∀ k, State.passed { s with pc := pc, overrun := o } k ↔ s.passed k) :
    Inv c { s with pc := pc, overrun := o } := by
  refine h.move hrecs hfinal hbounded hoverrun ?_ ?_ ?_
  · exact fun k _ _ hwait _ => hwait.imp_right (hexcused k).mpr
  · exact fun k hp => (hpassed k).mpr hp
  · exact fun k v _ hnp hp => absurd ((hpassed k).mp hp) hnp

/-- A lookup that goes on to the next record, when this one is not in its slot any more. -/
theorem Inv.pass {c : Capacity} {s : State δ} (h : Inv c s) {pc : Pc δ} {o : List ℕ} {job : Job}
    {i stop : ℕ} (hi : i < stop) (hrecs : pc.recs = s.pc.recs) (hfinal : pc.final = s.pc.final)
    (hbounded : State.Bounded { s with pc := pc, overrun := o })
    (hoverrun : ∀ k ∈ s.overrun, k ∈ o) (hnoted : i+c.cap < s.ring.copied → i ∈ o)
    (hexcused : ∀ k, s.excused k ↔ job.excuses s stop k)
    (hstays : ∀ k, State.excused { s with pc := pc, overrun := o } k ↔ s.excused k)
    (hpassed : ∀ k, s.passed k ↔ job.passed s.prevHead i stop k)
    (hnext : ∀ k, State.passed { s with pc := pc, overrun := o } k ↔
      job.passed s.prevHead (i+1) stop k)
    (hslot : ∀ v, s.Due i v → s.ring.slots (c.ix i) ≠ ⟨2*i,v⟩) :
    Inv c { s with pc := pc, overrun := o } := by
  refine h.move hrecs hfinal hbounded hoverrun ?_ ?_ ?_
  · exact fun k _ _ hwait _ => hwait.imp_right (hstays k).mpr
  · exact fun k hp => (hnext k).mpr (Job.passed_succ.mpr (Or.inl ((hpassed k).mp hp)))
  · intro k v hd hnp hp
    rcases Job.passed_succ.mp ((hnext k).mp hp) with hp | ⟨rfl,hpre⟩
    · exact absurd ((hpassed k).mpr hp) hnp
    · obtain ⟨hover,hexc⟩ := h.missed hd hnp (hslot v hd)
      exact ⟨hnoted hover,Job.excuses_inGap ((hexcused k).mp hexc) hi hpre⟩

theorem inv_lookupA {c : Capacity} {s : State δ} (h : Inv c s) {job : Job} {i stop : ℕ}
    {recs : List (KernelSnapshotRec δ)} (hpc : s.pc = .scan job i stop recs) (hi : i < stop) :
    Inv c (s.lookupA c job i stop recs) := by
  obtain ⟨overrun,hnote,hold,hnoted⟩ := note_eq c i s
  have hpassed : ∀ k, s.passed k ↔ job.passed s.prevHead i stop k := by
    intro k
    simp only [State.passed,hpc]
  have hexcused : ∀ k, s.excused k ↔ job.excuses s stop k := by
    intro k
    simp only [State.excused,hpc]
  have hbounded : job.Bounded s (i+1) stop := by
    have hb := h.bounded
    simp only [State.Bounded,hpc] at hb
    exact hb.succ hi
  by_cases hodd : (s.ring.slots (c.ix i)).seq % 2 = 1
  · have hstep : s.lookupA c job i stop recs =
        { s with pc := .scan job (i+1) stop recs, overrun := overrun } := by
      simp [State.lookupA,hnote,hodd]
    rw [hstep]
    refine h.pass hi ?_ ?_ hbounded hold hnoted hexcused (fun k => (hexcused k).symm) hpassed
      (fun _ => Iff.rfl) fun v _ heq => ?_
    · rw [hpc]; rfl
    · rw [hpc]; rfl
    · rw [heq] at hodd
      dsimp only at hodd
      omega
  · have hstep : s.lookupA c job i stop recs =
        { s with pc := .check job i stop (s.ring.slots (c.ix i)) recs, overrun := overrun } := by
      simp [State.lookupA,hnote,hodd]
    rw [hstep]
    by_cases hseq : (s.ring.slots (c.ix i)).seq = 2*i
    · refine h.stay ?_ ?_ ⟨hbounded,hi⟩ hold (fun k => (hexcused k).symm) fun k => ?_
      · rw [hpc]; rfl
      · rw [hpc]; rfl
      · rw [hpassed]
        simp only [State.passed,if_pos hseq]
    · refine h.pass hi ?_ ?_ ⟨hbounded,hi⟩ hold hnoted hexcused (fun k => (hexcused k).symm)
        hpassed (fun k => ?_) fun v _ heq => ?_
      · rw [hpc]; rfl
      · rw [hpc]; rfl
      · simp only [State.passed,if_neg hseq]
      · exact hseq (by rw [heq])

/-- A record that passes the second lookup while it is due is the record itself. -/
theorem Inv.taken {c : Capacity} {s : State δ} (h : Inv c s) {k : ℕ} {v : Snapshot δ}
    (hd : s.Due k v) (hnp : ¬ s.passed k) (hseq : (s.ring.slots (c.ix k)).seq = 2*k) :
    s.ring.slots (c.ix k) = ⟨2*k,v⟩ := by
  by_contra hne
  have hover := (h.missed hd hnp hne).1
  rw [c.ix_eq] at hseq
  exact seq_of_overwritten (Nat.lt_trans (by decide) c.cap_pos) h.ring hover hseq

/-- The record that the loop is at has not been passed. -/
theorem Job.not_passed_self {job : Job} {prevHead i stop : ℕ} (hi : i < stop) :
    ¬ job.passed prevHead i stop i := by
  cases job with
  | pre =>
    simp only [Job.passed]
    omega
  | post final => exact Nat.lt_irrefl i

/-- The rows after a record has been taken. -/
theorem rowsOf_take {s : State δ} {job : Job} {i stop : ℕ} {a b : KernelSnapshotRec δ}
    {recs : List (KernelSnapshotRec δ)} (hpc : s.pc = .check job i stop a recs)
    (hbseq : b.seq = 2*i) (k : ℕ) :
    State.rowsOf { s with pc := .scan job (i+1) stop (recs++[b]) } k =
      s.rowsOf k++if k = i then [b] else [] := by
  simp only [State.rowsOf,State.rows,hpc,Pc.recs,List.filter_append,List.append_assoc]
  by_cases hk : k = i
  · subst hk
    simp [hbseq]
  · have hne : ¬ 2*i = 2*k := by omega
    simp [hbseq,hk,hne]

theorem inv_take {c : Capacity} {s : State δ} (h : Inv c s) {job : Job} {i stop : ℕ}
    {a : KernelSnapshotRec δ} {recs : List (KernelSnapshotRec δ)}
    (hpc : s.pc = .check job i stop a recs) (haseq : a.seq = 2*i)
    (hbseq : (s.ring.slots (c.ix i)).seq = 2*i) (hpre : job = .pre → i ≤ s.prevHead) :
    Inv c { s with pc := .scan job (i+1) stop (recs++[s.ring.slots (c.ix i)]) } := by
  obtain ⟨hbounded,hi⟩ : job.Bounded s (i+1) stop ∧ i < stop := by
    have hb := h.bounded
    simpa only [State.Bounded,hpc] using hb
  have hpassed : ∀ k, s.passed k ↔ job.passed s.prevHead i stop k := by
    intro k
    simp only [State.passed,hpc,if_pos haseq]
  have hnext : ∀ k, State.passed
      { s with pc := .scan job (i+1) stop (recs++[s.ring.slots (c.ix i)]) } k ↔
      s.passed k ∨ k = i := by
    intro k
    rw [hpassed]
    show job.passed s.prevHead (i+1) stop k ↔ _
    rw [Job.passed_succ]
    exact or_congr_right (and_iff_left hpre)
  have hfirst : ¬ s.passed i := by
    rw [hpassed]
    exact Job.not_passed_self hi
  have hrows := rowsOf_take hpc hbseq
  have hdue : ∀ k v, State.Due
      { s with pc := .scan job (i+1) stop (recs++[s.ring.slots (c.ix i)]) } k v → s.Due k v := by
    intro k v hd
    have hlim : State.limit { s with
        pc := .scan job (i+1) stop (recs++[s.ring.slots (c.ix i)]) } = s.limit := by
      unfold State.limit
      rw [hpc]
      rfl
    exact ⟨hlim ▸ hd.1,hd.2⟩
  refine ⟨h.ring,h.head,h.sealed,hbounded,?_,?_,?_⟩
  · intro k hnp
    rw [hnext,not_or] at hnp
    rw [hrows,if_neg hnp.2,List.append_nil]
    exact h.fresh k hnp.1
  · intro k v hd hp
    rcases (hnext k).mp hp with hold | rfl
    · have hne : k ≠ i := fun hk => hfirst (hk ▸ hold)
      have hsame := hrows k
      rw [if_neg hne,List.append_nil] at hsame
      unfold State.Accounted
      rw [hsame]
      exact h.settled k v (hdue k v hd) hold
    · refine Or.inl ?_
      rw [hrows,if_pos rfl,h.fresh k hfirst,h.taken (hdue k v hd) hfirst hbseq]
      rfl
  · intro k v hd hnp
    have hwait := h.waiting k v (hdue k v hd) fun hp => hnp ((hnext k).mpr (Or.inl hp))
    refine hwait.imp_right fun hexc => ?_
    simp only [State.excused,hpc] at hexc
    exact hexc

theorem inv_lookupB {c : Capacity} {s : State δ} (h : Inv c s) {job : Job} {i stop : ℕ}
    {a : KernelSnapshotRec δ} {recs : List (KernelSnapshotRec δ)}
    (hpc : s.pc = .check job i stop a recs)
    (hok : job = .pre → s.prevHead < i → job.accepts s.cutoff i a (s.ring.slots (c.ix i)) = false) :
    Inv c (s.lookupB c job i stop a recs) := by
  obtain ⟨hbounded,hi⟩ : job.Bounded s (i+1) stop ∧ i < stop := by
    have hb := h.bounded
    simpa only [State.Bounded,hpc] using hb
  have hexcused : ∀ k, s.excused k ↔ job.excuses s stop k := by
    intro k
    simp only [State.excused,hpc]
  cases hacc : job.accepts s.cutoff i a (s.ring.slots (c.ix i)) with
  | true =>
    have hstep : s.lookupB c job i stop a recs =
        { s with pc := .scan job (i+1) stop (recs++[s.ring.slots (c.ix i)]) } := by
      simp [State.lookupB,hacc]
    have hpre : job = .pre → i ≤ s.prevHead := by
      intro hjob
      by_contra hlt
      rw [hok hjob (Nat.not_le.mp hlt)] at hacc
      exact Bool.false_ne_true hacc
    simp only [Job.accepts,Bool.and_eq_true,decide_eq_true_eq] at hacc
    obtain ⟨⟨hab,haseq⟩,_⟩ := hacc
    rw [hstep]
    exact inv_take h hpc haseq (hab ▸ haseq) hpre
  | false =>
    by_cases haseq : a.seq = 2*i
    · obtain ⟨overrun,hnote,hold,hnoted⟩ := note_eq c i s
      have hstep : s.lookupB c job i stop a recs =
          { s with pc := .scan job (i+1) stop recs, overrun := overrun } := by
        simp [State.lookupB,hacc,haseq,hnote]
      rw [hstep]
      refine h.pass hi ?_ ?_ hbounded hold hnoted hexcused (fun k => (hexcused k).symm)
        (fun k => ?_) (fun _ => Iff.rfl) fun v hd heq => ?_
      · rw [hpc]; rfl
      · rw [hpc]; rfl
      · simp only [State.passed,hpc,if_pos haseq]
      · -- a due record still in its slot would have been taken
        rw [heq] at hacc
        simp [Job.accepts,haseq,hd.2.2] at hacc
    · have hstep : s.lookupB c job i stop a recs = { s with pc := .scan job (i+1) stop recs } := by
        simp [State.lookupB,hacc,haseq]
      rw [hstep]
      refine h.stay (o:=s.overrun) ?_ ?_ hbounded (fun _ hk => hk) (fun k => (hexcused k).symm)
        fun k => ?_
      · rw [hpc]; rfl
      · rw [hpc]; rfl
      · simp only [State.passed,hpc,if_neg haseq]

theorem State.Accounted.of_perm {s s' : State δ} {k : ℕ} {v : Snapshot δ} (h : s.Accounted k v)
    (hrows : s'.rows.Perm s.rows) (hoverrun : s'.overrun = s.overrun) (hgaps : s'.gaps = s.gaps) :
    s'.Accounted k v := by
  have hperm : (s'.rowsOf k).Perm (s.rowsOf k) := hrows.filter _
  rcases h with hrow | ⟨hrow,hover,hgap⟩
  · rw [hrow] at hperm
    exact Or.inl (List.perm_singleton.mp hperm)
  · rw [hrow] at hperm
    refine Or.inr ⟨List.perm_nil.mp hperm,?_,?_⟩
    · rwa [hoverrun]
    · unfold State.inGap
      rwa [hgaps]

/-- The consumer writes out what it has collected. -/
theorem Inv.write {c : Capacity} {s : State δ} (h : Inv c s) {p : Pc δ} {prevHead : ℕ}
    {preRows postRows : List (KernelSnapshotRec δ)}
    (hrows : (preRows++postRows++p.recs).Perm s.rows) (hfinal : p.final = s.pc.final)
    (hhead : prevHead ≤ s.ring.head)
    (hbounded : State.Bounded { s with
      pc := p, prevHead := prevHead, preRows := preRows, postRows := postRows })
    (hexcused : ∀ k, State.excused { s with
      pc := p, prevHead := prevHead, preRows := preRows, postRows := postRows } k)
    (hpassed : ∀ k, State.passed { s with
      pc := p, prevHead := prevHead, preRows := preRows, postRows := postRows } k ↔ s.passed k) :
    Inv c { s with pc := p, prevHead := prevHead, preRows := preRows, postRows := postRows } := by
  have hdue : ∀ k v, State.Due { s with
      pc := p, prevHead := prevHead, preRows := preRows, postRows := postRows } k v →
      s.Due k v := by
    intro k v hd
    simpa only [State.Due,State.limit,hfinal] using hd
  refine ⟨h.ring,hhead,h.sealed,hbounded,?_,?_,fun k _ _ _ => Or.inr (hexcused k)⟩
  · intro k hnp
    rw [hpassed] at hnp
    have hperm : (State.rowsOf { s with
        pc := p, prevHead := prevHead, preRows := preRows, postRows := postRows } k).Perm
        (s.rowsOf k) := hrows.filter _
    rw [h.fresh k hnp] at hperm
    exact List.perm_nil.mp hperm
  · intro k v hd hp
    rw [hpassed] at hp
    exact (h.settled k v (hdue k v hd) hp).of_perm hrows rfl rfl

theorem sortRecs_perm (recs : List (KernelSnapshotRec δ)) : (sortRecs recs).Perm recs :=
  List.perm_insertionSort _ recs

theorem inv_finish {c : Capacity} {s : State δ} (h : Inv c s) {job : Job} {i stop : ℕ}
    {recs : List (KernelSnapshotRec δ)} (hpc : s.pc = .scan job i stop recs) (hi : ¬ i < stop) :
    Inv c (s.finish job stop recs) := by
  have hb := h.bounded
  simp only [State.Bounded,hpc] at hb
  have hsort := sortRecs_perm recs
  cases job with
  | pre =>
    refine h.write (p:=.ready) ?_ ?_ h.head trivial (fun _ => trivial) ?_
    · simp only [State.rows,hpc,Pc.recs,List.append_nil]
      rw [List.append_assoc,List.append_assoc]
      exact (List.perm_append_comm.trans (hsort.append_left _)).append_left _
    · rw [hpc]
      rfl
    · intro k
      simp only [State.passed,Job.passed,hpc]
      omega
  | post final =>
    obtain ⟨hle,hpos,hstop,hsealed⟩ := hb
    have hend : i = stop := by omega
    refine h.write ?_ ?_ ?_ ?_ ?_ ?_
    · have hnil : (if final then Pc.done else Pc.ready : Pc δ).recs = [] := by
        cases final <;> rfl
      rw [hnil,List.append_nil,← List.append_assoc]
      simp only [State.rows,hpc,Pc.recs]
      exact hsort.append_left _
    · rw [hpc]
      cases final <;> rfl
    · omega
    · cases final with
      | false => trivial
      | true =>
        have hlt := hsealed rfl
        show s.sealed ≤ stop-1
        omega
    · intro k
      cases final <;> exact trivial
    · intro k
      have hlast : k < i ↔ k ≤ stop-1 := by omega
      simp only [State.passed,Job.passed,hpc,hlast]
      cases final <;> exact Iff.rfl

theorem inv_extractPre {c : Capacity} {s : State δ} (h : Inv c s) (hpc : s.pc = .entered)
    (hok : ∀ k v, s.Due k v → k ≤ s.prevHead → s.ring.head ≤ k+c.cap) :
    Inv c { s with
      pc := .scan .pre (Job.pre.begin c s.prevHead s.ring.head) (Job.pre.stop s.ring.head) [] } := by
  refine h.move (o:=s.overrun) ?_ ?_ trivial (fun _ hk => hk) ?_ ?_ ?_
  · rw [hpc]
    rfl
  · rw [hpc]
    rfl
  · intro k v hd _ _
    by_cases hk : k ≤ s.prevHead
    · exact Or.inl (Nat.le_trans (copied_le_head s.ring) (hok k v hd hk))
    · exact Or.inr (Nat.not_le.mp hk)
  · intro k hp
    simp only [State.passed,hpc] at hp
  · intro k v hd _ hp
    obtain ⟨hk,hout⟩ : k ≤ s.prevHead ∧
      (k < Job.pre.begin c s.prevHead s.ring.head ∨ s.ring.head ≤ k) := hp
    have hin := hok k v hd hk
    have hlt := Nat.lt_of_lt_of_le hd.1
      (Nat.le_trans (limit_le_committed h) (committed_le_head s.ring))
    simp only [Job.begin] at hout
    split at hout <;> omega

theorem inv_advance {c : Capacity} {s : State δ} (h : Inv c s) (hok : StepOk c s .advance) :
    Inv c (s.advance c) := by
  unfold State.advance
  split
  · next hpc =>
    simp only [StepOk,hpc] at hok
    exact inv_extractPre h hpc hok
  · next job i stop recs hpc =>
    split
    · next hi => exact inv_lookupA h hpc hi
    · next hi => exact inv_finish h hpc hi
  · next job i stop a recs hpc =>
    refine inv_lookupB h hpc ?_
    rintro rfl hlt
    simp only [StepOk,hpc] at hok
    exact hok hlt
  · exact h

theorem inv_enter {c : Capacity} {s : State δ} (h : Inv c s)
    (anomalyStartNs preAnomalySeconds : ℕ) :
    Inv c (s.enter anomalyStartNs preAnomalySeconds) := by
  unfold State.enter
  split
  · next hpc =>
    refine ⟨h.ring,Nat.le_refl _,h.sealed,trivial,?_,?_,?_⟩
    · intro k _
      have hrows := h.fresh k (by simp only [State.passed,hpc,not_false_eq_true])
      simpa only [State.rowsOf,State.rows,hpc,Pc.recs] using hrows
    · exact fun _ _ _ hp => absurd hp id
    · exact fun _ _ _ _ => Or.inr trivial
  · exact h

theorem inv_drainPost {c : Capacity} {s : State δ} (h : Inv c s) (final : Bool) :
    Inv c (s.drainPost c final) := by
  unfold State.drainPost
  split
  · next hpc =>
    have hcommitted := committed_le_head s.ring
    have hlimit : s.limit = s.ring.committed := by simp [State.limit,hpc,Pc.final]
    refine ⟨h.ring,h.head,?_,?_,?_,?_,?_⟩
    · cases final with
      | false => exact h.sealed
      | true => exact Nat.le_refl _
    · refine ⟨Nat.succ_le_succ h.head,Nat.succ_pos _,Nat.le_refl _,?_⟩
      rintro rfl
      exact Nat.lt_succ_of_le hcommitted
    · intro k hnp
      have hold : ¬ s.passed k := by
        simp only [State.passed,hpc]
        exact fun hk => hnp (Nat.lt_succ_of_le hk)
      have hrows := h.fresh k hold
      simpa only [State.rowsOf,State.rows,hpc,Pc.recs] using hrows
    · intro k v hd hp
      have hold : s.passed k := by
        simp only [State.passed,hpc]
        exact Nat.le_of_lt_succ hp
      have hdue : s.Due k v := by
        refine ⟨?_,hd.2⟩
        rw [hlimit]
        cases final with
        | false => exact hd.1
        | true => exact hd.1
      have hrows := h.settled k v hdue hold
      simp only [State.Accounted,State.rowsOf,State.rows,hpc,Pc.recs] at hrows ⊢
      refine hrows.imp_right fun hlost => ⟨hlost.1,hlost.2.1,?_⟩
      obtain ⟨g,hg,hin⟩ := hlost.2.2
      refine ⟨g,?_,hin⟩
      split
      · exact List.mem_append_left _ hg
      · exact hg
    · intro k v hd hnp
      have hk : s.prevHead < k := by
        have hnlt : ¬ k < s.prevHead+1 := hnp
        omega
      have hlt : k < s.ring.committed := by
        cases final with
        | false => exact hd.1
        | true => exact hd.1
      by_cases hin : s.ring.copied ≤ k+c.cap
      · exact Or.inl hin
      · -- an overwritten record means that the ring has gone round since the last drain
        refine Or.inr (Or.inr ⟨(s.prevHead,s.ring.head),?_,Nat.le_of_lt hk,?_⟩)
        · have hcopied := copied_le_head s.ring
          have hgap : c.cap-64 ≤ s.ring.head-s.prevHead := by omega
          show _ ∈ if _ then _ else _
          rw [if_pos hgap]
          simp
        · exact Nat.lt_of_lt_of_le hlt hcommitted
  · exact h

theorem inv_step {c : Capacity} (s : State δ) (a : Action δ) (h : Inv c s) (hok : StepOk c s a) :
    Inv c (step c s a) := by
  cases a with
  | start now deep data => exact inv_start h _
  | copy => exact inv_copy h hok
  | commit => exact inv_commit h hok
  | enter anomalyStartNs preAnomalySeconds => exact inv_enter h _ _
  | advance => exact inv_advance h hok
  | drainPost final => exact inv_drainPost h final

/-- In a run that loses none of the races, every state that is reached has every record owed
in exactly one row or, overwritten, in a gap. -/
theorem run_exactlyOnce (c : Capacity) (zero : δ) (as : List (Action δ))
    (h : Along (step c) (StepOk c) (State.init zero) as) :
    Along (step c) (fun s a => (step c s a).ExactlyOnce) (State.init zero) as :=
  (Along.of_invariant (step c) inv_step
    (fun s a hs hok => (inv_step s a hs hok).exactlyOnce) as _ (inv_init c zero) h).1

/-- Record 1 is in flight when `Enter` and `ExtractPre` look the head up and is committed
before its turn in the loop comes. -/
def seamRun : List (Action Unit) :=
  [.start 95000000000 false (),.copy,.commit,.enter 100000000000 10,.start 100000000000 false (),
    .advance,.copy,.commit,.advance,.advance,.advance,.advance,.advance,.drainPost true,.advance,
    .advance,.advance]

theorem seamRun_exactlyOnce :
    Along (step .default) (fun s a => (step .default s a).ExactlyOnce) (State.init ()) seamRun ∧
      (run (step .default) (State.init ()) seamRun).rows =
        [⟨0,95000000000,0,()⟩,⟨2,100000000000,0,()⟩] := by
  refine ⟨?_,rfl⟩
  refine run_exactlyOnce .default () seamRun ⟨trivial,?_,?_,trivial,trivial,?_,?_,?_,trivial,?_,trivial,
    ?_,trivial,trivial,trivial,trivial,trivial,trivial⟩
  · intro _ k v hk
    have hfar : k+32768 = 0 := hk
    omega
  · exact fun _ _ _ _ hp => False.elim hp
  · intro k v _ _
    show 2 ≤ k+32768
    omega
  · intro _ k v hk
    have hfar : k+32768 = 1 := hk
    omega
  · intro _ v _ _ hp
    have hin : 1 ≤ 1 ∧ (1 < 0 ∨ 2 ≤ 1) := hp
    omega
  · intro hlt
    have hseam : 1 < 0 := hlt
    omega
  · intro hlt
    have hseam : 1 < 1 := hlt
    omega

/-- The first record after `Enter` carries the number `prev_head_`, and the drain begins one
above it. -/
def firstLostRun : List (Action Unit) :=
  [.enter 100000000000 10,.advance,.advance,.start 100000000000 true (),.copy,.commit,
    .drainPost true,.advance,.advance,.advance]

theorem firstLostRun_not_exactlyOnce :
    ¬ ∀ as : List (Action Unit), (run (step .default) (State.init ()) as).ExactlyOnce := by
  intro h
  have hrow := h firstLostRun rfl 0 ⟨100000000000,1,()⟩ (by decide) rfl (by decide)
  rcases hrow with hrow | ⟨_,hover,_⟩
  · have hnone : ([] : List (KernelSnapshotRec Unit)) = [⟨0,100000000000,1,()⟩] := hrow
    cases hnone
  · have hnone : 0 ∈ ([] : List ℕ) := hover
    cases hnone

end FlightRecorder
end ETraceDiag
