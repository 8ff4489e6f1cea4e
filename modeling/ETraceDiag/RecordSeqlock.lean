import ETraceDiag.FlightRecorder
import ETraceDiag.PerCpuMerge
import ETraceDiag.SeqLock

/-!
# The seqlock of the flight recorder

`rec_commit` and the double lookups of `ExtractPre` and `DrainPost`, member by member of a
record: any number of CPUs may commit at a time, and the consumer may be interrupted between
any two members. Of the copy `a` only the stamp is kept, since nothing else of it is used. The
record numbers stay below 2^63.
-/

namespace ETraceDiag
namespace RecordSeqlock

open SeqLock Transition PerCpuMerge
open FlightRecorder (Capacity Job)

/-- The members of `snapshot_rec` behind `seq`, arrays element by element. -/
inductive Field
  | tsNs
  | tgid
  | tid
  | comm (i : Fin 16)
  | wide (w : Wide)
  | narrow (n : Narrow)
  | hist (h : Hist) (i : Fin 13)
  | flags
  deriving DecidableEq,Repr

abbrev Field.Val : Field → Type
  | .tsNs => UInt64
  | .wide _ => UInt64
  | .comm _ => UInt8
  | .tgid => UInt32
  | .tid => UInt32
  | .narrow _ => UInt32
  | .hist _ _ => UInt32
  | .flags => UInt32

def Field.bins (h : Hist) : List Field := (List.finRange 13).map (Field.hist h)

/-- In the order of the struct. -/
def Field.order : List Field := List.flatten
  [[.tsNs,.tgid,.tid],(List.finRange 16).map Field.comm,
    [.wide .onCpuNs,.narrow .nrSwVol,.narrow .nrSwInvol],
    [.wide .ioOps,.wide .ioBytes],bins .io,[.narrow .pfMinor,.narrow .pfMajor],
    [.wide .lockWaits,.wide .lockLatNs],bins .lock,
    [.wide .syscallCount,.wide .syscallLatNs],bins .syscall,
    [.wide .futexWaits,.wide .futexLatNs],bins .futex,
    [.wide .runqWaitNs,.narrow .runqWaitCount],bins .runq,[.flags]]

theorem Field.mem_bins (h : Hist) (i : Fin 13) : Field.hist h i ∈ Field.bins h :=
  List.mem_map.mpr ⟨i,List.mem_finRange i,rfl⟩

theorem Field.mem_order (f : Field) : f ∈ Field.order := by
  cases f with
  | comm i =>
    refine List.mem_flatten.mpr ⟨(List.finRange 16).map Field.comm,?_,?_⟩
    · exact List.mem_cons_of_mem _ List.mem_cons_self
    · exact List.mem_map.mpr ⟨i,List.mem_finRange i,rfl⟩
  | hist h i =>
    refine List.mem_flatten.mpr ⟨bins h,?_,mem_bins h i⟩
    cases h <;> simp
  | wide w => cases w <;> simp [Field.order]
  | narrow n => cases n <;> simp [Field.order]
  | tsNs => simp [Field.order]
  | tgid => simp [Field.order]
  | tid => simp [Field.order]
  | flags => simp [Field.order]

/-- A record without its `seq`. -/
abbrev Snapshot := ∀ f : Field, f.Val

abbrev Rec := SeqLock.Slot Field.Val

def Snapshot.zero : Snapshot
  | .tsNs => 0
  | .wide _ => 0
  | .comm _ => 0
  | .tgid => 0
  | .tid => 0
  | .narrow _ => 0
  | .hist _ _ => 0
  | .flags => 0

/-- The scratch record with the time and the flags that `rec_commit` puts into it. -/
def stamped (now : UInt64) (deep : Bool) (scr : Snapshot) : Snapshot
  | .tsNs => now
  | .flags => if deep then 1 else 0
  | f => scr f

/-- Where the consumer stands: about to look record `i` up for the first time (`scan`), about
to take the stamp of its second copy (`stamp`), or with the members of `rest` still to copy. -/
inductive Pc
  | base
  | entered
  | scan (job : Job) (i stop : ℕ) (recs : List Rec)
  | stamp (job : Job) (i stop aSeq : ℕ) (recs : List Rec)
  | copy (job : Job) (i stop aSeq : ℕ) (b : Rec) (rest : List Field) (recs : List Rec)
  | ready
  | done

/-- The episode has been entered. -/
def Pc.started : Pc → Bool
  | .base => false
  | _ => true

structure State where
  ring : SeqLock.Ring Field.Val := Ring.init Snapshot.zero
  pc : Pc := .base
  prevHead : ℕ := 0
  cutoff : UInt64 := 0
  preRows : List Rec := []
  postRows : List Rec := []

/-- `store i` is the next store of the CPU that commits record `i`. -/
inductive Action
  | reserve (now : UInt64) (deep : Bool) (scr : Snapshot)
  | store (i : ℕ)
  | enter (anomalyStartNs preAnomalySeconds : UInt64)
  | advance
  | drainPost (final : Bool)

/-! ## The consumer -/

/-- The tests on the two copies; only `ExtractPre` looks at the time. -/
def accepts (job : Job) (cutoff : UInt64) (i aSeq : ℕ) (b : Rec) : Bool :=
  aSeq = b.seq && aSeq = 2*i && (job ≠ .pre || cutoff ≤ b.val .tsNs)

/-- The loop has ended. -/
def State.finish (job : Job) (stop : ℕ) (recs : List Rec) (s : State) : State :=
  match job with
  | .pre => { s with pc := .ready, preRows := s.preRows++recs }
  | .post final =>
    { s with
      pc := if final then .done else .ready
      prevHead := stop-1
      postRows := s.postRows++recs }

/-- What the consumer does next; in `entered` it is the head lookup of `ExtractPre`. -/
def State.advance (c : Capacity) (s : State) : State :=
  match s.pc with
  | .entered =>
    let head := s.ring.head
    { s with pc := .scan .pre (Job.pre.begin c s.prevHead head) (Job.pre.stop head) [] }
  | .scan job i stop recs =>
    if i < stop then
      let aSeq := (s.ring.slots (c.ix i)).seq
      if aSeq % 2 = 1 then { s with pc := .scan job (i+1) stop recs }
      else { s with pc := .stamp job i stop aSeq recs }
    else s.finish job stop recs
  | .stamp job i stop aSeq recs =>
    let b : Rec := ⟨(s.ring.slots (c.ix i)).seq,Snapshot.zero⟩
    { s with pc := .copy job i stop aSeq b Field.order recs }
  | .copy job i stop aSeq b (f::rest) recs =>
    let b := { b with val := Function.update b.val f ((s.ring.slots (c.ix i)).val f) }
    { s with pc := .copy job i stop aSeq b rest recs }
  | .copy job i stop aSeq b [] recs =>
    { s with
      pc := .scan job (i+1) stop (if accepts job s.cutoff i aSeq b then recs++[b] else recs) }
  | _ => s

/-- `Enter` up to `prev_head_`, with the cutoff `ExtractPre` will use. -/
def State.enter (anomalyStartNs preAnomalySeconds : UInt64) (s : State) : State :=
  match s.pc with
  | .base =>
    let preNs := preAnomalySeconds*1000000000
    { s with
      pc := .entered
      prevHead := s.ring.head
      cutoff := if preNs < anomalyStartNs then anomalyStartNs-preNs else 0 }
  | _ => s

/-- `DrainPost` up to its loop. -/
def State.drainPost (c : Capacity) (final : Bool) (s : State) : State :=
  match s.pc with
  | .ready =>
    let head := s.ring.head
    { s with
      pc := .scan (.post final) ((Job.post final).begin c s.prevHead head)
        ((Job.post final).stop head) [] }
  | _ => s

def step (c : Capacity) (s : State) : Action → State
  | .reserve now deep scr => { s with ring := s.ring.reserve (stamped now deep scr) }
  | .store i => { s with ring := s.ring.store Field.order c.ix i }
  | .enter anomalyStartNs preAnomalySeconds => s.enter anomalyStartNs preAnomalySeconds
  | .advance => s.advance c
  | .drainPost final => s.drainPost c final

/-! ## Soundness -/

def Pc.recs : Pc → List Rec
  | .scan _ _ _ recs => recs
  | .stamp _ _ _ _ recs => recs
  | .copy _ _ _ _ _ _ recs => recs
  | _ => []

/-- All records accepted so far. -/
def State.rows (s : State) : List Rec := s.preRows++s.postRows++s.pc.recs

/-- Every accepted record is, in every member, the committed record of its number. -/
def State.Sound (s : State) : Prop :=
  ∀ b ∈ s.rows, ∃ i v, s.ring.Committed i v ∧ b = ⟨2*i,v⟩

/-- The slot is stored by one CPU at a time, no store changes a member that the consumer still
has to copy under a stamp it will accept, and the stamp 0 that it takes for record 0 is not the
one of the zeroed ring. -/
def StepOk (c : Capacity) (s : State) : Action → Prop
  | .store i => s.ring.Exclusive c.ix i ∧
    match s.pc with
    | .copy _ j _ aSeq b rest _ =>
      c.ix j = c.ix i → aSeq = b.seq → aSeq = 2*j → s.ring.Spares c.ix i rest
    | _ => True
  | .advance =>
    match s.pc with
    | .stamp _ i _ _ _ => i = 0 → (s.ring.slots (c.ix i)).seq = 0 → ∃ v, s.ring.Committed 0 v
    | _ => True
  | _ => True

/-- An acceptable copy agrees with the record in the members copied, and the slot in those that
are not. -/
def State.Copying (c : Capacity) (s : State) : Prop :=
  match s.pc with
  | .copy _ i _ aSeq b rest _ => aSeq = b.seq → aSeq = 2*i → ∃ v, s.ring.Committed i v ∧
    (∀ f, f ∉ rest → b.val f = v f) ∧ ∀ f ∈ rest, (s.ring.slots (c.ix i)).val f = v f
  | _ => True

structure Inv (c : Capacity) (s : State) : Prop where
  ring : s.ring.Sound Snapshot.zero c.ix
  rows : s.Sound
  copying : s.Copying c

theorem inv_init (c : Capacity) : Inv c {} :=
  ⟨sound_init _ _,fun _ hb => absurd hb List.not_mem_nil,trivial⟩

/-! ### The producers -/

theorem inv_reserve {c : Capacity} {s : State} (h : Inv c s) (v : Snapshot) :
    Inv c { s with ring := s.ring.reserve v } := by
  refine ⟨h.ring.reserve v,?_,?_⟩
  · intro b hb
    obtain ⟨i,w,hw,hbw⟩ := h.rows b hb
    exact ⟨i,w,hw.reserve v,hbw⟩
  · have hcopying := h.copying
    unfold State.Copying at hcopying ⊢
    show match s.pc with | _ => _
    cases hpc : s.pc with
    | copy job i stop aSeq b rest recs =>
      simp only [hpc] at hcopying ⊢
      intro hab ha
      obtain ⟨w,hw,hdone,hleft⟩ := hcopying hab ha
      exact ⟨w,hw.reserve v,hdone,hleft⟩
    | _ => trivial

theorem inv_store {c : Capacity} {s : State} (h : Inv c s) {i : ℕ} (hok : StepOk c s (.store i)) :
    Inv c { s with ring := s.ring.store Field.order c.ix i } := by
  obtain ⟨hex,hspares⟩ := hok
  refine ⟨h.ring.store hex,?_,?_⟩
  · intro b hb
    obtain ⟨j,w,hw,hbw⟩ := h.rows b hb
    exact ⟨j,w,hw.store i,hbw⟩
  · have hcopying := h.copying
    unfold State.Copying at hcopying ⊢
    show match s.pc with | _ => _
    cases hpc : s.pc with
    | copy job j stop aSeq b rest recs =>
      simp only [hpc] at hcopying hspares ⊢
      intro hab ha
      obtain ⟨w,hw,hdone,hleft⟩ := hcopying hab ha
      refine ⟨w,hw.store i,hdone,fun f hf => ?_⟩
      rw [← hleft f hf]
      by_cases hslot : c.ix j = c.ix i
      · exact val_store (hspares hslot hab ha) hf _
      · rw [slots_store_of_ne hslot]
    | _ => trivial

/-! ### The consumer's steps -/

theorem Inv.rowsAt {c : Capacity} {s : State} (h : Inv c s) {p : Pc} (hpc : s.pc = p) :
    ∀ b ∈ s.preRows++s.postRows++p.recs, ∃ i v, s.ring.Committed i v ∧ b = ⟨2*i,v⟩ := by
  rw [← hpc]
  exact h.rows

/-- The consumer goes on with the records it has. -/
theorem Inv.move {c : Capacity} {s : State} (h : Inv c s) {p : Pc} {prevHead : ℕ}
    {cutoff : UInt64} {preRows postRows : List Rec}
    (hrows : ∀ b ∈ preRows++postRows++p.recs, ∃ i v, s.ring.Committed i v ∧ b = ⟨2*i,v⟩)
    (hcopying : State.Copying c ⟨s.ring,p,prevHead,cutoff,preRows,postRows⟩) :
    Inv c ⟨s.ring,p,prevHead,cutoff,preRows,postRows⟩ :=
  ⟨h.ring,hrows,hcopying⟩

theorem Inv.goto {c : Capacity} {s : State} (h : Inv c s) {p : Pc} {prevHead : ℕ}
    {cutoff : UInt64} (hrecs : p.recs = s.pc.recs)
    (hcopying : State.Copying c ⟨s.ring,p,prevHead,cutoff,s.preRows,s.postRows⟩) :
    Inv c ⟨s.ring,p,prevHead,cutoff,s.preRows,s.postRows⟩ := by
  refine h.move ?_ hcopying
  rw [hrecs]
  exact h.rows

theorem inv_finish {c : Capacity} {s : State} (h : Inv c s) {job : Job} {i stop : ℕ}
    {recs : List Rec} (hpc : s.pc = .scan job i stop recs) : Inv c (s.finish job stop recs) := by
  have hrows := h.rowsAt hpc
  cases job with
  | pre =>
    refine h.move (fun b hb => hrows b ?_) trivial
    simp only [Pc.recs,List.mem_append,List.append_nil] at hb ⊢
    exact hb.elim (fun hb => hb.elim (Or.inl ∘ Or.inl) Or.inr) (Or.inl ∘ Or.inr)
  | post final =>
    have hnil : (if final then Pc.done else Pc.ready).recs = [] := by cases final <;> rfl
    refine h.move (fun b hb => hrows b ?_) (by cases final <;> trivial)
    rw [hnil,List.append_nil,← List.append_assoc] at hb
    exact hb

theorem inv_scan {c : Capacity} {s : State} (h : Inv c s) {job : Job} {i stop : ℕ}
    {recs : List Rec} (hpc : s.pc = .scan job i stop recs) : Inv c (s.advance c) := by
  simp only [State.advance,hpc]
  split
  · split
    · exact h.goto (by rw [hpc]; rfl) trivial
    · exact h.goto (by rw [hpc]; rfl) trivial
  · exact inv_finish h hpc

/-- The stamp is taken while the slot holds the whole record. -/
theorem inv_stamp {c : Capacity} {s : State} (h : Inv c s) {job : Job} {i stop aSeq : ℕ}
    {recs : List Rec} (hpc : s.pc = .stamp job i stop aSeq recs)
    (hzero : i = 0 → (s.ring.slots (c.ix i)).seq = 0 → ∃ v, s.ring.Committed 0 v) :
    Inv c (s.advance c) := by
  simp only [State.advance,hpc]
  refine h.goto (by rw [hpc]; rfl) fun hab ha => ?_
  have hseq : (s.ring.slots (c.ix i)).seq = 2*i := hab.symm.trans ha
  obtain ⟨v,hv,hval⟩ := h.ring.committed hseq fun hi => hzero hi (by omega)
  exact ⟨v,hv,fun f hf => absurd f.mem_order hf,fun f _ => congrFun hval f⟩

/-- What passes the tests is the record of that number. -/
theorem Inv.accepted {c : Capacity} {s : State} (h : Inv c s) {job : Job} {i stop aSeq : ℕ}
    {b : Rec} {recs : List Rec} (hpc : s.pc = .copy job i stop aSeq b [] recs)
    (hacc : accepts job s.cutoff i aSeq b = true) : ∃ v, s.ring.Committed i v ∧ b = ⟨2*i,v⟩ := by
  have hcopying := h.copying
  simp only [State.Copying,hpc] at hcopying
  simp only [accepts,Bool.and_eq_true,decide_eq_true_eq] at hacc
  obtain ⟨⟨hab,ha⟩,_⟩ := hacc
  obtain ⟨v,hv,hdone,_⟩ := hcopying hab ha
  have hval : b.val = v := funext fun f => hdone f List.not_mem_nil
  refine ⟨v,hv,?_⟩
  rw [← hval,← ha,hab]

theorem inv_copy {c : Capacity} {s : State} (h : Inv c s) {job : Job} {i stop aSeq : ℕ} {b : Rec}
    {rest : List Field} {recs : List Rec} (hpc : s.pc = .copy job i stop aSeq b rest recs) :
    Inv c (s.advance c) := by
  cases rest with
  | cons f rest =>
    have hcopying := h.copying
    simp only [State.Copying,hpc] at hcopying
    simp only [State.advance,hpc]
    refine h.goto (by rw [hpc]; rfl) fun hab ha => ?_
    obtain ⟨v,hv,hdone,hleft⟩ := hcopying hab ha
    refine ⟨v,hv,fun g hg => ?_,fun g hg => hleft g (List.mem_cons_of_mem f hg)⟩
    show Function.update b.val f _ g = v g
    by_cases hgf : g = f
    · subst hgf
      rw [Function.update_self]
      exact hleft g List.mem_cons_self
    · rw [Function.update_of_ne hgf]
      exact hdone g (List.not_mem_cons_of_ne_of_not_mem hgf hg)
  | nil =>
    have hrows := h.rowsAt hpc
    simp only [State.advance,hpc]
    refine h.move (fun r hr => ?_) trivial
    cases hacc : accepts job s.cutoff i aSeq b with
    | false =>
      rw [hacc] at hr
      exact hrows r hr
    | true =>
      rw [hacc,Pc.recs,if_pos rfl,← List.append_assoc] at hr
      rcases List.mem_append.mp hr with hr | hr
      · exact hrows r hr
      · obtain ⟨v,hv,hb⟩ := h.accepted hpc hacc
        exact ⟨i,v,hv,(List.mem_singleton.mp hr).trans hb⟩

theorem inv_advance {c : Capacity} {s : State} (h : Inv c s) (hok : StepOk c s .advance) :
    Inv c (s.advance c) := by
  cases hpc : s.pc with
  | entered =>
    simp only [State.advance,hpc]
    exact h.goto (by rw [hpc]; rfl) trivial
  | scan job i stop recs => exact inv_scan h hpc
  | stamp job i stop aSeq recs =>
    simp only [StepOk,hpc] at hok
    exact inv_stamp h hpc hok
  | copy job i stop aSeq b rest recs => exact inv_copy h hpc
  | base => simpa only [State.advance,hpc] using h
  | ready => simpa only [State.advance,hpc] using h
  | done => simpa only [State.advance,hpc] using h

theorem inv_step {c : Capacity} (s : State) (a : Action) (h : Inv c s) (hok : StepOk c s a) :
    Inv c (step c s a) := by
  cases a with
  | reserve now deep scr => exact inv_reserve h _
  | store i => exact inv_store h hok
  | advance => exact inv_advance h hok
  | enter anomalyStartNs preAnomalySeconds =>
    show Inv c (s.enter _ _)
    unfold State.enter
    split
    · next hpc => exact h.goto (by rw [hpc]; rfl) trivial
    · exact h
  | drainPost final =>
    show Inv c (s.drainPost c final)
    unfold State.drainPost
    split
    · next hpc => exact h.goto (by rw [hpc]; rfl) trivial
    · exact h

/-! ### Commits and copies that nobody disturbs -/

/-- The members copied so far from `slot`, the others as they were. -/
def copied (slot b : Rec) (rest : List Field) : Rec :=
  ⟨b.seq,fun f => if f ∈ rest then slot.val f else b.val f⟩

theorem copied_cons (slot b : Rec) (f : Field) (rest : List Field) :
    copied slot { b with val := Function.update b.val f (slot.val f) } rest =
      copied slot b (f::rest) := by
  refine congrArg (SeqLock.Slot.mk b.seq) (funext fun g => ?_)
  by_cases hg : g ∈ rest
  · rw [if_pos hg,if_pos (List.mem_cons_of_mem f hg)]
  · rw [if_neg hg]
    by_cases hgf : g = f
    · subst hgf
      rw [if_pos List.mem_cons_self]
      exact Function.update_self _ _ _
    · rw [if_neg (List.not_mem_cons_of_ne_of_not_mem hgf hg)]
      exact Function.update_of_ne hgf _ _

theorem step_copy (c : Capacity) {s : State} {job : Job} {i stop aSeq : ℕ} {b : Rec} {f : Field}
    {rest : List Field} {recs : List Rec} (hpc : s.pc = .copy job i stop aSeq b (f::rest) recs) :
    step c s .advance =
      let b := ⟨b.seq,Function.update b.val f ((s.ring.slots (c.ix i)).val f)⟩
      { s with pc := .copy job i stop aSeq b rest recs } := by
  simp only [step,State.advance,hpc]

theorem run_copy (c : Capacity) {job : Job} {i stop aSeq : ℕ} {recs : List Rec}
    (rest : List Field) : ∀ {s : State} {b : Rec}, s.pc = .copy job i stop aSeq b rest recs →
      run (step c) s (rest.map fun _ => .advance) =
        { s with pc := .copy job i stop aSeq (copied (s.ring.slots (c.ix i)) b rest) [] recs } := by
  induction rest with
  | nil =>
    intro s b hpc
    obtain ⟨ring,pc,prevHead,cutoff,preRows,postRows⟩ := s
    have hsame : pc = .copy job i stop aSeq b [] recs := hpc
    subst hsame
    simp [copied]
  | cons f rest ih =>
    intro s b hpc
    rw [List.map_cons,run_cons,step_copy c hpc,ih rfl,copied_cons]

theorem step_scan (c : Capacity) {s : State} {job : Job} {i stop k : ℕ} {recs : List Rec}
    (hpc : s.pc = .scan job i stop recs) (hi : i < stop)
    (hseq : (s.ring.slots (c.ix i)).seq = 2*k) :
    step c s .advance = { s with pc := .stamp job i stop (2*k) recs } := by
  have heven : ¬ 2*k % 2 = 1 := by omega
  simp only [step,State.advance,hpc,if_pos hi,hseq,if_neg heven]

theorem step_stamp (c : Capacity) {s : State} {job : Job} {i stop aSeq k : ℕ} {recs : List Rec}
    (hpc : s.pc = .stamp job i stop aSeq recs) (hseq : (s.ring.slots (c.ix i)).seq = 2*k) :
    step c s .advance =
      let b : Rec := ⟨2*k,Snapshot.zero⟩
      { s with pc := .copy job i stop aSeq b Field.order recs } := by
  simp only [step,State.advance,hpc,hseq]

/-- A step of the lookup of record `i` by a consumer that started from `s₀`. -/
structure Looking (s₀ : State) (job : Job) (i stop : ℕ) (recs : List Rec) (s : State)
    (a : Action) : Prop where
  advance : a = .advance
  ring : s.ring = s₀.ring
  prevHead : s.prevHead = s₀.prevHead
  pc : s.pc = .scan job i stop recs ∨ (∃ aSeq, s.pc = .stamp job i stop aSeq recs) ∨
    ∃ aSeq b rest, s.pc = .copy job i stop aSeq b rest recs

theorem Looking.stepOk {c : Capacity} {s₀ s : State} {job : Job} {i stop : ℕ} {recs : List Rec}
    {a : Action} (h : Looking s₀ job i stop recs s a)
    (hzero : i = 0 → ∃ v, s₀.ring.Committed 0 v) : StepOk c s a := by
  rw [h.advance]
  rcases h.pc with hpc | ⟨aSeq,hpc⟩ | ⟨aSeq,b,rest,hpc⟩
  · simp only [StepOk,hpc]
  · simp only [StepOk,hpc,h.ring]
    exact fun hi _ => hzero hi
  · simp only [StepOk,hpc]

theorem along_copy (c : Capacity) {s₀ : State} {job : Job} {i stop aSeq : ℕ} {recs : List Rec}
    (rest : List Field) : ∀ {s : State} {b : Rec}, s.pc = .copy job i stop aSeq b rest recs →
      s.ring = s₀.ring → s.prevHead = s₀.prevHead →
      Along (step c) (Looking s₀ job i stop recs) s (rest.map fun _ => .advance) := by
  induction rest with
  | nil => exact fun _ _ _ => trivial
  | cons f rest ih =>
    intro s b hpc hring hhead
    refine ⟨⟨rfl,hring,hhead,Or.inr (Or.inr ⟨aSeq,b,f::rest,hpc⟩)⟩,?_⟩
    rw [step_copy c hpc]
    exact ih rfl hring hhead

/-- The double lookup of one record. -/
def lookup : List Action :=
  .advance::.advance::(Field.order.map (fun _ => .advance)++[.advance])

/-- A lookup that nobody disturbs. -/
theorem run_take (c : Capacity) {s : State} {job : Job} {i stop k : ℕ} {v : Snapshot}
    {recs : List Rec} (hpc : s.pc = .scan job i stop recs) (hi : i < stop)
    (hslot : s.ring.slots (c.ix i) = ⟨2*k,v⟩) :
    Along (step c) (Looking s job i stop recs) s lookup ∧
      run (step c) s lookup =
        let b : Rec := ⟨2*k,v⟩
        { s with
          pc := .scan job (i+1) stop
            (if accepts job s.cutoff i (2*k) b then recs++[b] else recs) } := by
  have hseq := congrArg SeqLock.Slot.seq hslot
  have hscan := step_scan c hpc hi hseq
  let s₁ : State := { s with pc := .stamp job i stop (2*k) recs }
  have hstamp := step_stamp c (s:=s₁) rfl hseq
  let s₂ : State := { s with pc := .copy job i stop (2*k) ⟨2*k,Snapshot.zero⟩ Field.order recs }
  have hcopied : copied (s₂.ring.slots (c.ix i)) ⟨2*k,Snapshot.zero⟩ Field.order = ⟨2*k,v⟩ := by
    refine congrArg (SeqLock.Slot.mk (2*k)) (funext fun f => ?_)
    rw [if_pos f.mem_order]
    exact congrFun (congrArg SeqLock.Slot.val hslot) f
  have hcopy := run_copy c Field.order (s:=s₂) rfl
  rw [hcopied] at hcopy
  refine ⟨⟨⟨rfl,rfl,rfl,Or.inl hpc⟩,?_⟩,?_⟩
  · rw [hscan]
    refine ⟨⟨rfl,rfl,rfl,Or.inr (Or.inl ⟨2*k,rfl⟩)⟩,?_⟩
    change Along _ _ (step c s₁ .advance) _
    rw [hstamp]
    refine (along_append _ _ _ _ _).mpr ⟨along_copy c Field.order rfl rfl rfl,?_⟩
    change Along _ _ (run (step c) s₂ _) _
    rw [hcopy]
    exact ⟨⟨rfl,rfl,rfl,Or.inr (Or.inr ⟨2*k,_,[],rfl⟩)⟩,trivial⟩
  · rw [lookup,run_cons,hscan,run_cons]
    change run _ (step c s₁ .advance) _ = _
    rw [hstamp,run_append]
    change run _ (run (step c) s₂ _) _ = _
    rw [hcopy,run_cons,run_nil]
    simp only [step,State.advance,s₂]

/-- The members stored so far are those of the record. -/
def Stored (c : Capacity) (s : State) (i : ℕ) (v : Snapshot) (rest : List Field) : Prop :=
  s.ring.items[i]? = some v ∧ s.ring.stage i = some (.storing rest) ∧
    (s.ring.slots (c.ix i)).seq = 2*i+1 ∧ ∀ f, f ∉ rest → (s.ring.slots (c.ix i)).val f = v f

theorem run_fields (c : Capacity) {i : ℕ} {v : Snapshot} (rest : List Field) :
    ∀ {s : State}, s.pc = .base ∨ s.pc = .entered → Stored c s i v rest →
      Along (step c) (StepOk c) s (rest.map (fun _ => .store i)++[.store i]) ∧
        ∃ stage, run (step c) s (rest.map (fun _ => .store i)++[.store i]) = { s with
          ring := ⟨Function.update s.ring.slots (c.ix i) ⟨2*i,v⟩,s.ring.items,stage⟩ } ∧
          stage i = none := by
  induction rest with
  | nil =>
    rintro s hpc ⟨hv,hstage,hseq,hval⟩
    have hall : (s.ring.slots (c.ix i)).val = v := funext fun f => hval f List.not_mem_nil
    refine ⟨⟨?_,trivial⟩,Function.update s.ring.stage i none,?_,Function.update_self _ _ _⟩
    · rcases hpc with hpc | hpc <;> simp only [StepOk,Ring.Exclusive,hpc,hstage,hv,hall,and_self]
    · rw [List.map_nil,List.nil_append,run_cons,run_nil]
      simp only [step,Ring.store,hstage,hv,hall]
  | cons f rest ih =>
    rintro s hpc ⟨hv,hstage,hseq,hval⟩
    let slot : Rec := ⟨2*i+1,Function.update (s.ring.slots (c.ix i)).val f (v f)⟩
    have hstep : step c s (.store i) = { s with
        ring := ⟨Function.update s.ring.slots (c.ix i) slot,s.ring.items,
          Function.update s.ring.stage i (some (.storing rest))⟩ } := by
      simp only [step,Ring.store,hstage,hv,hseq]
      rfl
    have hslot : (step c s (.store i)).ring.slots (c.ix i) = slot := by
      rw [hstep]
      exact Function.update_self _ _ _
    have hstored : Stored c (step c s (.store i)) i v rest := by
      refine ⟨by rw [hstep]; exact hv,?_,by rw [hslot],fun g hg => ?_⟩
      · rw [hstep]
        exact Function.update_self _ _ _
      · rw [hslot]
        show Function.update _ f (v f) g = v g
        by_cases hgf : g = f
        · subst hgf
          exact Function.update_self _ _ _
        · rw [Function.update_of_ne hgf]
          exact hval g (List.not_mem_cons_of_ne_of_not_mem hgf hg)
    obtain ⟨halong,stage,hrun,hnone⟩ := ih (by rw [hstep]; exact hpc) hstored
    refine ⟨⟨?_,halong⟩,stage,?_,hnone⟩
    · have hodd : (2*i+1) % 2 = 1 := by omega
      rcases hpc with hpc | hpc <;>
        simp only [StepOk,Ring.Exclusive,hpc,hstage,hv,hseq,hodd,and_true]
    · rw [List.map_cons,List.cons_append,run_cons,hrun,hstep]
      simp only [Function.update_idem]

/-- The stores of one `rec_commit`. -/
def commit (i : ℕ) : List Action := .store i::(Field.order.map (fun _ => .store i)++[.store i])

theorem run_commit (c : Capacity) {s : State} {i : ℕ} {v : Snapshot}
    (hpc : s.pc = .base ∨ s.pc = .entered) (hv : s.ring.items[i]? = some v)
    (hstage : s.ring.stage i = some .reserved) :
    Along (step c) (StepOk c) s (commit i) ∧
      ∃ stage, run (step c) s (commit i) = { s with
        ring := ⟨Function.update s.ring.slots (c.ix i) ⟨2*i,v⟩,s.ring.items,stage⟩ } ∧
        stage i = none := by
  let slot : Rec := ⟨2*i+1,(s.ring.slots (c.ix i)).val⟩
  have hstep : step c s (.store i) = { s with
      ring := ⟨Function.update s.ring.slots (c.ix i) slot,s.ring.items,
        Function.update s.ring.stage i (some (.storing Field.order))⟩ } := by
    simp only [step,Ring.store,hstage,hv]
    rfl
  have hslot : (step c s (.store i)).ring.slots (c.ix i) = slot := by
    rw [hstep]
    exact Function.update_self _ _ _
  have hstored : Stored c (step c s (.store i)) i v Field.order := by
    refine ⟨by rw [hstep]; exact hv,?_,by rw [hslot],fun f hf => absurd f.mem_order hf⟩
    rw [hstep]
    exact Function.update_self _ _ _
  obtain ⟨halong,stage,hrun,hnone⟩ :=
    run_fields c Field.order (by rw [hstep]; exact hpc) hstored
  refine ⟨⟨?_,halong⟩,stage,?_,hnone⟩
  · rcases hpc with hpc | hpc <;> simp only [StepOk,Ring.Exclusive,hpc,hstage,and_self]
  · rw [commit,run_cons,hrun,hstep]
    simp only [Function.update_idem]

theorem run_accept (c : Capacity) {s : State} {job : Job} {i stop : ℕ} {v : Snapshot}
    {recs : List Rec} (hpc : s.pc = .scan job i stop recs) (hi : i < stop)
    (hslot : s.ring.slots (c.ix i) = ⟨2*i,v⟩) (htime : s.cutoff ≤ v .tsNs) :
    Along (step c) (Looking s job i stop recs) s lookup ∧
      run (step c) s lookup = { s with pc := .scan job (i+1) stop (recs++[⟨2*i,v⟩]) } := by
  have haccepts : accepts job s.cutoff i (2*i) ⟨2*i,v⟩ = true := by simp [accepts,htime]
  obtain ⟨hlookup,hrun⟩ := run_take c hpc hi hslot
  simp only [haccepts,if_true] at hrun
  exact ⟨hlookup,hrun⟩

/-- In a run that loses none of the races, every state that is reached has only accepted
records as they were committed. -/
theorem run_accepted_committed (c : Capacity) (as : List Action)
    (h : Along (step c) (StepOk c) {} as) :
    Along (step c) (fun s a => (step c s a).Sound) {} as :=
  (Along.of_invariant (step c) inv_step
    (fun s a hs hok => (inv_step s a hs hok).rows) as _ (inv_init c) h).1

/-- The first record is committed and then looked up by `ExtractPre`. -/
def committedRun : List Action :=
  .reserve 1000000000 false Snapshot.zero::(commit 0++([.enter 1000000000 60,.advance]++lookup))

theorem committedRun_accepted :
    Along (step .default) (fun s a => (step .default s a).Sound) {} committedRun ∧
      (run (step .default) {} committedRun).rows =
        [⟨0,stamped 1000000000 false Snapshot.zero⟩] := by
  let v := stamped 1000000000 false Snapshot.zero
  let s₁ := step .default {} (.reserve 1000000000 false Snapshot.zero)
  obtain ⟨hcommit,stage,hrun₁,hnone⟩ := run_commit .default (s:=s₁) (i:=0) (v:=v) (Or.inl rfl) rfl rfl
  let slots := Function.update s₁.ring.slots (Capacity.default.ix 0) ⟨2*0,v⟩
  let s₂ := run (step .default) { s₁ with ring := ⟨slots,s₁.ring.items,stage⟩ }
    [.enter 1000000000 60,.advance]
  have hpc : s₂.pc = .scan .pre 0 1 [] := rfl
  have hslots : s₂.ring.slots = slots := rfl
  have hslot : s₂.ring.slots (Capacity.default.ix 0) = ⟨2*0,v⟩ := by
    rw [hslots]
    exact Function.update_self _ _ _
  have hcutoff : s₂.cutoff = 0 := rfl
  obtain ⟨hlookup,hrun₂⟩ :=
    run_accept .default hpc Nat.one_pos hslot (hcutoff ▸ UInt64.zero_le)
  refine ⟨run_accepted_committed .default committedRun ⟨trivial,?_⟩,?_⟩
  · refine (along_append _ _ _ _ _).mpr ⟨hcommit,?_⟩
    rw [hrun₁]
    exact ⟨trivial,trivial,hlookup.mono _ (fun _ _ hs => hs.stepOk fun _ => ⟨v,rfl,hnone⟩) _ _⟩
  · rw [committedRun,run_cons,run_append,hrun₁,run_append,hrun₂]
    rfl

/-- An episode in the first minute after boot: the first record has its number and no store yet
when `ExtractPre` comes to slot 0. -/
def zeroedRun : List Action :=
  [.reserve 1000000000 false Snapshot.zero,.enter 1000000000 60,.advance]++lookup

theorem zeroedRun_not_sound :
    ¬ ∀ as : List Action, (run (step .default) {} as).Sound := by
  intro h
  let s := run (step .default) {}
    [.reserve 1000000000 false Snapshot.zero,.enter 1000000000 60,.advance]
  have hpc : s.pc = .scan .pre 0 1 [] := rfl
  have hslot : s.ring.slots (Capacity.default.ix 0) = ⟨2*0,Snapshot.zero⟩ := rfl
  have hcutoff : s.cutoff = 0 := rfl
  have hrun : run (step .default) {} zeroedRun = _ := run_append _ _ _ _
  rw [(run_accept .default hpc Nat.one_pos hslot (hcutoff ▸ UInt64.zero_le)).2] at hrun
  have hrow : ⟨2*0,Snapshot.zero⟩ ∈ (run (step .default) {} zeroedRun).rows := by
    rw [hrun]
    exact List.mem_singleton_self _
  have hring : (run (step .default) {} zeroedRun).ring.stage 0 = some .reserved := by
    rw [hrun]
    rfl
  obtain ⟨i,v,hv,hb⟩ := h zeroedRun _ hrow
  have hi : 2*0 = 2*i := congrArg SeqLock.Slot.seq hb
  have hzero : i = 0 := by omega
  rw [hzero] at hv
  rw [hv.2] at hring
  cases hring

end RecordSeqlock
end ETraceDiag
