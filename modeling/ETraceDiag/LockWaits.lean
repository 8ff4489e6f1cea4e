import ETraceDiag.CellLedger
import ETraceDiag.EpisodeMaps

/-!
# Lock waits

The hooks that pair the begin of a lock wait with its end through `lock_wait`, one slot for a
thread, against the waits of the threads: a thread may wait for a second lock before the first
wait has ended, and it may be killed while it waits.
-/

namespace ETraceDiag
namespace LockWaits

open CellCounters CellLedger Transition
open EpisodeMaps (LatCell latDelta put put_eq_update)

/-- The cells of `struct lock_hot_val`. -/
inductive HotCell
  | count
  | latSum
  deriving DecidableEq,Repr

/-- The maps in which these hooks make entries. -/
inductive HookMap
  | lockWait
  | lockSt
  | lockHot
  deriving DecidableEq,Repr

structure LockWait where
  lockAddr : ℕ
  ts : ℕ
  flags : ℕ
  deriving DecidableEq,Repr

/-- `lock_hot` is a plain map; its entries have one slice, that of processor 0. -/
structure State where
  lockWait : ℕ → Option LockWait := fun _ => none
  lockSt : Counters ℕ LatCell := fun _ => none
  lockHot : Counters ℕ HotCell := fun _ => none

structure Env where
  cpu : ℕ
  now : ℕ
  room : HookMap → Bool := fun _ => true
  zStat : LatCell → ℕ := 0
  zHot : HotCell → ℕ := 0

/-! ## The hooks -/

def State.beginWait (e : Env) (tid : ℕ) (w : LockWait) (s : State) : State :=
  { s with lockWait := put (e.room .lockWait) tid w s.lockWait }

def State.onContentionBegin (e : Env) (tid lock flags : ℕ) (s : State) : State :=
  s.beginWait e tid ⟨lock,e.now,flags⟩

def State.mutexLockSlow (e : Env) (tid lockCount : ℕ) (s : State) : State :=
  s.beginWait e tid ⟨lockCount,e.now,0⟩

/-- `count++` and `lat_sum += wait`. -/
def hotDelta (wait : ℕ) : HotCell → ℕ
  | .count => 1
  | .latSum => wait

/-- What both end hooks do; they take the lock from different places. -/
def State.endWait (e : Env) (tid : ℕ) (addr : LockWait → ℕ) (s : State) : State :=
  match s.lockWait tid with
  | none => s
  | some w =>
    let wait := if w.ts < e.now then e.now-w.ts else 0
    { lockSt :=
        account LatCell.width (e.room .lockSt) e.zStat e.cpu tid (latDelta wait) s.lockSt
      lockHot :=
        account (fun _ => 64) (e.room .lockHot) e.zHot 0 (addr w) (hotDelta wait) s.lockHot
      lockWait := Function.update s.lockWait tid none }

def State.onContentionEnd (e : Env) (tid lock : ℕ) (s : State) : State :=
  s.endWait e tid fun _ => lock

def State.mutexLockSlowRet (e : Env) (tid : ℕ) (s : State) : State :=
  s.endWait e tid LockWait.lockAddr

/-! ## The waits of the threads -/

/-- The hooks that the kernel has: the tracepoints, or the probes of the mutex slow path. -/
inductive Hooks
  | contention
  | slowpath

inductive Event
  | waitBegin (e : Env) (tid lock flags : ℕ)
  | waitEnd (e : Env) (tid lock : ℕ)
  | exit (tid : ℕ)

/-- A wait that has ended: the thread, its processor at the end, the lock, and how long. -/
structure Wait where
  tid : ℕ
  cpu : ℕ
  lock : ℕ
  length : ℕ

/-- The waits that a thread is in, the latest first; the last wait that was begun under a tid,
until the next end under it; and the waits that have ended. -/
structure Track where
  waits : ℕ → List LockWait := fun _ => []
  latest : ℕ → Option LockWait := fun _ => none
  ended : List Wait := []

def Hooks.record : Hooks → Env → ℕ → ℕ → LockWait
  | .contention, e, lock, flags => ⟨lock,e.now,flags⟩
  | .slowpath, e, lock, _ => ⟨lock,e.now,0⟩

def Track.waitBegin (tid : ℕ) (w : LockWait) (t : Track) : Track :=
  { t with
    waits := Function.update t.waits tid (w::t.waits tid)
    latest := Function.update t.latest tid (some w) }

/-- The wait of the thread for this lock, the latest one if it waits for it twice. -/
def Track.own (tid lock : ℕ) (t : Track) : Option LockWait :=
  (t.waits tid).find? (·.lockAddr = lock)

def Track.waitEnd (e : Env) (tid lock : ℕ) (t : Track) : Track where
  waits := Function.update t.waits tid ((t.waits tid).eraseP (·.lockAddr = lock))
  latest := Function.update t.latest tid none
  ended := t.ended++((t.own tid lock).map fun w => ⟨tid,e.cpu,lock,e.now-w.ts⟩).toList

def Track.exit (tid : ℕ) (t : Track) : Track :=
  { t with waits := Function.update t.waits tid [] }

structure Sys where
  kernel : State
  track : Track

/-- The exit of a thread leaves `lock_wait` as it is: `on_process_exit` does not delete from it.
The next thread with this tid begins with no wait. -/
def step (hooks : Hooks) (s : Sys) : Event → Sys
  | .waitBegin e tid lock flags =>
    ⟨match hooks with
      | .contention => s.kernel.onContentionBegin e tid lock flags
      | .slowpath => s.kernel.mutexLockSlow e tid lock,
      s.track.waitBegin tid (hooks.record e lock flags)⟩
  | .waitEnd e tid lock =>
    ⟨match hooks with
      | .contention => s.kernel.onContentionEnd e tid lock
      | .slowpath => s.kernel.mutexLockSlowRet e tid,
      s.track.waitEnd e tid lock⟩
  | .exit tid => ⟨s.kernel,s.track.exit tid⟩

def start : Sys := ⟨{},{}⟩

def Wait.statCharge (w : Wait) : Charge ℕ LatCell := ⟨w.tid,w.cpu,latDelta w.length⟩

def Wait.hotCharge (w : Wait) : Charge ℕ HotCell := ⟨w.lock,0,hotDelta w.length⟩

/-- `lock_st` counts the ended waits of every thread, `lock_hot` those on every lock. -/
structure Matched (s : Sys) : Prop where
  lockSt : Records LatCell.width s.kernel.lockSt (s.track.ended.map Wait.statCharge)
  lockHot : Records (fun _ => 64) s.kernel.lockHot (s.track.ended.map Wait.hotCharge)

/-- A wait that ends was the last one begun under its tid, with no other end since; where no
wait ends, none was begun since the last end. A begin finds room for its record. -/
def EndsLatest (s : Sys) : Event → Prop
  | .waitBegin e tid _ _ => s.track.latest tid = none → e.room .lockWait = true
  | .waitEnd _ tid lock => s.track.latest tid = s.track.own tid lock
  | .exit _ => True

/-- Entries that a wait makes in the counters start from zeros and find room. -/
def CleanEntries (s : Sys) : Event → Prop
  | .waitEnd e tid lock => s.track.own tid lock ≠ none →
      Clean (e.room .lockSt) e.zStat tid s.kernel.lockSt ∧
        Clean (e.room .lockHot) e.zHot lock s.kernel.lockHot
  | _ => True

/-! ## What one step does -/

/-- Both end hooks, where the slot has the wait for the lock. -/
theorem endWait_of_some {e : Env} {tid lock : ℕ} {addr : LockWait → ℕ} {s : State} {w : LockWait}
    (hw : s.lockWait tid = some w) (haddr : addr w = lock) :
    (s.endWait e tid addr).lockSt =
        account LatCell.width (e.room .lockSt) e.zStat e.cpu tid (latDelta (e.now-w.ts)) s.lockSt ∧
      (s.endWait e tid addr).lockHot =
        account (fun _ => 64) (e.room .lockHot) e.zHot 0 lock (hotDelta (e.now-w.ts))
          s.lockHot := by
  have hwait : (if w.ts < e.now then e.now-w.ts else 0) = e.now-w.ts := by
    split <;> omega
  rw [State.endWait,hw]
  simp only [hwait,haddr,and_self]

theorem endWait_of_none {e : Env} {tid : ℕ} {addr : LockWait → ℕ} {s : State}
    (hw : s.lockWait tid = none) : s.endWait e tid addr = s := by
  rw [State.endWait,hw]

theorem Track.lockAddr_of_own {t : Track} {tid lock : ℕ} {w : LockWait}
    (h : t.own tid lock = some w) : w.lockAddr = lock := by
  simpa using List.find?_some h

theorem endWait_lockWait (e : Env) (tid : ℕ) (addr : LockWait → ℕ) (s : State) :
    (s.endWait e tid addr).lockWait = Function.update s.lockWait tid none := by
  cases hw : s.lockWait tid with
  | none =>
    have hself := Function.update_eq_self tid s.lockWait
    rw [hw] at hself
    rw [endWait_of_none hw,hself]
  | some w =>
    rw [State.endWait,hw]

theorem Matched.waitEnd {s : Sys} (h : Matched s) {e : Env} {tid lock : ℕ} {addr : LockWait → ℕ}
    (haddr : ∀ w, s.track.own tid lock = some w → addr w = lock)
    (hown : s.kernel.lockWait tid = s.track.own tid lock)
    (hclean : CleanEntries s (.waitEnd e tid lock)) :
    Matched ⟨s.kernel.endWait e tid addr,s.track.waitEnd e tid lock⟩ := by
  cases hw : s.track.own tid lock with
  | none =>
    have hended : (s.track.waitEnd e tid lock).ended = s.track.ended := by
      simp [Track.waitEnd,hw]
    rw [endWait_of_none (hown.trans hw)]
    exact ⟨hended ▸ h.lockSt,hended ▸ h.lockHot⟩
  | some w =>
    have hended : (s.track.waitEnd e tid lock).ended =
        s.track.ended++[⟨tid,e.cpu,lock,e.now-w.ts⟩] := by
      simp [Track.waitEnd,hw]
    obtain ⟨hst,hhot⟩ := endWait_of_some (e:=e) (hown.trans hw) (haddr w hw)
    obtain ⟨hcleanSt,hcleanHot⟩ := hclean (by simp [hw])
    constructor
    · rw [hst,hended,List.map_append]
      exact h.lockSt.account hcleanSt _ _
    · rw [hhot,hended,List.map_append]
      exact h.lockHot.account hcleanHot _ _

/-- `lock_wait` has the last wait that was begun under each tid. -/
structure Slotted (s : Sys) : Prop where
  slot : s.kernel.lockWait = s.track.latest
  matched : Matched s

theorem Slotted.waitBegin {s : Sys} (h : Slotted s) {e : Env} {tid : ℕ} (w : LockWait)
    (hroom : s.track.latest tid = none → e.room .lockWait = true) :
    Slotted ⟨s.kernel.beginWait e tid w,s.track.waitBegin tid w⟩ := by
  refine ⟨?_,h.matched.lockSt,h.matched.lockHot⟩
  simp only [State.beginWait,Track.waitBegin]
  rw [put_eq_update (h.slot ▸ hroom),h.slot]

theorem Slotted.waitEnd {s : Sys} (h : Slotted s) {e : Env} {tid lock : ℕ} {addr : LockWait → ℕ}
    (haddr : ∀ w, s.track.own tid lock = some w → addr w = lock)
    (hlatest : EndsLatest s (.waitEnd e tid lock)) (hclean : CleanEntries s (.waitEnd e tid lock)) :
    Slotted ⟨s.kernel.endWait e tid addr,s.track.waitEnd e tid lock⟩ := by
  refine ⟨?_,h.matched.waitEnd haddr ((congrFun h.slot tid).trans hlatest) hclean⟩
  simp only [endWait_lockWait,Track.waitEnd,h.slot]

theorem Slotted.step {s : Sys} (h : Slotted s) (hooks : Hooks) {ev : Event}
    (hlatest : EndsLatest s ev) (hclean : CleanEntries s ev) :
    Slotted (LockWaits.step hooks s ev) := by
  cases ev with
  | waitBegin e tid lock flags =>
    cases hooks with
    | contention => exact h.waitBegin _ hlatest
    | slowpath => exact h.waitBegin _ hlatest
  | exit tid => exact ⟨h.slot,h.matched.lockSt,h.matched.lockHot⟩
  | waitEnd e tid lock =>
    cases hooks with
    | contention => exact h.waitEnd (fun _ _ => rfl) hlatest hclean
    | slowpath => exact h.waitEnd (fun _ => Track.lockAddr_of_own) hlatest hclean

theorem slotted_start : Slotted start := ⟨rfl,records_nil _,records_nil _⟩

/-! ## Runs -/

/-- Where the waits under a tid end before the next one begins, the counters match the waits
that have ended. -/
theorem matched_run (hooks : Hooks) (es : List Event)
    (h : Along (step hooks) (fun s ev => EndsLatest s ev ∧ CleanEntries s ev) start es) :
    Matched (run (step hooks) start es) :=
  (Along.of_invariant (step hooks) (P:=fun _ _ => True)
    (fun _ _ hI hC => hI.step hooks hC.1 hC.2) (fun _ _ _ _ => trivial) es _ slotted_start
    h).2.matched

/-- No thread begins a second wait, ends a wait for another lock or exits in a wait, and
`lock_wait` has room. -/
def Unnested (s : Sys) : Event → Prop
  | .waitBegin e tid _ _ => s.track.waits tid = [] ∧ e.room .lockWait = true
  | .waitEnd _ tid lock => ∀ w ∈ s.track.waits tid, w.lockAddr = lock
  | .exit tid => s.track.waits tid = []

/-- A thread is in one wait at most, the last one begun under its tid. -/
def Single (t : Track) : Prop := ∀ tid,
  (t.waits tid = [] ∧ t.latest tid = none) ∨ ∃ w, t.waits tid = [w] ∧ t.latest tid = some w

theorem Single.endsLatest {s : Sys} (h : Single s.track) {ev : Event} (hun : Unnested s ev) :
    EndsLatest s ev := by
  cases ev with
  | waitBegin e tid lock flags => exact fun _ => hun.2
  | exit tid => trivial
  | waitEnd e tid lock =>
    rw [EndsLatest,Track.own]
    obtain ⟨hnil,hnone⟩ | ⟨w,hone,hsome⟩ := h tid
    · rw [hnil,hnone]
      rfl
    · have hlock : w.lockAddr = lock := hun w (by simp [hone])
      simp [hone,hsome,hlock]

theorem Single.waitEnd {t : Track} (h : Single t) (e : Env) {tid lock : ℕ}
    (hun : ∀ w ∈ t.waits tid, w.lockAddr = lock) : Single (t.waitEnd e tid lock) := by
  have hnone : (t.waits tid).eraseP (·.lockAddr = lock) = [] := by
    obtain ⟨hnil,_⟩ | ⟨w,hone,_⟩ := h tid
    · rw [hnil,List.eraseP_nil]
    · have hlock : w.lockAddr = lock := hun w (by simp [hone])
      simp [hone,hlock]
  intro tid'
  simp only [Track.waitEnd,hnone]
  by_cases htid : tid' = tid
  · subst htid
    exact Or.inl ⟨Function.update_self ..,Function.update_self ..⟩
  · rw [Function.update_of_ne htid,Function.update_of_ne htid]
    exact h tid'

theorem Single.waitBegin {t : Track} (h : Single t) {tid : ℕ} (w : LockWait)
    (hnil : t.waits tid = []) : Single (t.waitBegin tid w) := by
  intro tid'
  simp only [Track.waitBegin,hnil]
  by_cases htid : tid' = tid
  · subst htid
    exact Or.inr ⟨w,Function.update_self ..,Function.update_self ..⟩
  · rw [Function.update_of_ne htid,Function.update_of_ne htid]
    exact h tid'

theorem Single.exit {t : Track} (h : Single t) {tid : ℕ} (hnil : t.waits tid = []) :
    Single (t.exit tid) := by
  have hwaits : Function.update t.waits tid [] = t.waits :=
    (congrArg (Function.update t.waits tid) hnil.symm).trans (Function.update_eq_self ..)
  intro tid'
  simp only [Track.exit,hwaits]
  exact h tid'

theorem Single.step {s : Sys} (h : Single s.track) (hooks : Hooks) {ev : Event}
    (hun : Unnested s ev) : Single (LockWaits.step hooks s ev).track := by
  cases ev with
  | waitBegin e tid lock flags => exact h.waitBegin _ hun.1
  | waitEnd e tid lock => exact h.waitEnd e hun
  | exit tid => exact h.exit hun

theorem single_start : Single start.track := fun _ => Or.inl ⟨rfl,rfl⟩

/-- One wait of a thread at a time, each of which ends. -/
theorem endsLatest_of_unnested (hooks : Hooks) (es : List Event)
    (h : Along (step hooks) Unnested start es) : Along (step hooks) EndsLatest start es :=
  (Along.of_invariant (I:=fun s : Sys => Single s.track) (step hooks)
    (fun _ _ hI hC => hI.step hooks hC) (fun _ _ hI hC => hI.endsLatest hC) es _ single_start h).1

/-- Thread 7 waits for lock 1 from 10 to 30. -/
def oneWait : List Event := [.waitBegin ⟨0,10,fun _ => true,0,0⟩ 7 1 0,
  .waitEnd ⟨0,30,fun _ => true,0,0⟩ 7 1]

theorem matched_run_oneWait :
    Along (step .contention) (fun s ev => EndsLatest s ev ∧ CleanEntries s ev) start oneWait ∧
      Matched (run (step .contention) start oneWait) := by
  have h : Along (step .contention) (fun s ev => EndsLatest s ev ∧ CleanEntries s ev) start
      oneWait := by
    refine ⟨⟨fun _ => rfl,trivial⟩,⟨?_,fun _ => ⟨fun _ => ⟨rfl,rfl⟩,fun _ => ⟨rfl,rfl⟩⟩⟩,trivial⟩
    exact (by decide : (some ⟨1,10,0⟩ : Option LockWait) = some ⟨1,10,0⟩)
  exact ⟨h,matched_run _ _ h⟩

/-- Thread 7 waits for lock 1, from inside that wait for lock 2, and gets both: the wait for
lock 1 is not counted. -/
theorem nestedWaits_not_matched :
    ¬∀ (hooks : Hooks) (es : List Event), Matched (run (step hooks) start es) := by
  intro h
  have hcount := (h .contention [.waitBegin ⟨0,10,fun _ => true,0,0⟩ 7 1 0,
    .waitBegin ⟨0,20,fun _ => true,0,0⟩ 7 2 0,.waitEnd ⟨0,30,fun _ => true,0,0⟩ 7 2,
    .waitEnd ⟨0,40,fun _ => true,0,0⟩ 7 1]).lockSt 7 0 .count
  exact absurd hcount (by decide)

end LockWaits
end ETraceDiag
