import Mathlib.Algebra.Ring.Nat
import ETraceDiag.OverwriteRing
import ETraceDiag.Transition

/-!
# OOM events

`on_mark_victim` of `bpf/etrace_common.h` puts each event into a ring of 64 slots and counts it
in `oom_seq`; `DumpOomEvents` of `app.cpp` writes a row for every number since the one it saw
last. A hook runs between two calls, not within one.
-/

namespace ETraceDiag
namespace OomRing

open OverwriteRing Transition

structure OomEventVal where
  ts : UInt64
  pid : UInt32

/-- A row of `oom_events`. -/
structure OomRow where
  tsNs : UInt64
  pid : UInt32
  comm : List UInt8

/-- `marked` and `dumped` are history: all events so far, and how many there were at the last
call of `DumpOomEvents`. -/
structure State where
  oomSeq : UInt32 := 0
  oomEvents : ℕ → OomEventVal := fun _ => ⟨0,0⟩
  lastSeq : UInt32 := 0
  marked : List OomEventVal := []
  dumped : ℕ := 0

inductive Event
  | markVictim (now : UInt64) (pid : UInt32)
  | dump (comm : UInt32 → List UInt8)

def onMarkVictim (now : UInt64) (pid : UInt32) (s : State) : State :=
  { s with
    oomSeq := s.oomSeq+1
    oomEvents := Function.update s.oomEvents (s.oomSeq &&& 63).toNat ⟨now,pid⟩
    marked := s.marked++[⟨now,pid⟩] }

/-- The row of an event, with the name that `ReadComm` finds now. -/
def row (comm : UInt32 → List UInt8) (ev : OomEventVal) : OomRow := ⟨ev.ts,ev.pid,comm ev.pid⟩

/-- The loop of `DumpOomEvents`, from `s` on. -/
def dumpFrom (comm : UInt32 → List UInt8) (oomEvents : ℕ → OomEventVal) (first seq s : UInt32) :
    List OomRow :=
  if _h : s < seq ∧ s-first < 1000 then
    row comm (oomEvents (s &&& 63).toNat)::dumpFrom comm oomEvents first seq (s+1)
  else []
termination_by seq.toNat-s.toNat
decreasing_by
  have hlt := UInt32.lt_iff_toNat_lt.mp _h.1
  have hbound := seq.toNat_lt
  rw [UInt32.toNat_add,Nat.mod_eq_of_lt (by change s.toNat+1 < 2^32; omega)]
  change seq.toNat-(s.toNat+1) < _
  omega

def dumpOomEvents (comm : UInt32 → List UInt8) (s : State) : List OomRow :=
  if s.oomSeq = s.lastSeq then [] else dumpFrom comm s.oomEvents s.lastSeq s.oomSeq s.lastSeq

def step (s : State) : Event → State
  | .markVictim now pid => onMarkVictim now pid s
  | .dump _ => { s with lastSeq := s.oomSeq, dumped := s.marked.length }

/-! ## What a call reads -/

theorem toNat_slot (s : UInt32) : (s &&& 63).toNat = s.toNat % 64 := by
  rw [UInt32.toNat_and]
  exact Nat.and_two_pow_sub_one_eq_mod s.toNat 6

/-- The numbers between the two counters in order, a thousand at most. -/
theorem dumpFrom_eq (comm : UInt32 → List UInt8) (oomEvents : ℕ → OomEventVal)
    (first seq s : UInt32) (hs : first ≤ s) : dumpFrom comm oomEvents first seq s =
      (List.range (min seq.toNat (first.toNat+1000)-s.toNat)).map
        fun j => row comm (oomEvents ((s.toNat+j) % 64)) := by
  fun_induction dumpFrom comm oomEvents first seq s with
  | case1 s h ih =>
    have hlt := UInt32.lt_iff_toNat_lt.mp h.1
    have hbound := seq.toNat_lt
    have hle := UInt32.le_iff_toNat_le.mp hs
    have hsub := UInt32.lt_iff_toNat_lt.mp h.2
    rw [UInt32.toNat_sub_of_le _ _ hs] at hsub
    change s.toNat-first.toNat < 1000 at hsub
    have hsucc : (s+1).toNat = s.toNat+1 := by
      rw [UInt32.toNat_add,Nat.mod_eq_of_lt (by change s.toNat+1 < 2^32; omega)]
      rfl
    have hcount : min seq.toNat (first.toNat+1000)-s.toNat =
        min seq.toNat (first.toNat+1000)-(s.toNat+1)+1 := by omega
    rw [ih (UInt32.le_iff_toNat_le.mpr (by omega)),toNat_slot,hsucc,hcount,List.range_succ_eq_map,
      List.map_cons,List.map_map,Nat.add_zero]
    refine congrArg _ (List.map_congr_left fun j _ => ?_)
    rw [Function.comp_apply,Nat.succ_eq_add_one,Nat.add_right_comm,Nat.add_assoc]
  | case2 s h =>
    have hzero : min seq.toNat (first.toNat+1000)-s.toNat = 0 := by
      have hle := UInt32.le_iff_toNat_le.mp hs
      rw [UInt32.lt_iff_toNat_lt,UInt32.lt_iff_toNat_lt,UInt32.toNat_sub_of_le _ _ hs] at h
      change ¬(_ ∧ s.toNat-first.toNat < 1000) at h
      omega
    rw [hzero]
    rfl

theorem dumpOomEvents_eq (comm : UInt32 → List UInt8) (s : State) : dumpOomEvents comm s =
    (List.range (min s.oomSeq.toNat (s.lastSeq.toNat+1000)-s.lastSeq.toNat)).map
      fun j => row comm (s.oomEvents ((s.lastSeq.toNat+j) % 64)) := by
  rw [dumpOomEvents]
  split
  · next h =>
    rw [h,Nat.sub_eq_zero_of_le (Nat.min_le_left _ _)]
    rfl
  · exact dumpFrom_eq comm _ _ _ _ (UInt32.le_refl _)

/-! ## What it should report -/

/-- The events since the last call. -/
def State.since (s : State) : List OomEventVal := s.marked.drop s.dumped

/-- The last 64 events since the last call, or all of them. -/
def Event.Reports (s : State) : Event → Prop
  | .markVictim _ _ => True
  | .dump comm => dumpOomEvents comm s = (s.since.rtake 64).map (row comm)

/-- The ring has not been overrun (or by whole turns of the counter), and the counter has not
wrapped. -/
def Event.Timely (s : State) : Event → Prop
  | .markVictim _ _ => True
  | .dump _ => (s.since.length ≤ 64 ∨ s.since.length % 2^32 = 64) ∧
      s.lastSeq.toNat+s.since.length % 2^32 < 2^32

structure State.Wf (s : State) : Prop where
  oomSeq : s.oomSeq.toNat = s.marked.length % 2^32
  lastSeq : s.lastSeq.toNat = s.dumped % 2^32
  dumped : s.dumped ≤ s.marked.length
  holds : Holds 64 s.oomEvents s.marked

theorem wf_init : State.Wf {} := ⟨rfl,rfl,Nat.le_refl _,holds_nil _ _⟩

theorem State.Wf.onMarkVictim {s : State} (h : s.Wf) (now : UInt64) (pid : UInt32) :
    (onMarkVictim now pid s).Wf where
  oomSeq := by
    rw [OomRing.onMarkVictim,List.length_append,UInt32.toNat_add,h.oomSeq]
    exact Nat.mod_add_mod _ _ _
  lastSeq := h.lastSeq
  dumped := h.dumped.trans (by rw [OomRing.onMarkVictim,List.length_append]; omega)
  holds := by
    have hslot : (s.oomSeq &&& 63).toNat = s.marked.length % 64 := by
      rw [toNat_slot,h.oomSeq]
      omega
    rw [OomRing.onMarkVictim,hslot]
    exact h.holds.put _

theorem State.Wf.step {s : State} (h : s.Wf) (e : Event) : (step s e).Wf := by
  cases e with
  | markVictim now pid => exact h.onMarkVictim now pid
  | dump comm => exact ⟨h.oomSeq,h.oomSeq,Nat.le_refl _,h.holds⟩

theorem State.length_since (s : State) : s.since.length = s.marked.length-s.dumped :=
  List.length_drop

/-- How many rows a call writes. -/
theorem State.Wf.count_eq_iff {s : State} (h : s.Wf) :
    min s.oomSeq.toNat (s.lastSeq.toNat+1000)-s.lastSeq.toNat = min 64 s.since.length ↔
      (s.since.length ≤ 64 ∨ s.since.length % 2^32 = 64) ∧
        s.lastSeq.toNat+s.since.length % 2^32 < 2^32 := by
  have hseq := h.oomSeq
  have hlast := h.lastSeq
  have hle := h.dumped
  rw [s.length_since]
  omega

theorem State.Wf.reports_iff {s : State} (h : s.Wf) (e : Event) : e.Reports s ↔ e.Timely s := by
  cases e with
  | markVictim now pid => exact Iff.rfl
  | dump comm =>
    rw [Event.Reports,Event.Timely,← h.count_eq_iff,dumpOomEvents_eq]
    refine ⟨fun heq => ?_,fun hcount => ?_⟩
    · have hlen := congrArg List.length heq
      rw [List.length_map,List.length_range,List.length_map,List.rtake,List.length_drop] at hlen
      omega
    · have hwhole := h.count_eq_iff.mp hcount
      have hlast := h.lastSeq
      have hle := h.dumped
      rw [s.length_since] at hcount hwhole
      have hread := h.holds.map_range (n:=min 64 (s.marked.length-s.dumped)) (Nat.min_le_left _ _)
        (by omega)
      have hrtake : s.since.rtake 64 = s.marked.rtake (min 64 (s.marked.length-s.dumped)) := by
        rw [State.since,List.rtake,List.rtake,List.drop_drop,List.length_drop]
        congr 1
        omega
      rw [hrtake,← hread,hcount,List.map_map]
      refine List.map_congr_left fun j _ => ?_
      rw [Function.comp_apply]
      congr 2
      omega

theorem run_marks (evs : List OomEventVal) : ∀ s : State, s.Wf →
    let s' := run step s (evs.map fun ev => .markVictim ev.ts ev.pid)
    s'.Wf ∧ s'.marked = s.marked++evs ∧ s'.dumped = s.dumped := by
  induction evs with
  | nil => intro s h; exact ⟨h,(List.append_nil _).symm,rfl⟩
  | cons ev evs ih =>
    intro s h
    obtain ⟨hwf,hmarked,hdumped⟩ := ih _ (h.onMarkVictim ev.ts ev.pid)
    refine ⟨hwf,?_,hdumped⟩
    rw [List.map_cons,run_cons,step,hmarked,onMarkVictim,List.append_assoc]
    rfl

/-- Sixty-five victims between two calls. -/
def burst : List Event :=
  (List.replicate 65 (⟨1,7⟩ : OomEventVal)).map (fun ev => .markVictim ev.ts ev.pid)

end OomRing
end ETraceDiag
