import ETraceDiag.ChangeLog
import ETraceDiag.RacyCounter
import Mathlib.Data.UInt

/-!
# Memory pressure

The vmscan hooks of `bpf/etrace_common.h` keep one value for the whole machine, and update it
without a lock; `DumpMemEvents` of `app.cpp` writes a row each time it has changed.
-/

namespace ETraceDiag
namespace MemEvents

open ChangeLog RacyCounter Transition

structure MemEventsVal where
  kswapdActive : UInt32
  directReclaim : UInt32
  nrReclaimed : UInt64
deriving DecidableEq

/-- A row of `memory_events` with its `ts_ns`. -/
abbrev MemRow := ℕ × MemEventsVal

/-- `last` is the static variable of `DumpMemEvents`. `looks` is history: what each call has
seen. -/
structure State where
  kswapdActive : UInt32 := 0
  directReclaim : Cell UInt32 := { value := 0 }
  nrReclaimed : Cell UInt64 := { value := 0 }
  last : MemEventsVal := ⟨0,0,0⟩
  rows : List MemRow := []
  looks : List MemRow := []

/-- The hooks that count read the value and write it back in two steps, each at its place among
those under way. -/
inductive Event
  | kswapdWake
  | kswapdSleep
  | directReclaimBegin
  | directReclaimBegun (i : ℕ)
  | directReclaimEnd (nrReclaimed : UInt64)
  | directReclaimEnded (i : ℕ)
  | dump (tsNs : ℕ)

def State.value (s : State) : MemEventsVal :=
  ⟨s.kswapdActive,s.directReclaim.value,s.nrReclaimed.value⟩

def dumpMemEvents (tsNs : ℕ) (s : State) : State :=
  let m := s.value
  if m.kswapdActive = s.last.kswapdActive ∧ m.directReclaim = s.last.directReclaim ∧
      m.nrReclaimed = s.last.nrReclaimed then s
  else { s with last := m, rows := s.rows++[(tsNs,m)] }

def step (s : State) : Event → State
  | .kswapdWake => { s with kswapdActive := 1 }
  | .kswapdSleep => { s with kswapdActive := 0 }
  | .directReclaimBegin => { s with directReclaim := s.directReclaim.step (.load 1) }
  | .directReclaimBegun i => { s with directReclaim := s.directReclaim.step (.store i) }
  | .directReclaimEnd n => { s with nrReclaimed := s.nrReclaimed.step (.load n) }
  | .directReclaimEnded i => { s with nrReclaimed := s.nrReclaimed.step (.store i) }
  | .dump tsNs => { dumpMemEvents tsNs s with looks := s.looks++[(tsNs,s.value)] }

/-! ## The counters -/

structure State.Wf (s : State) : Prop where
  directReclaim : s.directReclaim.Wf
  nrReclaimed : s.nrReclaimed.Wf
  last : s.last = final ⟨0,0,0⟩ s.looks
  rows : s.rows = log ⟨0,0,0⟩ s.looks

theorem wf_init : State.Wf {} := ⟨RacyCounter.wf_init,RacyCounter.wf_init,rfl,rfl⟩

theorem dump_eq (tsNs : ℕ) (s : State) : dumpMemEvents tsNs s =
    if s.value = s.last then s
    else { s with last := s.value, rows := s.rows++[(tsNs,s.value)] } := by
  rw [dumpMemEvents]
  refine if_congr ?_ rfl rfl
  rw [← MemEventsVal.mk.injEq]

theorem State.Wf.step {s : State} (h : s.Wf) (e : Event) : (step s e).Wf := by
  cases e with
  | kswapdWake => exact ⟨h.directReclaim,h.nrReclaimed,h.last,h.rows⟩
  | kswapdSleep => exact ⟨h.directReclaim,h.nrReclaimed,h.last,h.rows⟩
  | directReclaimBegin => exact ⟨h.directReclaim.step (.load 1),h.nrReclaimed,h.last,h.rows⟩
  | directReclaimBegun i => exact ⟨h.directReclaim.step (.store i),h.nrReclaimed,h.last,h.rows⟩
  | directReclaimEnd n =>
    exact ⟨h.directReclaim,h.nrReclaimed.step (.load n),h.last,h.rows⟩
  | directReclaimEnded i =>
    exact ⟨h.directReclaim,h.nrReclaimed.step (.store i),h.last,h.rows⟩
  | dump tsNs =>
    rw [MemEvents.step,dump_eq]
    have hlog := log_append s.looks [(tsNs,s.value)] ⟨0,0,0⟩
    rw [log,log,← h.last,← h.rows] at hlog
    split
    · next heq =>
      rw [if_pos heq,List.append_nil] at hlog
      exact ⟨h.directReclaim,h.nrReclaimed,by rw [final_concat]; exact heq.symm,hlog.symm⟩
    · next hne =>
      rw [if_neg hne] at hlog
      exact ⟨h.directReclaim,h.nrReclaimed,(final_concat ..).symm,hlog.symm⟩

theorem State.Wf.run (events : List Event) : ∀ {s : State}, s.Wf →
    (run MemEvents.step s events).Wf := by
  induction events with
  | nil => exact fun h => h
  | cons e events ih => exact fun h => ih (h.step e)

/-- No execution of a hook begins while another of the same hook is under way. -/
def Event.Serial (s : State) : Event → Prop
  | .directReclaimBegin => s.directReclaim.flight = []
  | .directReclaimEnd _ => s.nrReclaimed.flight = []
  | _ => True

structure State.Exact (s : State) : Prop where
  directReclaim : s.directReclaim.Exact
  nrReclaimed : s.nrReclaimed.Exact

theorem State.Exact.step {s : State} (h : s.Exact) {e : Event} (he : e.Serial s) :
    (step s e).Exact := by
  cases e with
  | kswapdWake => exact ⟨h.directReclaim,h.nrReclaimed⟩
  | kswapdSleep => exact ⟨h.directReclaim,h.nrReclaimed⟩
  | directReclaimBegin => exact ⟨h.directReclaim.step (a:=.load 1) he,h.nrReclaimed⟩
  | directReclaimBegun i => exact ⟨h.directReclaim.step (a:=.store i) trivial,h.nrReclaimed⟩
  | directReclaimEnd n => exact ⟨h.directReclaim,h.nrReclaimed.step (a:=.load n) he⟩
  | directReclaimEnded i => exact ⟨h.directReclaim,h.nrReclaimed.step (a:=.store i) trivial⟩
  | dump tsNs =>
    rw [MemEvents.step,dump_eq]
    split
    · exact ⟨h.directReclaim,h.nrReclaimed⟩
    · exact ⟨h.directReclaim,h.nrReclaimed⟩

theorem State.Exact.run (events : List Event) : ∀ {s : State}, s.Exact →
    Along MemEvents.step (fun s e => e.Serial s) s events →
    (run MemEvents.step s events).Exact := by
  induction events with
  | nil => exact fun h _ => h
  | cons e events ih => exact fun h hserial => ih (h.step hserial.1) hserial.2

/-! ## The table -/

def Event.stamp : Event → Option ℕ
  | .dump tsNs => some tsNs
  | _ => none

theorem step_looks (s : State) (e : Event) : ∃ more, (step s e).looks = s.looks++more ∧
    more.map Prod.fst = e.stamp.toList := by
  cases e with
  | dump tsNs => exact ⟨[(tsNs,s.value)],rfl,rfl⟩
  | _ => exact ⟨[],(List.append_nil _).symm,rfl⟩

theorem run_looks (events : List Event) : ∀ s, ∃ more,
    (run step s events).looks = s.looks++more ∧
      more.map Prod.fst = events.filterMap Event.stamp := by
  induction events with
  | nil => exact fun s => ⟨[],(List.append_nil _).symm,rfl⟩
  | cons e events ih =>
    intro s
    obtain ⟨one,hone,hstamp⟩ := step_looks s e
    obtain ⟨more,hmore,hstamps⟩ := ih (step s e)
    refine ⟨one++more,?_,?_⟩
    · rw [run_cons,hmore,hone,List.append_assoc]
    · rw [List.map_append,hstamp,hstamps,List.filterMap_cons]
      cases e.stamp <;> rfl

/-- A row is only written when something has changed. -/
theorem rows_differ (events : List Event) :
    (⟨0,0,0⟩::(run step {} events).rows.map Prod.snd).IsChain (· ≠ ·) := by
  rw [(wf_init.run events).rows]
  exact isChain_log _ _

/-- In every run, however the hooks run into each other, the table says of the time of each call
what the map had then: whether kswapd was awake, and of both counters a part of the updates that
lacks at most those written while another execution was under way. -/
theorem mem_events_recorded (before after : List Event) (tsNs : ℕ)
    (h : ((before++.dump tsNs::after).filterMap Event.stamp).Pairwise (· < ·)) :
    let s := run step {} before
    let v := valueAt ⟨0,0,0⟩ (run step {} (before++.dump tsNs::after)).rows tsNs
    v.kswapdActive = s.kswapdActive ∧ s.directReclaim.Counts v.directReclaim ∧
      s.nrReclaimed.Counts v.nrReclaimed ∧
      (Along step (fun s e => e.Serial s) {} before →
        v.directReclaim = s.directReclaim.stored.sum ∧
          v.nrReclaimed = s.nrReclaimed.stored.sum) := by
  intro s v
  have hwf : s.Wf := wf_init.run before
  have hrows := (wf_init.run (before++.dump tsNs::after)).rows
  have hv : v = s.value := by
    obtain ⟨early,hearly,hbefore⟩ := run_looks before {}
    obtain ⟨late,hlate,hafter⟩ := run_looks after (step s (.dump tsNs))
    have hlooks : (run step {} (before++.dump tsNs::after)).looks =
        early++(tsNs,s.value)::late := by
      have hsaw : (step s (.dump tsNs)).looks = s.looks++[(tsNs,s.value)] := rfl
      rw [run_append,run_cons,hlate,hsaw,hearly,List.nil_append,List.append_assoc]
      rfl
    have hstamps : (early++(tsNs,s.value)::late).Pairwise (·.1 < ·.1) := by
      rw [List.filterMap_append,List.filterMap_cons,← hbefore,← hafter] at h
      rw [← List.pairwise_map (f:=Prod.fst),List.map_append]
      exact h
    show valueAt _ (run step {} _).rows tsNs = _
    rw [hrows,hlooks]
    exact valueAt_log _ hstamps
  rw [hv]
  refine ⟨rfl,hwf.directReclaim.value,hwf.nrReclaimed.value,fun hserial => ?_⟩
  have hexact := State.Exact.run before ⟨exact_init,exact_init⟩ hserial
  exact ⟨hexact.directReclaim.eq_sum hwf.directReclaim.value,
    hexact.nrReclaimed.eq_sum hwf.nrReclaimed.value⟩

/-- Two reclaims that overlap on two processors, and a dump behind them. -/
def overlap : List Event :=
  [.kswapdWake,.directReclaimBegin,.directReclaimBegin,.directReclaimBegun 0,.directReclaimBegun 0]

theorem mem_events_recorded_overlap :
    (valueAt ⟨0,0,0⟩ (run step {} (overlap++[.dump 5])).rows 5).kswapdActive = 1 ∧
      (run step {} overlap).directReclaim.Counts
        (valueAt ⟨0,0,0⟩ (run step {} (overlap++[.dump 5])).rows 5).directReclaim := by
  obtain ⟨hkswapd,hdirect,-⟩ := mem_events_recorded overlap [] 5 (List.pairwise_singleton _ 5)
  exact ⟨hkswapd,hdirect⟩

end MemEvents
end ETraceDiag
