import ETraceDiag.SwitchHook
import ETraceDiag.Transition

/-!
# Run-queue latency

What `on_switch` adds to `runq_st` while DEEP is on, against what the scheduler did: which
threads run, and when a thread that does not run was first woken.
-/

namespace ETraceDiag
namespace RunQueue

open EpisodeMaps (elapsed put putNew)
open SwitchHook Transition

inductive Event
  | wakeup (e : Env) (pid : ℕ)
  | switch (e : Env) (sw : Switch)

/-- Which threads run, and the first wakeup of a thread after its last switch-out. -/
structure Track where
  running : ℕ → Bool
  ready : ℕ → Option ℕ := fun _ => none

def Track.wakeup (now pid : ℕ) (t : Track) : Track :=
  if t.running pid ∨ (t.ready pid).isSome then t
  else { t with ready := Function.update t.ready pid (some now) }

/-- A thread that does not run cannot be switched out. -/
def Track.switchOut (pid : ℕ) (t : Track) : Track :=
  if t.running pid then
    ⟨Function.update t.running pid false,Function.update t.ready pid none⟩
  else t

def Track.switchIn (pid : ℕ) (t : Track) : Track :=
  ⟨Function.update t.running pid true,Function.update t.ready pid none⟩

/-- From the first wakeup after the last switch-out to now. -/
def Track.latency (now pid : ℕ) (t : Track) : Option ℕ := (t.ready pid).map (elapsed now)

structure Sys where
  kernel : State
  track : Track

def step (s : Sys) : Event → Sys
  | .wakeup e pid => ⟨s.kernel.recordWakeup e pid,s.track.wakeup e.now pid⟩
  | .switch e sw =>
    ⟨s.kernel.onSwitch e sw,(s.track.switchOut sw.prevPid).switchIn sw.nextPid⟩

/-- DEEP is on and `wakeup_ts` has been wiped; any threads may be running. -/
def start (s : State) (running : ℕ → Bool) : Sys :=
  ⟨{ s with deepEnabled := true, wakeupTs := fun _ => none },{ running := running }⟩

/-- `runq_st` gets the latency of a target that is switched in, and nothing else. -/
def RunqOk (s : Sys) : Event → Prop
  | .wakeup e pid => (s.kernel.recordWakeup e pid).runqSt = s.kernel.runqSt
  | .switch e sw => (s.kernel.onSwitch e sw).runqSt =
      s.kernel.chargeRunq e sw.nextPid
        (if sw.nextPid ∈ s.kernel.targets then
          (s.track.switchOut sw.prevPid).latency e.now sw.nextPid
        else none)

/-- A target is woken only while it does not run, and its first wakeup finds room. -/
def WokenAsleep (s : Sys) : Event → Prop
  | .wakeup e pid => pid ∈ s.kernel.targets →
      s.track.running pid = false ∧ (s.kernel.wakeupTs pid = none → e.room .wakeupTs = true)
  | .switch _ _ => True

/-- `wakeup_ts` has the first wakeup of every target that waits. -/
structure Tracks (s : Sys) : Prop where
  deep : s.kernel.deepEnabled = true
  ready : ∀ pid ∈ s.kernel.targets, s.kernel.wakeupTs pid = s.track.ready pid
  running : ∀ pid, s.track.running pid = true → s.track.ready pid = none

theorem tracks_start (s : State) (running : ℕ → Bool) : Tracks (start s running) :=
  ⟨rfl,fun _ _ => rfl,fun _ _ => rfl⟩

/-! ## What one step does -/

theorem onSwitch_runqSt (e : Env) (sw : Switch) (s : State) :
    (s.onSwitch e sw).runqSt = s.chargeRunq e sw.nextPid (s.runqLatency e sw.nextPid) := rfl

theorem onSwitch_wakeupTs (e : Env) (sw : Switch) (s : State) :
    (s.onSwitch e sw).wakeupTs =
      if s.deepEnabled ∧ sw.nextPid ∈ s.targets then Function.update s.wakeupTs sw.nextPid none
      else s.wakeupTs := rfl

theorem recordWakeup_runqSt (e : Env) (pid : ℕ) (s : State) :
    (s.recordWakeup e pid).runqSt = s.runqSt := by
  rw [State.recordWakeup]
  split <;> rfl

/-- The first wakeup is kept. -/
theorem recordWakeup_wakeupTs {e : Env} {pid : ℕ} {s : State} (hdeep : s.deepEnabled = true)
    (hroom : pid ∈ s.targets → s.wakeupTs pid = none → e.room .wakeupTs = true) (pid' : ℕ)
    (hpid' : pid' ∈ s.targets) : (s.recordWakeup e pid).wakeupTs pid' =
      if pid' = pid then some ((s.wakeupTs pid).getD e.now) else s.wakeupTs pid' := by
  by_cases hpid : pid ∈ s.targets
  · rw [State.recordWakeup,if_pos ⟨hdeep,hpid⟩]
    cases hw : s.wakeupTs pid with
    | some w =>
      by_cases heq : pid' = pid
      · simp [putNew,hw,heq]
      · simp [putNew,hw,heq]
    | none => simp [putNew,put,hw,hroom hpid hw,Function.update_apply]
  · have hne : pid' ≠ pid := fun h => hpid (h ▸ hpid')
    rw [State.recordWakeup,if_neg fun h => hpid h.2,if_neg hne]

/-- A thread that is switched out has no wakeup, whether or not it was running. -/
theorem Track.switchOut_ready {t : Track} (h : ∀ pid, t.running pid = true → t.ready pid = none)
    (prev : ℕ) : (t.switchOut prev).ready = t.ready := by
  rw [Track.switchOut]
  split
  · next hrun =>
    funext pid
    dsimp only
    rw [Function.update_apply]
    split
    · next heq => rw [heq,h prev hrun]
    · rfl
  · rfl

theorem Track.switchOut_running {t : Track} {prev pid : ℕ}
    (h : (t.switchOut prev).running pid = true) : t.running pid = true := by
  rw [Track.switchOut] at h
  split at h
  · dsimp only at h
    rw [Function.update_apply] at h
    split at h
    · cases h
    · exact h
  · exact h

theorem Tracks.wakeup {s : Sys} (h : Tracks s) {e : Env} {pid : ℕ}
    (hok : WokenAsleep s (.wakeup e pid)) : Tracks (step s (.wakeup e pid)) := by
  have hdeep : (s.kernel.recordWakeup e pid).deepEnabled = true := by
    rw [State.recordWakeup]
    split <;> exact h.deep
  have htargets : (s.kernel.recordWakeup e pid).targets = s.kernel.targets := by
    rw [State.recordWakeup]
    split <;> rfl
  refine ⟨hdeep,fun pid' hpid' => ?_,fun pid' hrun => ?_⟩
  · have hmem : pid' ∈ s.kernel.targets := htargets ▸ hpid'
    simp only [step]
    rw [recordWakeup_wakeupTs h.deep (fun hp => (hok hp).2) pid' hmem,Track.wakeup]
    by_cases heq : pid' = pid
    · subst heq
      rw [if_pos rfl,h.ready _ hmem,(hok hmem).1]
      cases hr : s.track.ready pid' with
      | none => simp
      | some w => simp [hr]
    · rw [if_neg heq,h.ready _ hmem]
      split
      · rfl
      · exact (Function.update_of_ne heq ..).symm
  · simp only [step,Track.wakeup] at hrun ⊢
    split at hrun
    · next hskip => rw [if_pos hskip]; exact h.running pid' hrun
    · next hskip =>
      rw [if_neg hskip]
      have hne : pid' ≠ pid := by
        rintro rfl
        exact hskip (Or.inl hrun)
      dsimp only
      rw [Function.update_of_ne hne]
      exact h.running pid' hrun

theorem Tracks.switch {s : Sys} (h : Tracks s) (e : Env) (sw : Switch) :
    Tracks (step s (.switch e sw)) := by
  simp only [step]
  refine ⟨(onSwitch_deepEnabled ..).trans h.deep,fun pid hpid => ?_,fun pid hrun => ?_⟩
  · have hmem : pid ∈ s.kernel.targets := onSwitch_targets e sw s.kernel ▸ hpid
    simp only [Track.switchIn]
    rw [onSwitch_wakeupTs,Track.switchOut_ready h.running]
    by_cases heq : pid = sw.nextPid
    · subst heq
      rw [if_pos ⟨h.deep,hmem⟩,Function.update_self,Function.update_self]
    · rw [Function.update_of_ne heq,← h.ready pid hmem]
      split
      · exact Function.update_of_ne heq ..
      · rfl
  · simp only [Track.switchIn,Track.switchOut_ready h.running] at hrun ⊢
    by_cases heq : pid = sw.nextPid
    · rw [heq,Function.update_self]
    · rw [Function.update_of_ne heq] at hrun ⊢
      exact h.running pid (Track.switchOut_running hrun)

theorem Tracks.step {s : Sys} (h : Tracks s) {ev : Event} (hok : WokenAsleep s ev) :
    Tracks (RunQueue.step s ev) := by
  cases ev with
  | wakeup e pid => exact h.wakeup hok
  | switch e sw => exact h.switch e sw

theorem Tracks.runqOk {s : Sys} (h : Tracks s) (ev : Event) : RunqOk s ev := by
  cases ev with
  | wakeup e pid => exact recordWakeup_runqSt e pid s.kernel
  | switch e sw =>
    rw [RunqOk,onSwitch_runqSt]
    congr 1
    rw [State.runqLatency]
    by_cases hmem : sw.nextPid ∈ s.kernel.targets
    · rw [if_pos ⟨h.deep,hmem⟩,if_pos hmem,Track.latency,Track.switchOut_ready h.running,
        h.ready _ hmem]
    · rw [if_neg fun hh => hmem hh.2,if_neg hmem]

/-! ## Runs -/

/-- Where targets are woken only while they do not run, `runq_st` gets the times that they
waited. -/
theorem runq_latencies (s : State) (running : ℕ → Bool) (es : List Event)
    (h : Along step WokenAsleep (start s running) es) :
    Along step RunqOk (start s running) es :=
  (Along.of_invariant step (fun _ _ hI hC => hI.step hC) (fun _ ev hI _ => hI.runqOk ev) es _
    (tracks_start s running) h).1

/-- One target; its thread runs. -/
def spinning : State := { targets := [7] }

/-- A sleeper is woken at 10, at 12 again, and runs from 15 on. -/
theorem runq_latencies_sleeper : Along step WokenAsleep (start spinning fun _ => false)
      [.wakeup ⟨0,10,fun _ => true,0,0,0⟩ 7,.wakeup ⟨0,12,fun _ => true,0,0,0⟩ 7,
        .switch ⟨0,15,fun _ => true,0,0,0⟩ ⟨0,0,7⟩] ∧
    Along step RunqOk (start spinning fun _ => false)
      [.wakeup ⟨0,10,fun _ => true,0,0,0⟩ 7,.wakeup ⟨0,12,fun _ => true,0,0,0⟩ 7,
        .switch ⟨0,15,fun _ => true,0,0,0⟩ ⟨0,0,7⟩] := by
  have h : Along step WokenAsleep (start spinning fun _ => false)
      [.wakeup ⟨0,10,fun _ => true,0,0,0⟩ 7,.wakeup ⟨0,12,fun _ => true,0,0,0⟩ 7,
        .switch ⟨0,15,fun _ => true,0,0,0⟩ ⟨0,0,7⟩] :=
    ⟨fun _ => ⟨rfl,fun _ => rfl⟩,fun _ => ⟨rfl,fun _ => rfl⟩,trivial,trivial⟩
  exact ⟨h,runq_latencies _ _ _ h⟩

/-- The thread is woken at 10 while it runs, preempted at 20 and runs again at 30: 20 ns are
recorded, of which it ran 10. -/
theorem wokenRunning_not_runqOk : ¬∀ (s : State) (running : ℕ → Bool) (es : List Event),
    Along step RunqOk (start s running) es := by
  intro h
  have hrun := (h spinning (fun pid => pid = 7) [.wakeup ⟨0,10,fun _ => true,0,0,0⟩ 7,
    .switch ⟨0,20,fun _ => true,0,0,0⟩ ⟨7,0,0⟩,.switch ⟨0,30,fun _ => true,0,0,0⟩ ⟨0,0,7⟩]).2.2.1
  have hcount := congrArg (fun m => CellCounters.slice m 7 0 .count) hrun
  exact absurd hcount (by decide)

end RunQueue
end ETraceDiag
