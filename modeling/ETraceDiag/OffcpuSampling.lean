import ETraceDiag.SwitchHook
import ETraceDiag.Transition

/-!
# Off-CPU sampling

Which switch-outs of a target are sampled, on the fallback path of `on_switch` and by
`offcpu_schedule`: the first one at which the thread blocks, and later ones once `1/rate`
seconds have passed since its last sample.
-/

namespace ETraceDiag
namespace OffcpuSampling

open EpisodeMaps (elapsed put put_eq_update put_of_ne)
open SwitchHook Transition

/-- Asleep or stopped, and neither dead nor killable. -/
def blocking (prevState : ℕ) : Bool :=
  prevState ≠ 0 && prevState &&& 0x100 = 0 && prevState &&& 0x80 = 0 && blocked prevState

/-- The last sample of a thread, whether it has blocked yet, and its sample that waits for the
next switch-in. -/
structure Track where
  last : ℕ → Option ℕ := fun _ => none
  hasBlocked : ℕ → Bool := fun _ => false
  pending : ℕ → Option ℕ := fun _ => none

structure Sys where
  kernel : State
  track : Track

/-- The first time that the thread blocks, or `1/rate` seconds after its last sample. -/
def Track.due (rate now tid : ℕ) (t : Track) : Bool :=
  !t.hasBlocked tid ||
    match t.last tid with
    | some last => 1000000000 ≤ (now-last)*rate
    | none => true

/-! ## The fallback path -/

/-- A target is switched out because it blocks. -/
def Sys.blocks (sw : Switch) (s : Sys) : Bool :=
  sw.prevPid ≠ 0 && sw.prevPid ∈ s.kernel.targets && blocking sw.prevState

/-- This switch-out has to be sampled. -/
def Sys.dueOut (e : Env) (sw : Switch) (s : Sys) : Bool :=
  s.blocks sw && s.track.due s.kernel.offcpuRate e.now sw.prevPid

def Sys.switchOut (e : Env) (sw : Switch) (s : Sys) : Track where
  last := if s.dueOut e sw then Function.update s.track.last sw.prevPid (some e.now)
    else s.track.last
  hasBlocked := if s.blocks sw then Function.update s.track.hasBlocked sw.prevPid true
    else s.track.hasBlocked
  pending := if s.dueOut e sw then Function.update s.track.pending sw.prevPid (some e.now)
    else s.track.pending

def Track.switchIn (pid : ℕ) (t : Track) : Track :=
  { t with pending := Function.update t.pending pid none }

/-- A switch of a processor while `offcpu_schedule` is not attached. -/
def step (s : Sys) : Env×Switch → Sys
  | (e,sw) => ⟨s.kernel.onSwitch e sw,(s.switchOut e sw).switchIn sw.nextPid⟩

/-- DEEP is on with the fallback path, and the maps of the sampler have been wiped. -/
def start (s : State) : Sys :=
  ⟨{ s with
    deepEnabled := true
    offcpuFallback := true
    offcpuStash := fun _ => none
    offcpuLastTs := fun _ => none },{}⟩

/-- A switch-out is stashed when it has to be sampled, and a switch-in adds the dwell of the
sample that waits for it. -/
def FallbackOk (s : Sys) : Env×Switch → Prop
  | (e,sw) =>
    (s.kernel.stashFallback e sw).offcpuStash sw.prevPid =
        (if s.dueOut e sw then some ⟨e.now,0,false⟩ else s.kernel.offcpuStash sw.prevPid) ∧
      (s.kernel.onSwitch e sw).offcpuStat =
        s.kernel.chargeOffcpu e sw.nextPid
          (if sw.nextPid ∈ s.kernel.targets then
            ((s.switchOut e sw).pending sw.nextPid).map (elapsed e.now)
          else none)

def NoneBlocks (s : Sys) : Env×Switch → Prop
  | (_,sw) => s.blocks sw = false

/-- Nothing has been sampled. -/
structure Idle (s : Sys) : Prop where
  stash : ∀ tid, s.kernel.offcpuStash tid = none
  lastTs : ∀ tid, s.kernel.offcpuLastTs tid = none
  last : ∀ tid, s.track.last tid = none
  pending : ∀ tid, s.track.pending tid = none

theorem idle_start (s : State) : Idle (start s) :=
  ⟨fun _ => rfl,fun _ => rfl,fun _ => rfl,fun _ => rfl⟩

/-- The path asks for an entry in `offcpu_last_ts` and makes none. -/
theorem Idle.samplesFallback {s : Sys} (h : Idle s) (e : Env) (sw : Switch) :
    s.kernel.samplesFallback e sw = false := by
  simp [State.samplesFallback,h.lastTs]

theorem Idle.dueOut {s : Sys} (h : Idle s) (e : Env) (sw : Switch) :
    s.dueOut e sw = s.blocks sw := by
  simp [Sys.dueOut,Track.due,h.last]

theorem Idle.stashFallback {s : Sys} (h : Idle s) (e : Env) (sw : Switch) :
    s.kernel.stashFallback e sw = s.kernel := by
  simp [State.stashFallback,h.samplesFallback]

theorem onSwitch_offcpuStash (e : Env) (sw : Switch) (s : State) :
    (s.onSwitch e sw).offcpuStash =
      if s.deepEnabled ∧ sw.nextPid ∈ s.targets then
        Function.update (s.stashFallback e sw).offcpuStash sw.nextPid none
      else (s.stashFallback e sw).offcpuStash := rfl

theorem onSwitch_offcpuLastTs (e : Env) (sw : Switch) (s : State) :
    (s.onSwitch e sw).offcpuLastTs = (s.stashFallback e sw).offcpuLastTs := rfl

theorem onSwitch_offcpuStat (e : Env) (sw : Switch) (s : State) :
    (s.onSwitch e sw).offcpuStat =
      match (s.stashFallback e sw).stashed sw.nextPid with
      | some ⟨outTs,_,false⟩ => s.chargeOffcpu e sw.nextPid (some (elapsed e.now outTs))
      | _ => s.offcpuStat := rfl

theorem Idle.stashed {s : Sys} (h : Idle s) (pid : ℕ) : s.kernel.stashed pid = none := by
  rw [State.stashed,h.stash,ite_self]

theorem Idle.fallbackOk_iff {s : Sys} (h : Idle s) (a : Env×Switch) :
    FallbackOk s a ↔ NoneBlocks s a := by
  obtain ⟨e,sw⟩ := a
  rw [FallbackOk,NoneBlocks,h.stashFallback,h.dueOut,h.stash]
  constructor
  · rintro ⟨hstash,_⟩
    cases hb : s.blocks sw with
    | false => rfl
    | true =>
      rw [hb,if_pos rfl] at hstash
      cases hstash
  · intro hb
    have hpending : (s.switchOut e sw).pending sw.nextPid = none := by
      simp [Sys.switchOut,h.dueOut,hb,h.pending]
    refine ⟨by rw [hb]; rfl,?_⟩
    rw [onSwitch_offcpuStat,h.stashFallback,h.stashed,hpending,Option.map_none,ite_self]
    rfl

theorem Idle.step {s : Sys} (h : Idle s) (a : Env×Switch) (ha : NoneBlocks s a) :
    Idle (step s a) := by
  obtain ⟨e,sw⟩ := a
  have hdue : s.dueOut e sw = false := (h.dueOut e sw).trans ha
  refine ⟨fun tid => ?_,fun tid => ?_,fun tid => ?_,fun tid => ?_⟩
  · simp only [OffcpuSampling.step]
    rw [onSwitch_offcpuStash,h.stashFallback]
    split
    · rw [Function.update_apply,h.stash,ite_self]
    · exact h.stash tid
  · simp only [OffcpuSampling.step]
    rw [onSwitch_offcpuLastTs,h.stashFallback]
    exact h.lastTs tid
  · simp [OffcpuSampling.step,Track.switchIn,Sys.switchOut,hdue,h.last]
  · simp [OffcpuSampling.step,Track.switchIn,Sys.switchOut,hdue,Function.update_apply,h.pending]

theorem fallbackOk_iff (s : State) (as : List (Env×Switch)) :
    Along step FallbackOk (start s) as ↔ Along step NoneBlocks (start s) as :=
  Along.iff_of_invariant step (fun _ a h => h.fallbackOk_iff a) (fun _ a h => h.step a) as _
    (idle_start s)

/-! ## offcpu_schedule -/

/-- The probe also sees a thread that is preempted; `prevState` is the state of the thread. -/
inductive Event
  | schedule (e : Env) (tid prevState : ℕ) (ksid : Option ℕ)
  | switch (e : Env) (sw : Switch)

def kprobeStep (s : Sys) : Event → Sys
  | .schedule e tid prevState ksid =>
    ⟨s.kernel.offcpuSchedule e tid ksid,
      { s.track with
        last := if s.kernel.samplesKprobe e tid then
            Function.update s.track.last tid (some e.now)
          else s.track.last
        hasBlocked := if blocking prevState then Function.update s.track.hasBlocked tid true
          else s.track.hasBlocked }⟩
  | .switch e sw => ⟨s.kernel.onSwitch e sw,s.track⟩

def kprobeStart (s : State) : Sys :=
  ⟨{ s with
    deepEnabled := true
    offcpuFallback := false
    offcpuStash := fun _ => none
    offcpuLastTs := fun _ => none },{}⟩

/-- A target that blocks is stashed when it has to be sampled. -/
def KprobeOk (s : Sys) : Event → Prop
  | .schedule e tid prevState ksid => tid ∈ s.kernel.targets → blocking prevState = true →
      (s.kernel.offcpuSchedule e tid ksid).offcpuStash tid =
        if s.track.due s.kernel.offcpuRate e.now tid then
          some ⟨e.now,ksid.getD 0,ksid.isSome⟩
        else s.kernel.offcpuStash tid
  | .switch _ _ => True

/-- The maps of the sampler have room, the product of time and rate fits a `u64`, and a thread
that has not blocked yet was not sampled within `1/rate` seconds before. -/
def KprobeFits (s : Sys) : Event → Prop
  | .schedule e tid prevState _ => tid ∈ s.kernel.targets →
      (s.kernel.offcpuStash tid = none → e.room .offcpuStash = true) ∧
        (s.kernel.offcpuLastTs tid = none → e.room .offcpuLastTs = true) ∧
        (blocking prevState = true → ∀ last, s.track.last tid = some last →
          last ≠ 0 ∧ (e.now-last)*s.kernel.offcpuRate < 2^64 ∧
            (s.track.hasBlocked tid = false →
              1000000000 ≤ (e.now-last)*s.kernel.offcpuRate))
  | .switch _ _ => True

/-- `offcpu_last_ts` has the last sample of every target. -/
structure Sampling (s : Sys) : Prop where
  deep : s.kernel.deepEnabled = true
  fallback : s.kernel.offcpuFallback = false
  rate : 0 < s.kernel.offcpuRate
  last : ∀ tid ∈ s.kernel.targets, s.kernel.offcpuLastTs tid = s.track.last tid

theorem sampling_kprobeStart {s : State} (hrate : 0 < s.offcpuRate) :
    Sampling (kprobeStart s) :=
  ⟨rfl,rfl,hrate,fun _ _ => rfl⟩

theorem rateReached_of_lt {last now rate : ℕ} (h : (now-last)*rate < 2^64) :
    rateReached last now rate = decide (1000000000 ≤ (now-last)*rate) := by
  rw [rateReached,Nat.mod_eq_of_lt h]

/-- The probe samples where the rule says so. -/
theorem Sampling.samplesKprobe {s : Sys} (h : Sampling s) {e : Env} {tid prevState : ℕ}
    {ksid : Option ℕ} (htid : tid ∈ s.kernel.targets) (hblock : blocking prevState = true)
    (hfits : KprobeFits s (.schedule e tid prevState ksid)) :
    s.kernel.samplesKprobe e tid = s.track.due s.kernel.offcpuRate e.now tid := by
  obtain ⟨_,_,hlast⟩ := hfits htid
  rw [State.samplesKprobe,Track.due,h.last tid htid]
  cases hl : s.track.last tid with
  | none => simp [h.deep,htid]
  | some last =>
    obtain ⟨hpos,hlt,hfirst⟩ := hlast hblock last hl
    have hrate : s.kernel.offcpuRate ≠ 0 := Nat.pos_iff_ne_zero.mp h.rate
    cases hb : s.track.hasBlocked tid with
    | true => simp [h.deep,htid,hpos,hrate,rateReached_of_lt hlt]
    | false => simp [h.deep,htid,hpos,hrate,rateReached_of_lt hlt,hfirst hb]

theorem Sampling.kprobeOk {s : Sys} (h : Sampling s) {ev : Event} (hfits : KprobeFits s ev) :
    KprobeOk s ev := by
  cases ev with
  | switch e sw => trivial
  | schedule e tid prevState ksid =>
    intro htid hblock
    rw [State.offcpuSchedule,h.samplesKprobe htid hblock hfits]
    split
    · simp only [put_eq_update (hfits htid).1,Function.update_self]
    · rfl

theorem Sampling.step {s : Sys} (h : Sampling s) {ev : Event} (hfits : KprobeFits s ev) :
    Sampling (kprobeStep s ev) := by
  cases ev with
  | switch e sw =>
    simp only [kprobeStep]
    refine ⟨(onSwitch_deepEnabled ..).trans h.deep,(onSwitch_offcpuFallback ..).trans h.fallback,
      ?_,fun tid htid => ?_⟩
    · rw [onSwitch_offcpuRate]
      exact h.rate
    rw [onSwitch_targets] at htid
    have hoff : s.kernel.samplesFallback e sw = false := by
      simp [State.samplesFallback,h.fallback]
    rw [onSwitch_offcpuLastTs,State.stashFallback,hoff]
    exact h.last tid htid
  | schedule e tid prevState ksid =>
    simp only [kprobeStep,State.offcpuSchedule]
    split
    · next hsample =>
      refine ⟨h.deep,h.fallback,h.rate,fun tid' htid' => ?_⟩
      by_cases heq : tid' = tid
      · subst heq
        dsimp only
        rw [put_eq_update (hfits htid').2.1,Function.update_self,Function.update_self]
      · dsimp only
        rw [put_of_ne _ heq,Function.update_of_ne heq]
        exact h.last tid' htid'
    · exact ⟨h.deep,h.fallback,h.rate,h.last⟩

theorem kprobeOk_of_fits {s : State} (hrate : 0 < s.offcpuRate) (es : List Event)
    (h : Along kprobeStep KprobeFits (kprobeStart s) es) :
    Along kprobeStep KprobeOk (kprobeStart s) es :=
  (Along.of_invariant kprobeStep (fun _ _ hI hC => hI.step hC) (fun _ _ hI hC => hI.kprobeOk hC)
    es _ (sampling_kprobeStart hrate) h).1

/-! ## Both paths -/

/-- The fallback path follows the rule in the runs in which no target blocks; the probe follows
it within the limits of its arithmetic, unless a preemption was sampled just before. -/
theorem sampling_rule (s : State) (hrate : 0 < s.offcpuRate) :
    (∀ as, Along step FallbackOk (start s) as ↔ Along step NoneBlocks (start s) as) ∧
      ∀ es, Along kprobeStep KprobeFits (kprobeStart s) es →
        Along kprobeStep KprobeOk (kprobeStart s) es :=
  ⟨fallbackOk_iff s,kprobeOk_of_fits hrate⟩

/-- One target, a hundred samples a second. -/
def sampled : State := { targets := [7], offcpuRate := 100 }

/-- A thread that blocks 10 ms after its first sample is sampled again. -/
def twoSleeps : List Event :=
  [.schedule ⟨0,5,fun _ => true,0,0,0⟩ 7 1 (some 3),
    .switch ⟨0,5,fun _ => true,0,0,0⟩ ⟨7,1,0⟩,.switch ⟨0,9,fun _ => true,0,0,0⟩ ⟨0,0,7⟩,
    .schedule ⟨0,10000005,fun _ => true,0,0,0⟩ 7 1 (some 3)]

theorem sampling_rule_twoSleeps : 0 < sampled.offcpuRate ∧
    Along kprobeStep KprobeFits (kprobeStart sampled) twoSleeps ∧
    Along kprobeStep KprobeOk (kprobeStart sampled) twoSleeps := by
  have hfits : Along kprobeStep KprobeFits (kprobeStart sampled) twoSleeps := by
    refine ⟨fun _ => ⟨fun _ => rfl,fun _ => rfl,fun _ last hlast => by cases hlast⟩,trivial,trivial,
      fun _ => ⟨fun _ => rfl,fun _ => rfl,fun _ last hlast => ?_⟩,trivial⟩
    obtain rfl : last = 5 := (Option.some.inj hlast).symm
    decide
  exact ⟨by decide,hfits,(sampling_rule sampled (by decide)).2 _ hfits⟩

/-- A target sleeps from 100 to 200 on the fallback path and no sample is taken. -/
theorem firstSleep_not_fallbackOk : ¬∀ s : State, 0 < s.offcpuRate →
    ∀ as, Along step FallbackOk (start s) as := by
  intro h
  have hrun := (h sampled (by decide) [(⟨0,100,fun _ => true,0,0,0⟩,⟨7,1,0⟩),
    (⟨0,200,fun _ => true,0,0,0⟩,⟨0,0,7⟩)]).1.1
  exact absurd hrun (by decide)

end OffcpuSampling
end ETraceDiag
