import ETraceDiag.PhaseManager
import Mathlib.Order.Nat

/-!
# The main loop around the phase machine

One iteration of `RunCollector` as far as the phase machine sees it: the clock is read at the
top, a host tick takes a snapshot with its own stamp, a feature tick judges the last snapshot
under that stamp, and every other call gets the time read at the top. The clock never runs
backwards, so each reading is the one before it plus some delay.
-/

namespace ETraceDiag
namespace MainLoop

open PhaseManager

variable {F : Type}

/-- The configuration an iteration runs with. -/
structure Config where
  window : Window
  baseHostIntervalMs : ℕ
  baseFeatureIntervalMs : ℕ

/-- What happens to one iteration from outside. -/
structure Iteration (F : Type) where
  cfg : Config
  wait : ℕ
  snapshotDelay : ℕ
  reply : Except String (AnomalyResult F)
  anomalyEnv : DeepLinks.Env
  deadlineCausal : Causal
  deepRequest : Bool
  requestEnv : DeepLinks.Env
  baseRequest : Bool
  requestCausal : Causal

inductive Input (F : Type)
  | iterate (i : Iteration F)
  | shutdown (cfg : Config) (wait : ℕ) (causal : Causal)

structure Loop (F : Type) where
  phase : State F := {}
  clock : ℕ := 0
  nextHost : ℕ := 0
  nextFeature : ℕ := 0
  lastHostTs : ℕ := 0

def Loop.now (l : Loop F) (i : Iteration F) : ℕ := l.clock+i.wait

/-- The stamp of the snapshot a feature tick of this iteration judges. -/
def Loop.sampleTs (l : Loop F) (i : Iteration F) : ℕ :=
  if l.nextHost ≤ l.now i then l.now i+i.snapshotDelay else l.lastHostTs

def hostTick (i : Iteration F) (l : Loop F) : Loop F :=
  if l.nextHost ≤ l.now i then
    { l with clock := l.sampleTs i, lastHostTs := l.sampleTs i,
             nextHost := l.now i+i.cfg.baseHostIntervalMs*1000000 }
  else { l with clock := l.now i }

def requestCalls (i : Iteration F) (now : ℕ) : List (Call F) :=
  (if i.deepRequest then [.requestDeep i.cfg.window i.requestEnv now] else [])++
  (if i.baseRequest then [.requestBase i.cfg.window i.requestCausal now] else [])

/-- The calls of an iteration on the phase machine, in their order. -/
def calls (i : Iteration F) (featureTick : Bool) (now sampleTs : ℕ) : List (Call F) :=
  (if featureTick then [.tickAnomaly i.cfg.window i.reply i.anomalyEnv sampleTs] else [])++
  ([.collectorTick,.tickDeep i.cfg.window i.deadlineCausal now]++requestCalls i now)

def iterate (i : Iteration F) (l : Loop F) : Loop F :=
  let now := l.now i
  let sampleTs := l.sampleTs i
  let featureTick : Bool := l.nextFeature ≤ now
  let l := hostTick i l
  { l with
    phase := Transition.run PhaseManager.step l.phase (calls i featureTick now sampleTs)
    nextFeature := if featureTick then now+i.cfg.baseFeatureIntervalMs*1000000
      else l.nextFeature }

def step (l : Loop F) : Input F → Loop F
  | .iterate i => iterate i l
  | .shutdown cfg wait causal =>
    { l with
      clock := l.clock+wait
      phase := PhaseManager.step l.phase (.shutdown cfg.window causal (l.clock+wait)) }

/-- The window of a finalized episode is in order. -/
def WellFormed (ctx : CausalContext F) : Prop :=
  ctx.anomalyStartTs ≤ ctx.anomalyEndTs ∧ ctx.anomalyEndTs ≤ ctx.windowEndNs

def Windows (s : State F) : Prop := ∀ ctx, Event.finalized ctx ∈ s.log → WellFormed ctx

/-- Some call of the iteration would finalize an episode with this deadline. -/
def Iteration.ends (i : Iteration F) (deadline now : ℕ) : Prop :=
  i.baseRequest = true ∨ deadline ≤ now

/-- When an iteration keeps windows in order: the sample that starts the closing streak is not
older than the episode, and a sample taken after the top of the iteration neither opens nor
closes the window of an episode that the same iteration ends. -/
structure IterationOk (l : Loop F) (i : Iteration F) : Prop where
  fresh : l.nextFeature ≤ l.now i → l.phase.phase = .deep → l.phase.anomalyEndTs = 0 →
    l.phase.debounce = 0 → verdict i.reply = none → l.phase.anomalyStartTs ≤ l.sampleTs i
  opened : l.nextFeature ≤ l.now i → l.phase.phase = .base → (verdict i.reply).isSome →
    l.now i < l.sampleTs i →
    ¬ i.ends ((l.sampleTs i+i.cfg.window.postAnomalySeconds*1000000000) % 2^64) (l.now i)
  closed : l.nextFeature ≤ l.now i → l.phase.phase = .deep → l.phase.anomalyEndTs = 0 →
    l.phase.debounce = 0 → verdict i.reply = none → i.cfg.window.endDebounceSamples ≤ 1 →
    l.now i < l.sampleTs i → ¬ i.ends l.phase.postDeadlineNs (l.now i)

def InputOk (l : Loop F) : Input F → Prop
  | .iterate i => IterationOk l i
  | .shutdown _ _ _ => True

/-! ## Time stamps inside the phase machine -/

/-- In an open episode the window lies below `t` and the stamp a streak started with below
`u`; all windows finalized so far are in order. -/
structure Timed (s : State F) (t u : ℕ) : Prop where
  start : s.phase = .deep → s.anomalyStartTs ≤ t
  closed : s.phase = .deep → s.anomalyEndTs ≠ 0 →
    s.anomalyStartTs ≤ s.anomalyEndTs ∧ s.anomalyEndTs ≤ t
  streak : s.phase = .deep → s.anomalyEndTs = 0 → s.debounce ≠ 0 →
    s.anomalyStartTs ≤ s.firstFalseTs ∧ s.firstFalseTs ≤ u
  windows : Windows s

theorem Timed.mono {s : State F} {t u t' u' : ℕ} (h : Timed s t u) (ht : t ≤ t') (hu : u ≤ u') :
    Timed s t' u' :=
  ⟨fun hd => (h.start hd).trans ht,
    fun hd he => ⟨(h.closed hd he).1,(h.closed hd he).2.trans ht⟩,
    fun hd he hc => ⟨(h.streak hd he hc).1,(h.streak hd he hc).2.trans hu⟩,h.windows⟩

theorem timed_init : Timed ({} : State F) 0 0 :=
  ⟨nofun,nofun,nofun,nofun⟩

theorem windows_emit {s : State F} (h : Windows s) {e : Event F}
    (he : ∀ ctx, e = .finalized ctx → WellFormed ctx) : Windows (s.emit e) := by
  intro ctx hctx
  rcases List.mem_append.mp hctx with hold | hnew
  · exact h ctx hold
  · exact he ctx (List.mem_singleton.mp hnew).symm

theorem timed_enterDeep {s : State F} (h : Windows s) (w : Window) (env : DeepLinks.Env)
    (now u : ℕ) : Timed (enterDeep w env now s) now u := by
  have hw : Windows (enterDeep w env now s) := by
    simp only [enterDeep]
    split
    · exact windows_emit h fun _ he => by cases he
    · exact windows_emit h fun _ he => by cases he
  refine ⟨?_,?_,?_,hw⟩
  · intro _
    simp only [enterDeep]
    split <;> exact le_refl now
  · intro _ he
    simp only [enterDeep] at he
    split at he <;> exact absurd rfl he
  · intro _ _ hc
    simp only [enterDeep] at hc
    split at hc <;> exact absurd rfl hc

theorem timed_closeDeep {s : State F} {t u now : ℕ} (h : Timed s t u) (hd : s.phase = .deep)
    (ht : t ≤ now) (w : Window) (c : Causal) : Timed (closeDeep w c now s) now u := by
  have hend : (finalizeDeep w c now s).anomalyEndTs =
      if s.anomalyEndTs = 0 then now else s.anomalyEndTs := rfl
  have hstart : s.anomalyStartTs ≤ (finalizeDeep w c now s).anomalyEndTs ∧
      (finalizeDeep w c now s).anomalyEndTs ≤ now := by
    rw [hend]
    split
    · exact ⟨(h.start hd).trans ht,le_refl now⟩
    · rename_i hne
      exact ⟨(h.closed hd hne).1,(h.closed hd hne).2.trans ht⟩
  have hw : Windows (finalizeDeep w c now s) := by
    apply windows_emit h.windows
    rintro ctx ⟨⟩
    exact hstart
  have hfin : Timed (finalizeDeep w c now s) now u := by
    refine ⟨fun _ => (h.start hd).trans ht,fun _ _ => hstart,?_,hw⟩
    intro _ he hc
    rw [hend] at he
    by_cases h0 : s.anomalyEndTs = 0
    · exact h.streak hd h0 hc
    · rw [if_neg h0] at he
      exact absurd he h0
  unfold closeDeep
  simp only
  split
  · exact hfin
  · have hbase : ¬ (exitDeep (finalizeDeep w c now s)).phase = .deep := nofun
    exact ⟨fun hp => absurd hp hbase,fun hp => absurd hp hbase,fun hp => absurd hp hbase,
      windows_emit hw fun _ he => by cases he⟩

theorem timed_step {s : State F} {c : Call F} {t u : ℕ} (hs : Timed s t u)
    (ha : Timed (c.apply s) t u) : Timed (PhaseManager.step s c) t u := by
  unfold PhaseManager.step
  split
  · exact hs
  · exact ha

theorem timed_collectorTick {s : State F} {t u : ℕ} (h : Timed s t u) :
    Timed (PhaseManager.step s .collectorTick) t u := by
  apply timed_step h
  simp only [Call.apply,collectorTick]
  split
  · exact ⟨h.start,h.closed,h.streak,windows_emit h.windows fun _ he => by cases he⟩
  · exact h

theorem timed_tickDeep {s : State F} {t u now : ℕ} (h : Timed s t u) (ht : t ≤ now) (w : Window)
    (c : Causal) : Timed (PhaseManager.step s (.tickDeep w c now)) now u := by
  have hmono := h.mono ht (le_refl u)
  apply timed_step hmono
  simp only [Call.apply,tickDeep]
  split
  · rename_i hcond
    exact timed_closeDeep h hcond.1 ht w c
  · exact hmono

theorem timed_requestBase {s : State F} {t u now : ℕ} (h : Timed s t u) (ht : t ≤ now)
    (w : Window) (c : Causal) : Timed (PhaseManager.step s (.requestBase w c now)) now u := by
  have hmono := h.mono ht (le_refl u)
  apply timed_step hmono
  simp only [Call.apply,requestBase]
  split
  · rename_i hd
    exact timed_closeDeep h hd ht w c
  · exact hmono

theorem timed_shutdown {s : State F} {t u now : ℕ} (h : Timed s t u) (ht : t ≤ now)
    (w : Window) (c : Causal) : Timed (PhaseManager.step s (.shutdown w c now)) now u := by
  have hmono := h.mono ht (le_refl u)
  apply timed_step hmono
  simp only [Call.apply,shutdown]
  split
  · rename_i hd
    exact timed_closeDeep h hd ht w c
  · exact hmono

theorem timed_requestDeep {s : State F} {t t' u now : ℕ} (h : Timed s t u) (ht : t ≤ t')
    (hn : now ≤ t') (w : Window) (env : DeepLinks.Env) :
    Timed (PhaseManager.step s (.requestDeep w env now)) t' u := by
  have hmono := h.mono ht (le_refl u)
  apply timed_step hmono
  simp only [Call.apply,requestDeep]
  split
  · exact (timed_enterDeep h.windows w env now u).mono hn (le_refl u)
  · exact hmono

/-- A verdict in DEEP: the streak stamp moves up to the sample, the window end only when the
sample closes the window by itself or a streak that was under way does. -/
theorem timed_noteVerdict {s : State F} {t u ts : ℕ} (h : Timed s t t) (hd : s.phase = .deep)
    (htu : t ≤ u) (hts : ts ≤ u) (w : Window) (v : Option (Indicator F))
    (hfresh : s.anomalyEndTs = 0 → s.debounce = 0 → v = none → s.anomalyStartTs ≤ ts)
    (hsettled : s.anomalyEndTs = 0 → s.debounce = 0 → v = none → w.endDebounceSamples ≤ 1 →
      ts ≤ t) : Timed (noteVerdict w ts s v) t u := by
  cases v with
  | some i => exact ⟨h.start,h.closed,fun _ _ hc => absurd rfl hc,h.windows⟩
  | none =>
    have hfirst : s.anomalyEndTs = 0 →
        s.anomalyStartTs ≤ (if s.debounce = 0 then ts else s.firstFalseTs) ∧
          (if s.debounce = 0 then ts else s.firstFalseTs) ≤ u := by
      intro he
      split
      · rename_i hc
        exact ⟨hfresh he hc rfl,hts⟩
      · rename_i hc
        exact ⟨(h.streak hd he hc).1,(h.streak hd he hc).2.trans htu⟩
    have hclose : s.anomalyEndTs = 0 → w.endDebounceSamples ≤ (s.debounce+1) % 2^32 →
        (if s.debounce = 0 then ts else s.firstFalseTs) ≤ t := by
      intro he hn
      split
      · rename_i hc
        rw [hc] at hn
        exact hsettled he hc rfl hn
      · rename_i hc
        exact (h.streak hd he hc).2
    refine ⟨h.start,?_,?_,h.windows⟩
    · intro _ hne
      simp only [noteVerdict] at hne ⊢
      split
      · rename_i hcond
        exact ⟨(hfirst hcond.2).1,hclose hcond.2 hcond.1⟩
      · rename_i hcond
        rw [if_neg hcond] at hne
        exact h.closed hd hne
    · intro _ he _
      simp only [noteVerdict] at he ⊢
      split at he
      · rename_i hcond
        exact hfirst hcond.2
      · exact hfirst he

/-! ## One iteration -/

/-- The calls behind the feature tick. -/
def tailCalls (i : Iteration F) (now : ℕ) : List (Call F) :=
  [.collectorTick,.tickDeep i.cfg.window i.deadlineCausal now]++requestCalls i now

theorem tail_timed {s : State F} {now m : ℕ} (h : Timed s now m) (i : Iteration F) :
    Timed (Transition.run PhaseManager.step s (tailCalls i now)) now m := by
  have h1 := timed_tickDeep (timed_collectorTick h) (le_refl now) i.cfg.window i.deadlineCausal
  simp only [tailCalls,requestCalls,Transition.run_append,Transition.run_cons,Transition.run_nil]
  cases i.deepRequest with
  | false =>
    cases i.baseRequest with
    | false => exact h1
    | true => exact timed_requestBase h1 (le_refl now) _ _
  | true =>
    have h2 := timed_requestDeep h1 (le_refl now) (le_refl now) i.cfg.window i.requestEnv
    cases i.baseRequest with
    | false => exact h2
    | true => exact timed_requestBase h2 (le_refl now) _ _

/-- Nothing behind the feature tick ends the episode. -/
def Quiet (s : State F) (i : Iteration F) (now : ℕ) : Prop :=
  i.baseRequest = false ∧ (s.phase = .deep → now < s.postDeadlineNs)

theorem tail_quiet {s : State F} {now m : ℕ} (h : Timed s m m) (hm : now ≤ m)
    {i : Iteration F} (hq : Quiet s i now) :
    Timed (Transition.run PhaseManager.step s (tailCalls i now)) m m := by
  have hkeep : (PhaseManager.step s .collectorTick).phase = s.phase ∧
      (PhaseManager.step s .collectorTick).postDeadlineNs = s.postDeadlineNs := by
    unfold PhaseManager.step
    split
    · exact ⟨rfl,rfl⟩
    · simp only [Call.apply,collectorTick]
      split <;> exact ⟨rfl,rfl⟩
  have h1 : Timed (PhaseManager.step (PhaseManager.step s .collectorTick)
      (.tickDeep i.cfg.window i.deadlineCausal now)) m m := by
    apply timed_step (timed_collectorTick h)
    simp only [Call.apply,tickDeep]
    split
    · rename_i hcond
      rw [hkeep.1,hkeep.2] at hcond
      have hlt := hq.2 hcond.1
      omega
    · exact timed_collectorTick h
  simp only [tailCalls,requestCalls,hq.1,Transition.run_append,Transition.run_cons,
    Transition.run_nil]
  cases i.deepRequest with
  | false => exact h1
  | true => exact timed_requestDeep h1 (le_refl m) hm _ _

theorem feature_timed {l : Loop F} {i : Iteration F} (h : Timed l.phase l.clock l.clock)
    (hf : l.nextFeature ≤ l.now i) (hok : IterationOk l i) :
    let s := PhaseManager.step l.phase
      (.tickAnomaly i.cfg.window i.reply i.anomalyEnv (l.sampleTs i))
    Timed s (l.now i) (max (l.now i) (l.sampleTs i)) ∨
      (Timed s (max (l.now i) (l.sampleTs i)) (max (l.now i) (l.sampleTs i)) ∧
        Quiet s i (l.now i)) := by
  have hclock : l.clock ≤ l.now i := Nat.le_add_right _ _
  have hnow : l.now i ≤ max (l.now i) (l.sampleTs i) := le_max_left _ _
  have hts : l.sampleTs i ≤ max (l.now i) (l.sampleTs i) := le_max_right _ _
  have hmono := h.mono hclock hclock
  have hkeep := hmono.mono (le_refl _) hnow
  intro s
  by_cases halive : l.phase.terminated = true
  · have hs : s = l.phase := by simp [s,PhaseManager.step,halive]
    rw [hs]
    exact Or.inl hkeep
  have hs : s = PhaseManager.tickAnomaly i.cfg.window i.reply i.anomalyEnv (l.sampleTs i) l.phase := by
    simp [s,PhaseManager.step,halive,Call.apply]
  rw [hs]
  cases hp : l.phase.phase with
  | base =>
    simp only [PhaseManager.tickAnomaly,hp]
    split
    · rename_i hv
      by_cases hle : l.sampleTs i ≤ l.now i
      · exact Or.inl ((timed_enterDeep h.windows _ _ _ _).mono hle (le_refl _))
      · have hends := hok.opened hf hp hv (by omega)
        simp only [Iteration.ends,not_or,Bool.not_eq_true,not_le] at hends
        refine Or.inr ⟨(timed_enterDeep h.windows _ _ _ _).mono hts (le_refl _),hends.1,?_⟩
        intro _
        simp only [enterDeep]
        split <;> exact hends.2
    · exact Or.inl hkeep
  | deep =>
    simp only [PhaseManager.tickAnomaly,hp]
    have hfresh : l.phase.anomalyEndTs = 0 → l.phase.debounce = 0 → verdict i.reply = none →
        l.phase.anomalyStartTs ≤ l.sampleTs i := hok.fresh hf hp
    by_cases hclose : l.phase.anomalyEndTs = 0 ∧ l.phase.debounce = 0 ∧
        verdict i.reply = none ∧ i.cfg.window.endDebounceSamples ≤ 1 ∧ l.now i < l.sampleTs i
    · obtain ⟨he,hc,hv,hn,hlt⟩ := hclose
      have hends := hok.closed hf hp he hc hv hn hlt
      simp only [Iteration.ends,not_or,Bool.not_eq_true,not_le] at hends
      refine Or.inr ⟨timed_noteVerdict (hmono.mono hnow hnow) hp (le_refl _) hts _ _ hfresh
        (fun _ _ _ _ => hts),hends.1,?_⟩
      intro _
      rw [hv]
      exact hends.2
    · refine Or.inl (timed_noteVerdict hmono hp hnow hts _ _ hfresh ?_)
      intro he hc hv hn
      by_contra hlt
      exact hclose ⟨he,hc,hv,hn,by omega⟩

/-- The loop invariant: windows in order, and no stamp in use lies ahead of the clock. -/
structure LoopInv (l : Loop F) : Prop where
  timed : Timed l.phase l.clock l.clock
  host : l.lastHostTs ≤ l.clock

theorem iterate_clock {l : Loop F} (h : l.lastHostTs ≤ l.clock) (i : Iteration F) :
    (iterate i l).clock = max (l.now i) (l.sampleTs i) ∧
      (iterate i l).lastHostTs ≤ (iterate i l).clock := by
  have hclock : l.clock ≤ l.now i := Nat.le_add_right _ _
  by_cases hh : l.nextHost ≤ l.now i
  · have hts : l.sampleTs i = l.now i+i.snapshotDelay := if_pos hh
    simp only [iterate,hostTick,if_pos hh]
    exact ⟨by omega,le_refl _⟩
  · have hts : l.sampleTs i = l.lastHostTs := if_neg hh
    simp only [iterate,hostTick,if_neg hh]
    exact ⟨by omega,by omega⟩

theorem iterate_phase (i : Iteration F) (l : Loop F) :
    (iterate i l).phase = Transition.run PhaseManager.step l.phase
      (calls i (l.nextFeature ≤ l.now i) (l.now i) (l.sampleTs i)) := by
  simp only [iterate,hostTick]
  split <;> rfl

theorem iterate_inv {l : Loop F} (h : LoopInv l) {i : Iteration F} (hok : IterationOk l i) :
    LoopInv (iterate i l) := by
  obtain ⟨hclock,hhost⟩ := iterate_clock h.host i
  refine ⟨?_,hhost⟩
  rw [hclock]
  have hnow : l.now i ≤ max (l.now i) (l.sampleTs i) := le_max_left _ _
  by_cases hf : l.nextFeature ≤ l.now i
  · have hphase : (iterate i l).phase = Transition.run PhaseManager.step
        (PhaseManager.step l.phase (.tickAnomaly i.cfg.window i.reply i.anomalyEnv (l.sampleTs i)))
        (tailCalls i (l.now i)) := by
      rw [iterate_phase,calls,decide_eq_true hf,Transition.run_append]
      rfl
    rw [hphase]
    rcases feature_timed h.timed hf hok with ht | ⟨ht,hq⟩
    · exact (tail_timed ht i).mono hnow (le_refl _)
    · exact tail_quiet ht hnow hq
  · have hphase : (iterate i l).phase =
        Transition.run PhaseManager.step l.phase (tailCalls i (l.now i)) := by
      rw [iterate_phase,calls,decide_eq_false hf,Transition.run_append]
      rfl
    have hclock' : l.clock ≤ l.now i := Nat.le_add_right _ _
    rw [hphase]
    exact (tail_timed (h.timed.mono hclock' hclock') i).mono hnow hnow

theorem step_inv {l : Loop F} (h : LoopInv l) {a : Input F} (hok : InputOk l a) :
    LoopInv (step l a) := by
  cases a with
  | iterate i => exact iterate_inv h hok
  | shutdown cfg wait causal =>
    have hle : l.clock ≤ l.clock+wait := Nat.le_add_right _ _
    exact ⟨(timed_shutdown h.timed hle _ _).mono (le_refl _) hle,h.host.trans hle⟩

/-- Every episode finalized in a run of the loop whose iterations keep windows in order has
`anomaly_start_ts <= anomaly_end_ts <=` its finalize time. -/
theorem run_windows (inputs : List (Input F)) (h : Transition.Along step InputOk {} inputs) :
    Transition.Along step (fun l a => Windows (step l a).phase) {} inputs := by
  have hstep : ∀ (l : Loop F) (a : Input F), LoopInv l → InputOk l a → LoopInv (step l a) :=
    fun l a hl ha => step_inv hl ha
  have hinit : LoopInv ({} : Loop F) := ⟨timed_init,le_refl 0⟩
  exact (Transition.Along.of_invariant step hstep
    (fun l a hl ha => (hstep l a hl ha).timed.windows) inputs {} hinit h).1

/-- The first iteration, at 100 on the clock, with the snapshot taken at `100+delay` and judged
anomalous; a base request follows in the same iteration or not. -/
def firstIteration (delay : ℕ) (baseRequest : Bool) : Iteration Unit where
  cfg := ⟨window,1000,1000⟩
  wait := 100
  snapshotDelay := delay
  reply := .ok ⟨true,"cpu",()⟩
  anomalyEnv := allOk
  deadlineCausal := ⟨.error "",true⟩
  deepRequest := false
  requestEnv := allOk
  baseRequest := baseRequest
  requestCausal := ⟨.error "",true⟩

/-- The episode of the first iteration is shut down 50 later. -/
def cleanRun : List (Input Unit) :=
  [.iterate (firstIteration 1 false),.shutdown ⟨window,1000,1000⟩ 50 ⟨.error "",true⟩]

theorem run_windows_cleanRun :
    Transition.Along step (fun l a => Windows (step l a).phase) {} cleanRun :=
  run_windows cleanRun ⟨⟨nofun,fun _ _ _ _ => by simp [Iteration.ends]; decide,nofun⟩,
    trivial,trivial⟩

theorem baseRequest_inverts_window :
    ¬ Transition.Along step (fun l a => Windows (step l a).phase) {}
      [.iterate (firstIteration 1 true)] := by
  intro h
  have hwin := h.1
  have hlog : ∃ ctx, Event.finalized ctx ∈
      (step {} (.iterate (firstIteration 1 true))).phase.log ∧ ctx.anomalyEndTs < ctx.anomalyStartTs := by
    refine ⟨⟨1,0,100,101,100,1,[],180000000101⟩,?_,by decide⟩
    have hall : (step {} (.iterate (firstIteration 1 true))).phase.log =
        [.entered 1,.ticked,.finalized ⟨1,0,100,101,100,1,[],180000000101⟩,.exited] := by rfl
    rw [hall]
    simp
  obtain ⟨ctx,hmem,hlt⟩ := hlog
  have hwell := (hwin ctx hmem).1
  omega

end MainLoop
end ETraceDiag
