import ETraceDiag.EpisodeMaps

/-!
# System calls across episodes

The threads enter and leave system calls; the hooks that are attached at that moment see it.
`sys_start` pairs the two ends of a call, and `ResetEpisodeMaps` does not wipe it.
-/

namespace ETraceDiag
namespace SysPairing

open EpisodeMaps Transition

variable {β : Type}

/-- The programs at the two ends of a system call. -/
def syscallHook : Action β → Bool
  | .fentrySys .. | .fexitSys .. | .onSysEnter .. | .onSysExit .. => true
  | _ => false

/-- A thread enters or leaves a system call, or something else takes a step. -/
inductive Event (β : Type)
  | sysEnter (e : Env) (tid origAx : ℕ) (id : ℤ) (arg1 : ℕ)
  | sysExit (e : Env) (tid : ℕ) (ret : ℤ)
  | other (a : Action β) (h : syscallHook a = false)

/-- The call that a thread is in: when it was entered, and whether a hook saw that in the
current episode. -/
structure Call where
  ts : ℕ
  observed : Bool
  deriving DecidableEq,Repr

structure Sys (β : Type) where
  kernel : State β
  calls : ℕ → Option Call := fun _ => none

/-! ## The hooks of one event -/

/-- The tracepoint fires inside of the function that `fentry_sys` and `fexit_sys` are on. -/
def enterHooks (m : Machine) (e : Env) (tid origAx : ℕ) (id : ℤ) (arg1 : ℕ) (s : State β) :
    State β :=
  EpisodeMaps.step m (EpisodeMaps.step m s (.fentrySys e tid origAx arg1))
    (.onSysEnter e tid id arg1)

def exitHooks (m : Machine) (e : Env) (tid : ℕ) (ret : ℤ) (s : State β) : State β :=
  EpisodeMaps.step m (EpisodeMaps.step m s (.onSysExit e tid ret)) (.fexitSys e tid ret)

/-- `fentry_sys` gets past its gates. -/
def fentrySeen (tid : ℕ) (s : State β) : Bool :=
  .fentrySys ∈ s.hooks && s.deepEnabled && tid ∈ s.targets

/-- `on_sys_enter` gets past its gates. -/
def sysEnterSeen (tid : ℕ) (id : ℤ) (s : State β) : Bool :=
  .onSysEnter ∈ s.hooks && 0 ≤ id && tid ∈ s.targets

def enterSeen (tid : ℕ) (id : ℤ) (s : State β) : Bool :=
  fentrySeen tid s || sysEnterSeen tid id s

/-- An exit hook gets past its gates. -/
def exitSeen (tid : ℕ) (s : State β) : Bool :=
  tid ∈ s.targets && (.onSysExit ∈ s.hooks || (.fexitSys ∈ s.hooks && s.deepEnabled))

/-- The latency that the exit hooks account. -/
def accounted (e : Env) (tid : ℕ) (s : State β) : Option ℕ :=
  if exitSeen tid s then (s.sysStart tid).map fun st => elapsed e.now st.ts else none

/-! ## The calls of the threads -/

/-- What is left of the calls when something else takes a step. With a new episode no enter has
been seen yet; a thread that exits is in no call. -/
def callsAfter (s : State β) (calls : ℕ → Option Call) : Action β → ℕ → Option Call
  | .enter _ _ =>
    if s.pc = .base then fun tid => (calls tid).map fun c => { c with observed := false }
    else calls
  | .onProcessExit tid => Function.update calls tid none
  | _ => calls

def step (m : Machine) (s : Sys β) : Event β → Sys β
  | .sysEnter e tid origAx id arg1 =>
    ⟨enterHooks m e tid origAx id arg1 s.kernel,
      Function.update s.calls tid (some ⟨e.now,enterSeen tid id s.kernel⟩)⟩
  | .sysExit e tid ret =>
    ⟨exitHooks m e tid ret s.kernel,Function.update s.calls tid none⟩
  | .other a _ => ⟨EpisodeMaps.step m s.kernel a,callsAfter s.kernel s.calls a⟩

/-- A latency that is accounted is that of the call that ends, and a hook saw its enter in the
same episode. -/
def PairOk (s : Sys β) : Event β → Prop
  | .sysExit e tid _ => ∀ lat, accounted e tid s.kernel = some lat →
      ∃ c, s.calls tid = some c ∧ c.observed = true ∧ lat = elapsed e.now c.ts
  | _ => True

/-- An exit that the hooks see finds no record of its thread, unless they saw the enter of the
same call in this episode. -/
def NoLeftover (s : Sys β) : Event β → Prop
  | .sysExit _ tid _ => exitSeen tid s.kernel = true → s.kernel.sysStart tid ≠ none →
      ∃ c, s.calls tid = some c ∧ c.observed = true
  | _ => True

/-! ## What one event does -/

/-- One account, also where both exit hooks are attached: the first one deletes the record. -/
theorem exitHooks_eq (m : Machine) (e : Env) (tid : ℕ) (ret : ℤ) (s : State β) :
    exitHooks m e tid ret s = if exitSeen tid s then s.sysExit e tid ret else s := by
  have hgates : ∀ s : State β, (s.sysExit e tid ret).hooks = s.hooks ∧
      (s.sysExit e tid ret).targets = s.targets ∧
      (s.sysExit e tid ret).deepEnabled = s.deepEnabled := by
    intro s
    rw [State.sysExit]
    cases s.sysStart tid with
    | none => exact ⟨rfl,rfl,rfl⟩
    | some st => cases hf : st.futexWait <;> simp [State.syslatAccount,State.accountStat,hf]
  have htwice : (s.sysExit e tid ret).sysExit e tid ret = s.sysExit e tid ret := by
    have hnone : (s.sysExit e tid ret).sysStart tid = none := by
      rw [State.sysExit]
      cases hst : s.sysStart tid with
      | none => exact hst
      | some st => exact Function.update_self ..
    rw [State.sysExit,hnone]
  simp only [exitHooks,EpisodeMaps.step,State.onSysExit,State.fexitSys,exitSeen]
  by_cases htid : tid ∈ s.targets
  · by_cases hexit : Hook.onSysExit ∈ s.hooks
    · simp [htid,hexit,hgates,htwice]
    · simp [htid,hexit,ite_and]
  · simp [htid]

/-- The hooks account what `accounted` says. -/
theorem exitHooks_of_accounted {m : Machine} {e : Env} {tid lat : ℕ} {s : State β}
    (h : accounted e tid s = some lat) (ret : ℤ) : ∃ st, s.sysStart tid = some st ∧
      exitHooks m e tid ret s =
        { s.syslatAccount e tid st.id st.futexWait lat ret with
          sysStart := Function.update s.sysStart tid none } := by
  rw [accounted,Option.ite_none_right_eq_some] at h
  obtain ⟨hseen,hmap⟩ := h
  obtain ⟨st,hst,rfl⟩ := Option.map_eq_some_iff.mp hmap
  refine ⟨st,hst,?_⟩
  rw [exitHooks_eq,if_pos hseen,State.sysExit,hst]
  cases hf : st.futexWait <;> simp [State.syslatAccount,State.accountStat,hf]

theorem exitHooks_of_accounted_none {m : Machine} {e : Env} {tid : ℕ} {s : State β}
    (h : accounted e tid s = none) (ret : ℤ) : exitHooks m e tid ret s = s := by
  rw [exitHooks_eq]
  split
  · next hseen =>
    rw [accounted,if_pos hseen,Option.map_eq_none_iff] at h
    rw [State.sysExit,h]
  · rfl

theorem sysExit_sysStart (e : Env) (tid : ℕ) (ret : ℤ) (s : State β) (tid' : ℕ) :
    (s.sysExit e tid ret).sysStart tid' = s.sysStart tid' ∨
      (s.sysExit e tid ret).sysStart tid' = none := by
  rw [State.sysExit]
  cases hst : s.sysStart tid with
  | none => exact Or.inl rfl
  | some st =>
    have hkept : (s.syslatAccount e tid st.id st.futexWait (elapsed e.now st.ts) ret).sysStart =
        s.sysStart := by
      rw [State.syslatAccount]
      split <;> rfl
    simp only [hkept,Function.update_apply]
    split
    · exact Or.inr rfl
    · exact Or.inl rfl

theorem sysEnter_sysStart_of_ne (m : Machine) (e : Env) {tid tid' : ℕ} (h : tid' ≠ tid)
    (id arg1 : ℕ) (s : State β) : (s.sysEnter m e tid id arg1).sysStart tid' = s.sysStart tid' :=
  put_of_ne e.room h _ s.sysStart

/-- A record that is there after an enter hook is that of this call; it may be missing. -/
theorem sysEnter_sysStart_self (m : Machine) (e : Env) (tid id arg1 : ℕ) (s : State β)
    {st : SysStart} (h : (s.sysEnter m e tid id arg1).sysStart tid = some st) : st.ts = e.now := by
  simp only [State.sysEnter,put] at h
  split at h
  · rw [Function.update_self] at h
    rw [← Option.some.inj h]
  · next hroom => simp [h] at hroom

theorem step_fentrySys (m : Machine) (e : Env) (tid origAx arg1 : ℕ) (s : State β) :
    EpisodeMaps.step m s (.fentrySys e tid origAx arg1) =
      if fentrySeen tid s then s.sysEnter m e tid origAx arg1 else s := by
  simp [EpisodeMaps.step,State.fentrySys,fentrySeen,ite_and,and_assoc]

theorem step_onSysEnter (m : Machine) (e : Env) (tid : ℕ) (id : ℤ) (arg1 : ℕ) (s : State β) :
    EpisodeMaps.step m s (.onSysEnter e tid id arg1) =
      if sysEnterSeen tid id s then s.sysEnter m e tid id.toNat arg1 else s := by
  by_cases hid : 0 ≤ id
  · simp [EpisodeMaps.step,State.onSysEnter,sysEnterSeen,ite_and,hid,Int.not_lt.mpr hid]
  · simp [EpisodeMaps.step,State.onSysEnter,sysEnterSeen,hid,Int.not_le.mp hid]

theorem enterHooks_of_ne (m : Machine) (e : Env) {tid tid' : ℕ} (h : tid' ≠ tid) (origAx : ℕ)
    (id : ℤ) (arg1 : ℕ) (s : State β) :
    (enterHooks m e tid origAx id arg1 s).sysStart tid' = s.sysStart tid' := by
  have hfentry : (EpisodeMaps.step m s (.fentrySys e tid origAx arg1)).sysStart tid' =
      s.sysStart tid' := by
    rw [step_fentrySys]
    split
    · exact sysEnter_sysStart_of_ne m e h ..
    · rfl
  rw [enterHooks,step_onSysEnter]
  split
  · exact (sysEnter_sysStart_of_ne m e h ..).trans hfentry
  · exact hfentry

theorem enterHooks_self {m : Machine} {e : Env} {tid origAx : ℕ} {id : ℤ} {arg1 : ℕ}
    {s : State β} (hseen : enterSeen tid id s = true) {st : SysStart}
    (h : (enterHooks m e tid origAx id arg1 s).sysStart tid = some st) : st.ts = e.now := by
  rw [enterHooks,step_onSysEnter] at h
  split at h
  · exact sysEnter_sysStart_self m e tid _ _ _ h
  · next hskip =>
    -- then it was `fentry_sys` that saw the enter
    cases hfentry : fentrySeen tid s with
    | true =>
      rw [step_fentrySys,if_pos hfentry] at h
      exact sysEnter_sysStart_self m e tid _ _ _ h
    | false =>
      rw [step_fentrySys,hfentry,if_neg Bool.false_ne_true] at hskip
      rw [enterSeen,hfentry,Bool.false_or] at hseen
      exact absurd hseen hskip

/-- `sys_start` is not among the maps that are wiped. -/
theorem wipe_sysStart (map : EpisodeMap) (s : State β) : (s.wipe map).sysStart = s.sysStart := by
  cases map <;> rfl

/-- Nothing else makes a record. -/
theorem other_sysStart (m : Machine) (s : State β) {a : Action β} (h : syscallHook a = false)
    (tid : ℕ) : (EpisodeMaps.step m s a).sysStart tid = s.sysStart tid ∨
      (EpisodeMaps.step m s a).sysStart tid = none := by
  have herase : ∀ tid', Function.update s.sysStart tid' none tid = s.sysStart tid ∨
      Function.update s.sysStart tid' none tid = none := by
    intro tid'
    rw [Function.update_apply]
    split
    · exact Or.inr rfl
    · exact Or.inl rfl
  cases a with
  | fentrySys | fexitSys | onSysEnter | onSysExit => cases h
  | leave tid' => exact herase tid'
  | onProcessExit tid' =>
    simp only [EpisodeMaps.step]
    split
    · exact herase tid'
    · exact Or.inl rfl
  | resetMap =>
    left
    simp only [EpisodeMaps.step,State.resetMap]
    split
    · next map rest _ => rw [wipe_sysStart]
    · rfl
    · rfl
  | tick | addTarget | collect | onWakeup | onSwitch | enter | attachDeepLinks | openDeep | exit
    | closeDeepLinks =>
    left
    simp only [EpisodeMaps.step,State.tick,State.addTarget,State.collect,State.onWakeup,
      State.onSwitch,State.enter,State.attachDeepLinks,State.openDeep,State.exit,
      State.closeDeepLinks,State.accountStat]
    repeat' split
    all_goals rfl

/-! ## Runs -/

/-- A record of a call whose enter was seen in this episode is its own. -/
def Own (s : Sys β) : Prop := ∀ tid c st, s.calls tid = some c → c.observed = true →
  s.kernel.sysStart tid = some st → st.ts = c.ts

theorem Own.sysEnter {s : Sys β} (h : Own s) (m : Machine) (e : Env) (tid origAx : ℕ) (id : ℤ)
    (arg1 : ℕ) : Own (step m s (.sysEnter e tid origAx id arg1)) := by
  intro tid' c st hc hobs hst
  simp only [step] at hc hst
  by_cases htid : tid' = tid
  · subst htid
    rw [Function.update_self] at hc
    obtain rfl := Option.some.inj hc
    exact enterHooks_self hobs hst
  · rw [Function.update_of_ne htid] at hc
    rw [enterHooks_of_ne m e htid] at hst
    exact h tid' c st hc hobs hst

theorem Own.sysExit {s : Sys β} (h : Own s) (m : Machine) (e : Env) (tid : ℕ) (ret : ℤ) :
    Own (step m s (.sysExit e tid ret)) := by
  intro tid' c st hc hobs hst
  simp only [step] at hc hst
  by_cases htid : tid' = tid
  · subst htid
    rw [Function.update_self] at hc
    cases hc
  · rw [Function.update_of_ne htid] at hc
    rw [exitHooks_eq] at hst
    split at hst
    · rcases sysExit_sysStart e tid ret s.kernel tid' with hkept | hnone
      · exact h tid' c st hc hobs (hkept ▸ hst)
      · rw [hnone] at hst
        cases hst
    · exact h tid' c st hc hobs hst

/-- Calls go on as they were, or what was seen of them is forgotten. -/
theorem callsAfter_observed {s : State β} {calls : ℕ → Option Call} {a : Action β} {tid : ℕ}
    {c : Call} (h : callsAfter s calls a tid = some c) (hobs : c.observed = true) :
    calls tid = some c := by
  cases a with
  | enter =>
    simp only [callsAfter] at h
    split at h
    · obtain ⟨c',_,rfl⟩ := Option.map_eq_some_iff.mp h
      cases hobs
    · exact h
  | onProcessExit tid' =>
    simp only [callsAfter,Function.update_apply] at h
    split at h
    · cases h
    · exact h
  | _ => exact h

theorem Own.step {s : Sys β} (h : Own s) (m : Machine) (ev : Event β) :
    Own (SysPairing.step m s ev) := by
  cases ev with
  | sysEnter e tid origAx id arg1 => exact h.sysEnter m e tid origAx id arg1
  | sysExit e tid ret => exact h.sysExit m e tid ret
  | other a ha =>
    intro tid c st hc hobs hst
    rcases other_sysStart m s.kernel ha tid with hkept | hnone
    · exact h tid c st (callsAfter_observed hc hobs) hobs (hkept ▸ hst)
    · exact absurd (hnone.symm.trans hst) (by simp)

theorem Own.pairOk_iff {s : Sys β} (h : Own s) (ev : Event β) : PairOk s ev ↔ NoLeftover s ev := by
  cases ev with
  | sysEnter | other => exact Iff.rfl
  | sysExit e tid ret =>
    constructor
    · intro hpair hseen hsome
      obtain ⟨st,hst⟩ := Option.ne_none_iff_exists'.mp hsome
      have hacc : accounted e tid s.kernel = some (elapsed e.now st.ts) := by
        rw [accounted,if_pos hseen,hst,Option.map_some]
      obtain ⟨c,hc,hobs,_⟩ := hpair _ hacc
      exact ⟨c,hc,hobs⟩
    · intro hleft lat hlat
      rw [accounted,Option.ite_none_right_eq_some] at hlat
      obtain ⟨hseen,hmap⟩ := hlat
      obtain ⟨st,hst,rfl⟩ := Option.map_eq_some_iff.mp hmap
      obtain ⟨c,hc,hobs⟩ := hleft hseen (by simp [hst])
      exact ⟨c,hc,hobs,by rw [h tid c st hc hobs hst]⟩

/-- Latencies are those of the calls, as long as no exit finds what an earlier call left. -/
theorem pairing_iff (m : Machine) (s : State β) (es : List (Event β)) :
    Along (step m) PairOk { kernel := s } es ↔ Along (step m) NoLeftover { kernel := s } es :=
  Along.iff_of_invariant (I:=Own) (step m) (fun _ ev h => h.pairOk_iff ev)
    (fun _ ev h _ => h.step m ev) es _ fun _ _ _ hc => by cases hc

def openEpisode : List (Event Unit) :=
  [.other (.enter 0 0) rfl,.other (.attachDeepLinks [.fentrySys,.fexitSys] true) rfl,
    .other (.openDeep true) rfl,.other .resetMap rfl,.other .resetMap rfl,.other .resetMap rfl,
    .other .resetMap rfl,.other .resetMap rfl,.other .resetMap rfl]

/-- Thread 7 is in a call when the first episode ends, and in another one when the next episode
begins; the hooks miss the exit of the one and the enter of the other. -/
def acrossEpisodes : List (Event Unit) :=
  .other (.addTarget 7) rfl::openEpisode++
    [.sysEnter { cpu := 0, now := 10 } 7 0 0 0,.other .exit rfl,.other .closeDeepLinks rfl,
      .sysExit { cpu := 0, now := 20 } 7 0,.sysEnter { cpu := 0, now := 30 } 7 1 1 0]++openEpisode

/-- The exit at 50 is accounted with 40 ns, from the enter of the call before. -/
theorem acrossEpisodes_not_pairOk :
    ¬∀ (m : Machine) (es : List (Event Unit)), Along (step m) PairOk { kernel := {} } es := by
  intro h
  have hlast := ((along_append (step oneCpu) PairOk acrossEpisodes _ _).mp
    (h oneCpu (acrossEpisodes++[.sysExit { cpu := 0, now := 50 } 7 0]))).2.1
  obtain ⟨c,hc,hobs,_⟩ := hlast 40 (by decide)
  have hcall : some (⟨30,false⟩ : Call) = some c := hc
  rw [← Option.some.inj hcall] at hobs
  cases hobs

end SysPairing
end ETraceDiag
