import ETraceDiag.EpisodeMaps

/-!
# The two producers of system-call latencies

`fentry_sys` with `fexit_sys`, and `on_sys_enter` with `on_sys_exit`, replayed over the same
events. They have different gates: the first pair asks for `deep_enabled`, the second one only
runs while its links are open and skips the numbers of compat calls.
-/

namespace ETraceDiag
namespace SysProducers

open EpisodeMaps Transition

variable {β : Type}

inductive Event
  | sysEnter (e : Env) (tid origAx arg1 : ℕ)
  | sysExit (e : Env) (tid : ℕ) (ret : ℤ)
  | setDeep (on : Bool)
  | setTargets (ts : List ℕ)

/-- The `id` of `sys_enter`: the low 32 bits of `orig_ax`, as an `int`. -/
def sysId (origAx : ℕ) : ℤ := (origAx : ℤ).bmod (2^32)

def fentryStep (m : Machine) (s : State β) : Event → State β
  | .sysEnter e tid origAx arg1 => s.fentrySys m e tid origAx arg1
  | .sysExit e tid ret => s.fexitSys e tid ret
  | .setDeep on => { s with deepEnabled := on }
  | .setTargets ts => { s with targets := ts }

def tracepointStep (m : Machine) (s : State β) : Event → State β
  | .sysEnter e tid origAx arg1 => s.onSysEnter m e tid (sysId origAx) arg1
  | .sysExit e tid ret => s.onSysExit e tid ret
  | .setDeep on => { s with deepEnabled := on }
  | .setTargets ts => { s with targets := ts }

/-- One event, replayed through both. -/
def step (m : Machine) (p : State β×State β) (ev : Event) : State β×State β :=
  (fentryStep m p.1 ev,tracepointStep m p.2 ev)

structure SameMaps (s t : State β) : Prop where
  sysLat : s.sysLat = t.sysLat
  sysSt : s.stats .sysSt = t.stats .sysSt
  futexSt : s.stats .futexSt = t.stats .futexSt
  sysStart : s.sysStart = t.sysStart

/-- The maps are the same behind the event. -/
def Interchangeable (m : Machine) (p : State β×State β) (ev : Event) : Prop :=
  SameMaps (step m p ev).1 (step m p ev).2

/-! ## The records of the enter hooks -/

def fentryRecord (m : Machine) (e : Env) (tid origAx arg1 : ℕ) (s : State β) : Option SysStart :=
  if s.deepEnabled ∧ tid ∈ s.targets then some ⟨origAx % 2^32,e.now,m.futexWait origAx arg1⟩
  else none

def tracepointRecord (m : Machine) (e : Env) (tid origAx arg1 : ℕ) (s : State β) :
    Option SysStart :=
  if 0 ≤ sysId origAx ∧ tid ∈ s.targets then
    some ⟨(sysId origAx).toNat % 2^32,e.now,m.futexWait (sysId origAx).toNat arg1⟩
  else none

/-- Writing the record changes nothing: it is there already, or there is no room for it. -/
def Keeps (room : Bool) (old : Option SysStart) (r : SysStart) : Prop :=
  old = some r ∨ (old = none ∧ room = false)

/-- Both enter hooks write the same record, or what they write changes nothing. An exit of a
target comes in DEEP or finds no record. -/
def Agrees (m : Machine) (p : State β×State β) : Event → Prop
  | .sysEnter e tid origAx arg1 =>
    fentryRecord m e tid origAx arg1 p.1 = tracepointRecord m e tid origAx arg1 p.1 ∨
      ∀ r, fentryRecord m e tid origAx arg1 p.1 = some r ∨
        tracepointRecord m e tid origAx arg1 p.1 = some r → Keeps e.room (p.1.sysStart tid) r
  | .sysExit _ tid _ =>
    tid ∈ p.1.targets → p.1.deepEnabled = true ∨ p.1.sysStart tid = none
  | _ => True

/-- In DEEP the records agree for every number of a native call. -/
theorem records_eq {m : Machine} {s : State β} (hdeep : s.deepEnabled = true) {origAx : ℕ}
    (h : origAx < 2^31) (e : Env) (tid arg1 : ℕ) :
    fentryRecord m e tid origAx arg1 s = tracepointRecord m e tid origAx arg1 s := by
  have hid : sysId origAx = origAx := Int.bmod_eq_of_le (by omega) (by omega)
  rw [fentryRecord,tracepointRecord,hid]
  simp [hdeep]

def save (e : Env) (tid : ℕ) (r : Option SysStart) (s : State β) : State β :=
  match r with
  | some r => { s with sysStart := put e.room tid r s.sysStart }
  | none => s

theorem fentrySys_eq (m : Machine) (e : Env) (tid origAx arg1 : ℕ) (s : State β) :
    s.fentrySys m e tid origAx arg1 = save e tid (fentryRecord m e tid origAx arg1 s) s := by
  rw [State.fentrySys,fentryRecord]
  split <;> rfl

theorem onSysEnter_eq (m : Machine) (e : Env) (tid origAx arg1 : ℕ) (s : State β) :
    s.onSysEnter m e tid (sysId origAx) arg1 =
      save e tid (tracepointRecord m e tid origAx arg1 s) s := by
  rw [State.onSysEnter,tracepointRecord]
  by_cases hid : 0 ≤ sysId origAx
  · rw [if_neg (Int.not_lt.mpr hid)]
    by_cases htid : tid ∈ s.targets
    · rw [if_pos htid,if_pos ⟨hid,htid⟩]
      rfl
    · rw [if_neg htid,if_neg fun h => htid h.2]
      rfl
  · rw [if_pos (Int.not_le.mp hid),if_neg fun h => hid h.1]
    rfl

theorem save_maps (e : Env) (tid : ℕ) (r : Option SysStart) (s : State β) :
    (save e tid r s).sysLat = s.sysLat ∧ (save e tid r s).stats = s.stats := by
  cases r <;> exact ⟨rfl,rfl⟩

/-- The slot of the thread after an enter hook. -/
theorem save_sysStart_self (e : Env) (tid : ℕ) (r : Option SysStart) (s : State β) :
    (save e tid r s).sysStart tid =
      if (s.sysStart tid).isSome || e.room then r.or (s.sysStart tid) else s.sysStart tid := by
  cases r with
  | none => simp [save]
  | some r =>
    simp only [save,put]
    split
    · rw [Function.update_self,Option.some_or]
    · rfl

theorem save_of_keeps {e : Env} {tid : ℕ} {r : Option SysStart} {s : State β}
    (h : ∀ r', r = some r' → Keeps e.room (s.sysStart tid) r') : save e tid r s = s := by
  cases r with
  | none => rfl
  | some r =>
    have hput : put e.room tid r s.sysStart = s.sysStart := by
      rcases h r rfl with hold | ⟨hold,hroom⟩
      · rw [put,hold,Option.isSome_some,Bool.true_or,if_pos rfl,← hold,Function.update_eq_self]
      · rw [put,hold,hroom]
        rfl
    rw [save,hput]

theorem save_eq_iff (e : Env) (tid : ℕ) (a b : Option SysStart) (s : State β) :
    (save e tid a s).sysStart = (save e tid b s).sysStart ↔
      a = b ∨ ∀ r, a = some r ∨ b = some r → Keeps e.room (s.sysStart tid) r := by
  constructor
  · intro h
    have hself := congrFun h tid
    rw [save_sysStart_self,save_sysStart_self] at hself
    by_cases hroom : ((s.sysStart tid).isSome || e.room) = true
    · rw [if_pos hroom,if_pos hroom] at hself
      cases a with
      | none =>
        refine Or.inr fun r hr => Or.inl ?_
        rw [hr.resolve_left nofun] at hself
        exact hself
      | some a =>
        cases b with
        | none =>
          refine Or.inr fun r hr => Or.inl ?_
          rw [hr.resolve_right nofun] at hself
          exact hself.symm
        | some b => exact Or.inl hself
    · right
      intro r _
      simp only [Bool.or_eq_true,not_or,Bool.not_eq_true,Option.isSome_eq_false_iff,
        Option.isNone_iff_eq_none] at hroom
      exact Or.inr hroom
  · rintro (rfl | hkeeps)
    · rfl
    · rw [save_of_keeps fun r hr => hkeeps r (Or.inl hr),
        save_of_keeps fun r hr => hkeeps r (Or.inr hr)]

/-! ## Runs -/

theorem exit_iff {e : Env} {tid : ℕ} {ret : ℤ} {s : State β} :
    (tid ∈ s.targets → s.deepEnabled = true ∨ s.sysStart tid = none) ↔
      SameMaps (s.fexitSys e tid ret) (s.onSysExit e tid ret) := by
  rw [State.fexitSys,State.onSysExit]
  by_cases htid : tid ∈ s.targets
  · cases hdeep : s.deepEnabled with
    | true => simp [htid,SameMaps.mk]
    | false =>
      rw [if_neg fun h => Bool.false_ne_true h.1,if_pos htid,State.sysExit]
      cases hst : s.sysStart tid with
      | none => exact iff_of_true (fun _ => Or.inr rfl) ⟨rfl,rfl,rfl,rfl⟩
      | some st =>
        refine iff_of_false (fun h => ?_) fun h => ?_
        · rcases h htid with h | h <;> cases h
        · have hself := congrFun h.sysStart tid
          rw [hst] at hself
          simp at hself
  · simp [htid,SameMaps.mk]

theorem exit_eq {e : Env} {tid : ℕ} {ret : ℤ} {s : State β}
    (h : tid ∈ s.targets → s.deepEnabled = true ∨ s.sysStart tid = none) :
    s.fexitSys e tid ret = s.onSysExit e tid ret := by
  rw [State.fexitSys,State.onSysExit]
  by_cases htid : tid ∈ s.targets
  · rcases h htid with hdeep | hst
    · rw [if_pos ⟨hdeep,htid⟩,if_pos htid]
    · rw [if_pos htid,State.sysExit,hst,ite_self]
  · rw [if_neg fun h => htid h.2,if_neg htid]

theorem interchangeable_step (m : Machine) (s : State β) (ev : Event) :
    Interchangeable m (s,s) ev ↔ Agrees m (s,s) ev := by
  cases ev with
  | sysEnter e tid origAx arg1 =>
    rw [Agrees,← save_eq_iff]
    simp only [Interchangeable,step,fentryStep,tracepointStep,fentrySys_eq,onSysEnter_eq]
    refine ⟨fun h => h.sysStart,fun h => ⟨?_,?_,?_,h⟩⟩
    · rw [(save_maps ..).1,(save_maps ..).1]
    · rw [(save_maps ..).2,(save_maps ..).2]
    · rw [(save_maps ..).2,(save_maps ..).2]
  | sysExit e tid ret => exact exit_iff.symm
  | setDeep on => exact iff_of_true ⟨rfl,rfl,rfl,rfl⟩ trivial
  | setTargets ts => exact iff_of_true ⟨rfl,rfl,rfl,rfl⟩ trivial

/-- Where the pairs agree, the states behind the event are the same. -/
theorem step_eq {m : Machine} {s : State β} {ev : Event} (h : Agrees m (s,s) ev) :
    (step m (s,s) ev).1 = (step m (s,s) ev).2 := by
  cases ev with
  | sysEnter e tid origAx arg1 =>
    simp only [step,fentryStep,tracepointStep,fentrySys_eq,onSysEnter_eq]
    rcases h with heq | hkeeps
    · rw [heq]
    · rw [save_of_keeps fun r hr => hkeeps r (Or.inl hr),
        save_of_keeps fun r hr => hkeeps r (Or.inr hr)]
  | sysExit e tid ret => exact exit_eq h
  | setDeep on => rfl
  | setTargets ts => rfl

/-- The producers are interchangeable in the runs in which their gates make no difference. -/
theorem interchangeable_iff (m : Machine) (s : State β) (es : List Event) :
    Along (step m) (Interchangeable m) (s,s) es ↔ Along (step m) (Agrees m) (s,s) es := by
  refine Along.iff_of_invariant (I:=fun p : State β×State β => p.1 = p.2) (step m) ?_ ?_ es _ rfl
  · rintro ⟨s,t⟩ ev heq
    obtain rfl : s = t := heq
    exact interchangeable_step m s ev
  · rintro ⟨s,t⟩ ev heq hagree
    obtain rfl : s = t := heq
    exact step_eq hagree

/-- `deep_enabled` stays set and the calls are native ones. -/
def DeepNative : Event → Prop
  | .sysEnter _ _ origAx _ => origAx < 2^31
  | .setDeep on => on = true
  | _ => True

theorem fentryStep_deep (m : Machine) {s : State β} (h : s.deepEnabled = true) {ev : Event}
    (hev : DeepNative ev) : (fentryStep m s ev).deepEnabled = true := by
  cases ev with
  | sysEnter e tid origAx arg1 =>
    rw [fentryStep,fentrySys_eq]
    cases fentryRecord m e tid origAx arg1 s <;> exact h
  | sysExit e tid ret =>
    rw [fentryStep,State.fexitSys,State.sysExit]
    split
    · cases s.sysStart tid with
      | none => exact h
      | some st => cases hf : st.futexWait <;> simp [State.syslatAccount,State.accountStat,hf,h]
    · exact h
  | setDeep on => exact hev
  | setTargets ts => exact h

theorem interchangeable_of_deep (m : Machine) {s : State β} (h : s.deepEnabled = true)
    (es : List Event) (hes : ∀ ev ∈ es, DeepNative ev) :
    Along (step m) (Interchangeable m) (s,s) es := by
  rw [interchangeable_iff]
  refine (Along.of_invariant (I:=fun p : State β×State β => p.1.deepEnabled = true) (step m)
    (fun p _ hp hev => fentryStep_deep m hp hev) ?_ es (s,s) h
    ((along_inputs (step m) DeepNative es (s,s)).mpr hes)).1
  intro p ev hp hev
  cases ev with
  | sysEnter e tid origAx arg1 => exact Or.inl (records_eq hp hev e tid arg1)
  | sysExit e tid ret => exact fun _ => Or.inl hp
  | setDeep on => trivial
  | setTargets ts => trivial

/-- A target enters a system call while `deep_enabled` is 0: only `on_sys_enter` saves it. -/
theorem enterInBase_not_interchangeable : ¬∀ (m : Machine) (s : State Unit) (es : List Event),
    Along (step m) (Interchangeable m) (s,s) es := by
  intro h
  have hstart := (h {} { targets := [7] } [.sysEnter { cpu := 0, now := 10 } 7 0 0]).1.sysStart
  have hsome := congrArg Option.isSome (congrFun hstart 7)
  exact absurd hsome (by decide)

end SysProducers
end ETraceDiag
