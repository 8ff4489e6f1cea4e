import Mathlib.Algebra.Ring.Nat
import ETraceDiag.DeepLinks

/-!
# The BASE/DEEP phase state machine

`PhaseManager` with its five entry points. The deep collector contributes its `Enter` and
`Exit`; a log keeps the episode events in order. A JSON text with an invalid UTF-8 string
cannot be dumped: `dump` throws, nothing above `FinalizeDeep` catches it, and the process
ends there.
-/

namespace ETraceDiag
namespace PhaseManager

inductive Phase
  | base
  | deep
  deriving DecidableEq,Repr

/-- `cfg.window`. -/
structure Window where
  preAnomalySeconds : ℕ
  postAnomalySeconds : ℕ
  endDebounceSamples : ℕ

/-- The part of a decoded reply that is used; the type text has been through the JSON parser. -/
structure AnomalyResult (F : Type) where
  isAnomaly : Bool
  type : String
  confidence : F

structure Indicator (F : Type) where
  type : String
  confidence : F

/-- The reply of the causal service as it came over the socket. -/
structure CausalResult where
  ok : Bool
  raw : List UInt8

/-- What `InferCausal` and the file system answer while an episode is finalized. -/
structure Causal where
  infer : Except String CausalResult
  fopenOk : Bool

inductive CausalEntry
  | result (ok : Bool) (raw : List UInt8)
  | error (what : String)

structure Summary (F : Type) where
  anomalyStartTs : ℕ
  anomalyEndTs : ℕ
  postDeadlineTs : ℕ
  deepOrdinal : ℕ
  deepIndicators : List (Indicator F)
  causal : CausalEntry

/-- The causal request: the bundle's own fields next to the window it asks about. -/
structure CausalContext (F : Type) where
  seq : ℕ
  windowStartNs : ℕ
  windowEndNs : ℕ
  anomalyStartTs : ℕ
  anomalyEndTs : ℕ
  deepOrdinal : ℕ
  deepIndicators : List (Indicator F)
  postDeadlineTs : ℕ

inductive Event (F : Type)
  | entered (ordinal : ℕ)
  | refused (ordinal : ℕ)
  | ticked
  | finalized (ctx : CausalContext F)
  | exited

structure State (F : Type) where
  deep : DeepLinks.Collector := {}
  phase : Phase := .base
  deepOrdinal : ℕ := 0
  anomalyStartTs : ℕ := 0
  anomalyEndTs : ℕ := 0
  postDeadlineNs : ℕ := 0
  firstFalseTs : ℕ := 0
  debounce : ℕ := 0
  indicators : List (Indicator F) := []
  lastSummary : Option (Summary F) := none
  diagnosis : Option (List UInt8) := none
  log : List (Event F) := []
  terminated : Bool := false

/-! ## UTF-8 -/

/-- Where a UTF-8 decoder stands: between characters, inside one with the bounds of the next
byte and the number of bytes behind it, or off the rails. -/
inductive Utf8
  | ok
  | need (lo hi : UInt8) (more : ℕ)
  | bad
  deriving DecidableEq,Repr

def Utf8.lead (b : UInt8) : Utf8 :=
  if b ≤ 0x7F then .ok
  else if 0xC2 ≤ b ∧ b ≤ 0xDF then .need 0x80 0xBF 0
  else if b = 0xE0 then .need 0xA0 0xBF 1
  else if b = 0xED then .need 0x80 0x9F 1
  else if 0xE1 ≤ b ∧ b ≤ 0xEF then .need 0x80 0xBF 1
  else if b = 0xF0 then .need 0x90 0xBF 2
  else if 0xF1 ≤ b ∧ b ≤ 0xF3 then .need 0x80 0xBF 2
  else if b = 0xF4 then .need 0x80 0x8F 2
  else .bad

def Utf8.next : Utf8 → UInt8 → Utf8
  | .ok, b => Utf8.lead b
  | .need lo hi more, b =>
    if lo ≤ b ∧ b ≤ hi then
      match more with
      | 0 => .ok
      | k+1 => .need 0x80 0xBF k
    else .bad
  | .bad, _ => .bad

def validUtf8 (bs : List UInt8) : Bool := bs.foldl Utf8.next .ok = .ok

/-- `dump` of the summary does not throw. -/
def CausalEntry.dumps : CausalEntry → Bool
  | .result _ raw => validUtf8 raw
  | .error _ => true

/-! ## The operations -/

variable {F : Type}

def State.emit (s : State F) (e : Event F) : State F :=
  { s with log := s.log++[e] }

def enterDeep (w : Window) (env : DeepLinks.Env) (now : ℕ) (s : State F) :
    State F :=
  let s := { s with
             deepOrdinal := s.deepOrdinal+1, anomalyStartTs := now, anomalyEndTs := 0,
             postDeadlineNs := (now+w.postAnomalySeconds*1000000000) % 2^64,
             firstFalseTs := 0, debounce := 0, indicators := [] }
  let r := DeepLinks.enter env s.deep
  if !r.2 then { s with deep := r.1, phase := .base }.emit (.refused s.deepOrdinal)
  else { s with deep := r.1, phase := .deep }.emit (.entered s.deepOrdinal)

def State.context (s : State F) (w : Window) (now : ℕ) : CausalContext F where
  seq := s.deepOrdinal
  windowStartNs := s.anomalyStartTs-w.preAnomalySeconds*1000000000
  windowEndNs := now
  anomalyStartTs := s.anomalyStartTs
  anomalyEndTs := s.anomalyEndTs
  deepOrdinal := s.deepOrdinal
  deepIndicators := s.indicators
  postDeadlineTs := s.postDeadlineNs

def Causal.entry (c : Causal) : CausalEntry :=
  match c.infer with
  | .error what => .error what
  | .ok r => .result r.ok r.raw

/-- The diagnosis file after the reply: written when the reply is ok and not empty. -/
def Causal.diagnosis (c : Causal) (old : Option (List UInt8)) : Option (List UInt8) :=
  match c.infer with
  | .error _ => old
  | .ok r => if r.ok && r.raw ≠ [] && c.fopenOk then some r.raw else old

/-- `FinalizeDeep`; the dumps at its end throw on an invalid reply text. -/
def finalizeDeep (w : Window) (c : Causal) (now : ℕ) (s : State F) : State F :=
  let s := { s with anomalyEndTs := if s.anomalyEndTs = 0 then now else s.anomalyEndTs }
  let s := s.emit (.finalized (s.context w now))
  { s with
    diagnosis := c.diagnosis s.diagnosis
    lastSummary := some
      { anomalyStartTs := s.anomalyStartTs, anomalyEndTs := s.anomalyEndTs,
        postDeadlineTs := s.postDeadlineNs, deepOrdinal := s.deepOrdinal,
        deepIndicators := s.indicators, causal := c.entry }
    terminated := !c.entry.dumps }

def exitDeep (s : State F) : State F :=
  { s with deep := DeepLinks.exit s.deep, phase := .base }.emit .exited

/-- `FinalizeDeep` and `ExitDeep` one after the other, unless the first one throws. -/
def closeDeep (w : Window) (c : Causal) (now : ℕ) (s : State F) : State F :=
  let s := finalizeDeep w c now s
  if s.terminated then s else exitDeep s

/-- The indicator of an anomalous reply; a model that throws counts as no anomaly. -/
def verdict (reply : Except String (AnomalyResult F)) : Option (Indicator F) :=
  match reply with
  | .error _ => none
  | .ok r => if r.isAnomaly then some ⟨r.type,r.confidence⟩ else none

/-- A verdict while the phase is DEEP. -/
def noteVerdict (w : Window) (now : ℕ) (s : State F) :
    Option (Indicator F) → State F
  | some i => { s with indicators := s.indicators++[i], debounce := 0, firstFalseTs := 0 }
  | none =>
    let first := if s.debounce = 0 then now else s.firstFalseTs
    let debounce := (s.debounce+1) % 2^32
    { s with firstFalseTs := first, debounce := debounce,
             anomalyEndTs := if w.endDebounceSamples ≤ debounce ∧ s.anomalyEndTs = 0
               then first else s.anomalyEndTs }

def tickAnomaly (w : Window) (reply : Except String (AnomalyResult F)) (env : DeepLinks.Env)
    (now : ℕ) (s : State F) : State F :=
  match s.phase with
  | .base => if (verdict reply).isSome then enterDeep w env now s else s
  | .deep => noteVerdict w now s (verdict reply)

def tickDeep (w : Window) (c : Causal) (now : ℕ) (s : State F) : State F :=
  if s.phase = .deep ∧ s.postDeadlineNs ≤ now then closeDeep w c now s else s

def shutdown (w : Window) (c : Causal) (now : ℕ) (s : State F) : State F :=
  if s.phase = .deep then closeDeep w c now s else s

def requestDeep (w : Window) (env : DeepLinks.Env) (now : ℕ) (s : State F) :
    State F :=
  if s.phase = .base then enterDeep w env now s else s

def requestBase (w : Window) (c : Causal) (now : ℕ) (s : State F) : State F :=
  if s.phase = .deep then closeDeep w c now s else s

/-- `DeepCollector::Tick`, which the main loop calls in both phases. -/
def collectorTick (s : State F) : State F :=
  if s.deep.active then s.emit .ticked else s

inductive Call (F : Type)
  | tickAnomaly (w : Window) (reply : Except String (AnomalyResult F)) (env : DeepLinks.Env)
      (now : ℕ)
  | tickDeep (w : Window) (c : Causal) (now : ℕ)
  | requestDeep (w : Window) (env : DeepLinks.Env) (now : ℕ)
  | requestBase (w : Window) (c : Causal) (now : ℕ)
  | shutdown (w : Window) (c : Causal) (now : ℕ)
  | collectorTick

def Call.apply : Call F → State F → State F
  | .tickAnomaly w reply env now, s => PhaseManager.tickAnomaly w reply env now s
  | .tickDeep w c now, s => PhaseManager.tickDeep w c now s
  | .requestDeep w env now, s => PhaseManager.requestDeep w env now s
  | .requestBase w c now, s => PhaseManager.requestBase w c now s
  | .shutdown w c now, s => PhaseManager.shutdown w c now s
  | .collectorTick, s => PhaseManager.collectorTick s

/-- One call; nothing runs in a terminated process. -/
def step (s : State F) (c : Call F) : State F :=
  if s.terminated then s else c.apply s

/-! ## The episode protocol -/

/-- Where the protocol of the episode events stands. -/
inductive Stage
  | idle
  | running
  | finalized
  deriving DecidableEq,Repr

/-- One event against the protocol: the stage and the ordinal of the last successful enter. -/
def Stage.next : Stage × ℕ → Event F → Option (Stage × ℕ)
  | (.idle,last), .entered ordinal => if last < ordinal then some (.running,ordinal) else none
  | (.idle,last), .refused _ => some (.idle,last)
  | (.running,last), .ticked => some (.running,last)
  | (.running,last), .finalized ctx => if ctx.deepOrdinal = last then some (.finalized,last) else none
  | (.finalized,last), .exited => some (.idle,last)
  | _, _ => none

/-- Run the protocol over a log; `none` when some event is out of place. -/
def follow (log : List (Event F)) : Option (Stage × ℕ) :=
  log.foldl (fun st e => st.bind fun st => Stage.next st e) (some (.idle,0))

/-- The contract between calls: the phase tells whether the collector is active, and the log
follows the protocol up to a running episode in DEEP or to none in BASE. -/
structure Consistent (s : State F) : Prop where
  active : s.phase = .deep ↔ s.deep.active = true
  log : ∃ last, last ≤ s.deepOrdinal ∧ follow s.log = some
    (if s.phase = .deep then .running else .idle,last)

/-- The contract after a call; after a shutdown no episode is open. -/
def AfterCall (s : State F) (c : Call F) : Prop :=
  Consistent (step s c) ∧ ∀ w causal now, c = .shutdown w causal now → (step s c).phase = .base

/-- The causal reply a call makes an episode end with. -/
def finalizes (s : State F) : Call F → Option Causal
  | .tickDeep _ c now => if s.phase = .deep ∧ s.postDeadlineNs ≤ now then some c else none
  | .requestBase _ c _ => if s.phase = .deep then some c else none
  | .shutdown _ c _ => if s.phase = .deep then some c else none
  | _ => none

/-- The reply that ends an episode, if there is one, is valid UTF-8. -/
def ReplyOk (s : State F) (c : Call F) : Prop :=
  ∀ causal ∈ finalizes s c, causal.entry.dumps = true

/-- The run invariant: between calls the contract holds, the open episode is the one of the
current ordinal, and the process is alive. -/
structure Inv (s : State F) : Prop where
  consistent : Consistent s
  ordinal : s.phase = .deep → follow s.log = some (.running,s.deepOrdinal)
  alive : s.terminated = false

theorem follow_emit (s : State F) (e : Event F) :
    follow (s.emit e).log = (follow s.log).bind fun st => Stage.next st e := by
  simp [follow,State.emit,List.foldl_append]

theorem inv_init : Inv ({} : State F) := by
  refine ⟨⟨?_,0,Nat.le_refl 0,rfl⟩,?_,rfl⟩
  · exact iff_of_false nofun nofun
  · exact nofun

theorem Inv.idle {s : State F} (h : Inv s) (hb : s.phase = .base) :
    s.deep.active = false ∧ ∃ last, last ≤ s.deepOrdinal ∧ follow s.log = some (.idle,last) := by
  have ha : ¬ s.deep.active = true := by
    rw [← h.consistent.active,hb]
    decide
  obtain ⟨last,hle,hlog⟩ := h.consistent.log
  rw [hb] at hlog
  exact ⟨by simpa using ha,last,hle,hlog⟩

theorem enterDeep_inv {s : State F} (h : Inv s) (hb : s.phase = .base) (w : Window)
    (env : DeepLinks.Env) (now : ℕ) : Inv (enterDeep w env now s) := by
  obtain ⟨hidle,last,hle,hlog⟩ := h.idle hb
  have hactive := DeepLinks.enter_active (e:=env) hidle
  cases hr : (DeepLinks.enter env s.deep).2 with
  | false =>
    rw [hr] at hactive
    have hfollow : follow (enterDeep w env now s).log = some (.idle,last) := by
      simp only [enterDeep,hr,Bool.not_false,if_true,follow_emit,hlog]
      rfl
    have hphase : (enterDeep w env now s).phase = .base := by
      simp [enterDeep,hr,State.emit]
    refine ⟨⟨?_,last,?_,?_⟩,?_,?_⟩
    · simp [enterDeep,hr,State.emit,hactive]
    · simp only [enterDeep,hr,Bool.not_false,if_true,State.emit]
      omega
    · rw [hfollow,hphase]
      rfl
    · rw [hphase]
      intro hd
      cases hd
    · simpa [enterDeep,hr,State.emit] using h.alive
  | true =>
    rw [hr] at hactive
    have hlt : last < s.deepOrdinal+1 := by omega
    have hfollow : follow (enterDeep w env now s).log = some (.running,s.deepOrdinal+1) := by
      simp only [enterDeep,hr,Bool.not_true,Bool.false_eq_true,if_false,follow_emit,hlog]
      simp [Stage.next,hlt]
    have hphase : (enterDeep w env now s).phase = .deep := by
      simp [enterDeep,hr,State.emit]
    have hord : (enterDeep w env now s).deepOrdinal = s.deepOrdinal+1 := by
      simp [enterDeep,hr,State.emit]
    refine ⟨⟨?_,s.deepOrdinal+1,?_,?_⟩,?_,?_⟩
    · simp [enterDeep,hr,State.emit,hactive]
    · exact Nat.le_of_eq hord.symm
    · rw [hfollow,hphase]
      rfl
    · rw [hfollow,hord]
      intro _
      rfl
    · simpa [enterDeep,hr,State.emit] using h.alive

theorem finalizeDeep_follow {s : State F} (h : Inv s) (hd : s.phase = .deep) (w : Window)
    (c : Causal) (now : ℕ) :
    follow (finalizeDeep w c now s).log = some (.finalized,s.deepOrdinal) := by
  have hlog := h.ordinal hd
  simp only [finalizeDeep,follow_emit,hlog,Option.bind_some,Stage.next,State.context,if_true]

theorem closeDeep_inv {s : State F} (h : Inv s) (hd : s.phase = .deep) (w : Window)
    {c : Causal} (hc : c.entry.dumps = true) (now : ℕ) :
    Inv (closeDeep w c now s) ∧ (closeDeep w c now s).phase = .base := by
  have hlive : (finalizeDeep w c now s).terminated = false := by simp [finalizeDeep,hc]
  have hclose : closeDeep w c now s = exitDeep (finalizeDeep w c now s) := by
    simp [closeDeep,hlive]
  have hphase : (closeDeep w c now s).phase = .base := by rw [hclose]; rfl
  have hfollow : follow (closeDeep w c now s).log = some (.idle,s.deepOrdinal) := by
    simp only [hclose,exitDeep,follow_emit,finalizeDeep_follow h hd,Option.bind_some,Stage.next]
  refine ⟨⟨⟨?_,s.deepOrdinal,?_,?_⟩,?_,?_⟩,hphase⟩
  · rw [hphase,hclose]
    exact iff_of_false (by decide) (by simp [exitDeep,State.emit,DeepLinks.exit_active])
  · rw [hclose]
    exact Nat.le_refl _
  · rw [hfollow,hphase]
    rfl
  · rw [hphase]
    intro hd'
    cases hd'
  · rw [hclose]
    exact hlive

/-- When the dump throws, the episode stays finalized and unexited for good. -/
theorem closeDeep_throws {s : State F} (h : Inv s) (hd : s.phase = .deep) (w : Window)
    {c : Causal} (hc : ¬ c.entry.dumps = true) (now : ℕ) :
    ¬ Consistent (closeDeep w c now s) := by
  have hdead : (finalizeDeep w c now s).terminated = true := by simpa [finalizeDeep] using hc
  have hclose : closeDeep w c now s = finalizeDeep w c now s := by simp [closeDeep,hdead]
  rintro ⟨_,last,_,hlog⟩
  rw [hclose,finalizeDeep_follow h hd,Option.some.injEq,Prod.mk.injEq] at hlog
  have hphase : (finalizeDeep w c now s).phase = .deep := hd
  rw [hphase] at hlog
  exact absurd hlog.1 (by decide)

/-- A call that leaves phase, collector, ordinal and log alone keeps the invariant. -/
theorem Inv.congr {s s' : State F} (h : Inv s) (hp : s'.phase = s.phase)
    (hd : s'.deep = s.deep) (ho : s'.deepOrdinal = s.deepOrdinal) (hl : s'.log = s.log)
    (ht : s'.terminated = s.terminated) : Inv s' := by
  obtain ⟨⟨ha,last,hle,hlog⟩,hord,halive⟩ := h
  refine ⟨⟨?_,last,?_,?_⟩,?_,?_⟩
  · rwa [hp,hd]
  · rwa [ho]
  · rwa [hl,hp]
  · rwa [hp,hl,ho]
  · rwa [ht]

theorem noteVerdict_inv {s : State F} (h : Inv s) (w : Window) (now : ℕ)
    (v : Option (Indicator F)) : Inv (noteVerdict w now s v) := by
  cases v with
  | none => exact h.congr rfl rfl rfl rfl rfl
  | some i => exact h.congr rfl rfl rfl rfl rfl

theorem collectorTick_inv {s : State F} (h : Inv s) : Inv (collectorTick s) := by
  unfold collectorTick
  split
  · rename_i hactive
    have hd := h.consistent.active.mpr hactive
    have hfollow : follow (s.emit .ticked).log = some (.running,s.deepOrdinal) := by
      simp only [follow_emit,h.ordinal hd,Option.bind_some,Stage.next]
    have hphase : (s.emit .ticked).phase = .deep := hd
    refine ⟨⟨h.consistent.active,s.deepOrdinal,Nat.le_refl _,?_⟩,fun _ => hfollow,h.alive⟩
    rw [hfollow,hphase]
    rfl
  · exact h

/-- Every call whose reply can be dumped keeps the invariant and ends in the phase it should. -/
theorem apply_inv {s : State F} (h : Inv s) {c : Call F} (hc : ReplyOk s c) :
    Inv (c.apply s) ∧
      ∀ w causal now, c = .shutdown w causal now → (c.apply s).phase = .base := by
  cases c with
  | tickAnomaly w reply env now =>
    refine ⟨?_,fun _ _ _ hs => by cases hs⟩
    simp only [Call.apply,tickAnomaly]
    split
    · split
      · exact enterDeep_inv h (by assumption) w env now
      · exact h
    · exact noteVerdict_inv h w now _
  | tickDeep w causal now =>
    refine ⟨?_,fun _ _ _ hs => by cases hs⟩
    simp only [Call.apply,tickDeep]
    split
    · rename_i hcond
      exact (closeDeep_inv h hcond.1 w (hc causal (by simp [finalizes,hcond])) now).1
    · exact h
  | requestDeep w env now =>
    refine ⟨?_,fun _ _ _ hs => by cases hs⟩
    simp only [Call.apply,requestDeep]
    split
    · exact enterDeep_inv h (by assumption) w env now
    · exact h
  | requestBase w causal now =>
    refine ⟨?_,fun _ _ _ hs => by cases hs⟩
    simp only [Call.apply,requestBase]
    split
    · rename_i hd
      exact (closeDeep_inv h hd w (hc causal (by simp [finalizes,hd])) now).1
    · exact h
  | shutdown w causal now =>
    simp only [Call.apply,shutdown]
    split
    · rename_i hd
      have hclose := closeDeep_inv h hd w (hc causal (by simp [finalizes,hd])) now
      exact ⟨hclose.1,fun _ _ _ _ => hclose.2⟩
    · rename_i hd
      exact ⟨h,fun _ _ _ _ => by cases hp : s.phase <;> simp_all⟩
  | collectorTick =>
    exact ⟨collectorTick_inv h,fun _ _ _ hs => by cases hs⟩

theorem not_replyOk {s : State F} (h : Inv s) {c : Call F} (hc : ¬ ReplyOk s c) :
    ¬ Consistent (c.apply s) := by
  simp only [ReplyOk,not_forall] at hc
  obtain ⟨causal,hmem,hdump⟩ := hc
  cases c with
  | tickDeep w causal' now =>
    by_cases hcond : s.phase = .deep ∧ s.postDeadlineNs ≤ now
    · have heq : causal' = causal := by simpa [finalizes,hcond] using hmem
      subst heq
      simpa only [Call.apply,tickDeep,hcond,and_self,if_true] using closeDeep_throws h hcond.1 w hdump now
    · simp [finalizes,hcond] at hmem
  | requestBase w causal' now =>
    by_cases hd : s.phase = .deep
    · have heq : causal' = causal := by simpa [finalizes,hd] using hmem
      subst heq
      simpa only [Call.apply,requestBase,hd,if_true] using closeDeep_throws h hd w hdump now
    · simp [finalizes,hd] at hmem
  | shutdown w causal' now =>
    by_cases hd : s.phase = .deep
    · have heq : causal' = causal := by simpa [finalizes,hd] using hmem
      subst heq
      simpa only [Call.apply,shutdown,hd,if_true] using closeDeep_throws h hd w hdump now
    · simp [finalizes,hd] at hmem
  | _ => simp [finalizes] at hmem

theorem afterCall_iff {s : State F} (h : Inv s) (c : Call F) : AfterCall s c ↔ ReplyOk s c := by
  have hstep : step s c = c.apply s := by simp [step,h.alive]
  rw [AfterCall,hstep]
  constructor
  · rintro ⟨hcons,_⟩
    by_contra hc
    exact not_replyOk h hc hcons
  · intro hc
    have happly := apply_inv h hc
    exact ⟨happly.1.consistent,happly.2⟩

/-- In a run from the start, the contract holds after every call exactly when every reply
that ends an episode is valid UTF-8. -/
theorem run_afterCall_iff (calls : List (Call F)) :
    Transition.Along step AfterCall {} calls ↔ Transition.Along step ReplyOk {} calls := by
  apply Transition.Along.iff_of_invariant step (I:=Inv) (fun s c h => afterCall_iff h c) ?_ calls
  · exact inv_init
  · intro s c h hc
    have hstep : step s c = c.apply s := by simp [step,h.alive]
    rw [hstep]
    exact (apply_inv h hc).1

/-- Everything an `Enter` asks for succeeds. -/
def allOk : DeepLinks.Env where
  prog := fun _ => true
  attach := fun _ => true
  strerror := fun _ => ""
  oncpuProg := true
  profileFreqHz := 99
  possibleCpus := 1
  perfEventOpen := fun _ => true
  openDeep := true

def window : Window := ⟨60,180,3⟩

theorem invalidReply_not_afterCall :
    ¬ Transition.Along step AfterCall ({} : State Unit)
      [.requestDeep window allOk 10,.shutdown window ⟨.ok ⟨true,[0xFF]⟩,true⟩ 20] := by
  intro h
  have hlast := h.2.1.2 _ _ _ rfl
  exact absurd hlast (by decide)

end PhaseManager
end ETraceDiag
