import Mathlib.Logic.Function.Basic
import ETraceDiag.Transition

/-!
# The logger and its sink

`Logger::Log` writes a line under its mutex and hands it to the sink, which the collector points
at `OutputWriter::WriteLogLine`; the helpers of the writer log what SQLite reports. `none` is a
thread that waits for the mutex it holds. The log file, the lengths of the buffers and the rows
of the other tables are left out.
-/

namespace ETraceDiag
namespace LoggerSink

inductive LogLevel
  | debug
  | info
  | warn
  | error
  deriving DecidableEq,Repr

def LogLevel.name : LogLevel → String
  | .debug => "DEBUG"
  | .info => "INFO"
  | .warn => "WARN"
  | .error => "ERROR"

inductive Stmt
  | metaIns
  | hostIns
  | hostCpuIns
  | hostDiskIns
  | hostProcIns
  | netStackIns
  | netIfaceIns
  | netSoftnetIns
  | gpuDevIns
  | cgroupIns
  | cgroupIoIns
  | anomalyIns
  | anomalyTidIns
  | targetsIns
  | oomIns
  | memevIns
  | bpfIns
  | overheadIns
  | logsIns
  | episodeIns
  | episodeMeta
  | episodeSummary
  | seriesIns
  | gapIns
  | foldedIns
  | syscallIns
  | lockIns
  | runqIns
  | iofileIns
  | deepProcIns
  | deepIodevIns
  | netFlowIns
  | netDropIns
  | netSoftirqIns
  | deepGpuProcIns
  | offcpuIns
  | tidCommLookup
  deriving DecidableEq,Repr

/-- What the calls into SQLite return, one after the other (nothing, or the message of a
failure), and the time stamps of the lines. -/
structure Env where
  sqlite : ℕ → Option String
  stamp : ℕ → String

structure State where
  level : LogLevel := .info
  sink : Bool := false
  held : Bool := false
  /-- The database is open. -/
  db : Bool := false
  prepared : Stmt → Bool := fun _ => false
  calls : ℕ := 0
  stderr : List String := []
  logs : List String := []

def State.called (s : State) : State := { s with calls := s.calls+1 }

def State.setStmt (s : State) (idx : Stmt) (b : Bool) : State :=
  { s with prepared := Function.update s.prepared idx b }

/-- The mutex is taken and the line written. -/
def State.locked (s : State) (line : String) : State :=
  { s with held := true, stderr := s.stderr++[line++"\n"] }

def State.unlocked (s : State) : State := { s with held := false }

@[simp] theorem State.locked_held (s : State) (line : String) : (s.locked line).held = true := rfl

@[simp] theorem State.locked_db (s : State) (line : String) : (s.locked line).db = s.db := rfl

@[simp] theorem State.unlocked_held (s : State) : s.unlocked.held = false := rfl

@[simp] theorem State.called_held (s : State) : s.called.held = s.held := rfl

@[simp] theorem State.setStmt_held (s : State) (idx : Stmt) (b : Bool) :
    (s.setStmt idx b).held = s.held := rfl

section Writer

variable (env : Env) (log : LogLevel → String → State → Option State)

/-! ## The helpers of the writer, over the log function they call -/

/-- A call into SQLite whose failure is logged; whether it succeeded. -/
def checked (lvl : LogLevel) (message : String → String) (s : State) : Option (Bool × State) :=
  match env.sqlite s.calls with
  | none => some (true,s.called)
  | some e => (log lvl (message e) s.called).map fun s => (false,s)

def prep (idx : Stmt) (s : State) : Option (Bool × State) :=
  if s.db = false then some (false,s)
  else if s.prepared idx then some (true,s)
  else (checked env log .error (fun e => "sqlite prepare("++toString idx.ctorIdx++"): "++e) s).map
    fun r => (r.1,r.2.setStmt idx r.1)

def step (idx : Stmt) (table : String) (s : State) : Option (Bool × State) :=
  (prep env log idx s).bind fun r =>
    if r.1 then checked env log .error (fun e => "sqlite write "++table++" failed: "++e) r.2
    else some (false,r.2)

def exec (sql : String) (s : State) : Option (Bool × State) :=
  checked env log .error (fun e => "sqlite exec failed: "++e++" ("++sql++")") s

def writeLogLine (line : String) (s : State) : Option State :=
  if s.db = false then some s
  else (prep env log .logsIns s).bind fun r =>
    if r.1 then
      (step env log .logsIns "logs" r.2).map fun r =>
        if r.1 then { r.2 with logs := r.2.logs++[line] } else r.2
    else some r.2

/-- `Logger::Log`, over the function that the sink logs with. -/
def logWith (lvl : LogLevel) (msg : String) (s : State) : Option State :=
  if lvl.ctorIdx < s.level.ctorIdx then some s
  else if s.held then none
  else
    let line := "["++env.stamp s.stderr.length++"] ["++lvl.name++"] "++msg
    (if s.sink then writeLogLine env log line (s.locked line) else some (s.locked line)).map
      State.unlocked

end Writer

variable (env : Env)

/-- A log call from within the sink. -/
def logInSink : LogLevel → String → State → Option State := logWith env fun _ _ _ => none

def log : LogLevel → String → State → Option State := logWith env (logInSink env)

/-! ## What the sink does -/

/-- The insert of a log line succeeds: the preparation of its statement, if there is none yet,
and the step. -/
def InsertOk (s : State) : Prop :=
  env.sqlite s.calls = none ∧ (s.prepared .logsIns = false → env.sqlite (s.calls+1) = none)

instance decidableInsertOk (s : State) : Decidable (InsertOk env s) :=
  inferInstanceAs (Decidable (_ ∧ (_ → _)))

/-- After the insert of a line. -/
def State.inserted (s : State) (line : String) : State :=
  let s := if s.prepared .logsIns then s else s.called.setStmt .logsIns true
  { s.called with logs := s.logs++[line] }

/-- Under the mutex an error is not logged: the thread waits. -/
def Waits (log : LogLevel → String → State → Option State) : Prop :=
  ∀ msg s, s.held = true → log .error msg s = none

theorem logWith_waits (inner : LogLevel → String → State → Option State) :
    Waits (logWith env inner) := by
  intro msg s hs
  have hlevel : ¬ LogLevel.error.ctorIdx < s.level.ctorIdx := by cases s.level <;> decide
  rw [logWith,if_neg hlevel,if_pos hs]

theorem logInSink_waits : Waits (logInSink env) := logWith_waits env _

theorem log_waits : Waits (log env) := logWith_waits env _

section Held

variable {env} {log : LogLevel → String → State → Option State} (hlog : Waits log) {s : State}
  (hs : s.held = true)

include hlog hs

theorem checked_held (message : String → String) : checked env log .error message s =
    if env.sqlite s.calls = none then some (true,s.called) else none := by
  unfold checked
  cases env.sqlite s.calls with
  | none => rfl
  | some e => simp [hlog (message e) s.called hs]

theorem prep_held (idx : Stmt) (hdb : s.db = true) : prep env log idx s =
    if s.prepared idx then some (true,s)
    else if env.sqlite s.calls = none then some (true,s.called.setStmt idx true) else none := by
  simp only [prep,hdb,checked_held hlog hs]
  by_cases hp : s.prepared idx = true
  · simp [hp]
  · by_cases hc : env.sqlite s.calls = none <;> simp [hp,hc]

theorem step_held {idx : Stmt} (table : String) (hdb : s.db = true)
    (hp : s.prepared idx = true) : step env log idx table s =
      if env.sqlite s.calls = none then some (true,s.called) else none := by
  rw [step,prep_held hlog hs idx hdb,if_pos hp,Option.bind_some,if_pos rfl,
    checked_held hlog hs]

theorem writeLogLine_held (line : String) : writeLogLine env log line s =
    if s.db = false then some s
    else if InsertOk env s then some (s.inserted line) else none := by
  cases hdb : s.db with
  | false => simp [writeLogLine,hdb]
  | true =>
    rw [writeLogLine,if_neg (by simp [hdb]),if_neg (by simp),prep_held hlog hs .logsIns hdb]
    by_cases hp : s.prepared .logsIns = true
    · rw [if_pos hp,Option.bind_some,if_pos rfl,step_held hlog hs "logs" hdb hp]
      by_cases hq : env.sqlite s.calls = none <;> simp [InsertOk,State.inserted,State.called,hp,hq]
    · rw [if_neg hp]
      by_cases hq : env.sqlite s.calls = none
      · have hp' : (s.called.setStmt .logsIns true).prepared .logsIns = true := by
          simp [State.setStmt]
        rw [if_pos hq,Option.bind_some,if_pos rfl,
          step_held hlog (s:=s.called.setStmt .logsIns true) hs "logs" hdb hp']
        by_cases hr : env.sqlite (s.calls+1) = none <;>
          simp [InsertOk,State.inserted,State.setStmt,State.called,hp,hq,hr]
      · simp [InsertOk,hq]

end Held

/-- The function of the source: the sink logs with the same one. -/
theorem log_eq : log env = logWith env (log env) := by
  funext lvl msg s
  have hsame : ∀ line, writeLogLine env (logInSink env) line (s.locked line) =
      writeLogLine env (log env) line (s.locked line) := by
    intro line
    rw [writeLogLine_held (logInSink_waits env) (s.locked_held line),
      writeLogLine_held (log_waits env) (s.locked_held line)]
  change logWith env (logInSink env) lvl msg s = logWith env (log env) lvl msg s
  simp only [logWith,hsame]

/-! ## Operations -/

/-- A log call, a call into the writer by its steps, or a change of what they work on. -/
inductive Op
  | log (lvl : LogLevel) (msg : String)
  | setLevel (lvl : LogLevel)
  | setSink
  | opened
  | closed
  | prep (idx : Stmt)
  | step (idx : Stmt) (table : String)
  | exec (sql : String)
  | metaRow
  | evidencePrep

def execute (s : State) : Op → Option State
  | .log lvl msg => log env lvl msg s
  | .setLevel lvl => some { s with level := lvl }
  | .setSink => some { s with sink := true }
  | .opened => some { s with db := true, prepared := fun _ => false }
  | .closed => some { s with db := false, prepared := fun _ => false }
  | .prep idx => (prep env (log env) idx s).map Prod.snd
  | .step idx table => (step env (log env) idx table s).map Prod.snd
  | .exec sql => (exec env (log env) sql s).map Prod.snd
  | .metaRow => (checked env (log env) .error ("meta insert failed: "++·) s).map Prod.snd
  | .evidencePrep => (checked env (log env) .warn ("evidence prep failed: "++·) s).map Prod.snd

/-- The next call into SQLite fails. -/
def Fails (s : State) : Prop := env.sqlite s.calls ≠ none

/-- A line that is logged in this state can be stored, if it is to be. -/
def Storable (lvl : LogLevel) (s : State) : Prop :=
  s.level.ctorIdx ≤ lvl.ctorIdx → s.sink = true → s.db = true → InsertOk env s

/-- Whatever line the operation logs can be stored. -/
def Stores (s : State) : Op → Prop
  | .log lvl _ => Storable env lvl s
  | .prep idx =>
    s.db = true → s.prepared idx = false → Fails env s → Storable env .error s.called
  | .step idx _ => s.db = true →
    (Fails env s → Storable env .error s.called) ∧
      (s.prepared idx = false → ¬ Fails env s → Fails env (s.called.setStmt idx true) →
        Storable env .error (s.called.setStmt idx true).called)
  | .exec _ | .metaRow => Fails env s → Storable env .error s.called
  | .evidencePrep => Fails env s → Storable env .warn s.called
  | _ => True

/-- A call returns exactly under the condition, and with the mutex free. -/
def Returns {α : Type} (state : α → State) (o : Option α) (C : Prop) : Prop :=
  (o.isSome ↔ C) ∧ ∀ a, o = some a → (state a).held = false

theorem Returns.map {α β : Type} {state : α → State} {state' : β → State} (f : α → β)
    (hf : ∀ a, state' (f a) = state a) {o : Option α} {C : Prop} (h : Returns state o C) :
    Returns state' (o.map f) C := by
  refine ⟨by rw [Option.isSome_map,h.1],fun b hb => ?_⟩
  obtain ⟨a,ha,rfl⟩ := Option.map_eq_some_iff.mp hb
  rw [hf]
  exact h.2 a ha

theorem Returns.snd {α : Type} {o : Option (α × State)} {C : Prop} (h : Returns Prod.snd o C) :
    Returns id (o.map Prod.snd) C := h.map Prod.snd fun _ => rfl

theorem Returns.pair {α : Type} (a : α) {o : Option State} {C : Prop} (h : Returns id o C) :
    Returns Prod.snd (o.map fun s => (a,s)) C :=
  h.map (fun s => (a,s)) fun _ => rfl

theorem Returns.some {α : Type} {state : α → State} {a : α} (ha : (state a).held = false)
    {C : Prop} (hC : C) : Returns state (some a) C :=
  ⟨iff_of_true rfl hC,fun _ h => Option.some.inj h ▸ ha⟩

theorem Returns.congr {α : Type} {state : α → State} {o : Option α} {C C' : Prop}
    (h : Returns state o C) (hC : C ↔ C') : Returns state o C' := ⟨h.1.trans hC,h.2⟩

theorem log_returns (lvl : LogLevel) (msg : String) {s : State} (hs : s.held = false) :
    Returns id (log env lvl msg s) (Storable env lvl s) := by
  by_cases hlevel : lvl.ctorIdx < s.level.ctorIdx
  · rw [log,logWith,if_pos hlevel]
    exact .some hs fun h => absurd h (Nat.not_le.mpr hlevel)
  · rw [log,logWith,if_neg hlevel,if_neg (by simp [hs])]
    refine ⟨?_,fun a ha => ?_⟩
    · rw [Option.isSome_map,writeLogLine_held (logInSink_waits env) (s.locked_held _)]
      have hle := Nat.not_lt.mp hlevel
      have hok : ∀ line, InsertOk env (s.locked line) ↔ InsertOk env s := fun _ => Iff.rfl
      simp only [Storable,hle,true_imp_iff,State.locked_db,hok]
      cases s.sink <;> cases s.db <;> by_cases h : InsertOk env s <;> simp [h]
    · obtain ⟨_,-,rfl⟩ := Option.map_eq_some_iff.mp ha
      rfl

theorem checked_returns (lvl : LogLevel) (message : String → String) {s : State}
    (hs : s.held = false) : Returns Prod.snd (checked env (log env) lvl message s)
      (Fails env s → Storable env lvl s.called) := by
  unfold checked
  cases hc : env.sqlite s.calls with
  | none => exact .some hs fun hf => absurd hc hf
  | some e =>
    have hf : Fails env s := by simp [Fails,hc]
    have h := (log_returns env lvl (message e) (s:=s.called) hs).pair false
    exact h.congr ⟨fun hst _ => hst,fun hst => hst hf⟩

theorem checked_of_not_fails (lvl : LogLevel) (message : String → String) {s : State}
    (hn : ¬ Fails env s) : checked env (log env) lvl message s = some (true,s.called) := by
  rw [checked,not_not.mp hn]

theorem checked_fst {lvl : LogLevel} {message : String → String} {s : State} (hf : Fails env s)
    {r : Bool × State} (h : checked env (log env) lvl message s = some r) : r.1 = false := by
  unfold checked at h
  cases hc : env.sqlite s.calls with
  | none => exact absurd hc hf
  | some e =>
    rw [hc] at h
    obtain ⟨_,-,rfl⟩ := Option.map_eq_some_iff.mp h
    rfl

/-- The error of a preparation that fails. -/
def prepError (idx : Stmt) (e : String) : String :=
  "sqlite prepare("++toString idx.ctorIdx++"): "++e

theorem prep_new {idx : Stmt} {s : State} (hdb : s.db = true) (hp : s.prepared idx = false) :
    prep env (log env) idx s = (checked env (log env) .error (prepError idx) s).map
      fun r => (r.1,r.2.setStmt idx r.1) := by
  rw [prep,if_neg (by simp [hdb]),if_neg (by simp [hp])]
  rfl

theorem prep_returns (idx : Stmt) {s : State} (hs : s.held = false) :
    Returns Prod.snd (prep env (log env) idx s) (s.db = true → s.prepared idx = false →
      Fails env s → Storable env .error s.called) := by
  cases hdb : s.db with
  | false =>
    rw [prep,if_pos hdb]
    exact .some hs (by simp)
  | true =>
    cases hp : s.prepared idx with
    | true =>
      rw [prep,if_neg (by simp [hdb]),if_pos hp]
      exact .some hs (by simp)
    | false =>
      have h := checked_returns env .error (prepError idx) hs
      rw [prep_new env hdb hp]
      refine ⟨by simp [h.1],fun a ha => ?_⟩
      obtain ⟨r,hr,rfl⟩ := Option.map_eq_some_iff.mp ha
      exact h.2 r hr

theorem step_returns (idx : Stmt) (table : String) {s : State} (hs : s.held = false) :
    Returns Prod.snd (step env (log env) idx table s) (Stores env s (.step idx table)) := by
  cases hdb : s.db with
  | false =>
    rw [step,prep,if_pos hdb]
    exact .some hs (by simp [Stores,hdb])
  | true =>
    cases hp : s.prepared idx with
    | true =>
      rw [step,prep,if_neg (by simp [hdb]),if_pos hp]
      exact (checked_returns env .error _ hs).congr (by simp [Stores,hdb,hp])
    | false =>
      rw [step,prep_new env hdb hp]
      by_cases hf : Fails env s
      · have h := checked_returns env .error (prepError idx) hs
        have hcond : Stores env s (.step idx table) ↔
            (Fails env s → Storable env .error s.called) := by
          simp [Stores,hdb,hf]
        cases hc : checked env (log env) .error (prepError idx) s with
        | none => exact (hc ▸ h).congr hcond.symm
        | some r =>
          rw [hc] at h
          rw [Option.map_some,Option.bind_some,checked_fst env hf hc,if_neg (by simp)]
          exact .some (a:=(false,r.2.setStmt idx false)) (h.2 r rfl) (hcond.mpr (h.1.mp rfl))
      · rw [checked_of_not_fails env _ _ hf]
        exact (checked_returns env .error _ (s:=s.called.setStmt idx true) hs).congr
          (by simp [Stores,hdb,hp,hf])

theorem execute_returns (op : Op) {s : State} (hs : s.held = false) :
    Returns id (execute env s op) (Stores env s op) := by
  cases op with
  | log lvl msg => exact log_returns env lvl msg hs
  | prep idx => exact (prep_returns env idx hs).snd
  | step idx table => exact (step_returns env idx table hs).snd
  | exec sql => exact (checked_returns env .error _ hs).snd
  | metaRow => exact (checked_returns env .error _ hs).snd
  | evidencePrep => exact (checked_returns env .warn _ hs).snd
  | _ => exact .some hs trivial

/-! ## Runs -/

def next (o : Option State) (op : Op) : Option State := o.bind fun s => execute env s op

theorem run_none (ops : List Op) : Transition.run (next env) none ops = none := by
  induction ops with
  | nil => rfl
  | cons op ops ih => exact ih

theorem run_some_iff (ops : List Op) : ∀ s : State, s.held = false →
    ((Transition.run (next env) (some s) ops).isSome ↔
      Transition.Along (next env) (fun o op => ∀ s, o = some s → Stores env s op) (some s)
        ops) := by
  induction ops with
  | nil => intro s _; simp
  | cons op ops ih =>
    intro s hs
    have h := execute_returns env op hs
    have hnext : next env (some s) op = execute env s op := rfl
    rw [Transition.run_cons,Transition.along_cons,hnext]
    cases he : execute env s op with
    | none =>
      rw [he] at h
      have hn : ¬ Stores env s op := fun hst => by simpa using h.1.mpr hst
      rw [run_none]
      exact iff_of_false (by simp) fun hal => hn (hal.1 s rfl)
    | some s' =>
      rw [he] at h
      rw [ih s' (h.2 s' rfl)]
      exact (and_iff_right fun s₁ hs₁ => Option.some.inj hs₁ ▸ h.1.mp rfl).symm

/-- Every call returns in a run exactly when each line that is to be stored can be. -/
theorem run_returns_iff (ops : List Op) : (Transition.run (next env) (some {}) ops).isSome ↔
    Transition.Along (next env) (fun o op => ∀ s, o = some s → Stores env s op) (some {}) ops :=
  run_some_iff env ops {} rfl

/-- The disk is full. -/
def fullDisk : Env where
  sqlite _ := some "database or disk is full"
  stamp _ := "2026-01-01T00:00:00.000Z"

theorem fullDisk_waits : Transition.run (next fullDisk) (some {})
    [.opened,.setSink,.log .info "session dir: out/20260101-000000_4242"] = none := rfl

end LoggerSink
end ETraceDiag
