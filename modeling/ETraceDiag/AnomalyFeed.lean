import ETraceDiag.CausalInput
import ETraceDiag.DeltaStream
import ETraceDiag.Transition

/-!
# The anomaly session

`anomaly_features_to_points` turns a message of the collector into telemetry points, and
`AnomalySession` buffers them for the detector. `float(sum(..))` of numbers and
`max(0.0,raw-prev_raw)` are the interpreter's; durations of the configuration are not negative.
-/

namespace ETraceDiag
namespace AnomalyFeed

open JsonValue PyValue CausalInput DeltaStream Transition

class Numbers (F : Type) extends PyValue.Python F where
  zero : F
  sum : List (ℤ ⊕ F) → Except Raise F
  delta : F → F → F

inductive Group
  | cpu
  | io
  | mem
  | lock
  | net
  deriving DecidableEq,Repr

def Group.name : Group → String
  | .cpu => "cpu"
  | .io => "io"
  | .mem => "mem"
  | .lock => "lock"
  | .net => "net"

inductive Kind
  | gauge
  | cumulative
  deriving DecidableEq,Repr

/-! ## The channels -/

/-- An entry of `HOST_CHANNELS`. -/
structure Channel where
  path : List String
  metricId : String
  group : Group
  kind : Kind
  deriving DecidableEq,Repr

/-- An entry of `PROC_CHANNELS`. -/
structure ProcChannel where
  key : String
  metricId : String
  group : Group
  kind : Kind
  deriving DecidableEq,Repr

def hostChannels : List Channel :=
  [⟨["host","total","user"],"cpu_user",.cpu,.cumulative⟩,
   ⟨["host","total","system"],"cpu_sys",.cpu,.cumulative⟩,
   ⟨["host","total","iowait"],"cpu_iowait",.cpu,.cumulative⟩,
   ⟨["host","disks","io_ticks_ms"],"io_ticks",.io,.cumulative⟩,
   ⟨["host","disks","weighted_ticks_ms"],"io_wticks",.io,.cumulative⟩,
   ⟨["host","disks","ios_in_flight"],"io_inflight",.io,.gauge⟩,
   ⟨["host","psi","io"],"psi_io",.io,.gauge⟩,
   ⟨["host","mem","mem_free_kb"],"mem_free",.mem,.gauge⟩,
   ⟨["host","mem","mem_available_kb"],"mem_avail",.mem,.gauge⟩,
   ⟨["host","vm","pgmajfault"],"pgmajfault",.mem,.cumulative⟩,
   ⟨["host","vm","pgscan_kswapd"],"pgscan_kswapd",.mem,.cumulative⟩,
   ⟨["host","psi","memory"],"psi_mem",.mem,.gauge⟩,
   ⟨["host","ctxt"],"ctxt",.lock,.cumulative⟩,
   ⟨["host","procs_running"],"procs_running",.lock,.gauge⟩,
   ⟨["host","psi","cpu"],"psi_cpu",.lock,.gauge⟩,
   ⟨["ebpf","lock_waits_total"],"lock_waits",.lock,.cumulative⟩,
   ⟨["ebpf","switch_total"],"switches",.lock,.cumulative⟩]

def netChannels : List Channel :=
  [⟨["network","rx_bytes"],"net_rx",.net,.cumulative⟩,
   ⟨["network","tx_bytes"],"net_tx",.net,.cumulative⟩]

def procChannels : List ProcChannel :=
  [⟨"utime","cpu_user",.cpu,.cumulative⟩,⟨"stime","cpu_sys",.cpu,.cumulative⟩,
   ⟨"nvcsw","nvcsw",.lock,.cumulative⟩,⟨"nivcsw","nivcsw",.lock,.cumulative⟩,
   ⟨"minflt","minflt",.mem,.cumulative⟩,⟨"majflt","majflt",.mem,.cumulative⟩,
   ⟨"rss_kb","rss",.mem,.gauge⟩,⟨"read_bytes","io_read",.io,.cumulative⟩,
   ⟨"write_bytes","io_write",.io,.cumulative⟩,⟨"run_delay_ns","run_delay",.lock,.cumulative⟩,
   ⟨"syscr","syscr",.cpu,.cumulative⟩,⟨"syscw","syscw",.cpu,.cumulative⟩]

/-- Where a reading comes from; a process is known by the text of its pid. -/
inductive Source
  | host (ch : Channel) (known : ch ∈ hostChannels)
  | net (ch : Channel) (known : ch ∈ netChannels)
  | proc (pid : String) (ch : ProcChannel) (known : ch ∈ procChannels)
  deriving DecidableEq

def Source.kind : Source → Kind
  | .host ch _ => ch.kind
  | .net ch _ => ch.kind
  | .proc _ ch _ => ch.kind

/-- The key under which the last reading is kept. -/
def Source.key : Source → String
  | .host ch _ => "|".intercalate ch.path
  | .net ch _ => "net|"++ch.metricId
  | .proc pid ch _ => "proc"++pid++"|"++ch.key

def Source.entityId : Source → String
  | .host _ _ => "host"
  | .net _ _ => "host"
  | .proc pid _ _ => "proc"++pid

def Source.entityType : Source → EntityType
  | .proc _ _ _ => .process
  | _ => .host

def Source.metricId : Source → String
  | .host ch _ => ch.metricId
  | .net ch _ => ch.metricId
  | .proc _ ch _ => ch.metricId

def Source.cumulative (src : Source) : Bool := src.kind = .cumulative

/-! ## The readings of a message -/

variable {F : Type} [Numbers F]

/-- `_dig`. -/
def dig (default : JsonValue F) : List String → JsonValue F → JsonValue F
  | [], cur => cur
  | k::path, cur => (get? k cur).elim default (dig default path)

/-- A term of a `sum`. -/
def term : JsonValue F → Except Raise (ℤ ⊕ F)
  | .int i => .ok (.inl i)
  | .bool b => .ok (.inl (if b then 1 else 0))
  | .float x => .ok (.inr x)
  | _ => .error .typeError

/-- `float(sum(x.get(key,0) or 0 for x in xs if isinstance(x,dict)))`. -/
def sumField (key : String) (xs : List (JsonValue F)) : Except Raise F := do
  let terms ← (xs.filter isDict).mapM fun x => term (pyOr (field key (.int 0) x) (.int 0))
  Numbers.sum terms

def sumDisks (msg : JsonValue F) (key : String) : Except Raise F :=
  match dig .null ["host","disks"] msg with
  | .arr (d::ds) => sumField key (d::ds)
  | _ => .ok Numbers.zero

def sumNet (msg : JsonValue F) (key : String) : Except Raise F :=
  match dig .null ["network","ifaces"] msg with
  | .arr (i::is) => sumField key (i::is)
  | _ => pyFloat (pyOr (dig (.float Numbers.zero) ["network",key] msg) (.float Numbers.zero))

/-- A host value that is not null; psi windows serialize as objects. -/
def hostValue : JsonValue F → Except Raise (Option F)
  | .null => .ok none
  | .obj fields => do
    let raw := field "some" (field "avg10" (.float Numbers.zero) (.obj fields)) (.obj fields)
    some <$> pyFloat raw
  | raw => some <$> pyFloat raw

def hostRaw (msg : JsonValue F) (ch : Channel) : Except Raise (Option F) :=
  match ch.path with
  | "host"::"disks"::key::_ => some <$> sumDisks msg key
  | path => hostValue (dig .null path msg)

def netRaw (msg : JsonValue F) (ch : Channel) : Except Raise (Option F) :=
  match ch.path with
  | _::key::_ => some <$> sumNet msg key
  | _ => .ok none

/-- Only numbers count; a bool is one. -/
def procRaw (proc : JsonValue F) (ch : ProcChannel) : Except Raise (Option F) :=
  match field ch.key .null proc with
  | .int i => some <$> pyFloat (.int i)
  | .bool b => some <$> pyFloat (.bool b)
  | .float x => .ok (some x)
  | _ => .ok none

/-- `proc.get("pid") or proc.get("tgid")`. -/
def procPid (proc : JsonValue F) : JsonValue F :=
  pyOr (field "pid" .null proc) (field "tgid" .null proc)

/-- What one pass of a loop finds: a source and its raw value, nothing, or an exception. -/
abbrev Found (F : Type) := Except Raise (Option (Source × F))

def found (src : Source) (raw : Except Raise (Option F)) : Found F :=
  raw.map fun value => value.map fun x => (src,x)

def procFound (proc : JsonValue F) : List (Found F) :=
  if isDict proc then
    match procPid proc with
    | .null => []
    | pid => procChannels.attach.map fun ⟨ch,known⟩ => found (.proc (pyStr pid) ch known) (procRaw proc ch)
  else []

/-- The passes of the three loops in their order. -/
def passes (msg : JsonValue F) : List (Found F) :=
  (hostChannels.attach.map fun ⟨ch,known⟩ => found (.host ch known) (hostRaw msg ch))++
    (netChannels.attach.map fun ⟨ch,known⟩ => found (.net ch known) (netRaw msg ch))++
    match pyGet "top_tasks" (.arr []) msg >>= fun tasks => pyIter (pyOr tasks (.arr [])) with
    | .ok tasks => tasks.flatMap procFound
    | .error e => [.error e]

/-- `int(msg.get("ts_ns",0) or 0)`. -/
def messageTs (msg : JsonValue F) : Except Raise ℤ := do
  let ts ← pyGet "ts_ns" (.int 0) msg
  pyInt (pyOr ts (.int 0))

def readings (ps : List (Found F)) : List (Source × F) :=
  ps.filterMap fun pass =>
    match pass with
    | .ok reading => reading
    | .error _ => none

/-- The readings of a message. -/
def reported (msg : JsonValue F) : List (Source × F) := readings (passes msg)

/-! ## anomaly_features_to_points -/

abbrev Prev (F : Type) := String → Option F

def point (tsNs : ℕ) (r : Source × F) : TelemetryPoint F :=
  { tsNs := tsNs, entityId := r.1.entityId, entityType := r.1.entityType
    metricId := r.1.metricId, value := r.2, quality := .observed }

/-- A point with a negative time is refused, after `prev` has been written. -/
def checkedPoint (ts : ℤ) (r : Source × F) : Except Raise (TelemetryPoint F) :=
  (nonneg ts).map fun tsNs => point tsNs r

def pointLoop (ts : ℤ) : List (Found F) → Prev F → Prev F × Except Raise (List (TelemetryPoint F))
  | [], prev => (prev,.ok [])
  | .error e::_, prev => (prev,.error e)
  | .ok none::ps, prev => pointLoop ts ps prev
  | .ok (some (src,raw))::ps, prev =>
    let seen := observe Source.key Source.cumulative Numbers.delta prev src raw
    match seen.2 with
    | none => pointLoop ts ps seen.1
    | some value =>
      match checkedPoint ts (src,value) with
      | .error e => (seen.1,.error e)
      | .ok p =>
        let rest := pointLoop ts ps seen.1
        (rest.1,rest.2.map (p::·))

/-- The last readings are kept also when the message raises. -/
def anomalyFeaturesToPoints (msg : JsonValue F) (prev : Prev F) :
    Prev F × Except Raise (List (TelemetryPoint F)) :=
  match messageTs msg with
  | .error e => (prev,.error e)
  | .ok ts => pointLoop ts (passes msg) prev

/-! ## AnomalySession -/

/-- The durations as the session compares them: `warmup` is `int(warmup_seconds*1e9)`, `retain`
is `int((warmup_seconds+2*(window_ns/1e9))*1e9)`. -/
structure Settings where
  warmup : ℕ
  retain : ℕ
  stride : ℕ
  window : ℕ

structure AnomalySession (F : Type) where
  settings : Settings
  buffer : List (TelemetryPoint F) := []
  prev : Prev F := fun _ => none
  lastScoreTsNs : ℕ := 0
  fitDone : Bool := false

/-- The buffer loses what is older than `retain`, but only once its first point is. -/
def retained (retain : ℕ) (buffer : List (TelemetryPoint F)) : List (TelemetryPoint F) :=
  match buffer.head?,buffer.getLast? with
  | some first,some last =>
    let cutoff : ℤ := last.tsNs-retain
    if first.tsNs < cutoff then buffer.filter fun p => cutoff ≤ p.tsNs else buffer
  | _,_ => buffer

def AnomalySession.ingest (s : AnomalySession F) (msg : JsonValue F) :
    AnomalySession F × Except Raise Unit :=
  match anomalyFeaturesToPoints msg s.prev with
  | (prev,.error e) => ({ s with prev := prev },.error e)
  | (prev,.ok points) =>
    ({ s with prev := prev, buffer := retained s.settings.retain (s.buffer++points) },.ok ())

/-- `_frame`. -/
def frame (points : List (TelemetryPoint F)) : Except Raise (TelemetryFrame F) :=
  telemetryFrame (points.mergeSort fun p q => p.tsNs ≤ q.tsNs)

/-- The points that `maybe_score` scores at `now`. -/
def AnomalySession.scoringWindow (s : AnomalySession F) (now : ℕ) : List (TelemetryPoint F) :=
  s.buffer.filter fun p => (now : ℤ)-p.tsNs ≤ s.settings.window*2

/-- What the session has after a message, accepted or not. -/
def step (s : AnomalySession F) (msg : JsonValue F) : AnomalySession F := (s.ingest msg).1

/-- The frames of the training buffer and of every scoring window can be built. -/
def AnomalySession.Unpoisoned (s : AnomalySession F) : Prop :=
  (∃ f, frame s.buffer = .ok f) ∧ ∀ now, ∃ f, frame (s.scoringWindow now) = .ok f

/-- The next reading of the source gives no value. -/
def firstSight (prev : Prev F) (src : Source) : Bool := unseen Source.key Source.cumulative prev src

/-- The message reads no source twice, or only at its first sight, and none that has a buffered
point of the message's time. -/
structure Fresh (s : AnomalySession F) (msg : JsonValue F) : Prop where
  once : ∀ src, ((reported msg).map Prod.fst).count src ≤
    1+(if firstSight s.prev src then 1 else 0)
  new : ∀ p ∈ s.buffer, messageTs msg = .ok p.tsNs → ∀ r ∈ reported msg,
    (p.entityId,p.metricId) ≠ (r.1.entityId,r.1.metricId)

/-! ## Sources are told apart -/

def hostKey (ch : Channel) : String := "|".intercalate ch.path

def netKey (ch : Channel) : String := "net|"++ch.metricId

/-- The channels of a host differ in key and in name, and no key of theirs is that of a process. -/
theorem channels_apart : (hostChannels.map hostKey++netChannels.map netKey).Nodup ∧
    ((hostChannels++netChannels).map Channel.metricId).Nodup ∧
    ∀ ch ∈ hostChannels, (hostKey ch).toList.head? ≠ some 'p' := by
  decide +kernel

/-- The channels of a process differ in key and in name, and no key of theirs has a separator. -/
theorem procChannels_apart : (procChannels.map ProcChannel.key).Nodup ∧
    (procChannels.map ProcChannel.metricId).Nodup ∧
    ∀ ch ∈ procChannels, '|' ∉ ch.key.toList := by
  decide +kernel

/-- The last separator splits a text. -/
theorem split_last {c : Char} {as bs ks ls : List Char} (hk : c ∉ ks) (hl : c ∉ ls)
    (h : as++c::ks = bs++c::ls) : as = bs ∧ ks = ls := by
  have hrev : ks.reverse++c::as.reverse = ls.reverse++c::bs.reverse := by
    simpa using congrArg List.reverse h
  have htake : ∀ {xs : List Char} (ys : List Char), c ∉ xs →
      (xs.reverse++c::ys).takeWhile (· ≠ c) = xs.reverse := by
    intro xs ys hx
    have hne : ∀ x ∈ xs.reverse, decide (x ≠ c) = true := by
      intro x hmem
      rw [decide_eq_true_eq]
      rintro rfl
      exact hx (List.mem_reverse.mp hmem)
    rw [List.takeWhile_append_of_pos hne,List.takeWhile_cons_of_neg (by simp),List.append_nil]
  have hkey : ks.reverse = ls.reverse := by
    rw [← htake as.reverse hk,hrev,htake bs.reverse hl]
  rw [hkey,List.append_cancel_left_eq,List.cons.injEq] at hrev
  exact ⟨List.reverse_injective hrev.2,List.reverse_injective hkey⟩

theorem procKey_inj {pid pid' : String} {ch ch' : ProcChannel} (hch : ch ∈ procChannels)
    (hch' : ch' ∈ procChannels) (h : "proc"++pid++"|"++ch.key = "proc"++pid'++"|"++ch'.key) :
    pid = pid' ∧ ch = ch' := by
  obtain ⟨hkeys,_,hclean⟩ := procChannels_apart
  have hlist := congrArg String.toList h
  simp only [String.toList_append] at hlist
  have hsep : ("|" : String).toList = ['|'] := rfl
  rw [hsep,List.append_assoc,List.append_assoc,List.append_assoc,List.append_assoc,
    List.append_cancel_left_eq] at hlist
  obtain ⟨hpid,hkey⟩ := split_last (hclean ch hch) (hclean ch' hch') hlist
  exact ⟨String.toList_inj.mp hpid,
    List.inj_on_of_nodup_map hkeys hch hch' (String.toList_inj.mp hkey)⟩

theorem hostKey_ne_netKey {ch ch' : Channel} (hch : ch ∈ hostChannels) (hch' : ch' ∈ netChannels) :
    hostKey ch ≠ netKey ch' := by
  intro h
  have hmem : hostKey ch ∈ netChannels.map netKey := h ▸ List.mem_map_of_mem hch'
  exact List.disjoint_of_nodup_append channels_apart.1 (List.mem_map_of_mem hch) hmem

theorem metricId_ne_net {ch ch' : Channel} (hch : ch ∈ hostChannels) (hch' : ch' ∈ netChannels) :
    ch.metricId ≠ ch'.metricId := by
  intro h
  have hmem : ch.metricId ∈ netChannels.map Channel.metricId := h ▸ List.mem_map_of_mem hch'
  have hn := channels_apart.2.1
  rw [List.map_append] at hn
  exact List.disjoint_of_nodup_append hn (List.mem_map_of_mem hch) hmem

theorem procKey_head (pid : String) (ch : ProcChannel) :
    ("proc"++pid++"|"++ch.key).toList.head? = some 'p' := by
  simp [String.toList_append]

theorem netKey_head (ch : Channel) : (netKey ch).toList.head? = some 'n' := by
  simp [netKey,String.toList_append]

/-- No two sources share a last reading. -/
theorem Source.key_injective : Function.Injective Source.key := by
  intro a b h
  obtain ⟨hkeys,_,hfirst⟩ := channels_apart
  obtain ⟨hhost,hnet,_⟩ := List.nodup_append.mp hkeys
  cases a with
  | host ch hch =>
    cases b with
    | host ch' hch' => simpa using List.inj_on_of_nodup_map hhost hch hch' h
    | net ch' hch' => exact absurd h (hostKey_ne_netKey hch hch')
    | proc pid' ch' hch' =>
      refine absurd ?_ (hfirst ch hch)
      rw [← procKey_head pid' ch']
      exact congrArg (fun key => key.toList.head?) h
  | net ch hch =>
    cases b with
    | host ch' hch' => exact absurd h.symm (hostKey_ne_netKey hch' hch)
    | net ch' hch' => simpa using List.inj_on_of_nodup_map hnet hch hch' h
    | proc pid' ch' hch' =>
      have hhead := congrArg (fun key => key.toList.head?) h
      simp only [Source.key,procKey_head] at hhead
      rw [show "net|"++ch.metricId = netKey ch from rfl,netKey_head] at hhead
      cases hhead
  | proc pid ch hch =>
    cases b with
    | host ch' hch' =>
      refine absurd ?_ (hfirst ch' hch')
      rw [← procKey_head pid ch]
      exact congrArg (fun key => key.toList.head?) h.symm
    | net ch' hch' =>
      have hhead := congrArg (fun key => key.toList.head?) h
      simp only [Source.key,procKey_head] at hhead
      rw [show "net|"++ch'.metricId = netKey ch' from rfl,netKey_head] at hhead
      cases hhead
    | proc pid' ch' hch' =>
      obtain ⟨rfl,rfl⟩ := procKey_inj hch hch' h
      rfl

theorem proc_ne_host (pid : String) : "proc"++pid ≠ "host" := by
  intro h
  have hhead := congrArg (fun name => name.toList.head?) h
  simp [String.toList_append] at hhead

/-- What a source is called in a frame tells it apart too. -/
theorem Source.name_injective :
    Function.Injective fun src : Source => (src.entityId,src.metricId) := by
  have hmetric : ∀ {ch ch' : Channel}, ch ∈ hostChannels++netChannels →
      ch' ∈ hostChannels++netChannels → ch.metricId = ch'.metricId → ch = ch' :=
    fun hch hch' h => List.inj_on_of_nodup_map channels_apart.2.1 hch hch' h
  intro a b h
  obtain ⟨hentity,hid⟩ := Prod.mk.inj h
  cases a with
  | host ch hch =>
    cases b with
    | host ch' hch' =>
      simpa using hmetric (List.mem_append_left _ hch) (List.mem_append_left _ hch') hid
    | net ch' hch' => exact absurd hid (metricId_ne_net hch hch')
    | proc pid' ch' hch' => exact absurd hentity.symm (proc_ne_host pid')
  | net ch hch =>
    cases b with
    | host ch' hch' => exact absurd hid.symm (metricId_ne_net hch' hch)
    | net ch' hch' =>
      simpa using hmetric (List.mem_append_right _ hch) (List.mem_append_right _ hch') hid
    | proc pid' ch' hch' => exact absurd hentity.symm (proc_ne_host pid')
  | proc pid ch hch =>
    cases b with
    | host ch' hch' => exact absurd hentity (proc_ne_host pid)
    | net ch' hch' => exact absurd hentity (proc_ne_host pid)
    | proc pid' ch' hch' =>
      obtain rfl : pid = pid' := by
        simpa [Source.entityId,String.ext_iff] using hentity
      simpa using List.inj_on_of_nodup_map procChannels_apart.2.1 hch hch' hid

/-! ## What a message adds -/

/-- The last readings after a list of readings, and the values they give. -/
def lastReadings (prev : Prev F) (rs : List (Source × F)) : Prev F :=
  last Source.key Source.cumulative Numbers.delta prev rs

def given (prev : Prev F) (rs : List (Source × F)) : List (Source × F) :=
  values Source.key Source.cumulative Numbers.delta prev rs

/-- Also a message that raises leaves the last readings of some of its passes. -/
theorem pointLoop_prev (ts : ℤ) (ps : List (Found F)) : ∀ prev : Prev F,
    ∃ rs, (pointLoop ts ps prev).1 = lastReadings prev rs := by
  induction ps with
  | nil => exact fun prev => ⟨[],rfl⟩
  | cons pass ps ih =>
    intro prev
    cases pass with
    | error e => exact ⟨[],rfl⟩
    | ok reading =>
      cases reading with
      | none => exact ih prev
      | some r =>
        obtain ⟨rs,hrs⟩ := ih (observe Source.key Source.cumulative Numbers.delta prev r.1 r.2).1
        simp only [pointLoop]
        split
        · exact ⟨r::rs,hrs⟩
        · split
          · exact ⟨[r],rfl⟩
          · exact ⟨r::rs,hrs⟩

/-- A message that is accepted gives the values of its readings, all at its time. -/
theorem pointLoop_ok {ts : ℤ} (ps : List (Found F)) : ∀ {prev : Prev F}
    {points : List (TelemetryPoint F)}, (pointLoop ts ps prev).2 = .ok points →
      (pointLoop ts ps prev).1 = lastReadings prev (readings ps) ∧
        points = (given prev (readings ps)).map (point ts.toNat) ∧
        (points ≠ [] → ts = ts.toNat) := by
  induction ps with
  | nil =>
    intro prev points h
    cases h
    exact ⟨rfl,rfl,fun hne => absurd rfl hne⟩
  | cons pass ps ih =>
    intro prev points h
    cases pass with
    | error e => cases h
    | ok reading =>
      cases reading with
      | none => exact ih h
      | some r =>
        obtain ⟨src,raw⟩ := r
        have hreadings : readings (.ok (some (src,raw))::ps : List (Found F)) =
            (src,raw)::readings ps := rfl
        rw [hreadings,given,values,lastReadings,last]
        simp only [pointLoop] at h ⊢
        split at h
        · next hnone =>
          rw [hnone]
          exact ih h
        · next value hvalue =>
          rw [hvalue]
          cases hts : nonneg ts with
          | error e => rw [checkedPoint,hts] at h; cases h
          | ok tsNs =>
            have hts' : ts = tsNs := nonneg_eq_ok hts
            rw [checkedPoint,hts] at h ⊢
            obtain ⟨rest,hrest,rfl⟩ := map_eq_ok h
            obtain ⟨hprev,hpoints,_⟩ := ih hrest
            refine ⟨hprev,?_,fun _ => by rw [hts',Int.toNat_natCast]⟩
            rw [hpoints,hts',Int.toNat_natCast]
            rfl

omit [Numbers F] in
theorem checkedPoint_of_nonneg {ts : ℤ} (hts : 0 ≤ ts) (r : Source × F) :
    checkedPoint ts r = .ok (point ts.toNat r) := by
  rw [checkedPoint,nonneg,if_pos hts]
  rfl

omit [Numbers F] in
theorem checkedPoint_of_neg {ts : ℤ} (hts : ¬ 0 ≤ ts) (r : Source × F) :
    checkedPoint ts r = .error .valueError := by
  rw [checkedPoint,nonneg,if_neg hts]
  rfl

/-- The loops end exactly when no pass raises and the points have a time. -/
theorem pointLoop_accepts_iff {ts : ℤ} (ps : List (Found F)) : ∀ prev : Prev F,
    (∃ points, (pointLoop ts ps prev).2 = .ok points) ↔
      (∀ e, .error e ∉ ps) ∧ (0 ≤ ts ∨ given prev (readings ps) = []) := by
  induction ps with
  | nil => exact fun prev => iff_of_true ⟨[],rfl⟩ ⟨fun e he => (by cases he),Or.inr rfl⟩
  | cons pass ps ih =>
    intro prev
    cases pass with
    | error e =>
      refine iff_of_false (fun h => ?_) fun h => h.1 e List.mem_cons_self
      cases h.choose_spec
    | ok reading =>
      have hhead : (∀ e, (.error e : Found F) ∉ Except.ok reading::ps) ↔
          ∀ e, (.error e : Found F) ∉ ps := by
        refine forall_congr' fun e => ?_
        simp
      rw [hhead]
      cases reading with
      | none => exact ih prev
      | some r =>
        obtain ⟨src,raw⟩ := r
        have hreadings : readings (.ok (some (src,raw))::ps : List (Found F)) =
            (src,raw)::readings ps := rfl
        have hrest := ih (observe Source.key Source.cumulative Numbers.delta prev src raw).1
        rw [hreadings,given,values]
        simp only [pointLoop]
        split
        · next hnone =>
          rw [hnone]
          exact hrest
        · next value hvalue =>
          rw [hvalue]
          by_cases hts : 0 ≤ ts
          · rw [checkedPoint_of_nonneg hts]
            refine Iff.trans ⟨?_,?_⟩ (hrest.trans (and_congr_right fun _ =>
              iff_of_true (Or.inl hts) (Or.inl hts)))
            · rintro ⟨points,h⟩
              obtain ⟨rest,hrest,_⟩ := map_eq_ok h
              exact ⟨rest,hrest⟩
            · rintro ⟨rest,hrest⟩
              exact ⟨point ts.toNat (src,value)::rest,by simp only [hrest]; rfl⟩
          · rw [checkedPoint_of_neg hts]
            refine iff_of_false (fun h => by cases h.choose_spec) fun h => ?_
            rcases h.2 with h | h
            · exact hts h
            · cases h

/-! ## Frames -/

omit [Numbers F] in
theorem AnomalySession.unpoisoned_iff (s : AnomalySession F) :
    s.Unpoisoned ↔ (s.buffer.map TelemetryPoint.key).Nodup := by
  refine ⟨fun h => (telemetryFrame_ok_iff _).mp h.1,fun h => ⟨(telemetryFrame_ok_iff _).mpr h,fun now => ?_⟩⟩
  exact (telemetryFrame_ok_iff _).mpr (h.sublist (List.filter_sublist.map _))

/-! ## Steps and runs -/

omit [Numbers F] in
/-- Retention keeps the points of the latest time. -/
theorem retained_eq (retain : ℕ) (buffer : List (TelemetryPoint F)) :
    ∃ keep : TelemetryPoint F → Bool, retained retain buffer = buffer.filter keep ∧
      ∀ p last, buffer.getLast? = some last → last.tsNs = p.tsNs → keep p = true := by
  unfold retained
  split
  · next first last _ hlast =>
    dsimp only
    split
    · refine ⟨_,rfl,fun p last' hlast' hts => ?_⟩
      rw [Option.some.inj (hlast.symm.trans hlast'),decide_eq_true_eq]
      omega
    · exact ⟨fun _ => true,(List.filter_true _).symm,fun _ _ _ _ => rfl⟩
  · exact ⟨fun _ => true,(List.filter_true _).symm,fun _ _ _ _ => rfl⟩

omit [Numbers F] in
/-- New points, all of one time, leave every point told once when none of them repeats a point. -/
theorem nodup_retained_iff {retain tsNs : ℕ} {buffer points : List (TelemetryPoint F)}
    (hbuffer : (buffer.map TelemetryPoint.key).Nodup) (hts : ∀ p ∈ points, p.tsNs = tsNs) :
    ((retained retain (buffer++points)).map TelemetryPoint.key).Nodup ↔
      (points.map TelemetryPoint.key).Nodup ∧ ∀ p ∈ buffer, ∀ q ∈ points, p.key ≠ q.key := by
  obtain ⟨keep,hretained,hlatest⟩ := retained_eq retain (buffer++points)
  have happ : ((buffer++points).map TelemetryPoint.key).Nodup ↔
      (points.map TelemetryPoint.key).Nodup ∧ ∀ p ∈ buffer, ∀ q ∈ points, p.key ≠ q.key := by
    rw [List.map_append,List.nodup_append]
    simp [hbuffer]
  rw [← happ,hretained]
  refine ⟨fun h => ?_,fun h => h.sublist (List.filter_sublist.map _)⟩
  rw [happ]
  have hkeep : ∀ q ∈ points, ∀ p : TelemetryPoint F, p.tsNs = q.tsNs → keep p = true := by
    intro q hq p hpq
    obtain ⟨last,hlast⟩ : ∃ last, points.getLast? = some last := by
      cases hl : points.getLast? with
      | none => rw [List.getLast?_eq_none_iff.mp hl] at hq; cases hq
      | some last => exact ⟨last,rfl⟩
    refine hlatest p last (by rw [List.getLast?_append,hlast]; rfl) ?_
    rw [hts last (List.mem_of_getLast? hlast),hpq,hts q hq]
  rw [List.filter_append,List.filter_eq_self.mpr fun q hq => hkeep q hq q rfl,List.map_append,
    List.nodup_append] at h
  refine ⟨h.2.1,fun p hp q hq heq => ?_⟩
  -- the older of two equal points has the time of the newer one
  have hpq : p.tsNs = q.tsNs := congrArg (fun k => k.2.2.1) heq
  exact h.2.2 _ (List.mem_map_of_mem (List.mem_filter.mpr ⟨hp,hkeep q hq p hpq⟩)) _
    (List.mem_map_of_mem hq) heq

/-- The sources of the buffered points have been seen. -/
def AnomalySession.Seen (s : AnomalySession F) : Prop :=
  ∀ p ∈ s.buffer, ∃ src value, p = point p.tsNs (src,value) ∧ firstSight s.prev src = false

/-- What an accepted message leaves. -/
theorem ingest_ok {s : AnomalySession F} {msg : JsonValue F} (hok : (s.ingest msg).2 = .ok ()) :
    ∃ ts : ℤ, messageTs msg = .ok ts ∧
      (step s msg).prev = lastReadings s.prev (reported msg) ∧
      (step s msg).buffer = retained s.settings.retain
        (s.buffer++(given s.prev (reported msg)).map (point ts.toNat)) ∧
      (given s.prev (reported msg) ≠ [] → ts = ts.toNat) := by
  cases hts : messageTs msg with
  | error e =>
    rw [AnomalySession.ingest,anomalyFeaturesToPoints,hts] at hok
    cases hok
  | ok ts =>
    have hpoints : anomalyFeaturesToPoints msg s.prev = pointLoop ts (passes msg) s.prev := by
      rw [anomalyFeaturesToPoints,hts]
    cases hloop : pointLoop ts (passes msg) s.prev with
    | mk prev out =>
      cases out with
      | error e =>
        rw [AnomalySession.ingest,hpoints,hloop] at hok
        cases hok
      | ok points =>
        obtain ⟨hprev,hgiven,htime⟩ := pointLoop_ok (passes msg) (congrArg Prod.snd hloop)
        rw [hloop] at hprev
        refine ⟨ts,rfl,?_,?_,fun hne => htime ?_⟩
        · rw [step,AnomalySession.ingest,hpoints,hloop]
          exact hprev
        · rw [step,AnomalySession.ingest,hpoints,hloop]
          exact congrArg (fun ps => retained s.settings.retain (s.buffer++ps)) hgiven
        · rw [hgiven]
          exact fun hnil => hne (List.map_eq_nil_iff.mp hnil)

/-- Which messages are accepted. -/
theorem ingest_accepts_iff (s : AnomalySession F) (msg : JsonValue F) :
    (s.ingest msg).2 = .ok () ↔ ∃ ts, messageTs msg = .ok ts ∧ (∀ e, .error e ∉ passes msg) ∧
      (0 ≤ ts ∨ given s.prev (reported msg) = []) := by
  cases hts : messageTs msg with
  | error e =>
    rw [AnomalySession.ingest,anomalyFeaturesToPoints,hts]
    refine iff_of_false (fun h => by cases h) ?_
    rintro ⟨ts,h,_⟩
    cases h
  | ok ts =>
    have hpoints : anomalyFeaturesToPoints msg s.prev = pointLoop ts (passes msg) s.prev := by
      rw [anomalyFeaturesToPoints,hts]
    have hloop : (s.ingest msg).2 = .ok () ↔
        ∃ points, (pointLoop ts (passes msg) s.prev).2 = .ok points := by
      rw [AnomalySession.ingest,hpoints]
      cases pointLoop ts (passes msg) s.prev with
      | mk prev out =>
        cases out with
        | error e => exact iff_of_false (fun h => by cases h) fun h => by cases h.choose_spec
        | ok points => exact iff_of_true rfl ⟨points,rfl⟩
    rw [hloop,pointLoop_accepts_iff]
    constructor
    · exact fun h => ⟨ts,rfl,h⟩
    · rintro ⟨ts',h,hrest⟩
      rw [Except.ok.inj h]
      exact hrest

/-- A message that raises leaves the buffer. -/
theorem ingest_error {s : AnomalySession F} {msg : JsonValue F}
    (hok : ¬ (s.ingest msg).2 = .ok ()) :
    (step s msg).buffer = s.buffer ∧ ∃ rs, (step s msg).prev = lastReadings s.prev rs := by
  cases hts : messageTs msg with
  | error e =>
    rw [step,AnomalySession.ingest,anomalyFeaturesToPoints,hts]
    exact ⟨rfl,[],rfl⟩
  | ok ts =>
    have hpoints : anomalyFeaturesToPoints msg s.prev = pointLoop ts (passes msg) s.prev := by
      rw [anomalyFeaturesToPoints,hts]
    obtain ⟨rs,hrs⟩ := pointLoop_prev ts (passes msg) s.prev
    cases hloop : pointLoop ts (passes msg) s.prev with
    | mk prev out =>
      rw [hloop] at hrs
      cases out with
      | error e =>
        rw [step,AnomalySession.ingest,hpoints,hloop]
        exact ⟨rfl,rs,hrs⟩
      | ok points =>
        rw [AnomalySession.ingest,hpoints,hloop] at hok
        exact absurd rfl hok

theorem Seen.step {s : AnomalySession F} (h : s.Seen) (msg : JsonValue F) :
    (AnomalyFeed.step s msg).Seen := by
  have hold : ∀ {prev : Prev F} {rs}, prev = lastReadings s.prev rs → ∀ p ∈ s.buffer,
      ∃ src value, p = point p.tsNs (src,value) ∧ firstSight prev src = false := by
    intro prev rs hprev p hp
    obtain ⟨src,value,hpoint,hseen⟩ := h p hp
    refine ⟨src,value,hpoint,?_⟩
    rw [hprev]
    exact unseen_last rs hseen
  intro p hp
  by_cases hok : (s.ingest msg).2 = .ok ()
  · obtain ⟨ts,_,hprev,hbuffer,_⟩ := ingest_ok hok
    obtain ⟨keep,hretained,_⟩ := retained_eq s.settings.retain
      (s.buffer++(given s.prev (reported msg)).map (point ts.toNat))
    rw [hbuffer,hretained] at hp
    rcases List.mem_append.mp (List.mem_filter.mp hp).1 with hp | hp
    · exact hold hprev p hp
    · obtain ⟨r,hr,rfl⟩ := List.mem_map.mp hp
      refine ⟨r.1,r.2,rfl,?_⟩
      rw [hprev]
      exact unseen_last_of_mem _ (mem_of_mem_values Source.key_injective (List.mem_map_of_mem hr))
  · obtain ⟨hbuffer,rs,hprev⟩ := ingest_error hok
    rw [hbuffer] at hp
    exact hold hprev p hp

omit [Numbers F] in
/-- Points of one time are told apart by their sources. -/
theorem nodup_points_iff (tsNs : ℕ) (rs : List (Source × F)) :
    ((rs.map (point tsNs)).map TelemetryPoint.key).Nodup ↔ (rs.map Prod.fst).Nodup := by
  have hinj : Function.Injective fun src : Source =>
      (src.entityId,src.metricId,tsNs,Quality.observed) := by
    intro a b h
    simp only [Prod.mk.injEq] at h
    exact Source.name_injective (Prod.ext h.1 h.2.1)
  have hkeys : (rs.map (point tsNs)).map TelemetryPoint.key =
      (rs.map Prod.fst).map fun src => (src.entityId,src.metricId,tsNs,Quality.observed) := by
    rw [List.map_map,List.map_map]
    rfl
  rw [hkeys,List.nodup_map_iff hinj]

/-- An accepted message keeps every point told once exactly when it is fresh. -/
theorem ingest_iff {s : AnomalySession F} {msg : JsonValue F}
    (hunique : (s.buffer.map TelemetryPoint.key).Nodup) (hseen : s.Seen)
    (hok : (s.ingest msg).2 = .ok ()) :
    ((step s msg).buffer.map TelemetryPoint.key).Nodup ↔ Fresh s msg := by
  obtain ⟨ts,hts,_,hbuffer,htime⟩ := ingest_ok hok
  have hpoints : ∀ p ∈ (given s.prev (reported msg)).map (point ts.toNat), p.tsNs = ts.toNat := by
    intro p hp
    obtain ⟨r,_,rfl⟩ := List.mem_map.mp hp
    rfl
  have honce : (((given s.prev (reported msg)).map (point ts.toNat)).map
      TelemetryPoint.key).Nodup ↔ ∀ src, ((reported msg).map Prod.fst).count src ≤
        1+(if firstSight s.prev src then 1 else 0) := by
    rw [nodup_points_iff]
    exact nodup_values_iff Source.key_injective s.prev (reported msg)
  have hnew : (∀ p ∈ s.buffer, ∀ q ∈ (given s.prev (reported msg)).map (point ts.toNat),
      p.key ≠ q.key) ↔ ∀ p ∈ s.buffer, messageTs msg = .ok (p.tsNs : ℤ) → ∀ r ∈ reported msg,
        (p.entityId,p.metricId) ≠ (r.1.entityId,r.1.metricId) := by
    refine forall₂_congr fun p hp => ?_
    constructor
    · intro h hpts r hr hname
      obtain ⟨src,value,hpoint,hsrc⟩ := hseen p hp
      have hsrceq : src = r.1 := Source.name_injective (by rw [hpoint] at hname; exact hname)
      rw [hsrceq] at hsrc
      obtain ⟨g,hg,hgsrc⟩ := List.mem_map.mp
        ((mem_values Source.key_injective hsrc).mpr (List.mem_map_of_mem hr))
      have htsp : ts = p.tsNs := Except.ok.inj (hts.symm.trans hpts)
      refine h _ (List.mem_map_of_mem hg) ?_
      rw [hpoint,hsrceq,← hgsrc,htsp]
      rfl
    · intro h q hq heq
      obtain ⟨g,hg,rfl⟩ := List.mem_map.mp hq
      obtain ⟨r,hr,hrsrc⟩ := List.mem_map.mp
        (mem_of_mem_values Source.key_injective (List.mem_map_of_mem hg))
      have hpts : p.tsNs = ts.toNat := congrArg (fun k => k.2.2.1) heq
      refine h ?_ r hr ?_
      · rw [hts,hpts,← htime (List.ne_nil_of_mem hg)]
      · rw [hrsrc]
        exact congrArg (fun k => (k.1,k.2.1)) heq
  rw [hbuffer,nodup_retained_iff hunique hpoints,honce,hnew]
  exact ⟨fun h => ⟨h.1,h.2⟩,fun h => ⟨h.once,h.new⟩⟩

/-- Along a run the session is never poisoned exactly when every accepted message is fresh. -/
theorem run_unpoisoned_iff (settings : Settings) (msgs : List (JsonValue F)) :
    Along step (fun s msg => (step s msg).Unpoisoned) { settings := settings } msgs ↔
      Along step (fun s msg => (s.ingest msg).2 = .ok () → Fresh s msg)
        { settings := settings } msgs := by
  have hstep : ∀ (s : AnomalySession F) msg,
      (s.buffer.map TelemetryPoint.key).Nodup ∧ s.Seen →
      ((step s msg).Unpoisoned ↔ ((s.ingest msg).2 = .ok () → Fresh s msg)) := by
    intro s msg hinv
    rw [AnomalySession.unpoisoned_iff]
    by_cases hok : (s.ingest msg).2 = .ok ()
    · rw [ingest_iff hinv.1 hinv.2 hok]
      exact ⟨fun h _ => h,fun h => h hok⟩
    · rw [(ingest_error hok).1]
      exact iff_of_true hinv.1 fun h => absurd h hok
  refine Along.iff_of_invariant step hstep (fun s msg hinv hfresh => ?_) msgs _ ⟨?_,?_⟩
  · exact ⟨(AnomalySession.unpoisoned_iff _).mp ((hstep s msg hinv).mpr hfresh),
      Seen.step hinv.2 msg⟩
  · exact List.nodup_nil
  · exact fun p hp => by cases hp

instance : Numbers ℚ where
  zero := 0
  sum terms := .ok (terms.map (Sum.elim (fun i => mkRat i 1) id)).sum
  delta raw prev := max 0 (raw-prev)

/-- The times of the messages do not go back. -/
def Nondecreasing (msgs : List (JsonValue F)) : Prop :=
  msgs.Pairwise fun a b => ∀ t u, messageTs a = .ok t → messageTs b = .ok u → t ≤ u

def DistinctTgids (msg : JsonValue F) : Prop :=
  ∀ tasks, get? "top_tasks" msg = some (.arr tasks) → (tasks.map (get? "tgid")).Nodup

/-- Two feature ticks between two host ticks. -/
def hostSnapshot : JsonValue ℚ :=
  .obj [("ts_ns",.int 5000000000),("host",.obj [("procs_running",.int 3)]),("top_tasks",.arr [])]

theorem repeatedSnapshot_poisons :
    ¬ ∀ (settings : Settings) (msgs : List (JsonValue ℚ)), Nondecreasing msgs →
      (∀ msg ∈ msgs, DistinctTgids msg) →
      Along step (fun s msg => (s.ingest msg).2 = .ok ()) { settings := settings } msgs →
      Along step (fun s msg => (step s msg).Unpoisoned) { settings := settings } msgs := by
  intro h
  have hpoisoned := (h ⟨90000000000,210000000000,30000000000,60000000000⟩
    [hostSnapshot,hostSnapshot] ?_ ?_ ⟨rfl,rfl,trivial⟩).2.1
  · have hunique := (AnomalySession.unpoisoned_iff _).mp hpoisoned
    have htwice : ¬ (["io_inflight","procs_running","io_ticks","io_wticks","io_inflight",
        "procs_running","net_rx","net_tx"].map fun metric =>
          ("host",metric,5000000000,Quality.observed)).Nodup := by decide
    exact htwice hunique
  · refine List.pairwise_pair.mpr fun t u ht hu => ?_
    rw [Except.ok.inj (ht.symm.trans hu)]
  · intro msg hmsg tasks htasks
    rcases List.mem_pair.mp hmsg with rfl | rfl <;>
    · obtain rfl : tasks = [] := by
        have hnil : get? "top_tasks" hostSnapshot = some (.arr []) := rfl
        rw [hnil] at htasks
        simpa using htasks.symm
      exact List.nodup_nil

end AnomalyFeed
end ETraceDiag
