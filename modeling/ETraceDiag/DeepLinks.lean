import ETraceDiag.Transition

/-!
# Entering and leaving an episode: links and file descriptors

The part of `DeepCollector` that acquires and releases kernel resources: `Enter` with
`AttachDeepLinks` and `OpenProfiler`, and `Exit`. Every lookup, attach and open may fail.
-/

namespace ETraceDiag
namespace DeepLinks

/-- The programs an episode attaches. -/
inductive Hook
  | fentrySys | fexitSys | onSysEnter | onSysExit
  | offcpuSchedule | onProcessExit
  | fentryVfsRead | fexitVfsRead | fentryVfsWrite | fexitVfsWrite
  | kprobeVfsRead | kretprobeVfsRead | kprobeVfsWrite | kretprobeVfsWrite
  | netSockState | netTcpRetransmit | netKfreeSkb | netTcpSendReset
  | netSoftirqEntry | netSoftirqExit
  | kprobeTcpV4Connect | kretprobeTcpV4Connect | kprobeTcpV6Connect | kretprobeTcpV6Connect
  | kretprobeInetCskAccept | kprobeTcpRcvEstablished
  deriving DecidableEq,Repr

def Hook.name : Hook → String
  | .fentrySys => "fentry_sys"
  | .fexitSys => "fexit_sys"
  | .onSysEnter => "on_sys_enter"
  | .onSysExit => "on_sys_exit"
  | .offcpuSchedule => "offcpu_schedule"
  | .onProcessExit => "on_process_exit"
  | .fentryVfsRead => "fentry_vfs_read"
  | .fexitVfsRead => "fexit_vfs_read"
  | .fentryVfsWrite => "fentry_vfs_write"
  | .fexitVfsWrite => "fexit_vfs_write"
  | .kprobeVfsRead => "kprobe_vfs_read"
  | .kretprobeVfsRead => "kretprobe_vfs_read"
  | .kprobeVfsWrite => "kprobe_vfs_write"
  | .kretprobeVfsWrite => "kretprobe_vfs_write"
  | .netSockState => "net_sock_state"
  | .netTcpRetransmit => "net_tcp_retransmit"
  | .netKfreeSkb => "net_kfree_skb"
  | .netTcpSendReset => "net_tcp_send_reset"
  | .netSoftirqEntry => "net_softirq_entry"
  | .netSoftirqExit => "net_softirq_exit"
  | .kprobeTcpV4Connect => "kprobe_tcp_v4_connect"
  | .kretprobeTcpV4Connect => "kretprobe_tcp_v4_connect"
  | .kprobeTcpV6Connect => "kprobe_tcp_v6_connect"
  | .kretprobeTcpV6Connect => "kretprobe_tcp_v6_connect"
  | .kretprobeInetCskAccept => "kretprobe_inet_csk_accept"
  | .kprobeTcpRcvEstablished => "kprobe_tcp_rcv_established"

def sysPrimary : List Hook := [.fentrySys,.fexitSys]

def sysFallback : List Hook := [.onSysEnter,.onSysExit]

def optional : List Hook := [.offcpuSchedule,.onProcessExit]

def vfsPrimary : List Hook := [.fentryVfsRead,.fexitVfsRead,.fentryVfsWrite,.fexitVfsWrite]

def vfsFallback : List Hook :=
  [.kprobeVfsRead,.kretprobeVfsRead,.kprobeVfsWrite,.kretprobeVfsWrite]

def netOptional : List Hook :=
  [.netSockState,.netTcpRetransmit,.netKfreeSkb,.netTcpSendReset,.netSoftirqEntry,
   .netSoftirqExit,.kprobeTcpV4Connect,.kretprobeTcpV4Connect,.kprobeTcpV6Connect,
   .kretprobeTcpV6Connect,.kretprobeInetCskAccept,.kprobeTcpRcvEstablished]

structure Capability where
  name : String
  available : Bool
  reason : String
  deriving DecidableEq,Repr

/-- What the kernel and the writer answer during one `Enter`. -/
structure Env where
  prog : Hook → Bool
  attach : Hook → Bool
  strerror : Hook → String
  oncpuProg : Bool
  profileFreqHz : ℕ
  possibleCpus : ℕ
  perfEventOpen : ℕ → Bool
  openDeep : Bool

structure Collector where
  deepLinks : List Hook := []
  perfFds : List ℕ := []
  deepEnabled : Bool := false
  offcpuFallback : ℕ := 0
  capabilities : List Capability := []
  active : Bool := false
  writerOpen : Bool := false
  deriving DecidableEq,Repr

def Collector.pushLink (s : Collector) (n : Hook) : Collector :=
  { s with deepLinks := s.deepLinks++[n] }

def Collector.pushCap (s : Collector) (name : String) (available : Bool) (reason : String) :
    Collector :=
  { s with capabilities := s.capabilities++[⟨name,available,reason⟩] }

/-- A primary family: the first failure ends the loop, the links made so far stay. -/
def attachPrimary (e : Env) : List Hook → Collector → Collector × Bool
  | [], s => (s,true)
  | n::ns, s =>
    if !e.prog n then (s,false)
    else if !e.attach n then (s,false)
    else attachPrimary e ns (s.pushLink n)

/-- The required fallback of the syscall hooks: the first failure returns from the caller. -/
def attachRequired (e : Env) : List Hook → Collector → Collector × Bool
  | [], s => (s,true)
  | n::ns, s =>
    if !e.prog n then (s.pushCap n.name false "missing program",false)
    else if !e.attach n then (s.pushCap n.name false (e.strerror n),false)
    else attachRequired e ns ((s.pushLink n).pushCap n.name true "fallback")

/-- Optional hooks: a failure only shows in the capabilities. -/
def attachOptional (e : Env) (note : String) : List Hook → Collector → Collector
  | [], s => s
  | n::ns, s =>
    if !e.prog n then attachOptional e note ns (s.pushCap n.name false "missing program")
    else if !e.attach n then attachOptional e note ns (s.pushCap n.name false (e.strerror n))
    else attachOptional e note ns ((s.pushLink n).pushCap n.name true note)

def pushCaps (ns : List Hook) (available : Bool) (reason : String) (s : Collector) : Collector :=
  ns.foldl (fun s n => s.pushCap n.name available reason) s

def attachSyscalls (e : Env) (s : Collector) : Collector × Bool :=
  let r := attachPrimary e sysPrimary s
  if r.2 then (pushCaps sysPrimary true "" r.1,true)
  else attachRequired e sysFallback (pushCaps sysPrimary false "fallback raw_syscalls tp" r.1)

/-- The stackless fallback is on unless `offcpu_schedule` is among the capabilities. -/
def writeOffcpuFallback (s : Collector) : Collector :=
  let ok := s.capabilities.any fun c => c.name = "offcpu_schedule" && c.available
  { s with offcpuFallback := if ok then 0 else 1 }

def attachVfs (e : Env) (s : Collector) : Collector :=
  let r := attachPrimary e vfsPrimary s
  if r.2 then pushCaps vfsPrimary true "" r.1
  else attachOptional e "fallback" vfsFallback
    (pushCaps vfsPrimary false "5.15 verifier (fallback used)" r.1)

def attachDeepLinks (e : Env) (s : Collector) : Collector × Bool :=
  let r := attachSyscalls e s
  if !r.2 then (r.1,false)
  else
    let s := writeOffcpuFallback (attachOptional e "" optional r.1)
    (attachOptional e "" netOptional (attachVfs e s),true)

def closeDeepLinks (s : Collector) : Collector := { s with deepLinks := [] }

def closeProfiler (s : Collector) : Collector := { s with perfFds := [] }

def openCpus (e : Env) : List ℕ → Collector → Collector × Bool
  | [], s => (s,true)
  | cpu::cpus, s =>
    if !e.perfEventOpen cpu then (closeProfiler s,false)
    else openCpus e cpus { s with perfFds := s.perfFds++[cpu] }

def openProfiler (e : Env) (s : Collector) : Collector × Bool :=
  if e.profileFreqHz = 0 then (s,false)
  else if !e.oncpuProg then (s,false)
  else openCpus e (List.range e.possibleCpus) s

def exit (s : Collector) : Collector :=
  let s := closeDeepLinks (closeProfiler { s with deepEnabled := false })
  { s with writerOpen := if s.active then false else s.writerOpen, active := false }

def enter (e : Env) (s : Collector) : Collector × Bool :=
  let r := attachDeepLinks e { s with capabilities := [], deepEnabled := true }
  if !r.2 then ({ r.1 with deepEnabled := false },false)
  else
    let p := openProfiler e r.1
    let s := if p.2 then p.1 else p.1.pushCap "oncpu" false "perf_event_open failed"
    if !e.openDeep then (exit s,false)
    else ({ s with active := true, writerOpen := true },true)

/-! ## Calls -/

inductive Call
  | enter (e : Env)
  | exit

inductive Outcome
  | entered
  | refused
  | exited
  deriving DecidableEq,Repr

/-- One call on the collector; the second component is what the last call did. -/
def step (s : Collector × Outcome) : Call → Collector × Outcome
  | .enter e => ((enter e s.1).1,if (enter e s.1).2 then .entered else .refused)
  | .exit => (exit s.1,.exited)

/-- Some program of the family is attached. -/
def Touches (family links : List Hook) : Prop := ∃ n ∈ links, n ∈ family

instance (family links : List Hook) : Decidable (Touches family links) := by
  unfold Touches
  infer_instance

structure Idle (s : Collector) : Prop where
  links : s.deepLinks = []
  fds : s.perfFds = []
  deep : s.deepEnabled = false

structure OneFamily (s : Collector) : Prop where
  syscalls : Touches sysPrimary s.deepLinks ↔ ¬ Touches sysFallback s.deepLinks
  vfs : ¬ (Touches vfsPrimary s.deepLinks ∧ Touches vfsFallback s.deepLinks)

/-- The resource contract after a call. -/
def Atomic (s : Collector × Outcome) : Prop :=
  match s.2 with
  | .entered => OneFamily s.1
  | .refused => Idle s.1
  | .exited => Idle s.1

def Env.attaches (e : Env) (n : Hook) : Bool := e.prog n && e.attach n

/-- The required hooks of an `Enter` attach. -/
def Env.sysOk (e : Env) : Prop := sysPrimary.all e.attaches ∨ sysFallback.all e.attaches

/-- When `Enter` meets the contract: before it nothing is held that it does not give back,
and no primary family attaches in part and is then joined by its fallback. -/
structure EnterOk (s : Collector) (e : Env) : Prop where
  refused : ¬ e.sysOk → s.deepLinks = [] ∧ s.perfFds = [] ∧
    e.attaches .fentrySys = false ∧ e.attaches .onSysEnter = false
  syscalls : e.sysOk → e.openDeep = true →
    ¬ ((Touches sysPrimary s.deepLinks ∨ e.attaches .fentrySys = true) ∧
      (Touches sysFallback s.deepLinks ∨ ¬ sysPrimary.all e.attaches = true))
  vfs : e.sysOk → e.openDeep = true →
    ¬ ((Touches vfsPrimary s.deepLinks ∨ e.attaches .fentryVfsRead = true) ∧
      (Touches vfsFallback s.deepLinks ∨
        (¬ vfsPrimary.all e.attaches = true ∧ vfsFallback.any e.attaches = true)))

def CallOk (s : Collector × Outcome) : Call → Prop
  | .enter e => EnterOk s.1 e
  | .exit => True

/-! ## What the attach loops add -/

/-- From `s` to `s'` the links `new` were added; the profiler and `active_` were left alone. -/
structure Adds (s s' : Collector) (new : List Hook) : Prop where
  links : s'.deepLinks = s.deepLinks++new
  fds : s'.perfFds = s.perfFds
  active : s'.active = s.active

theorem Adds.refl (s : Collector) : Adds s s [] := ⟨by simp,rfl,rfl⟩

theorem Adds.trans {s s' s'' : Collector} {a b : List Hook} (h : Adds s s' a)
    (h' : Adds s' s'' b) : Adds s s'' (a++b) :=
  ⟨by rw [h'.links,h.links,List.append_assoc],h'.fds.trans h.fds,h'.active.trans h.active⟩

theorem pushLink_adds (s : Collector) (n : Hook) : Adds s (s.pushLink n) [n] := ⟨rfl,rfl,rfl⟩

theorem pushCap_adds (s : Collector) (name : String) (available : Bool) (reason : String) :
    Adds s (s.pushCap name available reason) [] := ⟨by simp [Collector.pushCap],rfl,rfl⟩

theorem pushCaps_adds (ns : List Hook) (available : Bool) (reason : String) :
    ∀ s : Collector, Adds s (pushCaps ns available reason s) [] := by
  induction ns with
  | nil => intro s; exact Adds.refl s
  | cons n ns ih => intro s; exact (pushCap_adds s _ _ _).trans (ih _)

theorem writeOffcpuFallback_adds (s : Collector) : Adds s (writeOffcpuFallback s) [] :=
  ⟨by simp [writeOffcpuFallback],rfl,rfl⟩

theorem attachPrimary_adds (e : Env) (ns : List Hook) : ∀ s : Collector,
    Adds s (attachPrimary e ns s).1 (ns.takeWhile e.attaches) ∧
      (attachPrimary e ns s).2 = ns.all e.attaches := by
  induction ns with
  | nil => intro s; exact ⟨Adds.refl s,rfl⟩
  | cons n ns ih =>
    intro s
    by_cases hp : e.prog n = true
    · by_cases ha : e.attach n = true
      · have htail := ih (s.pushLink n)
        have hadds := (pushLink_adds s n).trans htail.1
        simpa [attachPrimary,Env.attaches,hp,ha] using And.intro hadds htail.2
      · simpa [attachPrimary,Env.attaches,hp,ha] using Adds.refl s
    · simpa [attachPrimary,Env.attaches,hp] using Adds.refl s

theorem attachRequired_adds (e : Env) (ns : List Hook) : ∀ s : Collector,
    Adds s (attachRequired e ns s).1 (ns.takeWhile e.attaches) ∧
      (attachRequired e ns s).2 = ns.all e.attaches := by
  induction ns with
  | nil => intro s; exact ⟨Adds.refl s,rfl⟩
  | cons n ns ih =>
    intro s
    by_cases hp : e.prog n = true
    · by_cases ha : e.attach n = true
      · have htail := ih ((s.pushLink n).pushCap n.name true "fallback")
        have hadds := ((pushLink_adds s n).trans (pushCap_adds _ _ _ _)).trans htail.1
        simpa [attachRequired,Env.attaches,hp,ha] using And.intro hadds htail.2
      · simpa [attachRequired,Env.attaches,hp,ha] using pushCap_adds s _ _ _
    · simpa [attachRequired,Env.attaches,hp] using pushCap_adds s _ _ _

theorem attachOptional_adds (e : Env) (note : String) (ns : List Hook) : ∀ s : Collector,
    Adds s (attachOptional e note ns s) (ns.filter e.attaches) := by
  induction ns with
  | nil => intro s; exact Adds.refl s
  | cons n ns ih =>
    intro s
    by_cases hp : e.prog n = true
    · by_cases ha : e.attach n = true
      · have hadds := ((pushLink_adds s n).trans (pushCap_adds _ _ _ _)).trans
          (ih ((s.pushLink n).pushCap n.name true note))
        simpa [attachOptional,Env.attaches,hp,ha] using hadds
      · have hadds := (pushCap_adds s n.name false (e.strerror n)).trans (ih _)
        simpa [attachOptional,Env.attaches,hp,ha] using hadds
    · have hadds := (pushCap_adds s n.name false "missing program").trans (ih _)
      simpa [attachOptional,Env.attaches,hp] using hadds

/-- The syscall links an `AttachDeepLinks` makes. -/
def Env.sysLinks (e : Env) : List Hook :=
  sysPrimary.takeWhile e.attaches++
    (if sysPrimary.all e.attaches then [] else sysFallback.takeWhile e.attaches)

/-- The file links an `AttachDeepLinks` makes. -/
def Env.vfsLinks (e : Env) : List Hook :=
  vfsPrimary.takeWhile e.attaches++
    (if vfsPrimary.all e.attaches then [] else vfsFallback.filter e.attaches)

theorem attachSyscalls_adds (e : Env) (s : Collector) :
    Adds s (attachSyscalls e s).1 e.sysLinks ∧
      ((attachSyscalls e s).2 = true ↔ e.sysOk) := by
  obtain ⟨hadds,hok⟩ := attachPrimary_adds e sysPrimary s
  by_cases hall : sysPrimary.all e.attaches = true
  · simp only [attachSyscalls,hok,hall,if_true,Env.sysLinks,Env.sysOk,true_or,and_true]
    exact hadds.trans (pushCaps_adds _ _ _ _)
  · obtain ⟨hadds',hok'⟩ := attachRequired_adds e sysFallback
      (pushCaps sysPrimary false "fallback raw_syscalls tp" (attachPrimary e sysPrimary s).1)
    simp only [attachSyscalls,hok,hall,if_false,Env.sysLinks,Env.sysOk,false_or,hok',and_true,
      Bool.false_eq_true]
    simpa using (hadds.trans (pushCaps_adds _ _ _ _)).trans hadds'

theorem attachVfs_adds (e : Env) (s : Collector) : Adds s (attachVfs e s) e.vfsLinks := by
  obtain ⟨hadds,hok⟩ := attachPrimary_adds e vfsPrimary s
  by_cases hall : vfsPrimary.all e.attaches = true
  · simp only [attachVfs,hok,hall,if_true,Env.vfsLinks]
    exact hadds.trans (pushCaps_adds _ _ _ _)
  · simp only [attachVfs,hok,hall,if_false,Env.vfsLinks,Bool.false_eq_true]
    simpa using (hadds.trans (pushCaps_adds _ _ _ _)).trans (attachOptional_adds e _ _ _)

theorem attachDeepLinks_refused {e : Env} (h : ¬ e.sysOk) (s : Collector) :
    Adds s (attachDeepLinks e s).1 e.sysLinks ∧ (attachDeepLinks e s).2 = false := by
  obtain ⟨hadds,hok⟩ := attachSyscalls_adds e s
  have hf : (attachSyscalls e s).2 = false := by
    rw [← Bool.not_eq_true,hok]
    exact h
  simpa [attachDeepLinks,hf] using hadds

theorem attachDeepLinks_ok {e : Env} (h : e.sysOk) (s : Collector) :
    Adds s (attachDeepLinks e s).1 (e.sysLinks++optional.filter e.attaches++e.vfsLinks++
      netOptional.filter e.attaches) ∧ (attachDeepLinks e s).2 = true := by
  obtain ⟨hadds,hok⟩ := attachSyscalls_adds e s
  have hopt := (hadds.trans (attachOptional_adds e "" optional _)).trans
    (writeOffcpuFallback_adds _)
  have hvfs := (hopt.trans (attachVfs_adds e _)).trans (attachOptional_adds e "" netOptional _)
  simpa [attachDeepLinks,hok.mpr h] using hvfs

theorem openCpus_links (e : Env) (cpus : List ℕ) : ∀ s : Collector,
    (openCpus e cpus s).1.deepLinks = s.deepLinks := by
  induction cpus with
  | nil => intro s; rfl
  | cons cpu cpus ih =>
    intro s
    by_cases hp : e.perfEventOpen cpu = true
    · simp [openCpus,hp,ih]
    · simp [openCpus,hp,closeProfiler]

theorem openProfiler_links (e : Env) (s : Collector) :
    (openProfiler e s).1.deepLinks = s.deepLinks := by
  unfold openProfiler
  split
  · rfl
  · split
    · rfl
    · exact openCpus_links e _ s

/-! ## Families -/

theorem touches_append (family a b : List Hook) :
    Touches family (a++b) ↔ Touches family a ∨ Touches family b := by
  simp [Touches,or_and_right,exists_or]

theorem not_touches_filter {family ns : List Hook} (h : ∀ n ∈ family, n ∉ ns)
    (p : Hook → Bool) : ¬ Touches family (ns.filter p) := by
  rintro ⟨n,hn,hf⟩
  exact h n hf (List.mem_of_mem_filter hn)

theorem touches_filter_self (family : List Hook) (p : Hook → Bool) :
    Touches family (family.filter p) ↔ family.any p = true := by
  simp only [Touches,List.mem_filter,List.any_eq_true]
  constructor
  · rintro ⟨n,⟨hn,hp⟩,_⟩
    exact ⟨n,hn,hp⟩
  · rintro ⟨n,hn,hp⟩
    exact ⟨n,⟨hn,hp⟩,hn⟩

theorem not_touches_takeWhile {family ns : List Hook} (h : ∀ n ∈ family, n ∉ ns)
    (p : Hook → Bool) : ¬ Touches family (ns.takeWhile p) := by
  rintro ⟨n,hn,hf⟩
  exact h n hf ((List.takeWhile_subset p) hn)

theorem touches_takeWhile_self (n : Hook) (ns : List Hook) (p : Hook → Bool) :
    Touches (n::ns) ((n::ns).takeWhile p) ↔ p n = true := by
  constructor
  · rintro ⟨m,hm,_⟩
    by_contra hp
    simp [hp] at hm
  · intro hp
    exact ⟨n,by simp [hp],by simp⟩

/-- The links of a collector that entered. -/
def Env.links (e : Env) : List Hook :=
  e.sysLinks++optional.filter e.attaches++e.vfsLinks++netOptional.filter e.attaches

theorem touches_sysLinks (family : List Hook) (e : Env) :
    Touches family e.sysLinks ↔ Touches family (sysPrimary.takeWhile e.attaches) ∨
      (¬ sysPrimary.all e.attaches = true ∧ Touches family (sysFallback.takeWhile e.attaches)) := by
  have hnil : ¬ Touches family [] := by simp [Touches]
  rw [Env.sysLinks,touches_append]
  by_cases hall : sysPrimary.all e.attaches = true
  · simp only [hall,if_true,hnil,not_true,false_and]
  · simp only [hall,if_false,not_false_eq_true,true_and,Bool.false_eq_true]

theorem touches_vfsLinks (family : List Hook) (e : Env) :
    Touches family e.vfsLinks ↔ Touches family (vfsPrimary.takeWhile e.attaches) ∨
      (¬ vfsPrimary.all e.attaches = true ∧ Touches family (vfsFallback.filter e.attaches)) := by
  have hnil : ¬ Touches family [] := by simp [Touches]
  rw [Env.vfsLinks,touches_append]
  by_cases hall : vfsPrimary.all e.attaches = true
  · simp only [hall,if_true,hnil,not_true,false_and]
  · simp only [hall,if_false,not_false_eq_true,true_and,Bool.false_eq_true]

/-- The optional hooks belong to no family. -/
theorem touches_links {family : List Hook} (ho : ∀ n ∈ family, n ∉ optional)
    (hn : ∀ n ∈ family, n ∉ netOptional) (e : Env) :
    Touches family e.links ↔ Touches family e.sysLinks ∨ Touches family e.vfsLinks := by
  simp only [Env.links,touches_append,not_touches_filter ho,not_touches_filter hn,or_false]

theorem links_sysPrimary (e : Env) :
    Touches sysPrimary e.links ↔ e.attaches .fentrySys = true := by
  have hself : Touches sysPrimary (sysPrimary.takeWhile e.attaches) ↔ _ :=
    touches_takeWhile_self _ _ e.attaches
  have hsf : ∀ n ∈ sysPrimary, n ∉ sysFallback := by decide
  have hvp : ∀ n ∈ sysPrimary, n ∉ vfsPrimary := by decide
  have hvf : ∀ n ∈ sysPrimary, n ∉ vfsFallback := by decide
  rw [touches_links (by decide) (by decide),touches_sysLinks,touches_vfsLinks,hself]
  simp only [not_touches_takeWhile hsf,not_touches_takeWhile hvp,not_touches_filter hvf,
    and_false,or_false]

theorem links_sysFallback (e : Env) :
    Touches sysFallback e.links ↔
      ¬ sysPrimary.all e.attaches = true ∧ e.attaches .onSysEnter = true := by
  have hself : Touches sysFallback (sysFallback.takeWhile e.attaches) ↔ _ :=
    touches_takeWhile_self _ _ e.attaches
  have hsp : ∀ n ∈ sysFallback, n ∉ sysPrimary := by decide
  have hvp : ∀ n ∈ sysFallback, n ∉ vfsPrimary := by decide
  have hvf : ∀ n ∈ sysFallback, n ∉ vfsFallback := by decide
  rw [touches_links (by decide) (by decide),touches_sysLinks,touches_vfsLinks,hself]
  simp only [not_touches_takeWhile hsp,not_touches_takeWhile hvp,not_touches_filter hvf,
    and_false,or_false,false_or]

theorem links_vfsPrimary (e : Env) :
    Touches vfsPrimary e.links ↔ e.attaches .fentryVfsRead = true := by
  have hself : Touches vfsPrimary (vfsPrimary.takeWhile e.attaches) ↔ _ :=
    touches_takeWhile_self _ _ e.attaches
  have hsp : ∀ n ∈ vfsPrimary, n ∉ sysPrimary := by decide
  have hsf : ∀ n ∈ vfsPrimary, n ∉ sysFallback := by decide
  have hvf : ∀ n ∈ vfsPrimary, n ∉ vfsFallback := by decide
  rw [touches_links (by decide) (by decide),touches_sysLinks,touches_vfsLinks,hself]
  simp only [not_touches_takeWhile hsp,not_touches_takeWhile hsf,not_touches_filter hvf,
    and_false,or_false,false_or]

theorem links_vfsFallback (e : Env) :
    Touches vfsFallback e.links ↔
      ¬ vfsPrimary.all e.attaches = true ∧ vfsFallback.any e.attaches = true := by
  have hself := touches_filter_self vfsFallback e.attaches
  have hsp : ∀ n ∈ vfsFallback, n ∉ sysPrimary := by decide
  have hsf : ∀ n ∈ vfsFallback, n ∉ sysFallback := by decide
  have hvp : ∀ n ∈ vfsFallback, n ∉ vfsPrimary := by decide
  rw [touches_links (by decide) (by decide),touches_sysLinks,touches_vfsLinks,hself]
  simp only [not_touches_takeWhile hsp,not_touches_takeWhile hsf,not_touches_takeWhile hvp,
    and_false,or_false,false_or]

/-! ## One call -/

theorem exit_idle (s : Collector) : Idle (exit s) := ⟨rfl,rfl,rfl⟩

theorem enter_refused {e : Env} (h : ¬ e.sysOk) (s : Collector) :
    (enter e s).2 = false ∧ (enter e s).1.deepLinks = s.deepLinks++e.sysLinks ∧
      (enter e s).1.perfFds = s.perfFds ∧ (enter e s).1.deepEnabled = false := by
  obtain ⟨hadds,hok⟩ := attachDeepLinks_refused h { s with capabilities := [], deepEnabled := true }
  simp only [enter,hok,Bool.not_false,if_true,hadds.links,hadds.fds,and_self]

theorem enter_openDeep_fails {e : Env} (h : e.sysOk) (ho : e.openDeep = false) (s : Collector) :
    (enter e s).2 = false ∧ Idle (enter e s).1 := by
  obtain ⟨_,hok⟩ := attachDeepLinks_ok h { s with capabilities := [], deepEnabled := true }
  simp only [enter,hok,Bool.not_true,Bool.false_eq_true,if_false,ho,Bool.not_false,if_true,true_and]
  exact exit_idle _

theorem enter_entered {e : Env} (h : e.sysOk) (ho : e.openDeep = true) (s : Collector) :
    (enter e s).2 = true ∧ (enter e s).1.deepLinks = s.deepLinks++e.links := by
  obtain ⟨hadds,hok⟩ := attachDeepLinks_ok h { s with capabilities := [], deepEnabled := true }
  have hlinks := hadds.links
  simp only [enter,hok,Bool.not_true,Bool.false_eq_true,if_false,ho,true_and]
  split
  · rw [openProfiler_links,hlinks]
    rfl
  · simp only [Collector.pushCap,openProfiler_links,hlinks]
    rfl

theorem exit_active (s : Collector) : (exit s).active = false := rfl

theorem enter_active {e : Env} {s : Collector} (hs : s.active = false) :
    (enter e s).1.active = (enter e s).2 := by
  by_cases hsys : e.sysOk
  · obtain ⟨_,hok⟩ := attachDeepLinks_ok hsys { s with capabilities := [], deepEnabled := true }
    cases ho : e.openDeep
    · simp only [enter,hok,ho,Bool.not_true,Bool.not_false,Bool.false_eq_true,if_false,if_true]
      exact exit_active _
    · simp only [enter,hok,ho,Bool.not_true,Bool.false_eq_true,if_false]
  · obtain ⟨hadds,hok⟩ :=
      attachDeepLinks_refused hsys { s with capabilities := [], deepEnabled := true }
    simpa only [enter,hok,Bool.not_false,if_true] using hadds.active.trans hs

theorem sysLinks_eq_nil_iff {e : Env} (h : ¬ e.sysOk) :
    e.sysLinks = [] ↔ e.attaches .fentrySys = false ∧ e.attaches .onSysEnter = false := by
  have hall : ¬ sysPrimary.all e.attaches = true := fun hp => h (Or.inl hp)
  have hnil : ∀ (n : Hook) (ns : List Hook),
      (n::ns).takeWhile e.attaches = [] ↔ e.attaches n = false := by
    intro n ns
    cases hn : e.attaches n <;> simp [hn]
  rw [Env.sysLinks,if_neg hall,List.append_eq_nil_iff]
  exact and_congr (hnil _ _) (hnil _ _)

/-- A required syscall family that attached has its first hook on. -/
theorem sysPrimary_head {e : Env} (h : sysPrimary.all e.attaches = true) :
    e.attaches .fentrySys = true := by
  simp only [sysPrimary,List.all_cons,Bool.and_eq_true] at h
  exact h.1

theorem sysFallback_head {e : Env} (h : sysFallback.all e.attaches = true) :
    e.attaches .onSysEnter = true := by
  simp only [sysFallback,List.all_cons,Bool.and_eq_true] at h
  exact h.1

theorem oneFamily_enter_iff {e : Env} (hsys : e.sysOk) (ho : e.openDeep = true)
    (s : Collector) : OneFamily (enter e s).1 ↔ EnterOk s e := by
  obtain ⟨_,hlinks⟩ := enter_entered hsys ho s
  have hfb : ¬ sysPrimary.all e.attaches = true → e.attaches .onSysEnter = true :=
    fun hp => sysFallback_head (hsys.resolve_left hp)
  constructor
  · rintro ⟨hs,hv⟩
    rw [hlinks,touches_append,touches_append,links_sysPrimary,links_sysFallback] at hs
    rw [hlinks,touches_append,touches_append,links_vfsPrimary,links_vfsFallback] at hv
    refine ⟨fun hn => absurd hsys hn,fun _ _ => ?_,fun _ _ => hv⟩
    rintro ⟨hp,hf⟩
    exact hs.mp hp (hf.imp_right fun hn => ⟨hn,hfb hn⟩)
  · rintro ⟨_,hs,hv⟩
    have hs' := hs hsys ho
    refine ⟨?_,?_⟩
    · rw [hlinks,touches_append,touches_append,links_sysPrimary,links_sysFallback]
      constructor
      · intro hp hf
        exact hs' ⟨hp,hf.imp_right And.left⟩
      · intro hn
        by_contra hp
        have hno : ¬ sysPrimary.all e.attaches = true :=
          fun hall => hp (Or.inr (sysPrimary_head hall))
        exact hn (Or.inr ⟨hno,hfb hno⟩)
    · rw [hlinks,touches_append,touches_append,links_vfsPrimary,links_vfsFallback]
      exact hv hsys ho

/-- A refused `Enter` gives nothing back, so what it leaves is what was held and attached. -/
theorem idle_enter_iff {e : Env} (hsys : ¬ e.sysOk) (s : Collector) :
    Idle (enter e s).1 ↔ EnterOk s e := by
  obtain ⟨_,hlinks,hfds,hdeep⟩ := enter_refused hsys s
  constructor
  · rintro ⟨hl,hf,_⟩
    rw [hlinks,List.append_eq_nil_iff,sysLinks_eq_nil_iff hsys] at hl
    rw [hfds] at hf
    exact ⟨fun _ => ⟨hl.1,hf,hl.2⟩,fun h => absurd h hsys,fun h => absurd h hsys⟩
  · rintro ⟨hr,_,_⟩
    obtain ⟨hl,hf,ha⟩ := hr hsys
    refine ⟨?_,hfds.trans hf,hdeep⟩
    rw [hlinks,hl,List.nil_append,sysLinks_eq_nil_iff hsys]
    exact ha

/-- After an `Enter` the contract holds exactly under `EnterOk`. -/
theorem enter_atomic_iff (s : Collector × Outcome) (e : Env) :
    Atomic (step s (.enter e)) ↔ EnterOk s.1 e := by
  by_cases hsys : e.sysOk
  · by_cases ho : e.openDeep = true
    · obtain ⟨htrue,_⟩ := enter_entered hsys ho s.1
      simp only [Atomic,step,htrue,if_true]
      exact oneFamily_enter_iff hsys ho s.1
    · obtain ⟨hfalse,hidle⟩ := enter_openDeep_fails hsys (by simpa using ho) s.1
      simp only [Atomic,step,hfalse,Bool.false_eq_true,if_false,hidle,true_iff]
      exact ⟨fun hn => absurd hsys hn,fun _ h => absurd h ho,fun _ h => absurd h ho⟩
  · obtain ⟨hfalse,_⟩ := enter_refused hsys s.1
    simp only [Atomic,step,hfalse,Bool.false_eq_true,if_false]
    exact idle_enter_iff hsys s.1

theorem step_atomic_iff (s : Collector × Outcome) (c : Call) :
    Atomic (step s c) ↔ CallOk s c := by
  cases c with
  | enter e => exact enter_atomic_iff s e
  | exit => exact iff_of_true (exit_idle s.1) trivial

/-- Over any run of calls, the contract holds after every call exactly when every `Enter`
meets its condition. -/
theorem run_atomic_iff (s : Collector × Outcome) (calls : List Call) :
    Transition.Along step (fun s c => Atomic (step s c)) s calls ↔
      Transition.Along step CallOk s calls :=
  Transition.Along.congr step step_atomic_iff calls s

/-- `fexit_sys` cannot be attached, everything else can. -/
def fexitFails : Env where
  prog := fun _ => true
  attach := fun n => n ≠ .fexitSys
  strerror := fun _ => ""
  oncpuProg := true
  profileFreqHz := 99
  possibleCpus := 2
  perfEventOpen := fun _ => true
  openDeep := true

theorem fexitFails_not_atomic :
    ¬ Transition.Along step (fun s c => Atomic (step s c)) ({},.exited) [.enter fexitFails] := by
  intro h
  have hs := h.1
  have hent : (step ({},.exited) (.enter fexitFails)).2 = .entered := by decide
  simp only [Atomic,hent] at hs
  exact absurd hs.syscalls (by decide)

end DeepLinks
end ETraceDiag
