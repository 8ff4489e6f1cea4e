import ETraceDiag.BlockIo
import ETraceDiag.PerCpuMerge

/-!
# Two snapshot producers

From kernel 6.4 on a timer sums the counters of every target over the processors
(`snap_collect_one`). Before, every processor records its own slice when its sampler fires
(`snap_collect_one_cpu`) and the host adds the slices of a tick up (`MergePerCpu`), while the
threads count on between two samplers.
-/

namespace ETraceDiag
namespace Snapshotter

open CellCounters GroupFold PerCpuMerge
open BlockIo (BlkCell)
open EpisodeMaps (LatCell Machine)

/-! ## The maps -/

/-- The maps a record is collected from. -/
inductive MapName
  | onCpuNs
  | switches
  | blockIo
  | faults
  | lockSt
  | sysSt
  | futexSt
  | runqSt
  deriving DecidableEq,Repr

inductive SwitchCell
  | vol
  | invol
  deriving DecidableEq

inductive FaultCell
  | minor
  | major
  deriving DecidableEq

/-- The cells of a map's value. -/
abbrev Cell : MapName → Type
  | .onCpuNs => Unit
  | .switches => SwitchCell
  | .blockIo => BlkCell
  | .faults => FaultCell
  | .lockSt => LatCell
  | .sysSt => LatCell
  | .futexSt => LatCell
  | .runqSt => LatCell

def width : (m : MapName) → Cell m → ℕ
  | .onCpuNs, _ => 64
  | .switches, _ => 32
  | .blockIo, c => BlkCell.width c
  | .faults, _ => 32
  | .lockSt, c => LatCell.width c
  | .sysSt, c => LatCell.width c
  | .futexSt, c => LatCell.width c
  | .runqSt, c => LatCell.width c

abbrev Maps := (m : MapName) → Counters UInt32 (Cell m)

/-- A map and a cell of its value. -/
abbrev Source := (m : MapName) × Cell m

/-- Where `snap_sum_cpu` and `collect_tid_current_cpu` take a field of the record from. -/
def sourceOf : Counter → Source
  | .wide .onCpuNs => ⟨.onCpuNs,()⟩
  | .wide .ioOps => ⟨.blockIo,.ops⟩
  | .wide .ioBytes => ⟨.blockIo,.bytes⟩
  | .wide .lockWaits => ⟨.lockSt,.count⟩
  | .wide .lockLatNs => ⟨.lockSt,.latSum⟩
  | .wide .syscallCount => ⟨.sysSt,.count⟩
  | .wide .syscallLatNs => ⟨.sysSt,.latSum⟩
  | .wide .futexWaits => ⟨.futexSt,.count⟩
  | .wide .futexLatNs => ⟨.futexSt,.latSum⟩
  | .wide .runqWaitNs => ⟨.runqSt,.latSum⟩
  | .narrow .nrSwVol => ⟨.switches,.vol⟩
  | .narrow .nrSwInvol => ⟨.switches,.invol⟩
  | .narrow .pfMinor => ⟨.faults,.minor⟩
  | .narrow .pfMajor => ⟨.faults,.major⟩
  -- `(u32)rs->count`
  | .narrow .runqWaitCount => ⟨.runqSt,.count⟩
  | .bin .io i => ⟨.blockIo,.hist i⟩
  | .bin .lock i => ⟨.lockSt,.hist i⟩
  | .bin .syscall i => ⟨.sysSt,.hist i⟩
  | .bin .futex i => ⟨.futexSt,.hist i⟩
  | .bin .runq i => ⟨.runqSt,.hist i⟩

/-- The exact content of a source on a processor. -/
def sliceOf (M : Maps) (tid : UInt32) (cpu : ℕ) (s : Source) : ℕ := slice (M s.1) tid cpu s.2

/-! ## Records -/

/-- `struct task_meta_t`. -/
structure TaskMeta where
  tgid : UInt32
  comm : String

/-- What stays as it is during a tick. -/
structure Session where
  targets : List UInt32
  taskMeta : UInt32 → Option TaskMeta
  deepMode : Bool

/-- `scr` after the `memset`. -/
def zeroRec : KernelSnapshotRec where
  seq := 0
  tsNs := 0
  tgid := 0
  tid := 0
  comm := ""
  wide := 0
  narrow := 0
  hist := 0
  flags := 0

def recSetMeta (ses : Session) (tid : UInt32) (scr : KernelSnapshotRec) : KernelSnapshotRec :=
  { scr with
    tid := tid
    tgid := (ses.taskMeta tid).elim 0 TaskMeta.tgid
    comm := (ses.taskMeta tid).elim scr.comm TaskMeta.comm }

/-- What is in the ring behind `rec_commit`. -/
def recCommit (ses : Session) (now head : UInt64) (scr : KernelSnapshotRec) : KernelSnapshotRec :=
  { scr with
    tsNs := now
    flags := if ses.deepMode then 1 else 0
    seq := head <<< 1 }

/-! ## The timer -/

/-- `bpf_map_lookup_percpu_elem`, for `possible` processors. -/
def lookupPercpuElem (possible : ℕ) (M : Maps) (tid : UInt32) (cpu : ℕ) (s : Source) : Option ℕ :=
  if cpu < possible then (M s.1 tid).map fun p => p cpu s.2 else none

def snapSumCpu (possible : ℕ) (M : Maps) (tid : UInt32) (scr : KernelSnapshotRec) (cpu : ℕ) :
    KernelSnapshotRec :=
  let get := fun c => lookupPercpuElem possible M tid cpu (sourceOf c)
  { scr with
    wide := fun w => (get (.wide w)).elim (scr.wide w) fun v => scr.wide w+.ofNat v
    narrow := fun n => (get (.narrow n)).elim (scr.narrow n) fun v => scr.narrow n+.ofNat v
    hist := fun h i => (get (.bin h i)).elim (scr.hist h i) fun v => scr.hist h i+.ofNat v }

def snapCollectOne (ses : Session) (mach : Machine) (possible : ℕ) (now head : UInt64) (M : Maps)
    (tid : UInt32) : KernelSnapshotRec :=
  recCommit ses now head (recSetMeta ses tid
    ((List.range mach.cpus).foldl (snapSumCpu possible M tid) zeroRec))

/-! ## The samplers -/

/-- A sampler that fires: its processor, the clock, the head of the ring, and for each map what
`z` holds in the `h_` helper and whether there is room for a key. -/
structure Env where
  cpu : ℕ
  now : UInt64
  head : UInt64
  z : (m : MapName) → Cell m → ℕ := fun _ => 0
  room : MapName → Bool := fun _ => true

/-- `h_u64` starts from `z = 0`; the other helpers leave `z` as it is on the stack. -/
def Env.start (e : Env) : (m : MapName) → Cell m → ℕ
  | .onCpuNs => 0
  | m => e.z m

/-- What the `h_` helpers do to the maps. -/
def touch (e : Env) (tid : UInt32) (M : Maps) : Maps :=
  fun m => ensure (e.room m) (e.start m) e.cpu tid (M m)

/-- The value the helper points at, on the current processor. -/
def current (e : Env) (M : Maps) (tid : UInt32) (s : Source) : Option ℕ :=
  (M s.1 tid).map fun p => p e.cpu s.2

def collectTidCurrentCpu (e : Env) (M : Maps) (tid : UInt32) (scr : KernelSnapshotRec) :
    KernelSnapshotRec :=
  let get := fun c => current e M tid (sourceOf c)
  { scr with
    wide := fun w => (get (.wide w)).elim (scr.wide w) .ofNat
    narrow := fun n => (get (.narrow n)).elim (scr.narrow n) .ofNat
    hist := fun h i => (get (.bin h i)).elim (scr.hist h i) .ofNat }

def snapCollectOneCpu (ses : Session) (e : Env) (head : UInt64) (M : Maps) (tid : UInt32) :
    Maps × KernelSnapshotRec :=
  let M := touch e tid M
  (M,recCommit ses e.now head (recSetMeta ses tid (collectTidCurrentCpu e M tid zeroRec)))

/-- `bpf_for_each_map_elem` over the targets. -/
def collectAll (ses : Session) (e : Env) :
    List UInt32 → UInt64 → Maps → Maps × List KernelSnapshotRec
  | [], _, M => (M,[])
  | tid::tids, head, M =>
    let one := snapCollectOneCpu ses e head M tid
    let rest := collectAll ses e tids (head+1) one.1
    (rest.1,one.2::rest.2)

def snapshotter (ses : Session) (e : Env) (M : Maps) : Maps × List KernelSnapshotRec :=
  collectAll ses e ses.targets e.head M

/-! ## A tick -/

/-- A hook counts in one of the maps, or a sampler fires. -/
inductive Event
  | count (m : MapName) (tid : UInt32) (cpu : ℕ) (room : Bool) (z d : Cell m → ℕ)
  | sample (e : Env)

/-- The maps, and the records that are new in the ring. -/
def step (ses : Session) (M : Maps) : Event → Maps × List KernelSnapshotRec
  | .count m tid cpu room z d =>
    (Function.update M m (account (width m) room z cpu tid d (M m)),[])
  | .sample e => snapshotter ses e M

def run (ses : Session) : List Event → Maps → Maps × List KernelSnapshotRec
  | [], M => (M,[])
  | ev::evs, M =>
    let one := step ses M ev
    let rest := run ses evs one.1
    (rest.1,one.2++rest.2)

/-- The samplers that fire. -/
def Event.sampler : Event → Option Env
  | .count .. => none
  | .sample e => some e

def samplers (evs : List Event) : List Env := evs.filterMap Event.sampler

/-- New entries start from zeros, and no cell overflows. -/
def StepOk (ses : Session) (M : Maps) : Event → Prop
  | .count m tid cpu _ z d => (M m tid = none → z = 0) ∧
      ∀ c, slice (M m) tid cpu c+d c < 2^width m c
  | .sample e => ∀ tid ∈ ses.targets, ∀ m, M m tid = none → e.start m = 0

def RunOk (ses : Session) : List Event → Maps → Prop
  | [], _ => True
  | ev::evs, M => StepOk ses M ev ∧ RunOk ses evs (step ses M ev).1

/-! ## What one producer records -/

section Counters

variable {ses : Session} {M : Maps} {tid : UInt32}

/-- The content of a source over all processors. -/
def totalOf (possible : ℕ) (M : Maps) (tid : UInt32) (s : Source) : ℕ :=
  ((List.range possible).map fun cpu => sliceOf M tid cpu s).sum

theorem sliceOf_eq_elim (M : Maps) (tid : UInt32) (cpu : ℕ) (s : Source) :
    sliceOf M tid cpu s = ((M s.1 tid).map fun p => p cpu s.2).elim 0 id := by
  rw [sliceOf,slice]
  cases M s.1 tid <;> rfl

/-- A sampler records the slice of its processor, in the width of the field. -/
theorem counter_collectTidCurrentCpu (e : Env) (c : Counter) :
    (collectTidCurrentCpu e M tid zeroRec).counter c =
      sliceOf M tid e.cpu (sourceOf c) % c.modulus := by
  rw [sliceOf_eq_elim]
  cases c with
  | wide w =>
    simp only [KernelSnapshotRec.counter,collectTidCurrentCpu,current,Counter.modulus]
    cases M (sourceOf (.wide w)).1 tid <;> rfl
  | narrow n =>
    simp only [KernelSnapshotRec.counter,collectTidCurrentCpu,current,Counter.modulus]
    cases M (sourceOf (.narrow n)).1 tid <;> rfl
  | bin h i =>
    simp only [KernelSnapshotRec.counter,collectTidCurrentCpu,current,Counter.modulus]
    cases M (sourceOf (.bin h i)).1 tid <;> rfl

theorem counter_snapSumCpu (possible : ℕ) (scr : KernelSnapshotRec) (cpu : ℕ) (c : Counter) :
    (snapSumCpu possible M tid scr cpu).counter c =
      (scr.counter c+if cpu < possible then sliceOf M tid cpu (sourceOf c) else 0) %
        c.modulus := by
  have hlt := counter_lt scr c
  rw [sliceOf_eq_elim]
  by_cases hcpu : cpu < possible
  · rw [if_pos hcpu]
    cases c with
    | wide w =>
      simp only [KernelSnapshotRec.counter,snapSumCpu,lookupPercpuElem,if_pos hcpu] at hlt ⊢
      cases M (sourceOf (.wide w)).1 tid with
      | none => exact (Nat.mod_eq_of_lt hlt).symm
      | some p => exact (UInt64.toNat_add _ _).trans (Nat.add_mod_mod _ _ _)
    | narrow n =>
      simp only [KernelSnapshotRec.counter,snapSumCpu,lookupPercpuElem,if_pos hcpu] at hlt ⊢
      cases M (sourceOf (.narrow n)).1 tid with
      | none => exact (Nat.mod_eq_of_lt hlt).symm
      | some p => exact (UInt32.toNat_add _ _).trans (Nat.add_mod_mod _ _ _)
    | bin h i =>
      simp only [KernelSnapshotRec.counter,snapSumCpu,lookupPercpuElem,if_pos hcpu] at hlt ⊢
      cases M (sourceOf (.bin h i)).1 tid with
      | none => exact (Nat.mod_eq_of_lt hlt).symm
      | some p => exact (UInt32.toNat_add _ _).trans (Nat.add_mod_mod _ _ _)
  · rw [if_neg hcpu,Nat.add_zero,Nat.mod_eq_of_lt hlt]
    cases c <;>
      simp only [KernelSnapshotRec.counter,snapSumCpu,lookupPercpuElem,if_neg hcpu,Option.elim_none]

theorem counter_foldl_snapSumCpu (possible : ℕ) (c : Counter) (l : List ℕ) :
    ∀ scr, (l.foldl (snapSumCpu possible M tid) scr).counter c = (scr.counter c+
      (l.map fun cpu => if cpu < possible then sliceOf M tid cpu (sourceOf c) else 0).sum) %
        c.modulus := by
  induction l with
  | nil =>
    intro scr
    rw [List.foldl_nil,List.map_nil,List.sum_nil,Nat.add_zero,Nat.mod_eq_of_lt (counter_lt scr c)]
  | cons cpu l ih =>
    intro scr
    rw [List.foldl_cons,ih,counter_snapSumCpu,Nat.mod_add_mod,List.map_cons,List.sum_cons,
      Nat.add_assoc]

/-- The timer records the sums, where it gets to every processor. -/
theorem counter_snapCollectOne (ses : Session) {mach : Machine} {possible : ℕ}
    (hmach : possible ≤ mach.cpus) (now head : UInt64) (M : Maps) (tid : UInt32) (c : Counter) :
    (snapCollectOne ses mach possible now head M tid).counter c =
      totalOf possible M tid (sourceOf c) % c.modulus := by
  have hsum : ((List.range mach.cpus).map fun cpu =>
      if cpu < possible then sliceOf M tid cpu (sourceOf c) else 0).sum =
        totalOf possible M tid (sourceOf c) := by
    obtain ⟨k,hk⟩ := Nat.exists_eq_add_of_le hmach
    have hfirst : ∀ cpu ∈ List.range possible,
        (if cpu < possible then sliceOf M tid cpu (sourceOf c) else 0) =
          sliceOf M tid cpu (sourceOf c) := fun cpu hcpu => if_pos (List.mem_range.mp hcpu)
    rw [hk,List.range_add,List.map_append,List.sum_append,List.map_map,List.map_congr_left hfirst]
    simp [totalOf,Function.comp_def]
  have hzero : zeroRec.counter c = 0 := by cases c <;> rfl
  have hmeta : ∀ scr, (recCommit ses now head (recSetMeta ses tid scr)).counter c =
      scr.counter c := by
    intro scr
    cases c <;> rfl
  rw [snapCollectOne,hmeta,counter_foldl_snapSumCpu,hzero,Nat.zero_add,hsum]

end Counters

/-! ## A sampler -/

/-- What a record says of its thread. -/
structure Describes (ses : Session) (t : UInt32) (r : KernelSnapshotRec) : Prop where
  tid : r.tid = t
  tgid : r.tgid = (ses.taskMeta t).elim 0 TaskMeta.tgid
  comm : r.comm = (ses.taskMeta t).elim "" TaskMeta.comm
  flags : r.flags = if ses.deepMode then 1 else 0

theorem describes_snapCollectOne (ses : Session) (mach : Machine) (possible : ℕ)
    (now head : UInt64) (M : Maps) (tid : UInt32) :
    Describes ses tid (snapCollectOne ses mach possible now head M tid) := by
  have hcomm : ∀ (l : List ℕ) scr, (l.foldl (snapSumCpu possible M tid) scr).comm = scr.comm := by
    intro l
    induction l with
    | nil => exact fun _ => rfl
    | cons cpu l ih => exact fun scr => ih _
  refine ⟨rfl,rfl,?_,rfl⟩
  simp only [snapCollectOne,recCommit,recSetMeta,hcomm]
  rfl

/-- A record of a sampler that fired on these maps. -/
structure Sampled (ses : Session) (e : Env) (M : Maps) (tid : UInt32) (r : KernelSnapshotRec) :
    Prop where
  describes : Describes ses tid r
  tsNs : r.tsNs = e.now
  counter : ∀ c, r.counter c = sliceOf M tid e.cpu (sourceOf c) % c.modulus

theorem sliceOf_touch {e : Env} {M : Maps} {tid : UInt32}
    (h : ∀ m, M m tid = none → e.start m = 0) (t : UInt32) (cpu : ℕ) (s : Source) :
    sliceOf (touch e tid M) t cpu s = sliceOf M t cpu s := by
  rw [sliceOf,touch,CellLedger.slice_ensure (h s.1)]
  rfl

theorem touch_eq_none {e : Env} {M : Maps} {tid t : UInt32} {m : MapName}
    (h : touch e tid M m t = none) : M m t = none := by
  by_contra hm
  obtain ⟨p,hp⟩ := Option.ne_none_iff_exists'.mp hm
  have hkept : touch e tid M m t = some p := by
    by_cases ht : t = tid
    · subst ht
      simp only [touch,ensure,hp]
    · cases htid : M m tid with
      | some p' => simp only [touch,ensure,htid,hp]
      | none => cases hroom : e.room m <;> simp [touch,ensure,htid,hroom,ht,hp]
  exact absurd (hkept.symm.trans h) (Option.some_ne_none p)

/-- A sampler records its slice of every target and leaves the slices as they are. -/
theorem collectAll_spec (ses : Session) (e : Env) (tids : List UInt32) :
    ∀ (head : UInt64) (M : Maps), (∀ tid ∈ tids, ∀ m, M m tid = none → e.start m = 0) →
      (∀ t cpu s, sliceOf (collectAll ses e tids head M).1 t cpu s = sliceOf M t cpu s) ∧
        (collectAll ses e tids head M).2.map KernelSnapshotRec.tid = tids ∧
        ∀ r ∈ (collectAll ses e tids head M).2, Sampled ses e M r.tid r := by
  induction tids with
  | nil => exact fun _ _ _ => ⟨fun _ _ _ => rfl,rfl,List.forall_mem_nil _⟩
  | cons tid tids ih =>
    intro head M h
    obtain ⟨htid,htids⟩ := List.forall_mem_cons.mp h
    obtain ⟨hslices,hmap,hrecords⟩ := ih (head+1) (touch e tid M)
      fun t ht m hm => htids t ht m (touch_eq_none hm)
    refine ⟨fun t cpu s => (hslices t cpu s).trans (sliceOf_touch htid t cpu s),
      congrArg (tid::·) hmap,List.forall_mem_cons.mpr ⟨?_,fun r hr => ?_⟩⟩
    · refine ⟨⟨rfl,rfl,rfl,rfl⟩,rfl,fun c => ?_⟩
      rw [← sliceOf_touch htid,← counter_collectTidCurrentCpu]
      cases c <;> rfl
    · obtain ⟨hdesc,hts,hcounter⟩ := hrecords r hr
      refine ⟨hdesc,hts,fun c => ?_⟩
      rw [hcounter,sliceOf_touch htid]

/-! ## A run -/

section Run

variable {ses : Session}

theorem sliceOf_step_le {M : Maps} {ev : Event} (h : StepOk ses M ev) (t : UInt32) (cpu : ℕ)
    (s : Source) : sliceOf M t cpu s ≤ sliceOf (step ses M ev).1 t cpu s := by
  cases ev with
  | count m tid cpu' room z d =>
    obtain ⟨m',c⟩ := s
    by_cases hm : m' = m
    · subst hm
      simp only [sliceOf,step,Function.update_self]
      exact CellLedger.slice_le_account h.1 h.2 t cpu c
    · simp only [sliceOf,step,Function.update_of_ne hm]
      exact Nat.le_refl _
  | sample e => exact ((collectAll_spec ses e ses.targets e.head M h).1 t cpu s).ge

/-- The threads only count on. -/
theorem sliceOf_run_le (evs : List Event) (t : UInt32) (cpu : ℕ) (s : Source) :
    ∀ M, RunOk ses evs M → sliceOf M t cpu s ≤ sliceOf (run ses evs M).1 t cpu s := by
  induction evs with
  | nil => exact fun _ _ => Nat.le_refl _
  | cons ev evs ih => exact fun M h => (sliceOf_step_le h.1 t cpu s).trans (ih _ h.2)

/-- What the records of a thread come to. -/
def recorded (recs : List KernelSnapshotRec) (tid : UInt32) (c : Counter) : ℕ :=
  ((recs.filter fun r => r.tid = tid).map fun r => r.counter c).sum

theorem recorded_append (recs recs' : List KernelSnapshotRec) (tid : UInt32) (c : Counter) :
    recorded (recs++recs') tid c = recorded recs tid c+recorded recs' tid c := by
  simp [recorded]

theorem recorded_of_nodup {recs : List KernelSnapshotRec}
    (hnodup : (recs.map KernelSnapshotRec.tid).Nodup) {r : KernelSnapshotRec} (hr : r ∈ recs)
    (c : Counter) : recorded recs r.tid c = r.counter c := by
  induction recs with
  | nil => cases hr
  | cons s recs ih =>
    obtain ⟨hs,hnodup⟩ := List.nodup_cons.mp hnodup
    rcases List.mem_cons.mp hr with rfl | hr
    · have hrest : recs.filter (fun s => s.tid = r.tid) = [] := by
        refine List.filter_eq_nil_iff.mpr fun s hmem heq => hs ?_
        exact of_decide_eq_true heq ▸ List.mem_map_of_mem hmem
      simp [recorded,hrest]
    · have hne : s.tid ≠ r.tid := fun heq => hs (heq ▸ List.mem_map_of_mem hr)
      have hskip : recorded (s::recs) r.tid c = recorded recs r.tid c := by
        simp [recorded,hne]
      rw [hskip,ih hnodup hr]

theorem recorded_step {M : Maps} {ev : Event} (h : StepOk ses M ev) (hnodup : ses.targets.Nodup)
    {tid : UInt32} (htid : tid ∈ ses.targets) (c : Counter) :
    recorded (step ses M ev).2 tid c = ev.sampler.elim 0 fun e =>
      sliceOf M tid e.cpu (sourceOf c) % c.modulus := by
  cases ev with
  | count m tid cpu' room z d => rfl
  | sample e =>
    obtain ⟨_,hmap,hrecords⟩ := collectAll_spec ses e ses.targets e.head M h
    obtain ⟨r,hr,rfl⟩ := List.mem_map.mp (hmap.symm ▸ htid)
    exact (recorded_of_nodup (hmap.symm ▸ hnodup) hr c).trans ((hrecords r hr).counter c)

/-- What the samplers record of a thread lies between its slices at the begin and at the end. -/
theorem recorded_run (hnodup : ses.targets.Nodup) {tid : UInt32} (htid : tid ∈ ses.targets)
    (c : Counter) (evs : List Event) : ∀ M, RunOk ses evs M →
      (∀ e ∈ samplers evs, sliceOf (run ses evs M).1 tid e.cpu (sourceOf c) < c.modulus) →
      ((samplers evs).map fun e => sliceOf M tid e.cpu (sourceOf c)).sum ≤
          recorded (run ses evs M).2 tid c ∧
        recorded (run ses evs M).2 tid c ≤
          ((samplers evs).map fun e => sliceOf (run ses evs M).1 tid e.cpu (sourceOf c)).sum := by
  induction evs with
  | nil => exact fun _ _ _ => ⟨Nat.le_refl _,Nat.le_refl _⟩
  | cons ev evs ih =>
    intro M h hfits
    have hstep := recorded_step h.1 hnodup htid c
    have hgrow := fun e : Env => sliceOf_step_le h.1 tid e.cpu (sourceOf c)
    have hend := fun e : Env => sliceOf_run_le evs tid e.cpu (sourceOf c) _ h.2
    have hbegin := List.sum_le_sum fun e (_ : e ∈ samplers evs) => hgrow e
    simp only [run,recorded_append,hstep]
    cases hev : ev.sampler with
    | none =>
      have hs : samplers (ev::evs) = samplers evs := List.filterMap_cons_none hev
      rw [hs] at hfits ⊢
      obtain ⟨hlow,hhigh⟩ := ih _ h.2 hfits
      simp only [Option.elim_none,Nat.zero_add]
      exact ⟨hbegin.trans hlow,hhigh⟩
    | some e =>
      have hs : samplers (ev::evs) = e::samplers evs := List.filterMap_cons_some hev
      rw [hs] at hfits ⊢
      obtain ⟨hlow,hhigh⟩ := ih _ h.2 fun e' he' => hfits e' (List.mem_cons_of_mem _ he')
      have hle := (hgrow e).trans (hend e)
      rw [Option.elim_some,Nat.mod_eq_of_lt (hle.trans_lt (hfits e List.mem_cons_self)),
        List.map_cons,List.sum_cons,List.map_cons,List.sum_cons]
      exact ⟨Nat.add_le_add_left (hbegin.trans hlow) _,Nat.add_le_add hle hhigh⟩

/-- Every record describes a target, at the time of a sampler. -/
theorem run_records (evs : List Event) : ∀ M, RunOk ses evs M → ∀ r ∈ (run ses evs M).2,
    r.tid ∈ ses.targets ∧ Describes ses r.tid r ∧ ∃ e ∈ samplers evs, r.tsNs = e.now := by
  induction evs with
  | nil => exact fun _ _ => List.forall_mem_nil _
  | cons ev evs ih =>
    intro M h r hr
    rcases List.mem_append.mp hr with hr | hr
    · cases ev with
      | count m tid cpu room z d => cases hr
      | sample e =>
        obtain ⟨_,hmap,hrecords⟩ := collectAll_spec ses e ses.targets e.head M h.1
        obtain ⟨hdesc,hts,_⟩ := hrecords r hr
        exact ⟨hmap ▸ List.mem_map_of_mem hr,hdesc,e,List.mem_cons_self,hts⟩
    · obtain ⟨htid,hdesc,e,he,hts⟩ := ih _ h.2 r hr
      have hsub : samplers evs ⊆ samplers (ev::evs) :=
        ((List.sublist_cons_self ev evs).filterMap _).subset
      exact ⟨htid,hdesc,e,hsub he,hts⟩

/-- Every target has a record once a sampler has fired. -/
theorem exists_record {tid : UInt32} (htid : tid ∈ ses.targets) (evs : List Event) :
    ∀ M, RunOk ses evs M → samplers evs ≠ [] → ∃ r ∈ (run ses evs M).2, r.tid = tid := by
  induction evs with
  | nil => exact fun _ _ hne => absurd rfl hne
  | cons ev evs ih =>
    intro M h hne
    cases ev with
    | count m t cpu room z d =>
      obtain ⟨r,hr,hrtid⟩ := ih _ h.2 hne
      exact ⟨r,List.mem_append_right _ hr,hrtid⟩
    | sample e =>
      obtain ⟨_,hmap,_⟩ := collectAll_spec ses e ses.targets e.head M h.1
      obtain ⟨r,hr,hrtid⟩ := List.mem_map.mp (hmap.symm ▸ htid)
      exact ⟨r,List.mem_append_left _ hr,hrtid⟩

end Run

/-! ## The merged records of a tick -/

theorem foldl_mergeStep_describes {ses : Session} {tid : UInt32} (group : List KernelSnapshotRec) :
    ∀ dst, Describes ses tid dst → (∀ r ∈ group, Describes ses tid r) →
      ∃ r, group.foldl mergeStep (some dst) = some r ∧ Describes ses tid r := by
  induction group with
  | nil => exact fun dst hdst _ => ⟨dst,rfl,hdst⟩
  | cons src group ih =>
    intro dst hdst hgroup
    obtain ⟨hsrc,hgroup⟩ := List.forall_mem_cons.mp hgroup
    refine ih (addSnap dst src) ⟨hdst.tid,hdst.tgid,hdst.comm,?_⟩ hgroup
    show dst.flags ||| src.flags = _
    rw [hdst.flags,hsrc.flags,UInt32.or_self]

section Merge

variable {ses : Session} {recs : List KernelSnapshotRec} {intervalMs q : UInt64}
  (htick : ∀ r ∈ recs, r.tsNs/nsPerTick intervalMs = q)
include htick

theorem filter_groupKey (tid : UInt32) :
    recs.filter (fun r => groupKey (nsPerTick intervalMs) r = (tid,q)) =
      recs.filter fun r => r.tid = tid := by
  refine List.filter_congr fun r hr => decide_eq_decide.mpr ?_
  rw [groupKey,htick r hr,Prod.mk.injEq]
  exact and_iff_left rfl

/-- In one tick, what a group is of and what becomes of it. -/
theorem mem_groups (hdesc : ∀ r ∈ recs, Describes ses r.tid r)
    {e : (UInt32 × UInt64) × Option KernelSnapshotRec}
    (he : e ∈ groups (nsPerTick intervalMs) recs) :
    ∃ r, e = ((r.tid,q),some r) ∧ Describes ses r.tid r ∧ (∃ s ∈ recs, s.tid = r.tid) ∧
      ∀ c, r.counter c = recorded recs r.tid c % c.modulus := by
  obtain ⟨⟨s,hs,hkey⟩,r,hr,_,hsum⟩ := exists_merged he
  have hfst : e.1 = (s.tid,q) := by rw [← hkey,groupKey,htick s hs]
  have hgroup : recs.filter (fun r => groupKey (nsPerTick intervalMs) r = e.1) =
      recs.filter fun r => r.tid = s.tid := by rw [hfst,filter_groupKey htick]
  have hfold : (recs.filter fun r => r.tid = s.tid).foldl mergeStep none = some r := by
    rw [← hgroup,← hr]
    exact ((mem_groupFold _ _ _ recs e.1 e.2).mp he).2
  have hall : ∀ t ∈ recs.filter (fun r => r.tid = s.tid), Describes ses s.tid t := by
    intro t ht
    obtain ⟨ht,htid⟩ := List.mem_filter.mp ht
    exact of_decide_eq_true htid ▸ hdesc t ht
  have hd : Describes ses s.tid r := by
    cases hlist : recs.filter (fun r => r.tid = s.tid) with
    | nil => exact absurd (hlist ▸ List.mem_filter.mpr ⟨hs,decide_eq_true rfl⟩) List.not_mem_nil
    | cons dst group =>
      rw [hlist] at hfold hall
      obtain ⟨hdst,hrest⟩ := List.forall_mem_cons.mp hall
      obtain ⟨r',hr',hd⟩ := foldl_mergeStep_describes group dst hdst hrest
      exact Option.some.inj (hr'.symm.trans hfold) ▸ hd
  refine ⟨r,Prod.ext (hfst.trans (by rw [hd.tid])) hr,hd.tid.symm ▸ hd,⟨s,hs,hd.tid.symm⟩,
    fun c => ?_⟩
  rw [hsum,hgroup,hd.tid]
  rfl

omit htick in
theorem mem_mergePerCpu_iff (r : KernelSnapshotRec) : r ∈ mergePerCpu recs intervalMs ↔
    ∃ e ∈ groups (nsPerTick intervalMs) recs, e.2 = some r := by
  rw [mergePerCpu,List.mem_mergeSort,List.mem_filterMap]
  rfl

variable (hdesc : ∀ r ∈ recs, Describes ses r.tid r)
include hdesc

/-- Each thread has one merged record. -/
theorem nodup_mergePerCpu :
    ((mergePerCpu recs intervalMs).map KernelSnapshotRec.tid).Nodup := by
  have htids : ((mergePerCpu recs intervalMs).map KernelSnapshotRec.tid).Perm
      ((groups (nsPerTick intervalMs) recs).map fun e => e.1.1) := by
    have hmap : ((groups (nsPerTick intervalMs) recs).filterMap Prod.snd).map
        KernelSnapshotRec.tid = (groups (nsPerTick intervalMs) recs).map fun e => e.1.1 := by
      rw [List.map_filterMap,← List.filterMap_eq_map']
      refine List.filterMap_congr fun e he => ?_
      obtain ⟨r,rfl,_⟩ := mem_groups htick hdesc he
      rfl
    rw [← hmap]
    exact (List.mergeSort_perm _ _).map _
  have hkeys : ((groups (nsPerTick intervalMs) recs).map Prod.fst).Nodup := nodup_keys_toList _
  have hinj : ((groups (nsPerTick intervalMs) recs).map Prod.fst).map Prod.fst |>.Nodup := by
    refine hkeys.map_on fun k hk k' hk' heq => Prod.ext heq ?_
    obtain ⟨e,he,rfl⟩ := List.mem_map.mp hk
    obtain ⟨e',he',rfl⟩ := List.mem_map.mp hk'
    obtain ⟨r,rfl,_⟩ := mem_groups htick hdesc he
    obtain ⟨r',rfl,_⟩ := mem_groups htick hdesc he'
    rfl
  rw [List.map_map] at hinj
  exact htids.nodup_iff.mpr hinj

theorem exists_merged_of_mem {s : KernelSnapshotRec} (hs : s ∈ recs) :
    ∃ r ∈ mergePerCpu recs intervalMs, r.tid = s.tid := by
  have hkey : (s.tid,q) ∈ (groups (nsPerTick intervalMs) recs).map Prod.fst :=
    (mem_keys_groupFold _ _ _ _ _).mpr ⟨s,hs,by rw [groupKey,htick s hs]⟩
  obtain ⟨e,he,hfst⟩ := List.mem_map.mp hkey
  obtain ⟨r,rfl,_⟩ := mem_groups htick hdesc he
  exact ⟨r,(mem_mergePerCpu_iff r).mpr ⟨_,he,rfl⟩,congrArg Prod.fst hfst⟩

end Merge

/-! ## The two producers -/

/-- Every counter of the record lies between those of two others of the same thread. -/
structure Between (lo hi r : KernelSnapshotRec) : Prop where
  tid : lo.tid = r.tid ∧ hi.tid = r.tid
  tgid : lo.tgid = r.tgid ∧ hi.tgid = r.tgid
  comm : lo.comm = r.comm ∧ hi.comm = r.comm
  flags : lo.flags = r.flags ∧ hi.flags = r.flags
  le : ∀ c, lo.counter c ≤ r.counter c
  ge : ∀ c, r.counter c ≤ hi.counter c

theorem sum_samplers {evs : List Event} {possible : ℕ}
    (hcpus : ((samplers evs).map Env.cpu).Perm (List.range possible)) (M : Maps) (tid : UInt32)
    (s : Source) : ((samplers evs).map fun e => sliceOf M tid e.cpu s).sum =
      totalOf possible M tid s := by
  have hmap : ((samplers evs).map fun e => sliceOf M tid e.cpu s) =
      ((samplers evs).map Env.cpu).map fun cpu => sliceOf M tid cpu s := by
    rw [List.map_map]
    rfl
  rw [hmap,totalOf]
  exact (hcpus.map _).sum_eq

/-- One target; it is switched out on processor 1 after the sampler of processor 0 has fired. -/
def oneTarget : Session := ⟨[7],fun _ => some ⟨5,"worker"⟩,false⟩

def switchedBetween : List Event :=
  [.sample { cpu := 0, now := 100, head := 1 },
    .count .switches 7 1 true 0 fun c => if c = .vol then 1 else 0,
    .sample { cpu := 1, now := 140, head := 2 }]

theorem runOk_switchedBetween : RunOk oneTarget switchedBetween fun _ _ => none := by
  have hstart : ∀ (cpu : ℕ) (now head : UInt64) m,
      Env.start { cpu := cpu, now := now, head := head } m = 0 := by
    intro cpu now head m
    cases m <;> rfl
  refine ⟨fun _ _ m _ => hstart _ _ _ m,⟨fun _ => rfl,fun c => ?_⟩,fun _ _ m _ => hstart _ _ _ m,
    trivial⟩
  cases c <;> decide

theorem totalOf_switchedBetween (c : Counter) :
    totalOf 2 (run oneTarget switchedBetween fun _ _ => none).1 7 (sourceOf c) < c.modulus := by
  cases c with
  | wide w => cases w <;> decide
  | narrow n => cases n <;> decide
  | bin h i => cases h <;> (revert i; decide)

end Snapshotter
end ETraceDiag
