import ETraceDiag.CellLedger
import ETraceDiag.DeepMaps
import ETraceDiag.EpisodeMaps
import ETraceDiag.LatencyLedger
import Mathlib.Data.List.TakeWhile

/-!
# Hot-file accounting

`vfs_read` and `vfs_write` as the file hooks see them in DEEP: an entry may be sampled into
`io_start`, one slot for a thread, and an exit accounts what it finds there to `io_file`. The
calls of a thread are nested.
-/

namespace ETraceDiag
namespace HotFiles

open CellCounters CellLedger Transition
open DeepMaps (IoFileKey)
open EpisodeMaps (base4Bin put put_eq_update)
open LatencyLedger (base4Bin_lt)

/-- The cells of `struct io_file_val`. -/
inductive IoFileCell
  | bytes
  | ops
  | errors
  | latSum
  | hist (i : Fin 13)
  deriving DecidableEq

def IoFileCell.width : IoFileCell → ℕ
  | .bytes => 64
  | .ops => 32
  | .errors => 64
  | .latSum => 64
  | .hist _ => 32

inductive HookMap
  | ioStart
  | ioFile
  deriving DecidableEq,Repr

/-- The string at the front of a buffer. -/
def cstr (path : List UInt8) : List UInt8 := path.takeWhile (· ≠ 0)

theorem ne_zero_of_mem_cstr {path : List UInt8} {a : UInt8} (h : a ∈ cstr path) : a ≠ 0 := by
  simpa using List.mem_takeWhile_imp h

structure File where
  dev : UInt32
  ino : UInt64
  path : List UInt8
  string : ∀ a ∈ path, a ≠ 0
  deriving DecidableEq

/-- The file with the string in a buffer. -/
def File.ofBuffer (dev : UInt32) (ino : UInt64) (path : List UInt8) : File :=
  ⟨dev,ino,cstr path,fun _ => ne_zero_of_mem_cstr⟩

/-- `struct io_start_t`; `file.path` is the string in it. -/
structure IoStart where
  file : File
  ts : ℕ
  deriving DecidableEq

structure State where
  deepEnabled : Bool := false
  targets : List ℕ := []
  iofileThresh : ℕ := 0
  ioStart : ℕ → Option IoStart := fun _ => none
  ioFile : Counters IoFileKey IoFileCell := fun _ => none

/-- `rand` is what `bpf_get_prandom_u32` gives; `padding` and `stackPath` are the bytes on the
stack where `iofile_exit` builds its key, `z` those where `h_iof` has its value. -/
structure Env where
  cpu : ℕ
  now : ℕ
  rand : ℕ := 0
  padding : UInt32 := 0
  stackPath : List UInt8 := []
  z : IoFileCell → ℕ := 0
  room : HookMap → Bool := fun _ => true

/-! ## The hooks -/

def State.iofileSampled (e : Env) (s : State) : Bool :=
  s.iofileThresh ≠ 0 && e.rand ≤ s.iofileThresh

/-- The entry of this call is saved. -/
def State.samples (e : Env) (tid : ℕ) (s : State) : Bool :=
  s.deepEnabled && tid ∈ s.targets && s.iofileSampled e

/-- The arguments of `vfs_read` and `vfs_write`: the file, and its path unless `bpf_d_path`
fails. -/
structure FileArg where
  dev : UInt32
  ino : UInt64
  path : Option (List UInt8)

def State.saveStart (e : Env) (tid : ℕ) (file : File) (s : State) : State :=
  if s.samples e tid then
    { s with ioStart := put (e.room .ioStart) tid ⟨file,e.now⟩ s.ioStart }
  else s

def State.iofileEnter (e : Env) (tid : ℕ) (f : FileArg) (s : State) : State :=
  s.saveStart e tid (.ofBuffer f.dev f.ino (f.path.getD []))

/-- The probes do not ask for the path. -/
def State.iofileEnterKprobe (e : Env) (tid : ℕ) (f : FileArg) (s : State) : State :=
  s.saveStart e tid (.ofBuffer f.dev f.ino [])

/-- The key on the stack: only the string is copied into `k.path`. -/
def ioFileKey (e : Env) (file : File) : IoFileKey :=
  ⟨file.dev,e.padding,file.ino,file.path++0::e.stackPath.drop (file.path.length+1)⟩

/-- A return of 0 counts as an error here. -/
def ioDelta (ret : ℤ) (lat : ℕ) : IoFileCell → ℕ
  | .bytes => if 0 < ret then ret.toNat else 0
  | .ops => if 0 < ret then 1 else 0
  | .errors => if 0 < ret then 0 else 1
  | .latSum => lat
  | .hist i => if i = base4Bin lat then 1 else 0

def State.iofileExit (e : Env) (tid : ℕ) (ret : ℤ) (s : State) : State :=
  if s.deepEnabled ∧ tid ∈ s.targets then
    match s.ioStart tid with
    | none => s
    | some st =>
      let lat := if st.ts < e.now then e.now-st.ts else 0
      { s with
        ioFile := account IoFileCell.width (e.room .ioFile) e.z e.cpu (ioFileKey e st.file)
          (ioDelta ret lat) s.ioFile
        ioStart := Function.update s.ioStart tid none }
  else s

/-! ## The calls of the threads -/

inductive Hooks
  | fentry
  | kprobe

inductive Event
  | enter (e : Env) (tid : ℕ) (f : FileArg)
  | exit (e : Env) (tid : ℕ) (ret : ℤ)

/-- A call that was not sampled has nothing to account. -/
structure Call where
  sampled : Bool
  start : IoStart

/-- A sampled call that has returned; `key` is the entry of `io_file` that was accounted. -/
structure Done where
  start : IoStart
  key : IoFileKey
  cpu : ℕ
  ret : ℤ
  length : ℕ

/-- The calls that a thread is in, the innermost first; its last sampled entry, until its next
exit; and the sampled calls that returned. -/
structure Track where
  calls : ℕ → List Call := fun _ => []
  latest : ℕ → Option IoStart := fun _ => none
  done : List Done := []

structure Sys where
  kernel : State
  track : Track

def Hooks.file : Hooks → FileArg → File
  | .fentry, f => .ofBuffer f.dev f.ino (f.path.getD [])
  | .kprobe, f => .ofBuffer f.dev f.ino []

/-- The sampled call that returns when the innermost call of the thread returns. -/
def Track.own (tid : ℕ) (t : Track) : Option IoStart :=
  match t.calls tid with
  | ⟨true,start⟩::_ => some start
  | _ => none

def Track.enter (tid : ℕ) (c : Call) (t : Track) : Track :=
  { t with
    calls := Function.update t.calls tid (c::t.calls tid)
    latest := if c.sampled then Function.update t.latest tid (some c.start) else t.latest }

def Track.exit (e : Env) (tid : ℕ) (ret : ℤ) (t : Track) : Track where
  calls := Function.update t.calls tid (t.calls tid).tail
  latest := Function.update t.latest tid none
  done := t.done++
    ((t.own tid).map fun st => ⟨st,ioFileKey e st.file,e.cpu,ret,e.now-st.ts⟩).toList

def step (hooks : Hooks) (s : Sys) : Event → Sys
  | .enter e tid f =>
    ⟨match hooks with
      | .fentry => s.kernel.iofileEnter e tid f
      | .kprobe => s.kernel.iofileEnterKprobe e tid f,
      s.track.enter tid ⟨s.kernel.samples e tid,⟨hooks.file f,e.now⟩⟩⟩
  | .exit e tid ret => ⟨s.kernel.iofileExit e tid ret,s.track.exit e tid ret⟩

/-- DEEP is on and the maps have been wiped. -/
def start (s : State) : Sys :=
  ⟨{ s with deepEnabled := true, ioStart := fun _ => none, ioFile := fun _ => none },{}⟩

/-- What a call adds to the entry of its file: an error is a negative return. -/
def Done.amount (d : Done) : IoFileCell → ℕ
  | .bytes => d.ret.toNat
  | .ops => if 0 < d.ret then 1 else 0
  | .errors => if d.ret < 0 then 1 else 0
  | .latSum => d.length
  | .hist i => if i = base4Bin d.length then 1 else 0

def Done.charge (d : Done) : Charge IoFileKey IoFileCell := ⟨d.key,d.cpu,d.amount⟩

/-- The file that an entry of `io_file` is for. -/
def fileOf (k : IoFileKey) : File := .ofBuffer k.dev k.ino k.path

/-- The sampled calls that returned are accounted once each, to an entry of the file of their
entry, and the bins of an entry count them. -/
structure Accounted (s : Sys) : Prop where
  ioFile : Records IoFileCell.width s.kernel.ioFile (s.track.done.map Done.charge)
  file : ∀ d ∈ s.track.done, fileOf d.key = d.start.file
  bins : ∀ key C, ∑ i, cells C s.kernel.ioFile key (.hist i) =
    (s.track.done.filter fun d => d.key = key ∧ d.cpu ∈ C).length

/-- A sampled call that returns has the last sampled entry of its thread, with no exit since;
where another call returns, no entry was sampled since the last exit. A sampled entry finds room
for its record. -/
def EndsLatest (s : Sys) : Event → Prop
  | .enter e tid _ =>
    s.kernel.samples e tid = true → s.track.latest tid = none → e.room .ioStart = true
  | .exit _ tid _ => s.track.latest tid = s.track.own tid

/-- A sampled call does not return 0, and the entry of its file is there or starts from zeros,
with room in its bins. -/
def Fits (s : Sys) : Event → Prop
  | .enter _ _ _ => True
  | .exit e tid ret => ∀ st, s.track.own tid = some st →
      ret ≠ 0 ∧ Clean (e.room .ioFile) e.z (ioFileKey e st.file) s.kernel.ioFile ∧
        ∀ i, slice s.kernel.ioFile (ioFileKey e st.file) e.cpu (.hist i)+
          ioDelta ret (e.now-st.ts) (.hist i) < 2^32

/-! ## What one step does -/

theorem cstr_string (file : File) (rest : List UInt8) : cstr (file.path++0::rest) = file.path := by
  rw [cstr,List.takeWhile_append_of_pos fun a ha => by simpa using file.string a ha]
  simp

theorem fileOf_ioFileKey (e : Env) (file : File) : fileOf (ioFileKey e file) = file := by
  simp only [fileOf,File.ofBuffer,ioFileKey,cstr_string]

/-- The hook and the account agree unless 0 is returned. -/
theorem ioDelta_eq {ret : ℤ} (h : ret ≠ 0) (st : IoStart) (key : IoFileKey) (cpu lat : ℕ) :
    ioDelta ret lat = (⟨st,key,cpu,ret,lat⟩ : Done).amount := by
  funext c
  cases c with
  | bytes =>
    simp only [ioDelta,Done.amount]
    split <;> omega
  | ops => rfl
  | errors =>
    simp only [ioDelta,Done.amount]
    by_cases hpos : 0 < ret
    · rw [if_pos hpos,if_neg (by omega)]
    · rw [if_neg hpos,if_pos (by omega)]
  | latSum => rfl
  | hist i => rfl

theorem Done.binned_charge (d : Done) : Binned IoFileCell.hist d.charge :=
  sum_one_bin (base4Bin_lt d.length)

theorem step_gates (hooks : Hooks) (s : Sys) (ev : Event) :
    (step hooks s ev).kernel.targets = s.kernel.targets ∧
      (step hooks s ev).kernel.deepEnabled = s.kernel.deepEnabled := by
  have hsave : ∀ e tid file, (s.kernel.saveStart e tid file).targets = s.kernel.targets ∧
      (s.kernel.saveStart e tid file).deepEnabled = s.kernel.deepEnabled := by
    intro e tid file
    rw [State.saveStart]
    split <;> exact ⟨rfl,rfl⟩
  cases ev with
  | enter e tid f => cases hooks <;> exact hsave ..
  | exit e tid ret =>
    simp only [step,State.iofileExit]
    split
    · cases s.kernel.ioStart tid <;> exact ⟨rfl,rfl⟩
    · exact ⟨rfl,rfl⟩

/-- `io_start` has the last sampled entry of every thread, the entries of `io_file` hold what the
calls come to, no bin has overflowed, and only calls of targets were sampled. -/
structure Ledger (s : Sys) : Prop where
  deep : s.kernel.deepEnabled = true
  slot : s.kernel.ioStart = s.track.latest
  records : Records IoFileCell.width s.kernel.ioFile (s.track.done.map Done.charge)
  file : ∀ d ∈ s.track.done, fileOf d.key = d.start.file
  bins : ∀ i key cpu, charged (s.track.done.map Done.charge) key cpu (.hist i) < 2^32
  others : ∀ tid, tid ∉ s.kernel.targets → s.track.latest tid = none ∧
    ∀ c ∈ s.track.calls tid, c.sampled = false

theorem ledger_start (s : State) : Ledger (start s) where
  deep := rfl
  slot := rfl
  records := records_nil _
  file _ hd := by cases hd
  bins _ _ _ := by simp [start,charged,chargesOf]
  others _ _ := ⟨rfl,fun _ hc => by cases hc⟩

theorem Ledger.own_of_not_target {s : Sys} (h : Ledger s) {tid : ℕ}
    (htid : tid ∉ s.kernel.targets) : s.track.own tid = none := by
  have hcalls := (h.others tid htid).2
  rw [Track.own]
  split
  · next start rest heq =>
    have hsampled := hcalls ⟨true,start⟩ (by simp [heq])
    cases hsampled
  · rfl

theorem mem_enter {t : Track} {tid tid' : ℕ} {c c' : Call}
    (h : c ∈ (t.enter tid c').calls tid') : c = c' ∨ c ∈ t.calls tid' := by
  simp only [Track.enter] at h
  by_cases heq : tid' = tid
  · subst heq
    rw [Function.update_self] at h
    exact List.mem_cons.mp h
  · rw [Function.update_of_ne heq] at h
    exact Or.inr h

theorem Ledger.enter {s : Sys} (h : Ledger s) {e : Env} {tid : ℕ} (file : File)
    (hroom : s.kernel.samples e tid = true → s.track.latest tid = none → e.room .ioStart = true) :
    Ledger ⟨s.kernel.saveStart e tid file,
      s.track.enter tid ⟨s.kernel.samples e tid,⟨file,e.now⟩⟩⟩ := by
  cases hs : s.kernel.samples e tid with
  | false =>
    rw [State.saveStart,hs,if_neg Bool.false_ne_true]
    refine ⟨h.deep,h.slot,h.records,h.file,h.bins,fun tid' htid' => ⟨(h.others tid' htid').1,?_⟩⟩
    intro c hc
    rcases mem_enter hc with rfl | hc
    · rfl
    · exact (h.others tid' htid').2 c hc
  | true =>
    have htid : tid ∈ s.kernel.targets := by
      simp only [State.samples,Bool.and_eq_true,decide_eq_true_eq] at hs
      exact hs.1.2
    rw [State.saveStart,hs,if_pos rfl]
    refine ⟨h.deep,?_,h.records,h.file,h.bins,fun tid' htid' => ?_⟩
    · simp only [Track.enter,if_true]
      rw [put_eq_update (h.slot ▸ hroom hs),h.slot]
    · have hne : tid' ≠ tid := fun heq => htid' (heq ▸ htid)
      simp only [Track.enter,if_true]
      rw [Function.update_of_ne hne,Function.update_of_ne hne]
      exact h.others tid' htid'

/-- The exit hook, where the slot has the call that returns. -/
theorem iofileExit_of_some {e : Env} {tid : ℕ} (ret : ℤ) {s : State} {st : IoStart}
    (hdeep : s.deepEnabled = true) (htid : tid ∈ s.targets) (hst : s.ioStart tid = some st) :
    (s.iofileExit e tid ret).ioFile = account IoFileCell.width (e.room .ioFile) e.z e.cpu
      (ioFileKey e st.file) (ioDelta ret (e.now-st.ts)) s.ioFile := by
  have hlat : (if st.ts < e.now then e.now-st.ts else 0) = e.now-st.ts := by
    split <;> omega
  rw [State.iofileExit,if_pos ⟨hdeep,htid⟩,hst]
  simp only [hlat]

theorem iofileExit_of_none {e : Env} {tid : ℕ} {ret : ℤ} {s : State}
    (h : tid ∈ s.targets → s.ioStart tid = none) : s.iofileExit e tid ret = s := by
  rw [State.iofileExit]
  split
  · next hgate => rw [h hgate.2]
  · rfl

theorem iofileExit_ioStart {e : Env} {tid : ℕ} {ret : ℤ} {s : State}
    (hdeep : s.deepEnabled = true) (hother : tid ∉ s.targets → s.ioStart tid = none) :
    (s.iofileExit e tid ret).ioStart = Function.update s.ioStart tid none := by
  have hself : s.ioStart tid = none → Function.update s.ioStart tid none = s.ioStart := by
    intro hnone
    have heq := Function.update_eq_self tid s.ioStart
    rwa [hnone] at heq
  by_cases htid : tid ∈ s.targets
  · cases hst : s.ioStart tid with
    | none => rw [iofileExit_of_none fun _ => hst,hself hst]
    | some st => rw [State.iofileExit,if_pos ⟨hdeep,htid⟩,hst]
  · rw [iofileExit_of_none fun h => absurd h htid,hself (hother htid)]

theorem mem_tail_of_mem_update {t : Track} {tid tid' : ℕ} {c : Call}
    (h : c ∈ Function.update t.calls tid (t.calls tid).tail tid') : c ∈ t.calls tid' := by
  by_cases heq : tid' = tid
  · subst heq
    rw [Function.update_self] at h
    exact List.mem_of_mem_tail h
  · rwa [Function.update_of_ne heq] at h

theorem Ledger.exit_slot {s : Sys} (h : Ledger s) (e : Env) (tid : ℕ) (ret : ℤ) :
    (s.kernel.iofileExit e tid ret).ioStart = (s.track.exit e tid ret).latest := by
  rw [iofileExit_ioStart h.deep fun htid => h.slot ▸ (h.others tid htid).1,h.slot]
  rfl

theorem Ledger.exit_others {s : Sys} (h : Ledger s) (e : Env) (tid : ℕ) (ret : ℤ) (tid' : ℕ)
    (htid' : tid' ∉ s.kernel.targets) : (s.track.exit e tid ret).latest tid' = none ∧
      ∀ c ∈ (s.track.exit e tid ret).calls tid', c.sampled = false := by
  refine ⟨?_,fun c hc => (h.others tid' htid').2 c (mem_tail_of_mem_update hc)⟩
  simp only [Track.exit,Function.update_apply]
  split
  · rfl
  · exact (h.others tid' htid').1

/-- No sampled call returns, and nothing is accounted. -/
theorem Ledger.exitOther {s : Sys} (h : Ledger s) {e : Env} {tid : ℕ} {ret : ℤ}
    (hlatest : EndsLatest s (.exit e tid ret)) (hst : s.track.own tid = none) :
    Ledger ⟨s.kernel.iofileExit e tid ret,s.track.exit e tid ret⟩ := by
  have hslot := h.exit_slot e tid ret
  have hkernel : s.kernel.iofileExit e tid ret = s.kernel :=
    iofileExit_of_none fun _ => (congrFun h.slot tid).trans (hlatest.trans hst)
  have hdone : (s.track.exit e tid ret).done = s.track.done := by simp [Track.exit,hst]
  rw [hkernel] at hslot ⊢
  refine ⟨h.deep,hslot,?_,?_,?_,h.exit_others e tid ret⟩
  · rw [hdone]
    exact h.records
  · rw [hdone]
    exact h.file
  · rw [hdone]
    exact h.bins

/-- A sampled call returns and is accounted. -/
theorem Ledger.exitOwn {s : Sys} (h : Ledger s) {e : Env} {tid : ℕ} {ret : ℤ} {st : IoStart}
    (hlatest : EndsLatest s (.exit e tid ret)) (hfits : Fits s (.exit e tid ret))
    (hst : s.track.own tid = some st) :
    Ledger ⟨s.kernel.iofileExit e tid ret,s.track.exit e tid ret⟩ := by
  have htid : tid ∈ s.kernel.targets := by
    by_contra hnot
    rw [h.own_of_not_target hnot] at hst
    cases hst
  obtain ⟨hret,hclean,hbins⟩ := hfits st hst
  have hgates := step_gates .fentry s (.exit e tid ret)
  have hfile := iofileExit_of_some (e:=e) ret h.deep htid
    ((congrFun h.slot tid).trans (hlatest.trans hst))
  rw [ioDelta_eq hret st (ioFileKey e st.file) e.cpu] at hfile
  have hdone : (s.track.exit e tid ret).done =
      s.track.done++[⟨st,ioFileKey e st.file,e.cpu,ret,e.now-st.ts⟩] := by
    simp [Track.exit,hst]
  refine ⟨hgates.2.trans h.deep,h.exit_slot e tid ret,?_,?_,?_,fun tid' htid' =>
    h.exit_others e tid ret tid' (hgates.1 ▸ htid')⟩
  · rw [hfile,hdone,List.map_append]
    exact h.records.account hclean _ _
  · rw [hdone]
    intro d hd
    rcases List.mem_append.mp hd with hd | hd
    · exact h.file d hd
    · rw [List.mem_singleton.mp hd]
      exact fileOf_ioFileKey e st.file
  · rw [hdone,List.map_append]
    intro i
    refine h.records.lt_concat (h.bins i) ?_
    have hbin := hbins i
    rwa [ioDelta_eq hret st (ioFileKey e st.file) e.cpu] at hbin

theorem Ledger.step {s : Sys} (h : Ledger s) (hooks : Hooks) {ev : Event}
    (hlatest : EndsLatest s ev) (hfits : Fits s ev) : Ledger (HotFiles.step hooks s ev) := by
  cases ev with
  | enter e tid f => cases hooks <;> exact h.enter _ hlatest
  | exit e tid ret =>
    cases hst : s.track.own tid with
    | none => exact h.exitOther hlatest hst
    | some st => exact h.exitOwn hlatest hfits hst

theorem Ledger.accounted {s : Sys} (h : Ledger s) : Accounted s := by
  refine ⟨h.records,h.file,fun key C => ?_⟩
  have hbinned : ∀ x ∈ s.track.done.map Done.charge, Binned IoFileCell.hist x := by
    intro x hx
    obtain ⟨d,_,rfl⟩ := List.mem_map.mp hx
    exact d.binned_charge
  rw [h.records.sum_bins_eq IoFileCell.hist hbinned (fun i cpu => h.bins i key cpu) C,chargesIn,
    List.filter_map,List.length_map]
  rfl

/-! ## Runs -/

/-- Where no call comes in between a sampled entry and its exit, and sampled calls return data or
an error, each of them is accounted once. -/
theorem hotFiles_accounted (hooks : Hooks) (s : State) (es : List Event)
    (h : Along (step hooks) (fun s ev => EndsLatest s ev ∧ Fits s ev) (start s) es) :
    Accounted (run (step hooks) (start s) es) :=
  (Along.of_invariant (step hooks) (P:=fun _ _ => True)
    (fun _ _ hI hC => hI.step hooks hC.1 hC.2) (fun _ _ _ _ => trivial) es _
    (ledger_start s) h).2.accounted

/-- Every call of thread 7 is sampled. -/
def reader : State := { targets := [7], iofileThresh := 1 }

/-- Thread 7 reads 100 bytes, from 10 to 30. -/
def oneRead : List Event := [.enter { cpu := 0, now := 10 } 7 ⟨1,2,none⟩,
  .exit { cpu := 0, now := 30 } 7 100]

theorem hotFiles_accounted_oneRead :
    Along (step .fentry) (fun s ev => EndsLatest s ev ∧ Fits s ev) (start reader) oneRead ∧
      Accounted (run (step .fentry) (start reader) oneRead) := by
  have h : Along (step .fentry) (fun s ev => EndsLatest s ev ∧ Fits s ev) (start reader)
      oneRead := by
    refine ⟨⟨fun _ _ => rfl,trivial⟩,⟨rfl,fun st hst => ?_⟩,trivial⟩
    obtain rfl := Option.some.inj hst
    exact ⟨by decide,fun _ => ⟨rfl,rfl⟩,by decide⟩
  exact ⟨h,hotFiles_accounted _ _ _ h⟩

/-- Thread 7 reads at the end of a file: 0 is returned and an error is counted. -/
theorem endOfFile_not_accounted : ¬∀ (hooks : Hooks) (s : State) (es : List Event),
    Accounted (run (step hooks) (start s) es) := by
  intro h
  have herrors := (h .fentry reader [.enter { cpu := 0, now := 10 } 7 ⟨1,2,none⟩,
    .exit { cpu := 0, now := 30 } 7 0]).ioFile ⟨1,0,2,[0]⟩ 0 .errors
  exact absurd herrors (by decide)

end HotFiles
end ETraceDiag
