import ETraceDiag.CellLedger
import ETraceDiag.EpisodeMaps
import ETraceDiag.LatencyLedger

/-!
# Block requests

The block hooks: a request is inserted, issued and completed, each on any processor, and its
completion is counted for the thread that inserted it and for its device. A thread that leaves
the targets and an episode that starts clear entries between the requests.
-/

namespace ETraceDiag
namespace BlockIo

open CellCounters CellLedger Transition
open EpisodeMaps (base4Bin put put_eq_update)
open LatencyLedger (base4Bin_lt)

/-- The cells of `struct blk_io_t`. -/
inductive BlkCell
  | ops
  | bytes
  | latSum
  | hist (i : Fin 13)
  deriving DecidableEq

def BlkCell.width : BlkCell → ℕ
  | .ops => 64
  | .bytes => 64
  | .latSum => 64
  | .hist _ => 32

inductive HookMap
  | blkReq
  | blockIo
  | devIo
  deriving DecidableEq,Repr

/-- What a completion reads of `struct blk_req_t`. -/
structure BlkReq where
  issueTs : ℕ
  dev : ℕ
  pid : ℕ
  deriving DecidableEq

structure State where
  blkReq : ℕ → Option BlkReq := fun _ => none
  blockIo : Counters ℕ BlkCell := fun _ => none
  devIo : Counters ℕ BlkCell := fun _ => none

/-- `stackTs` is on the stack where `on_rq_insert` leaves `issue_ts`; `z` and `zDev` are where
`h_blk` has its value. -/
structure Env where
  cpu : ℕ
  now : ℕ
  stackTs : ℕ := 0
  z : BlkCell → ℕ := 0
  zDev : BlkCell → ℕ := 0
  room : HookMap → Bool := fun _ => true

/-! ## The hooks -/

def State.onRqInsert (e : Env) (rq dev pid : ℕ) (s : State) : State :=
  { s with blkReq := put (e.room .blkReq) rq ⟨e.stackTs,dev,pid⟩ s.blkReq }

def State.onRqIssue (e : Env) (rq : ℕ) (s : State) : State :=
  match s.blkReq rq with
  | none => s
  | some r => { s with blkReq := Function.update s.blkReq rq (some { r with issueTs := e.now }) }

def blkDelta (nrBytes lat : ℕ) : BlkCell → ℕ
  | .ops => 1
  | .bytes => nrBytes
  | .latSum => lat
  | .hist i => if i = base4Bin lat then 1 else 0

def State.onRqComplete (e : Env) (rq nrBytes : ℕ) (s : State) : State :=
  match s.blkReq rq with
  | none => s
  | some r =>
    let lat := if r.issueTs ≠ 0 ∧ r.issueTs < e.now then e.now-r.issueTs else 0
    { blkReq := Function.update s.blkReq rq none
      blockIo := account BlkCell.width (e.room .blockIo) e.z e.cpu r.pid (blkDelta nrBytes lat)
        s.blockIo
      devIo := account BlkCell.width (e.room .devIo) e.zDev e.cpu r.dev (blkDelta nrBytes lat)
        s.devIo }

/-! ## The requests -/

/-- `resetTid` is what `ResetTidCounters` does to `block_io`, `resetDevices` what
`ResetEpisodeMaps` does to `dev_io`. -/
inductive Event
  | insert (e : Env) (rq dev pid : ℕ)
  | issue (e : Env) (rq : ℕ)
  | complete (e : Env) (rq nrBytes : ℕ)
  | resetTid (pid : ℕ)
  | resetDevices

/-- A request that was inserted, and when it was last issued. -/
structure Flight where
  dev : ℕ
  pid : ℕ
  issued : Option ℕ := none

/-- A request that was completed; `length` is the time since it was last issued. -/
structure Done where
  dev : ℕ
  pid : ℕ
  cpu : ℕ
  bytes : ℕ
  length : ℕ

/-- The requests in flight, and those that were completed since the entry of their thread, or of
their device, was last cleared. -/
structure Track where
  inFlight : ℕ → Option Flight := fun _ => none
  byThread : List Done := []
  byDevice : List Done := []

structure Sys where
  kernel : State := {}
  track : Track := {}

def Flight.done (f : Flight) (e : Env) (nrBytes : ℕ) : Done :=
  ⟨f.dev,f.pid,e.cpu,nrBytes,e.now-f.issued.getD 0⟩

def Track.step (t : Track) : Event → Track
  | .insert _ rq dev pid =>
    { t with inFlight := Function.update t.inFlight rq (some ⟨dev,pid,none⟩) }
  | .issue e rq =>
    { t with
      inFlight := Function.update t.inFlight rq
        ((t.inFlight rq).map fun f => { f with issued := some e.now }) }
  | .complete e rq nrBytes =>
    let done := ((t.inFlight rq).map fun f => f.done e nrBytes).toList
    ⟨Function.update t.inFlight rq none,t.byThread++done,t.byDevice++done⟩
  | .resetTid pid => { t with byThread := t.byThread.filter fun d => d.pid ≠ pid }
  | .resetDevices => { t with byDevice := [] }

def State.step (s : State) : Event → State
  | .insert e rq dev pid => s.onRqInsert e rq dev pid
  | .issue e rq => s.onRqIssue e rq
  | .complete e rq nrBytes => s.onRqComplete e rq nrBytes
  | .resetTid pid => { s with blockIo := erase pid s.blockIo }
  | .resetDevices => { s with devIo := fun _ => none }

def step (s : Sys) (ev : Event) : Sys := ⟨s.kernel.step ev,s.track.step ev⟩

def Done.charge (key : Done → ℕ) (d : Done) : Charge ℕ BlkCell :=
  ⟨key d,d.cpu,blkDelta d.bytes d.length⟩

/-- The requests of a key, on some processors. -/
def doneOf (key : Done → ℕ) (done : List Done) (k : ℕ) (C : Finset ℕ) : List Done :=
  done.filter fun d => key d = k ∧ d.cpu ∈ C

/-- The entries count each request once, with its bytes and its time. -/
def Counts (m : Counters ℕ BlkCell) (key : Done → ℕ) (done : List Done) : Prop :=
  ∀ k C, cells C m k .ops = (doneOf key done k C).length ∧
    ∑ i, cells C m k (.hist i) = (doneOf key done k C).length ∧
    cells C m k .bytes % 2^64 = ((doneOf key done k C).map Done.bytes).sum % 2^64 ∧
    cells C m k .latSum % 2^64 = ((doneOf key done k C).map Done.length).sum % 2^64

structure Accounted (s : Sys) : Prop where
  blockIo : Counts s.kernel.blockIo Done.pid s.track.byThread
  devIo : Counts s.kernel.devIo Done.dev s.track.byDevice

/-- A completion finds room for its entries, or new ones start from zeros, and their bins do not
overflow. -/
structure CompletionOk (s : Sys) (e : Env) (nrBytes : ℕ) (f : Flight) : Prop where
  issued : f.issued ≠ none
  blockIo : Clean (e.room .blockIo) e.z f.pid s.kernel.blockIo
  devIo : Clean (e.room .devIo) e.zDev f.dev s.kernel.devIo
  bins : ∀ i, slice s.kernel.blockIo f.pid e.cpu (.hist i)+
    blkDelta nrBytes (f.done e nrBytes).length (.hist i) < 2^32
  devBins : ∀ i, slice s.kernel.devIo f.dev e.cpu (.hist i)+
    blkDelta nrBytes (f.done e nrBytes).length (.hist i) < 2^32

/-- An insert finds room, the clock is not at zero, and a request that is completed was issued
since it was inserted. -/
def StepOk (s : Sys) : Event → Prop
  | .insert e rq _ _ => s.kernel.blkReq rq = none → e.room .blkReq = true
  | .issue e _ => 0 < e.now
  | .complete e rq nrBytes => ∀ f, s.track.inFlight rq = some f → CompletionOk s e nrBytes f
  | _ => True

/-! ## One map -/

theorem binned_charge (key : Done → ℕ) (d : Done) : Binned BlkCell.hist (d.charge key) :=
  sum_one_bin (base4Bin_lt d.length)

/-- The cells hold what the requests come to, and no bin has overflowed. -/
structure Kept (m : Counters ℕ BlkCell) (key : Done → ℕ) (done : List Done) : Prop where
  records : Records BlkCell.width m (done.map (Done.charge key))
  bins : ∀ i k cpu, charged (done.map (Done.charge key)) k cpu (.hist i) < 2^32

theorem kept_nil (key : Done → ℕ) : Kept (fun _ => none) key [] :=
  ⟨records_nil _,fun _ _ _ => by simp [charged,chargesOf]⟩

theorem Kept.add {m : Counters ℕ BlkCell} {key : Done → ℕ} {done : List Done}
    (h : Kept m key done) {room : Bool} {z : BlkCell → ℕ} {d : Done} (hclean : Clean room z (key d) m)
    (hbins : ∀ i, slice m (key d) d.cpu (.hist i)+blkDelta d.bytes d.length (.hist i) < 2^32) :
    Kept (account BlkCell.width room z d.cpu (key d) (blkDelta d.bytes d.length) m) key
      (done++[d]) := by
  refine ⟨?_,fun i => ?_⟩ <;> rw [List.map_append]
  · exact h.records.account hclean _ _
  · exact h.records.lt_concat (h.bins i) (hbins i)

theorem Kept.erase {m : Counters ℕ BlkCell} {key : Done → ℕ} {done : List Done}
    (h : Kept m key done) (k : ℕ) :
    Kept (CellCounters.erase k m) key (done.filter fun d => key d ≠ k) := by
  have hfilter : (done.filter fun d => key d ≠ k).map (Done.charge key) =
      (done.map (Done.charge key)).filter fun x => x.key ≠ k := by
    rw [List.filter_map]
    rfl
  refine ⟨?_,fun i k' cpu => ?_⟩ <;> rw [hfilter]
  · exact h.records.erase k
  · rw [charged_filter_ne]
    split
    · exact Nat.two_pow_pos 32
    · exact h.bins i k' cpu

theorem chargesIn_charge (key : Done → ℕ) (done : List Done) (k : ℕ) (C : Finset ℕ) :
    chargesIn (done.map (Done.charge key)) k C = (doneOf key done k C).map (Done.charge key) := by
  rw [chargesIn,List.filter_map]
  rfl

theorem Kept.counts {m : Counters ℕ BlkCell} {key : Done → ℕ} {done : List Done}
    (h : Kept m key done) : Counts m key done := by
  intro k C
  have hbinned : ∀ x ∈ done.map (Done.charge key), Binned BlkCell.hist x := by
    intro x hx
    obtain ⟨d,_,rfl⟩ := List.mem_map.mp hx
    exact binned_charge key d
  have hone : ∀ x ∈ done.map (Done.charge key), x.amount .ops = 1 := by
    intro x hx
    obtain ⟨d,_,rfl⟩ := List.mem_map.mp hx
    rfl
  have hlen : (chargesIn (done.map (Done.charge key)) k C).length =
      (doneOf key done k C).length := by
    rw [chargesIn_charge,List.length_map]
  have hwidth : ∑ i : Fin 13, 2^BlkCell.width (.hist i) < 2^BlkCell.width .ops := by decide
  have hlt := fun i cpu => h.bins i k cpu
  have hops := h.records.count_eq BlkCell.hist hbinned hone hwidth hlt C
  have hbins := h.records.sum_bins_eq BlkCell.hist hbinned hlt C
  have hbytes := h.records.cells_mod C k .bytes
  have hlat := h.records.cells_mod C k .latSum
  rw [chargesIn_charge,List.map_map] at hbytes hlat
  exact ⟨hops.trans hlen,hbins.trans hlen,hbytes,hlat⟩

/-! ## One event -/

/-- The entry of a request, and the request. -/
structure Matches (r : BlkReq) (f : Flight) : Prop where
  dev : r.dev = f.dev
  pid : r.pid = f.pid
  issued : ∀ t, f.issued = some t → r.issueTs = t ∧ 0 < t

structure Ledger (s : Sys) : Prop where
  slot : ∀ rq, Option.Rel Matches (s.kernel.blkReq rq) (s.track.inFlight rq)
  blockIo : Kept s.kernel.blockIo Done.pid s.track.byThread
  devIo : Kept s.kernel.devIo Done.dev s.track.byDevice

theorem ledger_start : Ledger {} := ⟨fun _ => .none,kept_nil _,kept_nil _⟩

theorem Ledger.accounted {s : Sys} (h : Ledger s) : Accounted s :=
  ⟨h.blockIo.counts,h.devIo.counts⟩

theorem rel_update {m : ℕ → Option BlkReq} {m' : ℕ → Option Flight}
    (h : ∀ rq, Option.Rel Matches (m rq) (m' rq)) (rq : ℕ) {r : Option BlkReq} {f : Option Flight}
    (hrf : Option.Rel Matches r f) (rq' : ℕ) :
    Option.Rel Matches (Function.update m rq r rq') (Function.update m' rq f rq') := by
  by_cases hrq : rq' = rq
  · subst hrq
    rw [Function.update_self,Function.update_self]
    exact hrf
  · rw [Function.update_of_ne hrq,Function.update_of_ne hrq]
    exact h rq'

theorem Ledger.issue {s : Sys} (h : Ledger s) {e : Env} (hnow : 0 < e.now) (rq : ℕ) :
    Ledger (step s (.issue e rq)) := by
  have hslot := h.slot rq
  simp only [step,State.step,State.onRqIssue,Track.step]
  cases hr : s.kernel.blkReq rq with
  | none =>
    cases hf : s.track.inFlight rq with
    | none =>
      refine ⟨?_,h.blockIo,h.devIo⟩
      rw [Option.map_none,← hf,Function.update_eq_self]
      exact h.slot
    | some f =>
      rw [hr,hf] at hslot
      cases hslot
  | some r =>
    cases hf : s.track.inFlight rq with
    | none =>
      rw [hr,hf] at hslot
      cases hslot
    | some f =>
      rw [hr,hf] at hslot
      obtain ⟨hrf⟩ := hslot
      refine ⟨rel_update h.slot rq (.some ⟨hrf.dev,hrf.pid,fun t ht => ?_⟩),h.blockIo,h.devIo⟩
      obtain rfl := Option.some.inj ht
      exact ⟨rfl,hnow⟩

/-- The time that the hook takes, once the request has been issued. -/
theorem Matches.length {r : BlkReq} {f : Flight} (h : Matches r f) (hissued : f.issued ≠ none)
    (e : Env) (nrBytes : ℕ) :
    (if r.issueTs ≠ 0 ∧ r.issueTs < e.now then e.now-r.issueTs else 0) =
      (f.done e nrBytes).length := by
  obtain ⟨t,ht⟩ := Option.ne_none_iff_exists'.mp hissued
  obtain ⟨hts,hpos⟩ := h.issued t ht
  simp only [Flight.done,ht,Option.getD_some,hts]
  split <;> omega

theorem Ledger.complete {s : Sys} (h : Ledger s) {e : Env} {rq nrBytes : ℕ}
    (hok : StepOk s (.complete e rq nrBytes)) : Ledger (step s (.complete e rq nrBytes)) := by
  have hslot := h.slot rq
  simp only [step,State.step,State.onRqComplete,Track.step]
  cases hr : s.kernel.blkReq rq with
  | none =>
    cases hf : s.track.inFlight rq with
    | none =>
      rw [Option.map_none,Option.toList_none,List.append_nil,List.append_nil]
      refine ⟨?_,h.blockIo,h.devIo⟩
      rw [← hf,Function.update_eq_self]
      exact h.slot
    | some f =>
      rw [hr,hf] at hslot
      cases hslot
  | some r =>
    cases hf : s.track.inFlight rq with
    | none =>
      rw [hr,hf] at hslot
      cases hslot
    | some f =>
      rw [hr,hf] at hslot
      obtain ⟨hrf⟩ := hslot
      obtain ⟨hissued,hclean,hcleanDev,hbins,hbinsDev⟩ := hok f hf
      have hlat := hrf.length hissued e nrBytes
      refine ⟨rel_update h.slot rq .none,?_,?_⟩
      · simp only [hlat,hrf.pid]
        exact h.blockIo.add (d:=f.done e nrBytes) hclean hbins
      · simp only [hlat,hrf.dev]
        exact h.devIo.add (d:=f.done e nrBytes) hcleanDev hbinsDev

theorem Ledger.step {s : Sys} (h : Ledger s) {ev : Event} (hok : StepOk s ev) :
    Ledger (BlockIo.step s ev) := by
  cases ev with
  | insert e rq dev pid =>
    refine ⟨?_,h.blockIo,h.devIo⟩
    simp only [BlockIo.step,State.step,State.onRqInsert,Track.step]
    rw [put_eq_update hok]
    exact rel_update h.slot rq (.some ⟨rfl,rfl,nofun⟩)
  | issue e rq => exact h.issue hok rq
  | complete e rq nrBytes => exact h.complete hok
  | resetTid pid => exact ⟨h.slot,h.blockIo.erase pid,h.devIo⟩
  | resetDevices => exact ⟨h.slot,h.blockIo,kept_nil _⟩

/-! ## Runs -/

/-- Request 1 of thread 7 and request 2 of thread 8 on one device, the second one completed
first and on another processor; then thread 7 leaves the targets. -/
def overlapping : List Event :=
  [.insert { cpu := 0, now := 10 } 1 5 7,.issue { cpu := 0, now := 12 } 1,
    .insert { cpu := 1, now := 14 } 2 5 8,.issue { cpu := 1, now := 15 } 2,
    .complete { cpu := 2, now := 30 } 2 512,.complete { cpu := 0, now := 50 } 1 4096,.resetTid 7]

theorem overlapping_ok : Along step StepOk {} overlapping := by
  refine ⟨fun _ => rfl,Nat.succ_pos _,fun _ => rfl,Nat.succ_pos _,fun f hf => ?_,fun f hf => ?_,
    trivial,trivial⟩
  all_goals
    obtain rfl := Option.some.inj hf
    exact ⟨by decide,fun _ => ⟨rfl,rfl⟩,fun _ => ⟨rfl,rfl⟩,by decide,by decide⟩

/-- Nothing is cleared. -/
def Event.Keeps : Event → Prop
  | .resetTid _ => False
  | .resetDevices => False
  | _ => True

theorem byThread_eq_byDevice (evs : List Event) (h : ∀ ev ∈ evs, ev.Keeps) :
    (run step {} evs).track.byThread = (run step {} evs).track.byDevice := by
  have hstep : ∀ (s : Sys) (ev : Event), s.track.byThread = s.track.byDevice → ev.Keeps →
      (step s ev).track.byThread = (step s ev).track.byDevice := by
    intro s ev hs hev
    cases ev with
    | complete e rq nrBytes => exact congrArg (·++_) hs
    | resetTid pid => cases hev
    | resetDevices => cases hev
    | insert e rq dev pid => exact hs
    | issue e rq => exact hs
  exact (Along.of_invariant step (I:=fun s => s.track.byThread = s.track.byDevice)
    (P:=fun _ _ => True) hstep (fun _ _ _ _ => trivial) evs {} rfl
    ((along_inputs step Event.Keeps evs {}).mpr h)).2

/-- The sums of a cell over all threads and over all devices, in the width of the cell. -/
def SameTotals (s : Sys) (pids devs C : Finset ℕ) : Prop :=
  ∀ c, (∑ pid ∈ pids, cells C s.kernel.blockIo pid c) % 2^c.width =
    (∑ dev ∈ devs, cells C s.kernel.devIo dev c) % 2^c.width

theorem Kept.total_mod {m : Counters ℕ BlkCell} {key : Done → ℕ} {done : List Done}
    (h : Kept m key done) {K : Finset ℕ} (hK : ∀ d ∈ done, key d ∈ K) (C : Finset ℕ)
    (c : BlkCell) : (∑ k ∈ K, cells C m k c) % 2^c.width =
      ((done.filter fun d => d.cpu ∈ C).map fun d => blkDelta d.bytes d.length c).sum %
        2^c.width := by
  have hkeys : ∀ x ∈ done.map (Done.charge key), x.key ∈ K := by
    intro x hx
    obtain ⟨d,hd,rfl⟩ := List.mem_map.mp hx
    exact hK d hd
  rw [Finset.sum_nat_mod]
  simp only [h.records.cells_mod C _ c]
  rw [← Finset.sum_nat_mod,sum_keys hkeys C c,List.filter_map,List.map_map]
  rfl

end BlockIo
end ETraceDiag
