import ETraceDiag.LatencyLedger
import ETraceDiag.SwitchHook
import ETraceDiag.TimeWindow

/-!
# The sampled network hooks

Dropped packets and round-trip times are sampled at `net_event_sample_rate`, drops for each
processor and times for each socket; the time of the network softirqs is counted for each
processor. Episodes start and end between the events.
-/

namespace ETraceDiag
namespace NetSampling

open CellCounters CellLedger Transition TimeWindow
open EpisodeMaps (LatCell latDelta base4Bin put put_eq_update)
open LatencyLedger (base4Bin_lt)
open SwitchHook (rateReached)

structure DropKey where
  netnsIno : ℕ
  ifindex : ℕ
  reasonId : ℕ
  deriving DecidableEq

structure SoftirqKey where
  cpuIdx : ℕ
  vector : ℕ
  deriving DecidableEq

inductive HookMap
  | netDrop
  | netSoftirq
  | rttLast
  deriving DecidableEq,Repr

/-- The two fields of `struct sock_owner_t` that sampling changes. -/
structure Rtt where
  count : ℕ := 0
  sumUs : ℕ := 0
  deriving DecidableEq,Repr

structure State where
  deepEnabled : Bool := false
  netRate : ℕ := 0
  lastTs : ℕ → ℕ := fun _ => 0
  netDrop : Counters DropKey Unit := fun _ => none
  softirqEnterTs : ℕ → ℕ := fun _ => 0
  netSoftirq : Counters SoftirqKey LatCell := fun _ => none
  sockOwner : ℕ → Option Rtt := fun _ => none
  rttLast : ℕ → Option ℕ := fun _ => none

/-- `stackNetns` is on the stack where `net_kfree_skb` leaves `netns_ino`; `z` is where `h_lat`
has its value. -/
structure Env where
  cpu : ℕ
  now : ℕ
  stackNetns : ℕ := 0
  z : LatCell → ℕ := 0
  room : HookMap → Bool := fun _ => true

/-! ## The hooks -/

structure Device where
  ifindex : ℕ
  netns : ℕ

def dropKey (e : Env) (dev : Option Device) (protocol : ℕ) : DropKey :=
  ⟨dev.elim e.stackNetns Device.netns,dev.elim 0 Device.ifindex,protocol⟩

/-- `net_kfree_skb` passes its limit. -/
def State.admitsDrop (e : Env) (s : State) : Bool :=
  s.deepEnabled && s.netRate ≠ 0 &&
    (s.lastTs e.cpu = 0 || rateReached (s.lastTs e.cpu) e.now s.netRate)

def State.netKfreeSkb (e : Env) (dev : Option Device) (protocol : ℕ) (s : State) : State :=
  if s.admitsDrop e then
    { s with
      lastTs := Function.update s.lastTs e.cpu e.now
      netDrop := account (fun _ => 64) (e.room .netDrop) 0 e.cpu (dropKey e dev protocol) 1
        s.netDrop }
  else s

/-- `NET_TX` and `NET_RX`. -/
def netVector (vec : ℕ) : Bool := vec = 2 || vec = 3

def State.netSoftirqEntry (e : Env) (vec : ℕ) (s : State) : State :=
  if s.deepEnabled && netVector vec then
    { s with softirqEnterTs := Function.update s.softirqEnterTs e.cpu e.now }
  else s

def State.netSoftirqExit (e : Env) (vec : ℕ) (s : State) : State :=
  if s.deepEnabled && netVector vec then
    let ts := s.softirqEnterTs e.cpu
    if ts = 0 then s
    else
      let dur := if ts < e.now then e.now-ts else 0
      { s with
        softirqEnterTs := Function.update s.softirqEnterTs e.cpu 0
        netSoftirq := account LatCell.width (e.room .netSoftirq) e.z e.cpu ⟨e.cpu,vec⟩
          (latDelta dur) s.netSoftirq }
  else s

/-- `kprobe_tcp_rcv_established` takes a sample; `tcp` tells that the socket is a TCP socket. -/
def State.samplesRtt (e : Env) (cookie : ℕ) (tcp : Bool) (s : State) : Bool :=
  s.deepEnabled && cookie ≠ 0 && (s.sockOwner cookie).isSome && s.netRate ≠ 0 &&
    (s.rttLast cookie).all (fun last => rateReached last e.now s.netRate) && tcp

def State.tcpRcvEstablished (e : Env) (cookie : ℕ) (tcp : Bool) (srtt : ℕ) (s : State) : State :=
  if s.samplesRtt e cookie tcp then
    { s with
      sockOwner := Function.update s.sockOwner cookie ((s.sockOwner cookie).map fun o =>
        ⟨(o.count+1) % 2^64,(o.sumUs+srtt >>> 3) % 2^64⟩)
      rttLast := put (e.room .rttLast) cookie e.now s.rttLast }
  else s

/-! ## The events -/

/-- `own` is an accept or a connect, `disown` the end of the socket or its eviction. `reset` is
what `ResetEpisodeMaps` does to these maps; of the large ones it may leave entries behind. -/
inductive Event
  | setDeep (on : Bool)
  | setNetRate (rate : ℕ)
  | kfreeSkb (e : Env) (dev : Option Device) (protocol : ℕ)
  | softirqEntry (e : Env) (vec : ℕ)
  | softirqExit (e : Env) (vec : ℕ)
  | rcvEstablished (e : Env) (cookie : ℕ) (tcp : Bool) (srtt : ℕ)
  | own (cookie : ℕ)
  | disown (cookie : ℕ)
  | reset (left : ℕ → Bool)

def State.step (s : State) : Event → State
  | .setDeep on => { s with deepEnabled := on }
  | .setNetRate rate => { s with netRate := rate }
  | .kfreeSkb e dev protocol => s.netKfreeSkb e dev protocol
  | .softirqEntry e vec => s.netSoftirqEntry e vec
  | .softirqExit e vec => s.netSoftirqExit e vec
  | .rcvEstablished e cookie tcp srtt => s.tcpRcvEstablished e cookie tcp srtt
  | .own cookie => { s with sockOwner := Function.update s.sockOwner cookie (some {}) }
  | .disown cookie => { s with sockOwner := Function.update s.sockOwner cookie none }
  | .reset left =>
    { s with
      netDrop := fun _ => none
      netSoftirq := fun _ => none
      sockOwner := fun c => if left c then s.sockOwner c else none
      rttLast := fun c => if left c then s.rttLast c else none }

/-! ## What has happened -/

structure Drop where
  cpu : ℕ
  now : ℕ
  key : DropKey

/-- A drop that the limit turned away, and the rate at which it did. -/
structure Skipped where
  cpu : ℕ
  now : ℕ
  rate : ℕ

/-- A network softirq that was entered or left. -/
structure Mark where
  enter : Bool
  vec : ℕ
  now : ℕ

structure Bracket where
  vec : ℕ
  span : Span

/-- An entry with the exit right behind it; the exit names the vector. -/
def brackets : List Mark → List Bracket
  | m::n::ms =>
    if m.enter ∧ ¬ n.enter then ⟨n.vec,⟨m.now,n.now⟩⟩::brackets ms else brackets (n::ms)
  | _ => []

/-- `drops` and `marks` are of all episodes, `seen` and `before` what the last reset found of
them; `samples` are the times since `rtt_last` had no entry, `values` those that the record of
the owner was given. -/
structure Track where
  drops : List Drop := []
  seen : ℕ := 0
  skipped : List Skipped := []
  marks : ℕ → List Mark := fun _ => []
  before : ℕ → ℕ := fun _ => 0
  softirqs : List (ℕ × Bracket) := []
  samples : ℕ → List ℕ := fun _ => []
  values : ℕ → List ℕ := fun _ => []

structure Sys where
  kernel : State := {}
  track : Track := {}

/-- The entry that the next exit closes. -/
def opened (ms : List Mark) : Option ℕ :=
  ms.getLast?.bind fun m => if m.enter then some m.now else none

def Track.mark (t : Track) (cpu : ℕ) (m : Mark) : Track :=
  { t with marks := Function.update t.marks cpu (t.marks cpu++[m]) }

/-- The hook sees the drop, but does not count it. -/
def State.skipsDrop (e : Env) (s : State) : Bool :=
  s.deepEnabled && s.netRate ≠ 0 && !s.admitsDrop e

def Track.step (s : State) (t : Track) : Event → Track
  | .kfreeSkb e dev protocol =>
    if s.admitsDrop e then { t with drops := t.drops++[⟨e.cpu,e.now,dropKey e dev protocol⟩] }
    else if s.skipsDrop e then { t with skipped := t.skipped++[⟨e.cpu,e.now,s.netRate⟩] }
    else t
  | .softirqEntry e vec =>
    if s.deepEnabled && netVector vec then t.mark e.cpu ⟨true,vec,e.now⟩ else t
  | .softirqExit e vec =>
    if s.deepEnabled && netVector vec then
      let t' := t.mark e.cpu ⟨false,vec,e.now⟩
      { t' with
        softirqs := t.softirqs++
          ((opened (t.marks e.cpu)).map fun ts => (e.cpu,⟨vec,⟨ts,e.now⟩⟩)).toList }
    else t
  | .rcvEstablished e cookie tcp srtt =>
    if s.samplesRtt e cookie tcp then
      { t with
        samples := Function.update t.samples cookie (t.samples cookie++[e.now])
        values := Function.update t.values cookie (t.values cookie++[srtt >>> 3]) }
    else t
  | .own cookie => { t with values := Function.update t.values cookie [] }
  | .reset left =>
    { t with
      seen := t.drops.length
      before := fun cpu => (brackets (t.marks cpu)).length
      softirqs := []
      samples := fun c => if left c then t.samples c else [] }
  | _ => t

def step (s : Sys) (ev : Event) : Sys := ⟨s.kernel.step ev,s.track.step s.kernel ev⟩

def second : ℕ := 1000000000

/-- The clock of a processor does not go back. -/
def ClockOk (s : Sys) (e : Env) : Prop :=
  e.now < 2^64 ∧ ∀ m ∈ s.track.marks e.cpu, m.now ≤ e.now

/-- The exit finds room for its entry, or a new one starts from zeros, and its bins do not
overflow. -/
structure ExitOk (s : Sys) (e : Env) (vec ts : ℕ) : Prop where
  clean : Clean (e.room .netSoftirq) e.z ⟨e.cpu,vec⟩ s.kernel.netSoftirq
  bins : ∀ i, slice s.kernel.netSoftirq ⟨e.cpu,vec⟩ e.cpu (.hist i)+
    latDelta (e.now-ts) (.hist i) < 2^32

/-- The rate stays at `rate` or below, the clock is not at zero, the maps have room, and the
product of time and rate fits a `u64`. -/
def StepOk (rate : ℕ) (s : Sys) : Event → Prop
  | .setNetRate r => r ≤ rate
  | .kfreeSkb e dev protocol => 0 < e.now ∧
      (s.kernel.netDrop (dropKey e dev protocol) = none → e.room .netDrop = true) ∧
      (e.now-s.kernel.lastTs e.cpu)*s.kernel.netRate < 2^64
  | .softirqEntry e _ => 0 < e.now ∧ ClockOk s e
  | .softirqExit e vec => ClockOk s e ∧ ∀ ts ∈ opened (s.track.marks e.cpu), ExitOk s e vec ts
  | .rcvEstablished e cookie _ _ => s.kernel.rttLast cookie = none → e.room .rttLast = true
  | _ => True

/-- A drop is turned away and another one counted, a softirq runs, and a socket is sampled
once. -/
def burst : List Event :=
  [.setDeep true,.setNetRate 10,.kfreeSkb { cpu := 0, now := 1000000000 } none 3,
    .kfreeSkb { cpu := 0, now := 1050000000 } none 3,
    .kfreeSkb { cpu := 0, now := 1100000000 } none 3,
    .softirqEntry { cpu := 1, now := 1200000000 } 3,
    .softirqExit { cpu := 1, now := 1200000040 } 3,.own 7,
    .rcvEstablished { cpu := 1, now := 1300000000 } 7 true 800,
    .rcvEstablished { cpu := 0, now := 1350000000 } 7 true 800]

theorem burst_ok : Along step (StepOk 10) {} burst := by
  refine ⟨trivial,Nat.le_refl _,⟨by decide,fun _ => rfl,by decide⟩,⟨by decide,fun _ => rfl,?_⟩,
    ⟨by decide,fun _ => rfl,?_⟩,⟨by decide,by decide,?_⟩,⟨⟨by decide,?_⟩,?_⟩,trivial,fun _ => rfl,
    fun _ => rfl,trivial⟩
  · decide
  · decide
  · decide
  · decide
  · intro ts hts
    exact ⟨fun _ => ⟨rfl,rfl⟩,by decide +revert⟩

theorem rateReached_le {last now rate : ℕ} (h : rateReached last now rate = true) :
    second ≤ (now-last)*rate :=
  (of_decide_eq_true h).trans (Nat.mod_le _ _)

/-! ## Drops -/

def times (ds : List Drop) (cpu : ℕ) : List ℕ := (ds.filter fun d => d.cpu = cpu).map Drop.now

def Drop.charge (d : Drop) : Charge DropKey Unit := ⟨d.key,d.cpu,1⟩

/-- The drops of a key since the last reset, on some processors. -/
def Track.dropsOf (t : Track) (k : DropKey) (C : Finset ℕ) : List Drop :=
  (t.drops.drop t.seen).filter fun d => d.key = k ∧ d.cpu ∈ C

/-- No processor counts more than the rate allows in any window, a drop is turned away only
where one was counted less than a period before, and the entries hold the drops counted since
the last reset. -/
structure DropsLimited (rate : ℕ) (s : Sys) : Prop where
  limited : ∀ cpu lo hi, ((within lo hi (times s.track.drops cpu)).length-1)*second ≤
    (hi-lo)*rate
  skipped : ∀ k ∈ s.track.skipped, ∃ d ∈ s.track.drops, d.cpu = k.cpu ∧
    (k.now-d.now)*k.rate < second
  counted : ∀ k C, cells C s.kernel.netDrop k () % 2^64 =
    (s.track.dropsOf k C).length % 2^64

structure DropsKept (rate : ℕ) (s : Sys) : Prop where
  netRate : s.kernel.netRate ≤ rate
  last : ∀ cpu, s.kernel.lastTs cpu = ((times s.track.drops cpu).getLast?).getD 0
  pos : ∀ d ∈ s.track.drops, 0 < d.now
  spaced : ∀ cpu, Spaced rate second (times s.track.drops cpu)
  skipped : ∀ k ∈ s.track.skipped, ∃ d ∈ s.track.drops, d.cpu = k.cpu ∧
    (k.now-d.now)*k.rate < second
  seen : s.track.seen ≤ s.track.drops.length
  records : Records (fun _ => 64) s.kernel.netDrop
    ((s.track.drops.drop s.track.seen).map Drop.charge)

theorem times_concat (ds : List Drop) (d : Drop) (cpu : ℕ) :
    times (ds++[d]) cpu = times ds cpu++if d.cpu = cpu then [d.now] else [] := by
  by_cases h : d.cpu = cpu <;> simp [times,h]

theorem mem_of_mem_times {ds : List Drop} {cpu t : ℕ} (h : t ∈ times ds cpu) :
    ∃ d ∈ ds, d.cpu = cpu ∧ d.now = t := by
  obtain ⟨d,hd,rfl⟩ := List.mem_map.mp h
  obtain ⟨hd,hcpu⟩ := List.mem_filter.mp hd
  exact ⟨d,hd,of_decide_eq_true hcpu,rfl⟩

theorem DropsKept.limited {rate : ℕ} {s : Sys} (h : DropsKept rate s) : DropsLimited rate s := by
  refine ⟨fun cpu lo hi => (h.spaced cpu).within_le (by decide) lo hi,h.skipped,fun k C => ?_⟩
  have hcells := h.records.cells_mod C k ()
  rw [chargesIn,List.filter_map,List.map_map] at hcells
  rw [hcells,Track.dropsOf]
  congr 1
  have hone : ∀ ds : List Drop,
      (ds.map ((fun x => x.amount ()) ∘ Drop.charge)).sum = ds.length := by
    intro ds
    induction ds with
    | nil => rfl
    | cons d ds ih => rw [List.map_cons,List.sum_cons,ih,List.length_cons,Nat.add_comm]; rfl
  exact hone _

/-- The last drop of the processor, if it has counted one. -/
theorem DropsKept.last_cases {rate : ℕ} {s : Sys} (h : DropsKept rate s) (cpu : ℕ) :
    (times s.track.drops cpu = [] ∧ s.kernel.lastTs cpu = 0) ∨
      ∃ d ∈ s.track.drops, d.cpu = cpu ∧ d.now = s.kernel.lastTs cpu ∧
        (times s.track.drops cpu).getLast? = some (s.kernel.lastTs cpu) := by
  have hlast := h.last cpu
  cases ht : (times s.track.drops cpu).getLast? with
  | none => exact Or.inl ⟨List.getLast?_eq_none_iff.mp ht,by rw [hlast,ht]; rfl⟩
  | some t =>
    rw [ht,Option.getD_some] at hlast
    obtain ⟨d,hd,hcpu,hnow⟩ := mem_of_mem_times (List.mem_of_getLast? ht)
    exact Or.inr ⟨d,hd,hcpu,hnow.trans hlast.symm,by rw [hlast]⟩

theorem DropsKept.counts {rate : ℕ} {s : Sys} (h : DropsKept rate s) {e : Env}
    {dev : Option Device} {protocol : ℕ} (hok : StepOk rate s (.kfreeSkb e dev protocol))
    (hpasses : s.kernel.admitsDrop e = true) :
    DropsKept rate (step s (.kfreeSkb e dev protocol)) := by
  obtain ⟨hnow,hroom,_⟩ := hok
  simp only [step,State.step,State.netKfreeSkb,Track.step,if_pos hpasses]
  simp only [State.admitsDrop,Bool.and_eq_true,Bool.or_eq_true,decide_eq_true_eq] at hpasses
  refine ⟨h.netRate,fun cpu => ?_,?_,fun cpu => ?_,?_,?_,?_⟩
  · rw [times_concat]
    by_cases hcpu : e.cpu = cpu
    · simp [hcpu]
    · simpa [hcpu,Function.update_of_ne (Ne.symm hcpu)] using h.last cpu
  · intro d hd
    rcases List.mem_append.mp hd with hd | hd
    · exact h.pos d hd
    · obtain rfl := List.mem_singleton.mp hd
      exact hnow
  · rw [times_concat]
    by_cases hcpu : e.cpu = cpu
    · subst hcpu
      rw [if_pos rfl]
      refine (h.spaced e.cpu).concat (by decide) fun last hlast => ?_
      rcases h.last_cases e.cpu with ⟨hnil,_⟩ | ⟨d,hd,_,hdnow,hget⟩
      · rw [hnil] at hlast
        cases hlast
      · obtain rfl : s.kernel.lastTs e.cpu = last := Option.some.inj (hget.symm.trans hlast)
        have hpos := h.pos d hd
        have hreached : rateReached (s.kernel.lastTs e.cpu) e.now s.kernel.netRate = true :=
          hpasses.2.resolve_left (by omega)
        exact (rateReached_le hreached).trans (Nat.mul_le_mul_left _ h.netRate)
    · rw [if_neg hcpu,List.append_nil]
      exact h.spaced cpu
  · intro k hk
    obtain ⟨d,hd,hrest⟩ := h.skipped k hk
    exact ⟨d,List.mem_append_left _ hd,hrest⟩
  · simp only [List.length_append]
    exact h.seen.trans (Nat.le_add_right _ _)
  · rw [List.drop_append_of_le_length h.seen,List.map_append]
    exact h.records.account (fun hnone => ⟨hroom hnone,rfl⟩) e.cpu 1

theorem not_reached_of_skipsDrop {e : Env} {s : State} (h : s.skipsDrop e = true) :
    s.lastTs e.cpu ≠ 0 ∧ rateReached (s.lastTs e.cpu) e.now s.netRate = false := by
  simp only [State.skipsDrop,State.admitsDrop] at h
  cases hdeep : s.deepEnabled <;> by_cases hrate : s.netRate = 0 <;> simp_all

theorem DropsKept.skip {rate : ℕ} {s : Sys} (h : DropsKept rate s) {e : Env}
    {dev : Option Device} {protocol : ℕ} (hok : StepOk rate s (.kfreeSkb e dev protocol))
    (hpasses : s.kernel.admitsDrop e ≠ true) :
    DropsKept rate (step s (.kfreeSkb e dev protocol)) := by
  obtain ⟨_,_,hfits⟩ := hok
  simp only [step,State.step,State.netKfreeSkb,Track.step,if_neg hpasses]
  split
  · rename_i hskip
    refine ⟨h.netRate,h.last,h.pos,h.spaced,fun k hk => ?_,h.seen,h.records⟩
    rcases List.mem_append.mp hk with hk | hk
    · exact h.skipped k hk
    · obtain rfl := List.mem_singleton.mp hk
      obtain ⟨hlast,hreached⟩ := not_reached_of_skipsDrop hskip
      rw [rateReached,Nat.mod_eq_of_lt hfits,decide_eq_false_iff_not] at hreached
      rcases h.last_cases e.cpu with ⟨_,hzero⟩ | ⟨d,hd,hcpu,hnow,_⟩
      · exact absurd hzero hlast
      · exact ⟨d,hd,hcpu,hnow ▸ Nat.not_le.mp hreached⟩
  · exact h

theorem DropsKept.step {rate : ℕ} {s : Sys} (h : DropsKept rate s) {ev : Event}
    (hok : StepOk rate s ev) : DropsKept rate (step s ev) := by
  cases ev with
  | kfreeSkb e dev protocol =>
    by_cases hpasses : s.kernel.admitsDrop e = true
    · exact h.counts hok hpasses
    · exact h.skip hok hpasses
  | setNetRate r => exact ⟨hok,h.last,h.pos,h.spaced,h.skipped,h.seen,h.records⟩
  | reset left =>
    refine ⟨h.netRate,h.last,h.pos,h.spaced,h.skipped,Nat.le_refl _,?_⟩
    simp only [NetSampling.step,State.step,Track.step,List.drop_length,List.map_nil]
    exact records_nil _
  | softirqEntry e vec =>
    simp only [NetSampling.step,State.step,State.netSoftirqEntry,Track.step]
    split
    · exact ⟨h.netRate,h.last,h.pos,h.spaced,h.skipped,h.seen,h.records⟩
    · exact h
  | softirqExit e vec =>
    simp only [NetSampling.step,State.step,State.netSoftirqExit,Track.step]
    split
    · split <;> exact ⟨h.netRate,h.last,h.pos,h.spaced,h.skipped,h.seen,h.records⟩
    · exact h
  | rcvEstablished e cookie tcp srtt =>
    simp only [NetSampling.step,State.step,State.tcpRcvEstablished,Track.step]
    split
    · exact ⟨h.netRate,h.last,h.pos,h.spaced,h.skipped,h.seen,h.records⟩
    · exact h
  | setDeep on => exact ⟨h.netRate,h.last,h.pos,h.spaced,h.skipped,h.seen,h.records⟩
  | own cookie => exact ⟨h.netRate,h.last,h.pos,h.spaced,h.skipped,h.seen,h.records⟩
  | disown cookie => exact ⟨h.netRate,h.last,h.pos,h.spaced,h.skipped,h.seen,h.records⟩

theorem dropsKept_start (rate : ℕ) : DropsKept rate {} where
  netRate := Nat.zero_le _
  last _ := rfl
  pos := nofun
  spaced _ := spaced_nil
  skipped := nofun
  seen := Nat.le_refl _
  records := records_nil _

theorem opened_concat (ms : List Mark) (m : Mark) :
    opened (ms++[m]) = if m.enter then some m.now else none := by
  cases h : m.enter <;> simp [opened,h]

theorem brackets_concat (ms : List Mark) (m : Mark) : brackets (ms++[m]) =
    brackets ms++if m.enter then [] else ((opened ms).map fun t => ⟨m.vec,⟨t,m.now⟩⟩).toList := by
  induction ms using brackets.induct with
  | case1 a b ms hab ih =>
    have hopen : opened (a::b::ms) = opened ms := by
      cases ms with
      | nil => simp [opened,hab.2]
      | cons c ms => rfl
    simp only [List.cons_append,brackets,if_pos hab,hopen] at ih ⊢
    rw [ih]
  | case2 a b ms hab ih =>
    have hopen : opened (a::b::ms) = opened (b::ms) := rfl
    simp only [List.cons_append,brackets,if_neg hab,hopen] at ih ⊢
    rw [ih]
  | case3 ms hms =>
    match ms with
    | [] => simp [brackets,opened]
    | [a] => cases ha : a.enter <;> cases hm : m.enter <;> simp [brackets,opened,ha,hm]
    | a::b::ms => exact absurd rfl (hms a b ms)

/-- The softirqs that a processor has left since the last reset. -/
def Track.closed (t : Track) (cpu : ℕ) : List Bracket :=
  (brackets (t.marks cpu)).drop (t.before cpu)

def Track.closedOf (t : Track) (cpu vec : ℕ) : List Bracket :=
  (t.closed cpu).filter fun b => b.vec = vec

def charge (b : ℕ × Bracket) : Charge SoftirqKey LatCell :=
  ⟨⟨b.1,b.2.vec⟩,b.1,latDelta b.2.span.length⟩

/-- The entries count every softirq that was entered and left, on its processor, with its
time; together they take no more time than has passed there. -/
structure SoftirqsCounted (s : Sys) : Prop where
  count : ∀ cpu vec C, cpu ∈ C → cells C s.kernel.netSoftirq ⟨cpu,vec⟩ .count =
    (s.track.closedOf cpu vec).length
  hist : ∀ cpu vec C, cpu ∈ C → ∑ i, cells C s.kernel.netSoftirq ⟨cpu,vec⟩ (.hist i) =
    (s.track.closedOf cpu vec).length
  latSum : ∀ cpu vec C, cpu ∈ C → cells C s.kernel.netSoftirq ⟨cpu,vec⟩ .latSum =
    ((s.track.closedOf cpu vec).map fun b => b.span.length).sum
  busy : ∀ cpu C lo hi, cpu ∈ C → (∀ m ∈ s.track.marks cpu, lo ≤ m.now ∧ m.now ≤ hi) →
    cells C s.kernel.netSoftirq ⟨cpu,2⟩ .latSum+cells C s.kernel.netSoftirq ⟨cpu,3⟩ .latSum ≤ hi-lo

structure SoftirqsKept (s : Sys) : Prop where
  enter : ∀ cpu, s.kernel.softirqEnterTs cpu = (opened (s.track.marks cpu)).getD 0
  pos : ∀ cpu, ∀ ts ∈ opened (s.track.marks cpu), 0 < ts
  clock : ∀ cpu, (s.track.marks cpu).Pairwise fun a b => a.now ≤ b.now
  small : ∀ cpu, ∀ m ∈ s.track.marks cpu, m.now < 2^64
  before : ∀ cpu, s.track.before cpu ≤ (brackets (s.track.marks cpu)).length
  softirqs : ∀ cpu, (s.track.softirqs.filter fun b => b.1 = cpu).map Prod.snd = s.track.closed cpu
  records : Records LatCell.width s.kernel.netSoftirq (s.track.softirqs.map charge)
  bins : ∀ i k cpu, charged (s.track.softirqs.map charge) k cpu (.hist i) < 2^32

/-- In the order of time, the brackets do not overlap. -/
theorem brackets_inOrder {ms : List Mark} (h : ms.Pairwise fun a b => a.now ≤ b.now) :
    InOrder ((brackets ms).map Bracket.span) ∧
      ∀ lo hi, (∀ m ∈ ms, lo ≤ m.now ∧ m.now ≤ hi) →
        ∀ b ∈ brackets ms, lo ≤ b.span.start ∧ b.span.stop ≤ hi := by
  induction ms using brackets.induct with
  | case1 a b ms hab ih =>
    obtain ⟨ha,hrest⟩ := List.pairwise_cons.mp h
    obtain ⟨hb,hms⟩ := List.pairwise_cons.mp hrest
    obtain ⟨hin,hbound⟩ := ih hms
    rw [brackets,if_pos hab]
    refine ⟨⟨?_,?_⟩,fun lo hi hm => ?_⟩
    · simp only [List.map_cons,List.forall_mem_cons]
      exact ⟨ha b List.mem_cons_self,hin.1⟩
    · rw [List.map_cons,List.pairwise_cons]
      refine ⟨fun s hs => ?_,hin.2⟩
      obtain ⟨c,hc,rfl⟩ := List.mem_map.mp hs
      rcases ms with _ | ⟨d,ms⟩
      · cases hc
      · have hlast : ∀ m ∈ d::ms, b.now ≤ m.now ∧ m.now ≤ ((d::ms).map Mark.now).sum :=
          fun m hm => ⟨hb m hm,List.single_le_sum (by simp) _ (List.mem_map_of_mem hm)⟩
        exact (hbound _ _ hlast c hc).1
    · obtain ⟨hma,hmb,hmm⟩ : (lo ≤ a.now ∧ a.now ≤ hi) ∧ (lo ≤ b.now ∧ b.now ≤ hi) ∧
          ∀ m ∈ ms, lo ≤ m.now ∧ m.now ≤ hi := by
        simpa only [List.forall_mem_cons] using hm
      exact List.forall_mem_cons.mpr ⟨⟨hma.1,hmb.2⟩,hbound lo hi hmm⟩
  | case2 a b ms hab ih =>
    rw [brackets,if_neg hab]
    obtain ⟨hin,hbound⟩ := ih (List.pairwise_cons.mp h).2
    exact ⟨hin,fun lo hi hm => hbound lo hi (List.forall_mem_cons.mp hm).2⟩
  | case3 ms hms =>
    have hnil : brackets ms = [] := by
      match ms with
      | [] => rfl
      | [a] => rfl
      | a::b::ms => exact absurd rfl (hms a b ms)
    rw [hnil]
    exact ⟨inOrder_nil,nofun⟩

theorem closed_inOrder {t : Track} {cpu lo hi : ℕ}
    (hclock : (t.marks cpu).Pairwise fun a b => a.now ≤ b.now)
    (hm : ∀ m ∈ t.marks cpu, lo ≤ m.now ∧ m.now ≤ hi) :
    ((t.closed cpu).map fun b => b.span.length).sum ≤ hi-lo := by
  obtain ⟨hin,hbound⟩ := brackets_inOrder hclock
  have hsub : (t.closed cpu).Sublist (brackets (t.marks cpu)) := List.drop_sublist _ _
  have hspans := hin.sublist (hsub.map Bracket.span)
  have hin : ∀ s ∈ (t.closed cpu).map Bracket.span, lo ≤ s.start ∧ s.stop ≤ hi := by
    intro s hs
    obtain ⟨b,hb,rfl⟩ := List.mem_map.mp hs
    exact hbound lo hi hm b (hsub.subset hb)
  have hsum := hspans.sum_length_le hin
  rwa [List.map_map] at hsum

/-- Brackets of two vectors are different brackets. -/
theorem sum_two_vectors (bs : List Bracket) {v w : ℕ} (hvw : v ≠ w) (f : Bracket → ℕ) :
    ((bs.filter fun b => b.vec = v).map f).sum+((bs.filter fun b => b.vec = w).map f).sum ≤
      (bs.map f).sum := by
  induction bs with
  | nil => simp
  | cons b bs ih =>
    by_cases hv : b.vec = v
    · have hw : b.vec ≠ w := fun hw => hvw (hv.symm.trans hw)
      simp only [List.filter_cons,hv,hvw,decide_true,decide_false,if_true,List.map_cons,
        List.sum_cons,Bool.false_eq_true,if_false]
      omega
    · by_cases hw : b.vec = w <;>
        simp only [List.filter_cons,hv,hw,decide_true,decide_false,if_true,List.map_cons,
          List.sum_cons,Bool.false_eq_true,if_false,Ne.symm hvw] <;> omega

theorem chargesIn_map_charge (bs : List (ℕ × Bracket)) {cpu : ℕ} (vec : ℕ) {C : Finset ℕ}
    (hC : cpu ∈ C) : chargesIn (bs.map charge) ⟨cpu,vec⟩ C =
      (((bs.filter fun b => b.1 = cpu).map Prod.snd).filter fun b => b.vec = vec).map
        fun b => charge (cpu,b) := by
  induction bs with
  | nil => rfl
  | cons b bs ih =>
    obtain ⟨c,b⟩ := b
    rw [chargesIn] at ih ⊢
    by_cases hc : c = cpu
    · subst hc
      by_cases hvec : b.vec = vec <;> simp [charge,hC,hvec] <;> simpa [charge] using ih
    · simpa [charge,hc] using ih

theorem SoftirqsKept.chargesIn_eq {s : Sys} (h : SoftirqsKept s) {cpu : ℕ} (vec : ℕ)
    {C : Finset ℕ} (hC : cpu ∈ C) : chargesIn (s.track.softirqs.map charge) ⟨cpu,vec⟩ C =
      (s.track.closedOf cpu vec).map fun b => charge (cpu,b) := by
  rw [chargesIn_map_charge _ vec hC,h.softirqs cpu,Track.closedOf]

theorem SoftirqsKept.sum_closedOf_lt {s : Sys} (h : SoftirqsKept s) (cpu vec : ℕ) :
    ((s.track.closedOf cpu vec).map fun b => b.span.length).sum < 2^64 := by
  have hall : ((s.track.closed cpu).map fun b => b.span.length).sum ≤ 2^64-1-0 :=
    closed_inOrder (h.clock cpu) fun m hm => ⟨Nat.zero_le _,Nat.le_sub_one_of_lt (h.small cpu m hm)⟩
  have hsub : ((s.track.closedOf cpu vec).map fun b => b.span.length).Sublist
      ((s.track.closed cpu).map fun b => b.span.length) := List.filter_sublist.map _
  have hle := hsub.sum_le_sum fun _ _ => Nat.zero_le _
  omega

theorem SoftirqsKept.latSum_eq {s : Sys} (h : SoftirqsKept s) {cpu : ℕ} (vec : ℕ)
    {C : Finset ℕ} (hC : cpu ∈ C) : cells C s.kernel.netSoftirq ⟨cpu,vec⟩ .latSum =
      ((s.track.closedOf cpu vec).map fun b => b.span.length).sum := by
  have hlt : ∀ cpu', charged (s.track.softirqs.map charge) ⟨cpu,vec⟩ cpu' .latSum <
      2^LatCell.width .latSum := by
    intro cpu'
    by_cases hcpu : cpu' = cpu
    · subst hcpu
      have hone := h.chargesIn_eq vec (Finset.mem_singleton_self cpu')
      have hsum := sum_charged (s.track.softirqs.map charge) ⟨cpu',vec⟩ {cpu'} .latSum
      rw [Finset.sum_singleton,hone,List.map_map] at hsum
      rw [hsum]
      exact h.sum_closedOf_lt cpu' vec
    · have hnil : chargesOf (s.track.softirqs.map charge) ⟨cpu,vec⟩ cpu' = [] := by
        refine List.filter_eq_nil_iff.mpr fun x hx => ?_
        obtain ⟨b,_,rfl⟩ := List.mem_map.mp hx
        simp only [charge,SoftirqKey.mk.injEq,decide_eq_true_eq,not_and]
        rintro ⟨rfl,_⟩ hb
        exact hcpu hb.symm
      rw [charged,hnil]
      decide
  rw [h.records.cells_eq hlt C,h.chargesIn_eq vec hC,List.map_map]
  rfl

theorem SoftirqsKept.counted {s : Sys} (h : SoftirqsKept s) : SoftirqsCounted s := by
  have hbinned : ∀ x ∈ s.track.softirqs.map charge, Binned LatCell.hist x := by
    intro x hx
    obtain ⟨b,_,rfl⟩ := List.mem_map.mp hx
    exact sum_one_bin (base4Bin_lt b.2.span.length)
  have hone : ∀ x ∈ s.track.softirqs.map charge, x.amount .count = 1 := by
    intro x hx
    obtain ⟨b,_,rfl⟩ := List.mem_map.mp hx
    rfl
  have hwidth : ∑ i : Fin 13, 2^LatCell.width (.hist i) < 2^LatCell.width .count := by decide
  have hlt := fun (k : SoftirqKey) i cpu => h.bins i k cpu
  refine ⟨fun cpu vec C hC => ?_,fun cpu vec C hC => ?_,fun cpu vec C hC => h.latSum_eq vec hC,
    fun cpu C lo hi hC hm => ?_⟩
  · rw [h.records.count_eq LatCell.hist hbinned hone hwidth (hlt _) C,h.chargesIn_eq vec hC,
      List.length_map]
  · rw [h.records.sum_bins_eq LatCell.hist hbinned (hlt _) C,h.chargesIn_eq vec hC,
      List.length_map]
  · rw [h.latSum_eq 2 hC,h.latSum_eq 3 hC]
    exact (sum_two_vectors _ (by decide) _).trans (closed_inOrder (h.clock cpu) hm)

/-! ### One event -/

/-- A mark at the end of the processor's own marks, with what it closes. -/
structure Marks (t t' : Track) (cpu : ℕ) (m : Mark) : Prop where
  marks : t'.marks = Function.update t.marks cpu (t.marks cpu++[m])
  before : t'.before = t.before
  softirqs : t'.softirqs = t.softirqs++if m.enter then [] else
    ((opened (t.marks cpu)).map fun ts => (cpu,(⟨m.vec,⟨ts,m.now⟩⟩ : Bracket))).toList

theorem Marks.closed {t t' : Track} {cpu : ℕ} {m : Mark} (h : Marks t t' cpu m)
    (hbefore : t.before cpu ≤ (brackets (t.marks cpu)).length) (cpu' : ℕ) :
    t'.closed cpu' = t.closed cpu'++if cpu' = cpu then
      (if m.enter then [] else
        ((opened (t.marks cpu)).map fun ts => (⟨m.vec,⟨ts,m.now⟩⟩ : Bracket)).toList) else [] := by
  rw [Track.closed,Track.closed,h.marks,h.before]
  by_cases hcpu : cpu' = cpu
  · subst hcpu
    rw [Function.update_self,brackets_concat,List.drop_append_of_le_length hbefore,if_pos rfl]
  · rw [Function.update_of_ne hcpu,if_neg hcpu,List.append_nil]

/-- What a mark leaves true whatever the entries hold. -/
theorem SoftirqsKept.mark {s s' : Sys} (h : SoftirqsKept s) {cpu : ℕ} {m : Mark}
    (hm : Marks s.track s'.track cpu m)
    (hclock : m.now < 2^64 ∧ ∀ a ∈ s.track.marks cpu, a.now ≤ m.now)
    (hpos : m.enter = true → 0 < m.now)
    (henter : s'.kernel.softirqEnterTs =
      Function.update s.kernel.softirqEnterTs cpu (if m.enter then m.now else 0))
    (hrecords : Records LatCell.width s'.kernel.netSoftirq (s'.track.softirqs.map charge))
    (hbins : ∀ i k c, charged (s'.track.softirqs.map charge) k c (.hist i) < 2^32) :
    SoftirqsKept s' := by
  have hmarks (c : ℕ) : s'.track.marks c =
      if c = cpu then s.track.marks cpu++[m] else s.track.marks c := by
    rw [hm.marks,Function.update_apply]
  refine ⟨fun c => ?_,fun c ts hts => ?_,fun c => ?_,fun c a ha => ?_,fun c => ?_,fun c => ?_,
    hrecords,hbins⟩
  · rw [henter,hmarks,Function.update_apply]
    split
    · rw [opened_concat]
      split <;> rfl
    · exact h.enter c
  · rw [hmarks] at hts
    split at hts
    · rw [opened_concat] at hts
      split at hts
      · rename_i hin
        exact Option.some.inj hts ▸ hpos hin
      · cases hts
    · exact h.pos c ts hts
  · rw [hmarks]
    split
    · refine List.pairwise_append.mpr ⟨h.clock cpu,List.pairwise_singleton _ _,fun a ha b hb => ?_⟩
      exact List.mem_singleton.mp hb ▸ hclock.2 a ha
    · exact h.clock c
  · rw [hmarks] at ha
    split at ha
    · rcases List.mem_append.mp ha with ha | ha
      · exact h.small cpu a ha
      · exact List.mem_singleton.mp ha ▸ hclock.1
    · exact h.small c a ha
  · rw [hm.before,hmarks]
    split
    · rename_i hc
      rw [hc,brackets_concat,List.length_append]
      exact (h.before cpu).trans (Nat.le_add_right _ _)
    · exact h.before c
  · rw [hm.closed (h.before cpu),hm.softirqs,List.filter_append,List.map_append,h.softirqs c]
    congr 1
    by_cases hc : c = cpu
    · rw [if_pos hc,hc]
      cases m.enter <;> cases opened (s.track.marks cpu) <;> simp
    · rw [if_neg hc]
      cases m.enter <;> cases opened (s.track.marks cpu) <;> simp [Ne.symm hc]

theorem SoftirqsKept.entry {rate : ℕ} {s : Sys} (h : SoftirqsKept s) {e : Env} {vec : ℕ}
    (hok : StepOk rate s (.softirqEntry e vec)) :
    SoftirqsKept (NetSampling.step s (.softirqEntry e vec)) := by
  obtain ⟨hpos,hclock⟩ := hok
  simp only [NetSampling.step,State.step,State.netSoftirqEntry,Track.step]
  split
  · exact h.mark (m:=⟨true,vec,e.now⟩) ⟨rfl,rfl,by simp [Track.mark]⟩ hclock
      (fun _ => hpos) rfl h.records h.bins
  · exact h

theorem SoftirqsKept.exit {rate : ℕ} {s : Sys} (h : SoftirqsKept s) {e : Env} {vec : ℕ}
    (hok : StepOk rate s (.softirqExit e vec)) :
    SoftirqsKept (NetSampling.step s (.softirqExit e vec)) := by
  obtain ⟨hclock,hexit⟩ := hok
  have henter := h.enter e.cpu
  simp only [NetSampling.step,State.step,State.netSoftirqExit,Track.step]
  split
  · cases hopen : opened (s.track.marks e.cpu) with
    | none =>
      rw [hopen,Option.getD_none] at henter
      rw [if_pos henter]
      refine h.mark (m:=⟨false,vec,e.now⟩) ⟨rfl,rfl,by simp [hopen]⟩ hclock
        Bool.noConfusion ?_ ?_ ?_
      · rw [← henter]
        simp
      · simpa using h.records
      · simpa using h.bins
    | some ts =>
      have hpos := h.pos e.cpu ts hopen
      have hok := hexit ts hopen
      rw [hopen,Option.getD_some] at henter
      have hdur : (if s.kernel.softirqEnterTs e.cpu < e.now then
          e.now-s.kernel.softirqEnterTs e.cpu else 0) = e.now-ts := by
        rw [henter]
        split <;> omega
      rw [if_neg (by omega)]
      simp only [hdur]
      refine h.mark (m:=⟨false,vec,e.now⟩) ⟨rfl,rfl,by simp [hopen]⟩ hclock
        Bool.noConfusion rfl ?_ ?_
      · simp only [Option.map_some,Option.toList_some,List.map_append]
        exact h.records.account hok.clean e.cpu _
      · intro i
        simp only [Option.map_some,Option.toList_some,List.map_append]
        exact h.records.lt_concat (h.bins i) (hok.bins i)
  · exact h

theorem SoftirqsKept.step {rate : ℕ} {s : Sys} (h : SoftirqsKept s) {ev : Event}
    (hok : StepOk rate s ev) : SoftirqsKept (NetSampling.step s ev) := by
  cases ev with
  | softirqEntry e vec => exact h.entry hok
  | softirqExit e vec => exact h.exit hok
  | reset left =>
    refine ⟨h.enter,h.pos,h.clock,h.small,fun _ => Nat.le_refl _,fun cpu => ?_,records_nil _,?_⟩
    · simp [NetSampling.step,Track.step,Track.closed]
    · intro i k cpu
      simp [NetSampling.step,Track.step,charged,chargesOf]
  | kfreeSkb e dev protocol =>
    simp only [NetSampling.step,State.step,State.netKfreeSkb,Track.step]
    split
    · exact ⟨h.enter,h.pos,h.clock,h.small,h.before,h.softirqs,h.records,h.bins⟩
    · split <;> exact ⟨h.enter,h.pos,h.clock,h.small,h.before,h.softirqs,h.records,h.bins⟩
  | rcvEstablished e cookie tcp srtt =>
    simp only [NetSampling.step,State.step,State.tcpRcvEstablished,Track.step]
    split
    · exact ⟨h.enter,h.pos,h.clock,h.small,h.before,h.softirqs,h.records,h.bins⟩
    · exact h
  | setDeep on => exact ⟨h.enter,h.pos,h.clock,h.small,h.before,h.softirqs,h.records,h.bins⟩
  | setNetRate r => exact ⟨h.enter,h.pos,h.clock,h.small,h.before,h.softirqs,h.records,h.bins⟩
  | own cookie => exact ⟨h.enter,h.pos,h.clock,h.small,h.before,h.softirqs,h.records,h.bins⟩
  | disown cookie => exact ⟨h.enter,h.pos,h.clock,h.small,h.before,h.softirqs,h.records,h.bins⟩

theorem softirqsKept_start : SoftirqsKept {} where
  enter _ := rfl
  pos _ := nofun
  clock _ := List.Pairwise.nil
  small _ := nofun
  before _ := Nat.le_refl _
  softirqs _ := rfl
  records := records_nil _
  bins i k cpu := by simp [charged,chargesOf]

/-- A socket is sampled no more often than the rate allows in any window, whatever happens to
its record; the record holds the number of its samples and their sum. -/
structure RttsSampled (rate : ℕ) (s : Sys) : Prop where
  limited : ∀ cookie lo hi, ((within lo hi (s.track.samples cookie)).length-1)*second ≤
    (hi-lo)*rate
  recorded : ∀ cookie o, s.kernel.sockOwner cookie = some o →
    o.count = (s.track.values cookie).length % 2^64 ∧
      o.sumUs = (s.track.values cookie).sum % 2^64

structure RttsKept (rate : ℕ) (s : Sys) : Prop where
  netRate : s.kernel.netRate ≤ rate
  last : ∀ cookie, s.kernel.rttLast cookie = (s.track.samples cookie).getLast?
  spaced : ∀ cookie, Spaced rate second (s.track.samples cookie)
  recorded : ∀ cookie o, s.kernel.sockOwner cookie = some o →
    o.count = (s.track.values cookie).length % 2^64 ∧
      o.sumUs = (s.track.values cookie).sum % 2^64

theorem RttsKept.sampled {rate : ℕ} {s : Sys} (h : RttsKept rate s) : RttsSampled rate s :=
  ⟨fun cookie lo hi => (h.spaced cookie).within_le (by decide) lo hi,h.recorded⟩

theorem RttsKept.sample {rate : ℕ} {s : Sys} (h : RttsKept rate s) {e : Env} {cookie srtt : ℕ}
    {tcp : Bool} (hok : StepOk rate s (.rcvEstablished e cookie tcp srtt)) :
    RttsKept rate (NetSampling.step s (.rcvEstablished e cookie tcp srtt)) := by
  simp only [NetSampling.step,State.step,State.tcpRcvEstablished,Track.step]
  split
  · rename_i hsample
    simp only [State.samplesRtt,Bool.and_eq_true] at hsample
    obtain ⟨⟨⟨⟨⟨_,_⟩,_⟩,_⟩,hlast⟩,_⟩ := hsample
    refine ⟨h.netRate,fun c => ?_,fun c => ?_,fun c o ho => ?_⟩
    · dsimp only
      rw [put_eq_update hok]
      by_cases hc : c = cookie
      · simp [hc]
      · simpa [hc] using h.last c
    · dsimp only
      rw [Function.update_apply]
      split
      · refine (h.spaced cookie).concat (by decide) fun last hget => ?_
        rw [h.last cookie,Option.mem_def.mp hget,Option.all_some] at hlast
        exact (rateReached_le hlast).trans (Nat.mul_le_mul_left _ h.netRate)
      · exact h.spaced c
    · dsimp only at ho ⊢
      rw [Function.update_apply] at ho ⊢
      split at ho
      · rename_i hc
        obtain ⟨o',ho',rfl⟩ := Option.map_eq_some_iff.mp ho
        obtain ⟨hcount,hsum⟩ := h.recorded cookie o' ho'
        rw [if_pos hc]
        dsimp only
        rw [hcount,hsum,Nat.mod_add_mod,Nat.mod_add_mod]
        simp
      · rename_i hc
        rw [if_neg hc]
        exact h.recorded c o ho
  · exact h

theorem RttsKept.step {rate : ℕ} {s : Sys} (h : RttsKept rate s) {ev : Event}
    (hok : StepOk rate s ev) : RttsKept rate (NetSampling.step s ev) := by
  cases ev with
  | rcvEstablished e cookie tcp srtt => exact h.sample hok
  | setNetRate r => exact ⟨hok,h.last,h.spaced,h.recorded⟩
  | own cookie =>
    refine ⟨h.netRate,h.last,h.spaced,fun c o ho => ?_⟩
    simp only [NetSampling.step,State.step,Track.step,Function.update_apply] at ho ⊢
    split at ho
    · rename_i hc
      rw [if_pos hc,← Option.some.inj ho]
      exact ⟨rfl,rfl⟩
    · rename_i hc
      rw [if_neg hc]
      exact h.recorded c o ho
  | disown cookie =>
    refine ⟨h.netRate,h.last,h.spaced,fun c o ho => ?_⟩
    simp only [NetSampling.step,State.step,Function.update_apply] at ho
    split at ho
    · cases ho
    · exact h.recorded c o ho
  | reset left =>
    refine ⟨h.netRate,fun c => ?_,fun c => ?_,fun c o ho => ?_⟩
    · simp only [NetSampling.step,State.step,Track.step]
      split
      · exact h.last c
      · rfl
    · simp only [NetSampling.step,Track.step]
      split
      · exact h.spaced c
      · exact spaced_nil
    · simp only [NetSampling.step,State.step] at ho
      split at ho
      · exact h.recorded c o ho
      · cases ho
  | kfreeSkb e dev protocol =>
    simp only [NetSampling.step,State.step,State.netKfreeSkb,Track.step]
    split
    · exact ⟨h.netRate,h.last,h.spaced,h.recorded⟩
    · split <;> exact ⟨h.netRate,h.last,h.spaced,h.recorded⟩
  | softirqEntry e vec =>
    simp only [NetSampling.step,State.step,State.netSoftirqEntry,Track.step]
    split
    · exact ⟨h.netRate,h.last,h.spaced,h.recorded⟩
    · exact h
  | softirqExit e vec =>
    simp only [NetSampling.step,State.step,State.netSoftirqExit,Track.step]
    split
    · split <;> exact ⟨h.netRate,h.last,h.spaced,h.recorded⟩
    · exact h
  | setDeep on => exact ⟨h.netRate,h.last,h.spaced,h.recorded⟩

theorem rttsKept_start (rate : ℕ) : RttsKept rate {} where
  netRate := Nat.zero_le _
  last _ := rfl
  spaced _ := spaced_nil
  recorded := nofun

end NetSampling
end ETraceDiag
