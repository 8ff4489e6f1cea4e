import ETraceDiag.AlignedRecords
import Mathlib.Data.List.Induction
import Mathlib.Logic.Function.Basic

/-!
# Netlink dumps

`DiagTcpStates` and `NetlinkLinks` ask the kernel for a dump and read its answer: datagrams of
messages up to a closing one, received into one buffer. A message about a link holds attributes
that are framed in the same way.
-/

namespace ETraceDiag
namespace NetlinkDump

open AlignedRecords

/-- `NLMSG_OK` and `NLMSG_NEXT`. -/
def nlmsg : Layout := ⟨16,4,4,by decide,by decide⟩

/-- `RTA_OK` and `RTA_NEXT`. -/
def rtattr : Layout := ⟨4,2,4,by decide,by decide⟩

/-- `(unsigned)n`. -/
def unsignedView (n : ℤ) : ℤ := n % 2^32

def nlmsgError : ℕ := 2
def nlmsgDone : ℕ := 3
def rtmNewlink : ℕ := 16

inductive Fault
  /-- A read behind the buffer. -/
  | outside
  /-- A `recv` that nothing answers. -/
  | blocked
  deriving DecidableEq,Repr

def orOutside {α : Type} : Option α → Except Fault α
  | none => .error .outside
  | some a => .ok a

/-! ## Receiving -/

/-- `std::string buf(1 << 16, 0)`. -/
def freshBuf : List UInt8 := List.replicate (2^16) 0

/-- The buffer after a `recv`: a longer datagram is cut. -/
def recvInto (data buf : List UInt8) : List UInt8 := data.take buf.length++buf.drop data.length

section Receiving

variable {σ : Type}

/-- `while (!done)`; `none` in the list is a `recv` that fails. -/
def recvLoop (body : List UInt8 → σ → ℕ → Option (Bool × σ)) (done : σ → Bool) :
    List (Option (List UInt8)) → List UInt8 → σ → Except Fault σ
  | [], _, _ => .error .blocked
  | none::_, _, s => .ok s
  | some data::recvs, buf, s =>
    let mem := recvInto data buf
    (orOutside (walk nlmsg unsignedView mem (body mem) (mem.length+1) 0
        (data.take buf.length).length s)).bind fun s =>
      if done s then .ok s else recvLoop body done recvs mem s

end Receiving

/-! ## DiagTcpStates -/

inductive TcpState
  | established
  | synSent
  | synRecv
  | finWait1
  | finWait2
  | timeWait
  | close
  | closeWait
  | lastAck
  | listen
  | closing
  deriving DecidableEq,Repr

def TcpState.number : TcpState → ℕ
  | .established => 1
  | .synSent => 2
  | .synRecv => 3
  | .finWait1 => 4
  | .finWait2 => 5
  | .timeWait => 6
  | .close => 7
  | .closeWait => 8
  | .lastAck => 9
  | .listen => 10
  | .closing => 11

structure Diag where
  states : ℕ → UInt64 := fun _ => 0
  rq : UInt64 := 0
  wq : UInt64 := 0
  any : Bool := false
  done : Bool := false

def Diag.count (s : Diag) (st rqueue wqueue : ℕ) : Diag :=
  { s with
    states := if 1 ≤ st ∧ st ≤ 13 then Function.update s.states (st-1) (s.states (st-1)+1)
      else s.states
    rq := s.rq+.ofNat rqueue
    wq := s.wq+.ofNat wqueue
    any := true }

/-- The body of the loop; the fields of `inet_diag_msg` are at 1, 56 and 60 behind the header. -/
def diagBody (mem : List UInt8) (s : Diag) (pos : ℕ) : Option (Bool × Diag) :=
  (readAt mem (pos+4) 2).bind fun ty =>
    if ty = nlmsgDone ∨ ty = nlmsgError then some (true,{ s with done := true })
    else
      (readAt mem (pos+17) 1).bind fun st => (readAt mem (pos+72) 4).bind fun rqueue =>
        (readAt mem (pos+76) 4).bind fun wqueue => some (false,s.count st rqueue wqueue)

/-- One address family: whether `send` succeeds, and what the `recv` calls give. -/
structure Pass where
  sent : Bool
  recvs : List (Option (List UInt8))

def diagPass (p : Pass) (s : Diag) : Except Fault Diag :=
  if p.sent then recvLoop diagBody Diag.done p.recvs freshBuf { s with done := false }
  else .ok s

/-- What is written to the stack snapshot. -/
structure TcpStates where
  state : TcpState → UInt64
  rqueueBytes : UInt64
  wqueueBytes : UInt64

def diagTcpStates (socketOk : Bool) (v4 v6 : Pass) : Except Fault (Option TcpStates) :=
  if socketOk then
    (diagPass v4 {}).bind fun s => (diagPass v6 s).bind fun s =>
      if s.any then .ok (some ⟨fun t => s.states (t.number-1),s.rq,s.wq⟩) else .ok none
  else .ok none

/-! ## NetlinkLinks -/

inductive LinkStat
  | rxPackets
  | txPackets
  | rxBytes
  | txBytes
  | rxErrors
  | txErrors
  | rxDropped
  | txDropped
  | collisions
  | rxNohandler
  deriving DecidableEq,Repr

/-- The place in `rtnl_link_stats` and `rtnl_link_stats64`. -/
def LinkStat.index : LinkStat → ℕ
  | .rxPackets => 0
  | .txPackets => 1
  | .rxBytes => 2
  | .txBytes => 3
  | .rxErrors => 4
  | .txErrors => 5
  | .rxDropped => 6
  | .txDropped => 7
  | .collisions => 9
  | .rxNohandler => 23

structure LinkRow where
  ifindex : ℕ
  operstate : ℕ
  name : List UInt8 := []
  mtu : ℕ := 0
  carrierChanges : ℕ := 0
  stat : LinkStat → ℕ := 0
  hasStats : Bool := false

/-- The characters up to the closing zero. -/
def cstr : List UInt8 → Option (List UInt8)
  | [] => none
  | c::cs => if c = 0 then some [] else (cstr cs).map (c::·)

/-- Counters of `size` bytes each; `rx_nohandler` is the one furthest behind. -/
def statsAt (mem : List UInt8) (pos size : ℕ) : Option (LinkStat → ℕ) :=
  if pos+size*24 ≤ mem.length then
    some fun f => (readAt mem (pos+size*f.index) size).getD 0
  else none

def iflaIfname : ℕ := 3
def iflaMtu : ℕ := 4
def iflaStats : ℕ := 7
def iflaOperstate : ℕ := 16
def iflaStats64 : ℕ := 23
def iflaCarrierChanges : ℕ := 35

/-- The `switch` over the type of an attribute. -/
def readAttr (mem : List UInt8) (row : LinkRow) (pos ty : ℕ) : Option LinkRow :=
  if ty = iflaIfname then (cstr (mem.drop (pos+4))).map fun v => { row with name := v }
  else if ty = iflaMtu then (readAt mem (pos+4) 4).map fun v => { row with mtu := v }
  else if ty = iflaOperstate then (readAt mem (pos+4) 1).map fun v => { row with operstate := v }
  else if ty = iflaCarrierChanges then
    (readAt mem (pos+4) 4).map fun v => { row with carrierChanges := v }
  else if ty = iflaStats64 then
    (statsAt mem (pos+4) 8).map fun v => { row with stat := v, hasStats := true }
  else if ty = iflaStats then
    (statsAt mem (pos+4) 4).map fun v => { row with stat := v, hasStats := true }
  else some row

def attrBody (mem : List UInt8) (row : LinkRow) (pos : ℕ) : Option (Bool × LinkRow) :=
  (readAt mem (pos+2) 2).bind fun ty => (readAttr mem row pos ty).map fun row => (false,row)

/-- `IFF_UP` and `IFF_RUNNING`. -/
def operstateOf (flags : ℕ) : ℕ :=
  if flags.testBit 0 then if flags.testBit 6 then 6 else 2 else 2

structure Links where
  out : List LinkRow := []
  done : Bool := false

def LinkRow.complete (row : LinkRow) : Bool := row.name ≠ [] && row.hasStats

def Links.push (s : Links) (row : LinkRow) : Links :=
  if row.complete then { s with out := s.out++[row] } else s

/-- `ifi_index` and `ifi_flags` are at 4 and 8 behind the header, the attributes at 16. -/
def linkBody (mem : List UInt8) (s : Links) (pos : ℕ) : Option (Bool × Links) :=
  (readAt mem (pos+4) 2).bind fun ty =>
    if ty = nlmsgDone ∨ ty = nlmsgError then some (true,{ s with done := true })
    else if ty ≠ rtmNewlink then some (false,s)
    else
      (readAt mem (pos+20) 4).bind fun index => (readAt mem (pos+24) 4).bind fun flags =>
        (readAt mem pos 4).bind fun len =>
          (walk rtattr id mem (attrBody mem) (mem.length+1) (pos+32) (len-32)
            { ifindex := index, operstate := operstateOf flags }).map fun row => (false,s.push row)

def netlinkLinks (socketOk : Bool) (p : Pass) : Except Fault (List LinkRow) :=
  if socketOk && p.sent then (recvLoop linkBody Links.done p.recvs freshBuf {}).map Links.out
  else .ok []

/-! ## What the kernel answers -/

/-- A dump of `ks`, cut into datagrams that fit the buffer and closed by `NLMSG_DONE`; an item
`none` is the closing message. -/
def Answers {κ : Type} (C : Record nlmsg → Option κ → Prop) (ks : List κ)
    (recvs : List (Option (List UInt8))) : Prop :=
  ∃ (ds : List (List (Message nlmsg C))) (more : List (Option (List UInt8))),
    recvs = (ds.map fun d => some (encode d))++more ∧ (∀ d ∈ ds, (encode d).length ≤ 2^16) ∧
      items ds.flatten = ks.map some++[none]

section Loop

variable {σ κ : Type} {C : Record nlmsg → Option κ → Prop}
  {body : List UInt8 → σ → ℕ → Option (Bool × σ)} {done : σ → Bool} {g : σ → Option κ → Bool × σ}
  (hbody : ∀ (m : Message nlmsg C) front back s,
    body (front++(m.record.bytes++back)) s front.length = some (g s m.item))
  (hdone : ∀ s i, done s = false → done (g s i).2 = (g s i).1)
include hbody hdone

/-- The loop goes on through the datagrams until a message stops it. -/
theorem recvLoop_encode (ds : List (List (Message nlmsg C)))
    (hsize : ∀ d ∈ ds, (encode d).length ≤ 2^16) :
    ∀ buf s more, buf.length = 2^16 → done s = false →
      done (process g (items ds.flatten) s) = true →
        recvLoop body done ((ds.map fun d => some (encode d))++more) buf s =
          .ok (process g (items ds.flatten) s) := by
  induction ds with
  | nil => exact fun _ _ _ _ hs hstop => absurd (hs.symm.trans hstop) Bool.false_ne_true
  | cons d ds ih =>
    intro buf s more hbuf hs hstop
    obtain ⟨hd,hds⟩ := List.forall_mem_cons.mp hsize
    have hwhole : (encode d).take buf.length = encode d := List.take_of_length_le (hbuf.symm ▸ hd)
    have hmem : recvInto (encode d) buf = []++(encode d++buf.drop (encode d).length) := by
      rw [recvInto,hwhole]
      rfl
    have hlen : (recvInto (encode d) buf).length = 2^16 := by
      rw [hmem,List.nil_append,List.length_append,List.length_drop,hbuf]
      omega
    have hview : ∀ n : ℕ, n ≤ 2^16 → unsignedView n = n := by
      intro n hn
      refine Int.emod_eq_of_lt (Int.natCast_nonneg n) ?_
      exact_mod_cast hn.trans_lt (by decide)
    have hwalk : walk nlmsg unsignedView (recvInto (encode d) buf)
        (body (recvInto (encode d) buf)) ((recvInto (encode d) buf).length+1) 0
          ((encode d).take buf.length).length s = some (process g (items d) s) := by
      rw [hwhole]
      refine walk_encode hview d ?_ [] _ _ s hmem (by rw [hlen]; omega) hd
      intro m _ front back hm s
      rw [hm]
      exact hbody m front back s
    have hitems : items (d::ds).flatten = items d++items ds.flatten := List.map_append
    rw [hitems,process_append hdone _ _ s hs] at hstop ⊢
    rw [List.map_cons,List.cons_append,recvLoop,hwalk]
    show (if done (process g (items d) s) then _ else _) = _
    split
    · rfl
    · next hgo =>
      rw [if_neg hgo] at hstop
      exact ih hds _ _ more hlen (Bool.eq_false_of_not_eq_true hgo) hstop

/-- A dump is read to its end. -/
theorem recvLoop_answers {h : σ → κ → σ} (hg : ∀ s k, g s (some k) = (false,h s k))
    (hlast : ∀ s, (g s none).1 = true) {ks : List κ} {recvs : List (Option (List UInt8))}
    (ha : Answers C ks recvs) {s : σ} (hs : done s = false) :
    recvLoop body done recvs freshBuf s = .ok (g (ks.foldl h s) none).2 := by
  obtain ⟨ds,more,rfl,hsize,hitems⟩ := ha
  have hfold : done (ks.foldl h s) = false := by
    clear hitems
    induction ks generalizing s with
    | nil => exact hs
    | cons k ks ih =>
      have hk := hdone s (some k) hs
      rw [hg] at hk
      exact ih hk
  have hprocess : process g (items ds.flatten) s = (g (ks.foldl h s) none).2 := by
    rw [hitems,process_of_go_on hg,process,if_pos (hlast _)]
  have hstop : done (process g (items ds.flatten) s) = true := by
    rw [hprocess,hdone _ _ hfold,hlast]
  rw [recvLoop_encode hbody hdone ds hsize freshBuf s more List.length_replicate hs hstop,hprocess]

end Loop

/-! ## Sockets -/

structure Sock where
  state : ℕ
  rqueue : ℕ
  wqueue : ℕ

def CarriesSock (r : Record nlmsg) : Option Sock → Prop
  | none => readAt r.bytes 4 2 = some nlmsgDone
  | some k => ∃ ty, readAt r.bytes 4 2 = some ty ∧ ty ≠ nlmsgDone ∧ ty ≠ nlmsgError ∧
      readAt r.bytes 17 1 = some k.state ∧ readAt r.bytes 72 4 = some k.rqueue ∧
      readAt r.bytes 76 4 = some k.wqueue

def countSock (s : Diag) : Option Sock → Bool × Diag
  | none => (true,{ s with done := true })
  | some k => (false,s.count k.state k.rqueue k.wqueue)

theorem diagBody_carries (m : Message nlmsg CarriesSock) (front back : List UInt8) (s : Diag) :
    diagBody (front++(m.record.bytes++back)) s front.length = some (countSock s m.item) := by
  obtain ⟨r,i,hc⟩ := m
  cases i with
  | none =>
    rw [diagBody,readAt_append_of_some front back hc]
    rfl
  | some k =>
    obtain ⟨ty,hty,hdone,herror,hst,hrq,hwq⟩ := hc
    rw [diagBody,readAt_append_of_some front back hty,Option.bind_some,
      if_neg (not_or.mpr ⟨hdone,herror⟩),readAt_append_of_some front back hst,Option.bind_some,
      readAt_append_of_some front back hrq,Option.bind_some,
      readAt_append_of_some front back hwq]
    rfl

/-- A family that cannot be asked has no sockets to count. -/
def Pass.Holds (p : Pass) (ks : List Sock) : Prop :=
  if p.sent then Answers CarriesSock ks p.recvs else ks = []

def countAll (s : Diag) (ks : List Sock) : Diag :=
  ks.foldl (fun s k => s.count k.state k.rqueue k.wqueue) s

theorem countAll_done (ks : List Sock) : ∀ (s : Diag) (d : Bool),
    countAll { s with done := d } ks = { countAll s ks with done := d } := by
  induction ks with
  | nil => exact fun _ _ => rfl
  | cons k ks ih => exact fun s d => ih (s.count k.state k.rqueue k.wqueue) d

theorem diagPass_holds {p : Pass} {ks : List Sock} (h : p.Holds ks) (s : Diag) :
    ∃ d, diagPass p s = .ok { countAll s ks with done := d } := by
  rw [Pass.Holds] at h
  by_cases hsent : p.sent = true
  · rw [if_pos hsent] at h
    have hdone : ∀ (s : Diag) (i : Option Sock), s.done = false →
        (countSock s i).2.done = (countSock s i).1 := by
      intro s i hs
      cases i with
      | none => rfl
      | some k => exact hs
    refine ⟨true,?_⟩
    rw [diagPass,if_pos hsent,recvLoop_answers diagBody_carries hdone
      (h:=fun s k => s.count k.state k.rqueue k.wqueue) (fun _ _ => rfl) (fun _ => rfl) h rfl]
    refine congrArg Except.ok ?_
    show { countAll { s with done := false } ks with done := true } = _
    rw [countAll_done]
  · rw [if_neg hsent] at h
    subst h
    exact ⟨s.done,if_neg hsent⟩

/-- The states and the queue bytes of some sockets. -/
def summary (ks : List Sock) : TcpStates where
  state t := .ofNat (ks.countP fun k => k.state = t.number)
  rqueueBytes := .ofNat (ks.map Sock.rqueue).sum
  wqueueBytes := .ofNat (ks.map Sock.wqueue).sum

theorem count_states (s : Diag) (k : Sock) {j : ℕ} (hj : j < 13) :
    (s.count k.state k.rqueue k.wqueue).states j =
      s.states j+.ofNat (if k.state = j+1 then 1 else 0) := by
  by_cases hk : k.state = j+1
  · have hin : 1 ≤ k.state ∧ k.state ≤ 13 := by omega
    have hj' : k.state-1 = j := by omega
    simp only [Diag.count,if_pos hin,hj',if_pos hk,Function.update_self]
    rfl
  · rw [if_neg hk,Diag.count]
    refine Eq.trans ?_ (UInt64.add_zero _).symm
    by_cases hin : 1 ≤ k.state ∧ k.state ≤ 13
    · have hj' : j ≠ k.state-1 := by omega
      simp only [if_pos hin,Function.update_of_ne hj']
    · simp only [if_neg hin]

theorem countAll_states {j : ℕ} (hj : j < 13) (ks : List Sock) : ∀ s, (countAll s ks).states j =
    s.states j+.ofNat (ks.countP fun k => k.state = j+1) := by
  induction ks with
  | nil => exact fun s => (UInt64.add_zero _).symm
  | cons k ks ih =>
    intro s
    have hcons : (k::ks).countP (fun k => k.state = j+1) =
        (if k.state = j+1 then 1 else 0)+ks.countP fun k => k.state = j+1 := by
      rw [List.countP_cons,Nat.add_comm]
      by_cases hk : k.state = j+1 <;> simp [hk]
    rw [countAll,List.foldl_cons]
    refine (ih _).trans ?_
    rw [count_states s k hj,hcons,UInt64.ofNat_add,UInt64.add_assoc]

theorem countAll_queues (ks : List Sock) : ∀ s,
    (countAll s ks).rq = s.rq+.ofNat (ks.map Sock.rqueue).sum ∧
      (countAll s ks).wq = s.wq+.ofNat (ks.map Sock.wqueue).sum ∧
        (countAll s ks).any = (s.any || !ks.isEmpty) := by
  induction ks with
  | nil => exact fun s => ⟨(UInt64.add_zero _).symm,(UInt64.add_zero _).symm,(Bool.or_false _).symm⟩
  | cons k ks ih =>
    intro s
    obtain ⟨hrq,hwq,hany⟩ := ih (s.count k.state k.rqueue k.wqueue)
    rw [countAll,List.foldl_cons]
    refine ⟨hrq.trans ?_,hwq.trans ?_,hany.trans ?_⟩
    · rw [List.map_cons,List.sum_cons,UInt64.ofNat_add,← UInt64.add_assoc]
      rfl
    · rw [List.map_cons,List.sum_cons,UInt64.ofNat_add,← UInt64.add_assoc]
      rfl
    · exact (Bool.or_true _).symm

theorem countAll_append (s : Diag) (ks ks' : List Sock) :
    countAll (countAll s ks) ks' = countAll s (ks++ks') := (List.foldl_append ..).symm

/-- Every socket of both families is counted once, however the kernel cuts its answers into
datagrams, and no read leaves the buffer. -/
theorem tcp_states_counted {v4 v6 : Pass} {ks4 ks6 : List Sock} (h4 : v4.Holds ks4)
    (h6 : v6.Holds ks6) : diagTcpStates true v4 v6 =
      .ok (if ks4++ks6 = [] then none else some (summary (ks4++ks6))) := by
  obtain ⟨d4,hd4⟩ := diagPass_holds h4 {}
  obtain ⟨d6,hd6⟩ := diagPass_holds h6 { countAll {} ks4 with done := d4 }
  rw [countAll_done,countAll_append] at hd6
  obtain ⟨hrq,hwq,hany⟩ := countAll_queues (ks4++ks6) {}
  rw [diagTcpStates,if_pos rfl,hd4]
  show (diagPass v6 _).bind _ = _
  rw [hd6]
  show (if (countAll {} (ks4++ks6)).any then Except.ok (some (TcpStates.mk _ _ _)) else .ok none) = _
  rw [hany]
  by_cases hempty : ks4++ks6 = []
  · rw [if_pos hempty,hempty]
    rfl
  · rw [if_neg hempty,if_pos (by simpa using hempty)]
    refine congrArg (Except.ok ∘ some) ?_
    have hstate : ∀ t : TcpState, (countAll {} (ks4++ks6)).states (t.number-1) =
        .ofNat ((ks4++ks6).countP fun k => k.state = t.number) := by
      intro t
      have hnum : t.number-1 < 13 ∧ t.number-1+1 = t.number := by cases t <;> decide
      rw [countAll_states hnum.1,hnum.2]
      exact UInt64.zero_add _
    exact (TcpStates.mk.injEq ..).mpr
      ⟨funext hstate,hrq.trans (UInt64.zero_add _),hwq.trans (UInt64.zero_add _)⟩

/-- `NLMSG_DONE`. -/
def doneRecord : Record nlmsg :=
  ⟨[20,0,0,0,3,0,2,0,1,0,0,0,0,0,0,0,0,0,0,0],[],by decide,by decide,by decide⟩

theorem type_doneRecord : readAt doneRecord.bytes 4 2 = some nlmsgDone := by decide

/-- One listening socket. -/
def listening : List (Message nlmsg CarriesSock) :=
  [⟨⟨[88,0,0,0,20,0,2,0,1,0,0,0,0,0,0,0,2,10]++List.replicate 70 0,[],by decide,by decide,
      by decide⟩,some ⟨10,0,0⟩,20,by decide,by decide,by decide,by decide,by decide,by decide⟩,
    ⟨doneRecord,none,type_doneRecord⟩]

theorem tcp_states_counted_listening :
    diagTcpStates true ⟨true,[some (encode listening)]⟩ ⟨false,[]⟩ =
      .ok (some (summary [⟨10,0,0⟩])) := by
  have h4 : (Pass.mk true [some (encode listening)]).Holds [⟨10,0,0⟩] :=
    ⟨[listening],[],rfl,fun _ h => List.mem_singleton.mp h ▸ by decide,rfl⟩
  have h6 : (Pass.mk false []).Holds [] := rfl
  exact tcp_states_counted h4 h6

/-! ## Links -/

inductive Attr
  | ifname (v : List UInt8)
  | mtu (v : ℕ)
  | operstate (v : ℕ)
  | carrierChanges (v : ℕ)
  | stats64 (v : LinkStat → ℕ)
  | stats (v : LinkStat → ℕ)
  | other

def CarriesAttr (r : Record rtattr) : Attr → Prop
  | .ifname v => readAt r.bytes 2 2 = some iflaIfname ∧ cstr (r.bytes.drop 4) = some v
  | .mtu v => readAt r.bytes 2 2 = some iflaMtu ∧ readAt r.bytes 4 4 = some v
  | .operstate v => readAt r.bytes 2 2 = some iflaOperstate ∧ readAt r.bytes 4 1 = some v
  | .carrierChanges v => readAt r.bytes 2 2 = some iflaCarrierChanges ∧ readAt r.bytes 4 4 = some v
  | .stats64 v => readAt r.bytes 2 2 = some iflaStats64 ∧ statsAt r.bytes 4 8 = some v
  | .stats v => readAt r.bytes 2 2 = some iflaStats ∧ statsAt r.bytes 4 4 = some v
  | .other => ∃ ty, readAt r.bytes 2 2 = some ty ∧
      ty ∉ [iflaIfname,iflaMtu,iflaOperstate,iflaCarrierChanges,iflaStats64,iflaStats]

def LinkRow.set (row : LinkRow) : Attr → LinkRow
  | .ifname v => { row with name := v }
  | .mtu v => { row with mtu := v }
  | .operstate v => { row with operstate := v }
  | .carrierChanges v => { row with carrierChanges := v }
  | .stats64 v => { row with stat := v, hasStats := true }
  | .stats v => { row with stat := v, hasStats := true }
  | .other => row

theorem cstr_append {l : List UInt8} {v : List UInt8} (back : List UInt8) (h : cstr l = some v) :
    cstr (l++back) = some v := by
  induction l generalizing v with
  | nil => cases h
  | cons c l ih =>
    rw [List.cons_append,cstr]
    rw [cstr] at h
    split
    · next hc => rwa [if_pos hc] at h
    · next hc =>
      rw [if_neg hc] at h
      obtain ⟨w,hw,rfl⟩ := Option.map_eq_some_iff.mp h
      rw [ih hw]
      rfl

theorem cstr_drop_append (front : List UInt8) {bytes v : List UInt8} (back : List UInt8) {k : ℕ}
    (h : cstr (bytes.drop k) = some v) :
    cstr ((front++(bytes++back)).drop (front.length+k)) = some v := by
  have hle : k ≤ bytes.length := by
    by_contra hlt
    rw [List.drop_eq_nil_of_le (Nat.le_of_not_le hlt)] at h
    cases h
  rw [List.drop_append,List.drop_eq_nil_of_le (Nat.le_add_right _ _),List.nil_append,
    Nat.add_sub_cancel_left,List.drop_append_of_le_length hle]
  exact cstr_append back h

theorem statsAt_append (front : List UInt8) {bytes : List UInt8} (back : List UInt8)
    {k size : ℕ} {v : LinkStat → ℕ} (h : statsAt bytes k size = some v) :
    statsAt (front++(bytes++back)) (front.length+k) size = some v := by
  rw [statsAt] at h
  split at h
  · next hle =>
    have hin : front.length+k+size*24 ≤ (front++(bytes++back)).length := by
      simp only [List.length_append]
      omega
    rw [statsAt,if_pos hin]
    refine Eq.trans (congrArg some (funext fun f => ?_)) h
    have hf : size*f.index+size ≤ size*24 := by
      rw [← Nat.mul_succ]
      exact Nat.mul_le_mul_left _ (by cases f <;> decide)
    rw [Nat.add_assoc,readAt_append front bytes back (by omega)]
  · cases h

theorem attrBody_carries (m : Message rtattr CarriesAttr) (front back : List UInt8)
    (row : LinkRow) : attrBody (front++(m.record.bytes++back)) row front.length =
      some (false,row.set m.item) := by
  obtain ⟨r,a,hc⟩ := m
  rw [attrBody]
  cases a with
  | ifname v =>
    rw [readAt_append_of_some front back hc.1,Option.bind_some,readAttr,if_pos rfl,
      cstr_drop_append front back hc.2]
    rfl
  | mtu v =>
    rw [readAt_append_of_some front back hc.1,Option.bind_some,readAttr,if_neg (by decide),
      if_pos rfl,readAt_append_of_some front back hc.2]
    rfl
  | operstate v =>
    rw [readAt_append_of_some front back hc.1,Option.bind_some,readAttr,if_neg (by decide),
      if_neg (by decide),if_pos rfl,readAt_append_of_some front back hc.2]
    rfl
  | carrierChanges v =>
    rw [readAt_append_of_some front back hc.1,Option.bind_some,readAttr,if_neg (by decide),
      if_neg (by decide),if_neg (by decide),if_pos rfl,readAt_append_of_some front back hc.2]
    rfl
  | stats64 v =>
    rw [readAt_append_of_some front back hc.1,Option.bind_some,readAttr,if_neg (by decide),
      if_neg (by decide),if_neg (by decide),if_neg (by decide),if_pos rfl,
      statsAt_append front back hc.2]
    rfl
  | stats v =>
    rw [readAt_append_of_some front back hc.1,Option.bind_some,readAttr,if_neg (by decide),
      if_neg (by decide),if_neg (by decide),if_neg (by decide),if_neg (by decide),if_pos rfl,
      statsAt_append front back hc.2]
    rfl
  | other =>
    obtain ⟨ty,hty,hnot⟩ := hc
    simp only [List.mem_cons,List.not_mem_nil,or_false,not_or] at hnot
    obtain ⟨h1,h2,h3,h4,h5,h6⟩ := hnot
    rw [readAt_append_of_some front back hty,Option.bind_some,readAttr,if_neg h1,if_neg h2,
      if_neg h3,if_neg h4,if_neg h5,if_neg h6]
    rfl

theorem walk_attrs (ms : List (Message rtattr CarriesAttr)) (front back : List UInt8)
    (row : LinkRow) : walk rtattr id (front++(encode ms++back)) (attrBody (front++(encode ms++back)))
      ((front++(encode ms++back)).length+1) front.length (encode ms).length row =
        some ((items ms).foldl LinkRow.set row) := by
  have hfuel : (encode ms).length < (front++(encode ms++back)).length+1 := by
    simp only [List.length_append]
    omega
  have hall : walk rtattr id (front++(encode ms++back)) (attrBody (front++(encode ms++back)))
      ((front++(encode ms++back)).length+1) front.length (encode ms).length row =
        some (process (fun row a => (false,LinkRow.set row a)) (items ms) row) :=
    walk_encode (fun _ _ => rfl) ms
      (fun m _ front' back' hm row => by rw [hm]; exact attrBody_carries m front' back' row)
      front back _ row rfl hfuel (Nat.le_refl _)
  have hset := process_of_go_on (g:=fun (row : LinkRow) a => (false,row.set a)) (f:=id)
    (fun _ _ => rfl) (items ms) [] row
  rw [List.map_id,List.append_nil] at hset
  rw [hall,hset]
  rfl

structure Link where
  index : ℕ
  flags : ℕ
  attrs : List Attr

/-- What a message says: nothing more, something that is no link, or a link. -/
def CarriesLink (r : Record nlmsg) : Option (Option Link) → Prop
  | none => readAt r.bytes 4 2 = some nlmsgDone
  | some none => ∃ ty, readAt r.bytes 4 2 = some ty ∧ ty ∉ [nlmsgDone,nlmsgError,rtmNewlink]
  | some (some k) => readAt r.bytes 4 2 = some rtmNewlink ∧ readAt r.bytes 20 4 = some k.index ∧
      readAt r.bytes 24 4 = some k.flags ∧
      ∃ (head : List UInt8) (ms : List (Message rtattr CarriesAttr)),
        r.bytes = head++encode ms ∧ head.length = 32 ∧ items ms = k.attrs

def Link.read (k : Link) : LinkRow :=
  k.attrs.foldl LinkRow.set { ifindex := k.index, operstate := operstateOf k.flags }

def takeLink (s : Links) : Option (Option Link) → Bool × Links
  | none => (true,{ s with done := true })
  | some none => (false,s)
  | some (some k) => (false,s.push k.read)

theorem linkBody_carries (m : Message nlmsg CarriesLink) (front back : List UInt8) (s : Links) :
    linkBody (front++(m.record.bytes++back)) s front.length = some (takeLink s m.item) := by
  obtain ⟨r,i,hc⟩ := m
  cases i with
  | none =>
    rw [linkBody,readAt_append_of_some front back hc]
    rfl
  | some i =>
    cases i with
    | none =>
      obtain ⟨ty,hty,hnot⟩ := hc
      simp only [List.mem_cons,List.not_mem_nil,or_false,not_or] at hnot
      rw [linkBody,readAt_append_of_some front back hty,Option.bind_some,
        if_neg (not_or.mpr ⟨hnot.1,hnot.2.1⟩),if_pos hnot.2.2]
      rfl
    | some k =>
      obtain ⟨hty,hindex,hflags,head,ms,hbytes,hhead,hitems⟩ := hc
      have hlen : readAt (front++(r.bytes++back)) front.length 4 = some r.bytes.length :=
        readAt_append_of_some front back r.len_eq
      have hmem : front++(r.bytes++back) = (front++head)++(encode ms++back) := by
        rw [hbytes,List.append_assoc,List.append_assoc]
      have hpos : (front++head).length = front.length+32 := by rw [List.length_append,hhead]
      have hn : (r.bytes.length : ℤ)-32 = (encode ms).length := by
        rw [hbytes,List.length_append,hhead]
        push_cast
        ring
      have hwalk := walk_attrs ms (front++head) back
        { ifindex := k.index, operstate := operstateOf k.flags }
      rw [← hmem,hitems] at hwalk
      rw [linkBody,readAt_append_of_some front back hty,Option.bind_some,if_neg (by decide),
        if_neg (not_not.mpr rfl),readAt_append_of_some front back hindex,Option.bind_some,
        readAt_append_of_some front back hflags,Option.bind_some,hlen,Option.bind_some,
        hn,← hpos,hwalk]
      rfl

/-! ## Rows of links -/

/-- The last attribute of a kind. -/
def lastOf {α : Type} (f : Attr → Option α) (as : List Attr) : Option α :=
  (as.filterMap f).getLast?

def Attr.ifname? : Attr → Option (List UInt8)
  | .ifname v => some v
  | _ => none

def Attr.mtu? : Attr → Option ℕ
  | .mtu v => some v
  | _ => none

def Attr.operstate? : Attr → Option ℕ
  | .operstate v => some v
  | _ => none

def Attr.carrierChanges? : Attr → Option ℕ
  | .carrierChanges v => some v
  | _ => none

/-- Counters of either width. -/
def Attr.stats? : Attr → Option (LinkStat → ℕ)
  | .stats64 v => some v
  | .stats v => some v
  | _ => none

/-- Each field is that of the last attribute of its kind; counters of 32 bits that come after
those of 64 bits are the ones that count. -/
def Link.row (k : Link) : LinkRow where
  ifindex := k.index
  operstate := (lastOf Attr.operstate? k.attrs).getD (operstateOf k.flags)
  name := (lastOf Attr.ifname? k.attrs).getD []
  mtu := (lastOf Attr.mtu? k.attrs).getD 0
  carrierChanges := (lastOf Attr.carrierChanges? k.attrs).getD 0
  stat := (lastOf Attr.stats? k.attrs).getD 0
  hasStats := (lastOf Attr.stats? k.attrs).isSome

theorem lastOf_concat {α : Type} (f : Attr → Option α) (as : List Attr) (a : Attr) :
    lastOf f (as++[a]) = (f a).or (lastOf f as) := by
  rw [lastOf,List.filterMap_append,List.getLast?_append,List.filterMap_cons,List.filterMap_nil]
  cases f a <;> rfl

theorem read_eq_row (k : Link) : k.read = k.row := by
  obtain ⟨index,flags,attrs⟩ := k
  induction attrs using List.reverseRecOn with
  | nil => rfl
  | append_singleton as a ih =>
    have hstep : Link.read ⟨index,flags,as++[a]⟩ = (Link.read ⟨index,flags,as⟩).set a := by
      rw [Link.read,List.foldl_append]
      rfl
    rw [hstep,ih]
    cases a <;> simp [LinkRow.set,Link.row,lastOf_concat,Attr.ifname?,Attr.mtu?,Attr.operstate?,
      Attr.carrierChanges?,Attr.stats?]

/-- The rows of the links that have a name and counters. -/
def rowsOf (ms : List (Option Link)) : List LinkRow :=
  ((ms.filterMap id).map Link.row).filter LinkRow.complete

theorem foldl_takeLink (ms : List (Option Link)) : ∀ s : Links,
    (ms.foldl (fun s i => (takeLink s (some i)).2) s).out = s.out++rowsOf ms := by
  induction ms with
  | nil => exact fun s => (List.append_nil _).symm
  | cons i ms ih =>
    intro s
    rw [List.foldl_cons,ih]
    cases i with
    | none => rfl
    | some k =>
      have hrows : rowsOf (some k::ms) =
          (if k.row.complete then [k.row] else [])++rowsOf ms := by
        rw [rowsOf,List.filterMap_cons]
        show List.filter _ (k.row::(ms.filterMap id).map Link.row) = _
        rw [List.filter_cons]
        split <;> rfl
      rw [hrows,takeLink,read_eq_row,Links.push]
      split
      · exact List.append_assoc ..
      · rfl

/-- The rows are those of the links in the dump, in order, however the kernel cuts it into
datagrams, and no read leaves the buffer. -/
theorem links_read {ms : List (Option Link)} {recvs : List (Option (List UInt8))}
    (h : Answers CarriesLink ms recvs) : netlinkLinks true ⟨true,recvs⟩ = .ok (rowsOf ms) := by
  have hdone : ∀ (s : Links) (i : Option (Option Link)), s.done = false →
      (takeLink s i).2.done = (takeLink s i).1 := by
    intro s i hs
    match i with
    | none => rfl
    | some none => exact hs
    | some (some k) =>
      show (s.push k.read).done = false
      rw [Links.push]
      split <;> exact hs
  have hloop := recvLoop_answers linkBody_carries hdone (h:=fun s i => (takeLink s (some i)).2)
    (fun s i => by cases i <;> rfl) (fun _ => rfl) h (s:={}) rfl
  rw [netlinkLinks,Bool.and_self,if_pos rfl,hloop]
  exact congrArg Except.ok (foldl_takeLink ms {})

/-- Counters of 32 bits that are all zero. -/
def zeroStats : Record rtattr :=
  ⟨[100,0,7,0]++List.replicate 96 0,[],by decide,by decide,by decide⟩

theorem carries_zeroStats : CarriesAttr zeroStats (.stats fun _ => 0) := by
  refine ⟨by decide,?_⟩
  rw [statsAt,if_pos (by decide)]
  exact congrArg some (funext fun f => by cases f <;> decide)

/-- The attributes of the loopback device. -/
def loopbackAttrs : List (Message rtattr CarriesAttr) :=
  [⟨⟨[7,0,3,0,108,111,0],[0],by decide,by decide,by decide⟩,.ifname [108,111],by decide,by decide⟩,
    ⟨zeroStats,.stats fun _ => 0,carries_zeroStats⟩]

def loopbackHead : List UInt8 :=
  [140,0,0,0,16,0,2,0,1,0,0,0,0,0,0,0,0,0,0,0,1,0,0,0,73,0,0,0,0,0,0,0]

def loopbackRecord : Record nlmsg :=
  ⟨loopbackHead++encode loopbackAttrs,[],by decide +kernel,by decide +kernel,by decide +kernel⟩

def loopback : List (Message nlmsg CarriesLink) :=
  [⟨loopbackRecord,some (some ⟨1,73,items loopbackAttrs⟩),by decide +kernel,by decide +kernel,
      by decide +kernel,loopbackHead,loopbackAttrs,rfl,rfl,rfl⟩,
    ⟨doneRecord,none,type_doneRecord⟩]

theorem links_read_loopback : netlinkLinks true ⟨true,[some (encode loopback)]⟩ =
    .ok (rowsOf [some ⟨1,73,items loopbackAttrs⟩]) :=
  links_read ⟨[loopback],[],rfl,fun _ h => List.mem_singleton.mp h ▸ by decide +kernel,rfl⟩

end NetlinkDump
end ETraceDiag
