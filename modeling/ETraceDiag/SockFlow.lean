import ETraceDiag.Transition
import Mathlib.Data.Finset.Basic
import Mathlib.Data.Fintype.Basic
import Mathlib.Tactic.Tauto

/-!
# Sockets and their owners

The DEEP hooks of `bpf/etrace_common.h` on sockets. A socket that a target connects or accepts
has a record in `sock_owner`; when it fails, closes or is reset the record moves to `net_flow`.
A record starts as a local variable without an initialiser. DEEP is on; map updates succeed.
-/

namespace ETraceDiag
namespace SockFlow

open Transition

/-- The members of `sock_owner_t`. -/
inductive Field
  | tgid | tid | netnsIno | family | localAddr (i : Fin 4) | remoteAddr (i : Fin 4) | localPort
  | remotePort | startTs | establishedTs | txBytes | rxBytes | retrans | rstReason | rttCount
  | rttSumUs
  deriving DecidableEq

@[reducible] def Field.width : Field → ℕ
  | .tid | .family | .localAddr _ | .remoteAddr _ | .localPort | .remotePort | .rstReason => 32
  | _ => 64

abbrev Contents := (f : Field) → BitVec f.width

/-- A `sock_owner_t`, and which members have been assigned. -/
structure SockOwner where
  value : Contents
  written : Finset Field

structure ConnectStart where
  cookie : BitVec 64
  ts : BitVec 64

/-- What the hooks read of a socket; a socket that is no TCP socket has no sequence numbers. -/
structure Sock where
  address : BitVec 64
  cookie : BitVec 64
  family : BitVec 16
  num : BitVec 16
  dport : BitVec 16
  v6RcvSaddr : Fin 4 → BitVec 32
  v6Daddr : Fin 4 → BitVec 32
  rcvSaddr : BitVec 32
  daddr : BitVec 32
  netnsIno : BitVec 32
  wmemQueued : BitVec 32
  tcp : Option (BitVec 32 × BitVec 32)

/-- The current task. -/
structure Current where
  tgid : BitVec 32
  tid : BitVec 32
  target : Bool

structure Flows where
  sockOwner : BitVec 64 → Option SockOwner
  netFlow : BitVec 64 → Option SockOwner
  connectStart : BitVec 32 → Option ConnectStart

/-! ## Records -/

/-- A local variable, with what the stack held. -/
def SockOwner.onStack (stack : Contents) : SockOwner := ⟨stack,∅⟩

def SockOwner.set (f : Field) (x : BitVec f.width) (o : SockOwner) : SockOwner :=
  ⟨Function.update o.value f x,insert f o.written⟩

@[simp] theorem SockOwner.set_written (f : Field) (x : BitVec f.width) (o : SockOwner) :
    (o.set f x).written = insert f o.written := rfl

theorem SockOwner.set_value_of_ne {f g : Field} (h : g ≠ f) (x : BitVec f.width)
    (o : SockOwner) : (o.set f x).value g = o.value g := Function.update_of_ne h ..

def sockCookie (sk : Sock) : BitVec 64 := if sk.cookie ≠ 0 then sk.cookie else sk.address

def fillTuple (sk : Sock) (o : SockOwner) : SockOwner :=
  let o := o.set .family (sk.family.setWidth 32)
  let o := o.set .localPort (sk.num.setWidth 32)
  let o := o.set .remotePort (sk.dport.setWidth 32)
  let o :=
    if sk.family = 10 then
      let o := (List.finRange 4).foldl (fun o i => o.set (.localAddr i) (sk.v6RcvSaddr i)) o
      (List.finRange 4).foldl (fun o i => o.set (.remoteAddr i) (sk.v6Daddr i)) o
    else (o.set (.localAddr 0) sk.rcvSaddr).set (.remoteAddr 0) sk.daddr
  o.set .netnsIno (sk.netnsIno.setWidth 64)

def rxQueue (sk : Sock) : BitVec 64 :=
  match sk.tcp with
  | some (nxt,cpy) =>
    if cpy.setWidth 64 ≤ nxt.setWidth 64 then nxt.setWidth 64-cpy.setWidth 64 else 0
  | none => 0

def flowBytes (sk : Sock) (o : SockOwner) : SockOwner :=
  (o.set .txBytes (sk.wmemQueued.signExtend 64)).set .rxBytes (rxQueue sk)

/-- The record of a `connect`. -/
def connecting (cur : Current) (sk : Sock) (now : BitVec 64) (stack : Contents) : SockOwner :=
  let o := SockOwner.onStack stack
  let o := o.set .tgid (cur.tgid.setWidth 64)
  let o := o.set .tid cur.tid
  (fillTuple sk o).set .startTs now

def accepted (cur : Current) (sk : Sock) (now : BitVec 64) (stack : Contents) : SockOwner :=
  (connecting cur sk now stack).set .establishedTs now

/-- The record of a socket that closes without an owner. -/
def unowned (sk : Sock) (stack : Contents) : SockOwner :=
  let o := SockOwner.onStack stack
  let o := o.set .netnsIno (sk.netnsIno.setWidth 64)
  let o := o.set .family (sk.family.setWidth 32)
  flowBytes sk o

/-! ## Hooks -/

def Flows.own (c : BitVec 64) (o : SockOwner) (s : Flows) : Flows :=
  { s with sockOwner := Function.update s.sockOwner c (some o) }

def Flows.record (c : BitVec 64) (f : SockOwner) (s : Flows) : Flows :=
  { s with netFlow := Function.update s.netFlow c (some f) }

def Flows.disown (c : BitVec 64) (s : Flows) : Flows :=
  { s with sockOwner := Function.update s.sockOwner c none }

def Flows.setStart (tid : BitVec 32) (cs : Option ConnectStart) (s : Flows) : Flows :=
  { s with connectStart := Function.update s.connectStart tid cs }

section Fields

variable (s : Flows) (c d : BitVec 64) (o : SockOwner)

@[simp] theorem Flows.own_sockOwner :
    (s.own c o).sockOwner d = if d = c then some o else s.sockOwner d := Function.update_apply ..

@[simp] theorem Flows.own_netFlow : (s.own c o).netFlow = s.netFlow := rfl

@[simp] theorem Flows.record_sockOwner : (s.record c o).sockOwner = s.sockOwner := rfl

@[simp] theorem Flows.record_netFlow :
    (s.record c o).netFlow d = if d = c then some o else s.netFlow d := Function.update_apply ..

@[simp] theorem Flows.disown_sockOwner :
    (s.disown c).sockOwner d = if d = c then none else s.sockOwner d := Function.update_apply ..

@[simp] theorem Flows.disown_netFlow : (s.disown c).netFlow = s.netFlow := rfl

end Fields

/-- `tcp_connect_enter`. -/
def connectEnter (cur : Current) (sk : Sock) (now : BitVec 64) (stack : Contents) (s : Flows) :
    Flows :=
  if cur.target = false ∨ sockCookie sk = 0 then s
  else
    (s.own (sockCookie sk) (connecting cur sk now stack)).setStart cur.tid
      (some ⟨sockCookie sk,now⟩)

/-- The return probes of `tcp_v4_connect` and `tcp_v6_connect`. -/
def connectReturn (cur : Current) (ret : BitVec 32) (now : BitVec 64) (s : Flows) : Flows :=
  if cur.target = false then s
  else
    match s.connectStart cur.tid with
    | none => s
    | some cs =>
      match s.sockOwner cs.cookie with
      | none => s.setStart cur.tid none
      | some o =>
        if ret = 0 then (s.own cs.cookie (o.set .establishedTs now)).setStart cur.tid none
        else
          ((s.record cs.cookie (o.set .rstReason (-ret))).disown cs.cookie).setStart cur.tid none

/-- `kretprobe/inet_csk_accept`. -/
def accept (cur : Current) (sk : Option Sock) (now : BitVec 64) (stack : Contents) (s : Flows) :
    Flows :=
  match sk with
  | none => s
  | some sk =>
    if cur.target = false ∨ sockCookie sk = 0 then s
    else s.own (sockCookie sk) (accepted cur sk now stack)

/-- `inet_sock_set_state`; 7 is `TCP_CLOSE`. -/
def sockState (sk : Option Sock) (newstate : BitVec 32) (stack : Contents) (s : Flows) : Flows :=
  match sk with
  | none => s
  | some sk =>
    if newstate = 2 ∨ newstate = 1 ∨ sk.cookie = 0 then s
    else if newstate = 7 then
      match s.sockOwner sk.cookie with
      | some o => (s.record sk.cookie (flowBytes sk o)).disown sk.cookie
      | none => s.record sk.cookie (unowned sk stack)
    else s

def retransmit (sk : Option Sock) (s : Flows) : Flows :=
  match sk with
  | none => s
  | some sk =>
    if sk.cookie = 0 then s
    else
      match s.sockOwner sk.cookie with
      | some o => s.own sk.cookie (o.set .retrans ((o.value .retrans : BitVec 64)+1))
      | none => s

def sendReset (sk : Option Sock) (s : Flows) : Flows :=
  match sk with
  | none => s
  | some sk =>
    if sk.cookie = 0 then s
    else
      match s.sockOwner sk.cookie with
      | some o =>
        let o := flowBytes sk (o.set .rstReason (1 : BitVec 32))
        ((s.own sk.cookie o).record sk.cookie o).disown sk.cookie
      | none => s

inductive Event
  | connectEnter (cur : Current) (sk : Sock) (now : BitVec 64) (stack : Contents)
  | connectReturn (cur : Current) (ret : BitVec 32) (now : BitVec 64)
  | accept (cur : Current) (sk : Option Sock) (now : BitVec 64) (stack : Contents)
  | sockState (sk : Option Sock) (newstate : BitVec 32) (stack : Contents)
  | retransmit (sk : Option Sock)
  | sendReset (sk : Option Sock)

def step (s : Flows) : Event → Flows
  | .connectEnter cur sk now stack => connectEnter cur sk now stack s
  | .connectReturn cur ret now => connectReturn cur ret now s
  | .accept cur sk now stack => accept cur sk now stack s
  | .sockState sk newstate stack => sockState sk newstate stack s
  | .retransmit sk => retransmit sk s
  | .sendReset sk => sendReset sk s

/-- The maps when an episode starts. -/
def started : Flows := ⟨fun _ => none,fun _ => none,fun _ => none⟩

/-! ## What a record holds -/

/-- Every member has been assigned or is zero. -/
def SockOwner.Clean (o : SockOwner) : Prop := ∀ f, f ∈ o.written ∨ o.value f = 0

/-- The members that have not been assigned are what the stack held. -/
def SockOwner.From (stack : Contents) (o : SockOwner) : Prop :=
  ∀ f, f ∉ o.written → o.value f = stack f

theorem SockOwner.Clean.set {o : SockOwner} (h : o.Clean) (f : Field) (x : BitVec f.width) :
    (o.set f x).Clean := by
  intro g
  by_cases hg : g = f
  · subst hg
    exact Or.inl (Finset.mem_insert_self ..)
  · refine (h g).imp (Finset.mem_insert_of_mem ·) fun hzero => ?_
    rw [SockOwner.set_value_of_ne hg,hzero]

theorem SockOwner.From.set {stack : Contents} {o : SockOwner} (h : o.From stack) (f : Field)
    (x : BitVec f.width) : (o.set f x).From stack := by
  intro g hg
  obtain ⟨hne,hg⟩ := not_or.mp (mt Finset.mem_insert.mpr hg)
  rw [SockOwner.set_value_of_ne hne]
  exact h g hg

theorem SockOwner.From.clean_iff {stack : Contents} {o : SockOwner} (h : o.From stack) :
    o.Clean ↔ ∀ f, f ∉ o.written → stack f = 0 := by
  refine forall_congr' fun f => ?_
  rw [or_iff_not_imp_left]
  exact forall_congr' fun hf => by rw [h f hf]

/-- The members that `fill_tuple` assigns. -/
def tupleFields (sk : Sock) : Finset Field :=
  {.family,.localPort,.remotePort,.netnsIno} ∪
    if sk.family = 10 then Finset.univ.image .localAddr ∪ Finset.univ.image .remoteAddr
    else {.localAddr 0,.remoteAddr 0}

def connectFields (sk : Sock) : Finset Field := {.tgid,.tid,.startTs} ∪ tupleFields sk

def acceptFields (sk : Sock) : Finset Field := insert .establishedTs (connectFields sk)

def closeFields : Finset Field := {.netnsIno,.family,.txBytes,.rxBytes}

theorem foldl_set (g : Fin 4 → Field) (x : (i : Fin 4) → BitVec (g i).width) (is : List (Fin 4)) :
    ∀ {o : SockOwner} {stack : Contents}, o.From stack →
      (is.foldl (fun o i => o.set (g i) (x i)) o).From stack ∧
        (is.foldl (fun o i => o.set (g i) (x i)) o).written =
          (is.map g).toFinset ∪ o.written := by
  induction is with
  | nil => intro o stack h; exact ⟨h,by simp⟩
  | cons i is ih =>
    intro o stack h
    obtain ⟨hfrom,hwritten⟩ := ih (h.set (g i) (x i))
    refine ⟨hfrom,?_⟩
    rw [List.foldl_cons,hwritten]
    simp [SockOwner.set]

theorem fillTuple_from (sk : Sock) {o : SockOwner} {stack : Contents} (h : o.From stack) :
    (fillTuple sk o).From stack ∧ (fillTuple sk o).written = tupleFields sk ∪ o.written := by
  have hports := ((h.set .family (sk.family.setWidth 32)).set .localPort
    (sk.num.setWidth 32)).set .remotePort (sk.dport.setWidth 32)
  rw [fillTuple,tupleFields]
  dsimp only
  split
  · obtain ⟨hlocal,hwlocal⟩ := foldl_set .localAddr sk.v6RcvSaddr (List.finRange 4) hports
    obtain ⟨hremote,hwremote⟩ := foldl_set .remoteAddr sk.v6Daddr (List.finRange 4) hlocal
    refine ⟨hremote.set .netnsIno _,?_⟩
    rw [SockOwner.set_written,hwremote,hwlocal]
    ext f
    simp only [Finset.mem_insert,Finset.mem_union,List.mem_toFinset,List.mem_map,
      List.mem_finRange,Finset.mem_image,Finset.mem_univ,SockOwner.set_written,
      Finset.mem_singleton,true_and]
    tauto
  · refine ⟨((hports.set (.localAddr 0) _).set (.remoteAddr 0) _).set .netnsIno _,?_⟩
    ext f
    simp only [Finset.mem_insert,Finset.mem_union,SockOwner.set_written,Finset.mem_singleton]
    tauto

theorem onStack_from (stack : Contents) : (SockOwner.onStack stack).From stack := fun _ _ => rfl

theorem connecting_from (cur : Current) (sk : Sock) (now : BitVec 64) (stack : Contents) :
    (connecting cur sk now stack).From stack ∧
      (connecting cur sk now stack).written = connectFields sk := by
  obtain ⟨hfrom,hwritten⟩ := fillTuple_from sk
    (((onStack_from stack).set .tgid (cur.tgid.setWidth 64)).set .tid cur.tid)
  refine ⟨hfrom.set .startTs now,?_⟩
  rw [connecting,SockOwner.set_written,hwritten,connectFields]
  ext f
  simp only [Finset.mem_insert,Finset.mem_union,SockOwner.set_written,SockOwner.onStack,
    Finset.mem_singleton,Finset.notMem_empty]
  tauto

theorem connecting_clean_iff (cur : Current) (sk : Sock) (now : BitVec 64) (stack : Contents) :
    (connecting cur sk now stack).Clean ↔ ∀ f, f ∉ connectFields sk → stack f = 0 := by
  obtain ⟨hfrom,hwritten⟩ := connecting_from cur sk now stack
  rw [hfrom.clean_iff,hwritten]

theorem accepted_clean_iff (cur : Current) (sk : Sock) (now : BitVec 64) (stack : Contents) :
    (accepted cur sk now stack).Clean ↔ ∀ f, f ∉ acceptFields sk → stack f = 0 := by
  obtain ⟨hfrom,hwritten⟩ := connecting_from cur sk now stack
  rw [accepted,(hfrom.set .establishedTs now).clean_iff,SockOwner.set_written,hwritten,
    acceptFields]

theorem unowned_from (sk : Sock) (stack : Contents) :
    (unowned sk stack).From stack ∧ (unowned sk stack).written = closeFields := by
  refine ⟨((((onStack_from stack).set .netnsIno _).set .family _).set .txBytes _).set .rxBytes _,
    ?_⟩
  ext f
  simp only [unowned,flowBytes,closeFields,Finset.mem_insert,SockOwner.set_written,
    SockOwner.onStack,Finset.mem_singleton,Finset.notMem_empty]
  tauto

theorem unowned_clean_iff (sk : Sock) (stack : Contents) :
    (unowned sk stack).Clean ↔ ∀ f, f ∉ closeFields → stack f = 0 := by
  obtain ⟨hfrom,hwritten⟩ := unowned_from sk stack
  rw [hfrom.clean_iff,hwritten]

theorem SockOwner.Clean.flowBytes {o : SockOwner} (h : o.Clean) (sk : Sock) :
    (flowBytes sk o).Clean := (h.set .txBytes _).set .rxBytes _

/-! ## One hook -/

/-- Half of the accounting: no socket is in both maps, and every member of a record has been
assigned or is zero. -/
structure Sound (s : Flows) : Prop where
  disjoint : ∀ c, s.sockOwner c = none ∨ s.netFlow c = none
  owners : ∀ c o, s.sockOwner c = some o → o.Clean
  flows : ∀ c f, s.netFlow c = some f → f.Clean

/-- The other half: a recorded flow that has an owner keeps it, its reset reason and its
retransmissions. -/
def Keeps (s s' : Flows) : Prop :=
  ∀ c f, s.netFlow c = some f → f.value .tid ≠ 0 → ∃ f', s'.netFlow c = some f' ∧
    f'.value .tgid = f.value .tgid ∧ f'.value .tid = f.value .tid ∧
    f'.value .rstReason = f.value .rstReason ∧ f'.value .retrans = f.value .retrans

theorem Keeps.of_eq {s s' : Flows} (h : s'.netFlow = s.netFlow) : Keeps s s' := by
  intro c f hf _
  rw [h]
  exact ⟨f,hf,rfl,rfl,rfl,rfl⟩

theorem Keeps.trans {s s' s'' : Flows} (h : Keeps s s') (h' : Keeps s' s'') : Keeps s s'' := by
  intro c f hf htid
  obtain ⟨f',hf',htgid',htid',hrst',hretrans'⟩ := h c f hf htid
  obtain ⟨f'',hf'',htgid'',htid'',hrst'',hretrans''⟩ := h' c f' hf' (by rwa [htid'])
  exact ⟨f'',hf'',htgid''.trans htgid',htid''.trans htid',hrst''.trans hrst',
    hretrans''.trans hretrans'⟩

theorem own_sound_iff {s : Flows} (h : Sound s) (c : BitVec 64) (o : SockOwner) :
    Sound (s.own c o) ↔ s.netFlow c = none ∧ o.Clean := by
  constructor
  · intro h'
    have hown : (s.own c o).sockOwner c = some o := by simp
    refine ⟨(h'.disjoint c).resolve_left ?_,h'.owners c o hown⟩
    rw [hown]
    exact Option.some_ne_none o
  · rintro ⟨hnone,hclean⟩
    refine ⟨fun d => ?_,fun d p hp => ?_,h.flows⟩
    · by_cases hd : d = c
      · exact Or.inr (hd ▸ hnone)
      · simpa [hd] using h.disjoint d
    · by_cases hd : d = c
      · rw [Flows.own_sockOwner,if_pos hd] at hp
        exact Option.some.inj hp ▸ hclean
      · rw [Flows.own_sockOwner,if_neg hd] at hp
        exact h.owners d p hp

theorem Sound.netFlow_eq_none {s : Flows} (h : Sound s) {c : BitVec 64} {o : SockOwner}
    (hc : s.sockOwner c = some o) : s.netFlow c = none :=
  (h.disjoint c).resolve_left fun hnone => Option.some_ne_none o (hc.symm.trans hnone)

/-- A socket that is owned changes its record. -/
theorem Sound.own {s : Flows} (h : Sound s) {c : BitVec 64} {o o' : SockOwner}
    (hc : s.sockOwner c = some o) (ho' : o'.Clean) : Sound (s.own c o') :=
  (own_sound_iff h c o').mpr ⟨h.netFlow_eq_none hc,ho'⟩

theorem record_sound_iff {s : Flows} (h : Sound s) {c : BitVec 64} (hc : s.sockOwner c = none)
    (f : SockOwner) : Sound (s.record c f) ↔ f.Clean := by
  constructor
  · exact fun h' => h'.flows c f (by simp)
  · intro hclean
    refine ⟨fun d => ?_,h.owners,fun d g hg => ?_⟩
    · by_cases hd : d = c
      · exact Or.inl (hd ▸ hc)
      · simpa [hd] using h.disjoint d
    · by_cases hd : d = c
      · rw [Flows.record_netFlow,if_pos hd] at hg
        exact Option.some.inj hg ▸ hclean
      · rw [Flows.record_netFlow,if_neg hd] at hg
        exact h.flows d g hg

theorem Sound.disown {s : Flows} (h : Sound s) (c : BitVec 64) : Sound (s.disown c) := by
  refine ⟨fun d => ?_,fun d p hp => ?_,h.flows⟩
  · by_cases hd : d = c
    · exact Or.inl (by simp [hd])
    · simpa [hd] using h.disjoint d
  · rw [Flows.disown_sockOwner] at hp
    split at hp
    · cases hp
    · exact h.owners d p hp

theorem record_keeps {s : Flows} {c : BitVec 64} (f : SockOwner)
    (hc : ∀ g, s.netFlow c = some g → g.value .tid = 0) : Keeps s (s.record c f) := by
  intro d g hg hne
  have hd : d ≠ c := by
    rintro rfl
    exact hne (hc g hg)
  exact ⟨g,by rwa [Flows.record_netFlow,if_neg hd],rfl,rfl,rfl,rfl⟩

/-- The record of an owned socket moves. -/
theorem Sound.move {s : Flows} (h : Sound s) {c : BitVec 64} {o f : SockOwner}
    (hc : s.sockOwner c = some o) (hf : f.Clean) :
    Sound ((s.record c f).disown c) ∧ Keeps s ((s.record c f).disown c) := by
  have hnone : (s.disown c).sockOwner c = none := by simp
  refine ⟨(record_sound_iff (h.disown c) hnone f).mpr hf,?_⟩
  refine record_keeps f fun g hg => ?_
  rw [h.netFlow_eq_none hc] at hg
  cases hg

/-! ## When the accounting holds -/

/-- A record that is new begins on a clean stack and does not come on top of a recorded flow;
a close without an owner does not come after one with an owner. -/
def Fresh (s : Flows) : Event → Prop
  | .connectEnter cur sk _ stack => cur.target = true → sockCookie sk ≠ 0 →
      s.netFlow (sockCookie sk) = none ∧ ∀ f, f ∉ connectFields sk → stack f = 0
  | .accept cur (some sk) _ stack => cur.target = true → sockCookie sk ≠ 0 →
      s.netFlow (sockCookie sk) = none ∧ ∀ f, f ∉ acceptFields sk → stack f = 0
  | .sockState (some sk) newstate stack =>
      newstate = 7 → sk.cookie ≠ 0 → s.sockOwner sk.cookie = none →
        (∀ f, s.netFlow sk.cookie = some f → f.value .tid = 0) ∧
          ∀ f, f ∉ closeFields → stack f = 0
  | _ => True

theorem unowned_iff {s : Flows} (h : Sound s) (sk : Sock)
    (hc : s.sockOwner sk.cookie = none) (stack : Contents) :
    Sound (s.record sk.cookie (unowned sk stack)) ∧
        Keeps s (s.record sk.cookie (unowned sk stack)) ↔
      (∀ f, s.netFlow sk.cookie = some f → f.value .tid = 0) ∧
        ∀ f, f ∉ closeFields → stack f = 0 := by
  rw [record_sound_iff h hc,unowned_clean_iff,and_comm]
  refine and_congr_left fun hstack => ?_
  have htid : (unowned sk stack).value .tid = 0 := by
    obtain ⟨hfrom,hwritten⟩ := unowned_from sk stack
    have hnot : Field.tid ∉ closeFields := by decide
    rw [hfrom .tid (hwritten ▸ hnot),hstack .tid hnot]
  constructor
  · intro hkeeps f hf
    by_contra hne
    obtain ⟨f',hf',-,htid',-⟩ := hkeeps sk.cookie f hf hne
    rw [Flows.record_netFlow,if_pos rfl] at hf'
    rw [← Option.some.inj hf',htid] at htid'
    exact hne htid'.symm
  · exact record_keeps _

theorem setStart_sound_iff {s : Flows} (tid : BitVec 32) (cs : Option ConnectStart) :
    Sound (s.setStart tid cs) ↔ Sound s :=
  ⟨fun h => ⟨h.disjoint,h.owners,h.flows⟩,fun h => ⟨h.disjoint,h.owners,h.flows⟩⟩

theorem connectEnter_iff {s : Flows} (h : Sound s) (cur : Current) (sk : Sock)
    (now : BitVec 64) (stack : Contents) :
    Sound (connectEnter cur sk now stack s) ∧ Keeps s (connectEnter cur sk now stack s) ↔
      Fresh s (.connectEnter cur sk now stack) := by
  rw [connectEnter,Fresh]
  split
  · next hskip =>
    refine iff_of_true ⟨h,Keeps.of_eq rfl⟩ fun htarget hcookie => ?_
    obtain hfalse | hzero := hskip
    · rw [hfalse] at htarget
      cases htarget
    · exact absurd hzero hcookie
  · next hown =>
    obtain ⟨htarget,hcookie⟩ := not_or.mp hown
    refine (and_iff_left (Keeps.of_eq rfl)).trans ?_
    rw [setStart_sound_iff,own_sound_iff h,connecting_clean_iff]
    exact ⟨fun hfresh _ _ => hfresh,fun hfresh => hfresh (by simpa using htarget) hcookie⟩

theorem accept_iff {s : Flows} (h : Sound s) (cur : Current) (sk : Option Sock)
    (now : BitVec 64) (stack : Contents) :
    Sound (accept cur sk now stack s) ∧ Keeps s (accept cur sk now stack s) ↔
      Fresh s (.accept cur sk now stack) := by
  cases sk with
  | none => exact iff_of_true ⟨h,Keeps.of_eq rfl⟩ trivial
  | some sk =>
    rw [accept,Fresh]
    split
    · next hskip =>
      refine iff_of_true ⟨h,Keeps.of_eq rfl⟩ fun htarget hcookie => ?_
      obtain hfalse | hzero := hskip
      · rw [hfalse] at htarget
        cases htarget
      · exact absurd hzero hcookie
    · next hown =>
      obtain ⟨htarget,hcookie⟩ := not_or.mp hown
      refine (and_iff_left (Keeps.of_eq rfl)).trans ?_
      rw [own_sound_iff h,accepted_clean_iff]
      exact ⟨fun hfresh _ _ => hfresh,fun hfresh => hfresh (by simpa using htarget) hcookie⟩

theorem Sound.connectReturn {s : Flows} (h : Sound s) (cur : Current) (ret : BitVec 32)
    (now : BitVec 64) : Sound (connectReturn cur ret now s) ∧
      Keeps s (connectReturn cur ret now s) := by
  rw [SockFlow.connectReturn]
  split
  · exact ⟨h,Keeps.of_eq rfl⟩
  · split
    · exact ⟨h,Keeps.of_eq rfl⟩
    · next cs _ =>
      split
      · exact ⟨(setStart_sound_iff _ _).mpr h,Keeps.of_eq rfl⟩
      · next o ho =>
        have hclean := h.owners cs.cookie o ho
        split
        · have hown := h.own ho (hclean.set .establishedTs now)
          exact ⟨(setStart_sound_iff _ _).mpr hown,Keeps.of_eq rfl⟩
        · obtain ⟨hsound,hkeeps⟩ := h.move ho (hclean.set .rstReason (-ret))
          exact ⟨(setStart_sound_iff _ _).mpr hsound,hkeeps⟩

theorem sockState_iff {s : Flows} (h : Sound s) (sk : Option Sock) (newstate : BitVec 32)
    (stack : Contents) :
    Sound (sockState sk newstate stack s) ∧ Keeps s (sockState sk newstate stack s) ↔
      Fresh s (.sockState sk newstate stack) := by
  cases sk with
  | none => exact iff_of_true ⟨h,Keeps.of_eq rfl⟩ trivial
  | some sk =>
    rw [sockState,Fresh]
    split
    · next hskip =>
      refine iff_of_true ⟨h,Keeps.of_eq rfl⟩ fun hclose hcookie => ?_
      subst hclose
      exact absurd (hskip.resolve_left (by decide) |>.resolve_left (by decide)) hcookie
    · next hcookie =>
      have hcookie' : sk.cookie ≠ 0 := fun h0 => hcookie (Or.inr (Or.inr h0))
      split
      · next hclose =>
        split
        · next o ho =>
          refine iff_of_true (h.move ho ((h.owners _ o ho).flowBytes sk)) fun _ _ hnone => ?_
          rw [ho] at hnone
          cases hnone
        · next hnone =>
          rw [unowned_iff h sk hnone]
          exact ⟨fun hfresh _ _ _ => hfresh,fun hfresh => hfresh hclose hcookie' hnone⟩
      · next hopen => exact iff_of_true ⟨h,Keeps.of_eq rfl⟩ fun hclose => absurd hclose hopen

theorem Sound.retransmit {s : Flows} (h : Sound s) (sk : Option Sock) :
    Sound (retransmit sk s) ∧ Keeps s (retransmit sk s) := by
  rw [SockFlow.retransmit.eq_def]
  split
  · exact ⟨h,Keeps.of_eq rfl⟩
  · split
    · exact ⟨h,Keeps.of_eq rfl⟩
    · split
      · next o ho => exact ⟨h.own ho ((h.owners _ o ho).set .retrans _),Keeps.of_eq rfl⟩
      · exact ⟨h,Keeps.of_eq rfl⟩

theorem Sound.sendReset {s : Flows} (h : Sound s) (sk : Option Sock) :
    Sound (sendReset sk s) ∧ Keeps s (sendReset sk s) := by
  rw [SockFlow.sendReset.eq_def]
  split
  · exact ⟨h,Keeps.of_eq rfl⟩
  · next sock =>
    split
    · exact ⟨h,Keeps.of_eq rfl⟩
    · split
      · next o ho =>
        have hclean := ((h.owners _ o ho).set .rstReason (1 : BitVec 32)).flowBytes sock
        have howned := Flows.own_sockOwner s sock.cookie sock.cookie
          (SockFlow.flowBytes sock (o.set .rstReason (1 : BitVec 32)))
        rw [if_pos rfl] at howned
        exact (h.own ho hclean).move howned hclean
      · exact ⟨h,Keeps.of_eq rfl⟩

/-- What each hook has to do with the accounting. -/
theorem step_iff {s : Flows} (h : Sound s) (e : Event) :
    Sound (step s e) ∧ Keeps s (step s e) ↔ Fresh s e := by
  cases e with
  | connectEnter cur sk now stack => exact connectEnter_iff h cur sk now stack
  | connectReturn cur ret now => exact iff_of_true (h.connectReturn cur ret now) trivial
  | accept cur sk now stack => exact accept_iff h cur sk now stack
  | sockState sk newstate stack => exact sockState_iff h sk newstate stack
  | retransmit sk => exact iff_of_true (h.retransmit sk) trivial
  | sendReset sk => exact iff_of_true (h.sendReset sk) trivial

/-! ## Runs -/

/-- The state after each event is sound, and what it has recorded is kept from then on. -/
def Accounted (events : List Event) : Prop :=
  ∀ before between after, before++between++after = events →
    Sound (run step started before) ∧
      Keeps (run step started before) (run step started (before++between))

theorem started_sound : Sound started := by
  refine ⟨fun c => Or.inl rfl,fun c o ho => ?_,fun c f hf => ?_⟩
  · cases ho
  · cases hf

def server : Sock where
  address := 0xffff888012345678
  cookie := 9
  family := 2
  num := 80
  dport := 40000
  v6RcvSaddr := fun _ => 0
  v6Daddr := fun _ => 0
  rcvSaddr := 0x0100007f
  daddr := 0x0100007f
  netnsIno := 0xf0000000
  wmemQueued := 0
  tcp := some (1000,1000)

/-- Thread 4 accepts a socket, which is reset and then closes; the stack is clean. -/
def resetThenClosed : List Event :=
  [.accept ⟨3,4,true⟩ (some server) 100 fun _ => 0,.sendReset (some server),
   .sockState (some server) 7 fun _ => 0]

end SockFlow
end ETraceDiag
