import ETraceDiag.Base64
import ETraceDiag.HttpHead
import ETraceDiag.WsClient

/-!
# Opening the WebSocket connection

`Connect` of `model/ws_client.cpp`: the URL, the upgrade request and the answer, which is read
one byte at a time so that no frame behind it is lost.
-/

namespace ETraceDiag
namespace Handshake

open ByteStream WsClient

/-- A string literal of the source. -/
def ascii (s : String) : List UInt8 := s.toList.map fun c => UInt8.ofNat c.toNat

def tbl : List UInt8 := ascii "ABCDEFGHIJKLMNOPQRSTUVWXYZabcdefghijklmnopqrstuvwxyz0123456789+/"

/-- One turn of the loop of `Base64`; the second and the third byte may be missing. -/
def base64Step (a : UInt8) (b c : Option UInt8) : List UInt8 :=
  let n := a.toNat <<< 16 ||| b.elim 0 (fun b => b.toNat <<< 8) ||| c.elim 0 UInt8.toNat
  [tbl.getD (n >>> 18 &&& 63) 0,tbl.getD (n >>> 12 &&& 63) 0,
    if b.isSome then tbl.getD (n >>> 6 &&& 63) 0 else 61,
    if c.isSome then tbl.getD (n &&& 63) 0 else 61]

def base64 : List UInt8 → List UInt8
  | [] => []
  | [a] => base64Step a none none
  | [a,b] => base64Step a (some b) none
  | a::b::c::data => base64Step a (some b) (some c)++base64 data

def find (c : UInt8) (bs : List UInt8) : Option ℕ := bs.idxOf? c

def rfind (c : UInt8) (bs : List UInt8) : Option ℕ :=
  (bs.reverse.idxOf? c).map fun i => bs.length-1-i

structure Target where
  host : List UInt8
  port : List UInt8
  path : List UInt8
  deriving DecidableEq,Repr

def parseUrl (url : List UInt8) : Option Target :=
  if ascii "ws://" <+: url then
    let rest := url.drop 5
    let (path,rest) :=
      match find 47 rest with
      | some slash => (rest.drop slash,rest.take slash)
      | none => (ascii "/",rest)
    match rfind 58 rest with
    | some colon => some ⟨rest.take colon,rest.drop (colon+1),path⟩
    | none => some ⟨rest,ascii "80",path⟩
  else none

def request (t : Target) (keybytes : List UInt8) : List UInt8 :=
  ascii "GET "++t.path++ascii " HTTP/1.1\r\n"++
    ascii "Host: "++t.host++ascii ":"++t.port++ascii "\r\n"++
    ascii "Upgrade: websocket\r\n"++
    ascii "Connection: Upgrade\r\n"++
    ascii "Sec-WebSocket-Key: "++base64 keybytes++ascii "\r\n"++
    ascii "Sec-WebSocket-Version: 13\r\n"++
    ascii "\r\n"

/-- The end of a head. -/
def blankLine : List UInt8 := ascii "\r\n\r\n"

/-- The loop that reads the answer, `n` bytes at most; a read fails when nothing comes in time. -/
def readHead : ℕ → List UInt8 → Chunks → Option (List UInt8 × Chunks)
  | 0, resp, s => some (resp,s)
  | n+1, resp, s => (readExact 1 s).bind fun r =>
    let resp := resp++r.1
    if blankLine <:+: resp then some (resp,r.2) else readHead n resp r.2

def maxHead : ℕ := 16384

/-- What the network and the generator of random numbers do. -/
structure Attempt where
  /-- The name is resolved and the TCP connection is there in time. -/
  reached : Bool
  keybytes : Vector UInt8 16
  /-- The bytes that `send` takes at most. -/
  accepted : ℕ
  arrives : Chunks
  maskKey : UInt32

/-- What is sent and the connection, which stays open only when the peer upgrades it. -/
structure Outcome where
  sent : List UInt8
  ws : Option Connection

def connect (url : List UInt8) (a : Attempt) : Outcome :=
  match parseUrl url with
  | none => ⟨[],none⟩
  | some t =>
    if a.reached then
      let req := request t a.keybytes.toList
      if req.length ≤ a.accepted then
        match readHead maxHead [] a.arrives with
        | none => ⟨req,none⟩
        | some (resp,s) =>
          if blankLine <:+: resp ∧ ascii "HTTP/1.1 101" <+: resp then
            ⟨req,some ⟨a.maskKey,some s⟩⟩
          else ⟨req,none⟩
      else ⟨req.take a.accepted,none⟩
    else ⟨[],none⟩

/-! ## The answer -/

/-- The bytes up to the first blank line, of a size that `Connect` reads, with status 101. -/
structure Upgrade (head : List UInt8) : Prop where
  ends : blankLine <:+ head
  first : ¬ blankLine <:+: head.dropLast
  length_le : head.length ≤ maxHead
  status : ascii "HTTP/1.1 101" <+: head

theorem suffix_of_first {word head : List UInt8} (h : word <:+: head)
    (hfirst : ¬ word <:+: head.dropLast) : word <:+ head := by
  obtain ⟨front,back,rfl⟩ := h
  rcases List.eq_nil_or_concat back with rfl | ⟨back,b,rfl⟩
  · exact ⟨front,by rw [List.append_nil]⟩
  · refine absurd ⟨front,back,?_⟩ hfirst
    rw [List.concat_eq_append,← List.append_assoc,List.dropLast_concat]

theorem readExact_one {b : UInt8} {rest : List UInt8} {s : Chunks} (h : s.bytes = b::rest) :
    ∃ s', readExact 1 s = some ([b],s') ∧ s'.bytes = rest := by
  have hfront : s.bytes = [b]++rest := h
  exact readExact_append hfront

/-- The head that the loop returns is the first one, and the rest is still to be read. -/
theorem readHead_sound (n : ℕ) : ∀ {got resp : List UInt8} {s s' : Chunks},
    readHead n got s = some (resp,s') → ¬ blankLine <:+: got → blankLine <:+: resp →
      resp++s'.bytes = got++s.bytes ∧ resp.length ≤ got.length+n ∧
        ¬ blankLine <:+: resp.dropLast := by
  induction n with
  | zero =>
    intro got resp s s' h hgot hresp
    cases h
    exact absurd hresp hgot
  | succ n ih =>
    intro got resp s s' h hgot hresp
    obtain ⟨⟨bs,s₁⟩,hread,h⟩ := Option.bind_eq_some_iff.mp h
    obtain ⟨hlen,hbytes⟩ := readExact_eq hread
    obtain ⟨b,rfl⟩ := List.length_eq_one_iff.mp hlen
    have hstep : got++[b]++s₁.bytes = got++s.bytes := by rw [hbytes,List.append_assoc]
    dsimp only at h
    split at h
    · cases h
      refine ⟨hstep,?_,?_⟩
      · simp only [List.length_append,List.length_singleton]
        omega
      · rwa [List.dropLast_concat]
    · rename_i hnot
      obtain ⟨hall,hle,hfirst⟩ := ih h hnot hresp
      refine ⟨hall.trans hstep,?_,hfirst⟩
      simp only [List.length_append,List.length_singleton] at hle
      omega

/-- A head that comes is found, wherever the chunks end. -/
theorem readHead_complete (more : List UInt8) : ∀ {n : ℕ} {got rest : List UInt8} {b : UInt8}
    {s : Chunks}, s.bytes = more++b::rest → more.length < n → blankLine <:+: got++more++[b] →
      ¬ blankLine <:+: got++more →
        ∃ s', readHead n got s = some (got++more++[b],s') ∧ s'.bytes = rest := by
  induction more with
  | nil =>
    intro n got rest b s hs hn hend hfirst
    obtain ⟨n,rfl⟩ : ∃ m, n = m+1 := ⟨n-1,by simp at hn; omega⟩
    obtain ⟨s',hread,hrest⟩ := readExact_one hs
    rw [List.append_nil] at hend
    exact ⟨s',by rw [readHead,hread,Option.bind_some,if_pos hend,List.append_nil],hrest⟩
  | cons c more ih =>
    intro n got rest b s hs hn hend hfirst
    obtain ⟨n,rfl⟩ : ∃ m, n = m+1 := ⟨n-1,by simp at hn; omega⟩
    obtain ⟨s₁,hread,hrest⟩ := readExact_one hs
    have hsplit : got++c::more = got++[c]++more := by simp
    have hnot : ¬ blankLine <:+: got++[c] := fun h =>
      hfirst (hsplit ▸ h.trans (List.infix_append_left))
    rw [hsplit] at hend hfirst
    obtain ⟨s',hloop,hs'⟩ := ih hrest (Nat.lt_of_succ_lt_succ hn) hend hfirst
    exact ⟨s',by rw [readHead,hread,Option.bind_some,if_neg hnot,hloop,hsplit],hs'⟩

theorem readHead_of_upgrade {head rest : List UInt8} {s : Chunks} (h : Upgrade head)
    (hs : s.bytes = head++rest) :
    ∃ s', readHead maxHead [] s = some (head,s') ∧ s'.bytes = rest := by
  have hfirst := h.first
  have hlen := h.length_le
  have hend := h.ends.isInfix
  rcases List.eq_nil_or_concat head with rfl | ⟨more,b,rfl⟩
  · exact absurd (List.infix_nil.mp hend) (by decide)
  · rw [List.concat_eq_append] at *
    rw [List.dropLast_concat] at hfirst
    have hmore : more.length < maxHead := by simpa [Nat.succ_le_iff] using hlen
    exact readHead_complete more (by simpa using hs) hmore hend hfirst

/-- The request for `url` is sent as a whole. -/
structure Requested (url : List UInt8) (a : Attempt) (t : Target) : Prop where
  url : parseUrl url = some t
  reached : a.reached = true
  accepted : (request t a.keybytes.toList).length ≤ a.accepted

theorem connect_requested {url : List UInt8} {a : Attempt} {ws : Connection}
    (h : (connect url a).ws = some ws) :
    ∃ t, Requested url a t ∧ (connect url a).sent = request t a.keybytes.toList := by
  unfold connect at *
  split at h
  · cases h
  · rename_i t ht
    dsimp only at h ⊢
    split_ifs at h with hreached hsend
    rw [if_pos hreached,if_pos hsend]
    refine ⟨t,⟨ht,hreached,hsend⟩,?_⟩
    split
    · rfl
    · split_ifs <;> rfl

theorem connect_of_requested {url : List UInt8} {a : Attempt} {t : Target}
    (h : Requested url a t) : (connect url a).ws =
      (readHead maxHead [] a.arrives).bind fun r =>
      if blankLine <:+: r.1 ∧ ascii "HTTP/1.1 101" <+: r.1 then
        some ⟨a.maskKey,some r.2⟩
      else none := by
  simp only [connect,h.url,if_pos h.reached,if_pos h.accepted]
  cases readHead maxHead [] a.arrives with
  | none => rfl
  | some r =>
    simp only [Option.bind_some]
    split_ifs <;> rfl

theorem connect_of_upgrade {url head rest : List UInt8} {a : Attempt} {t : Target}
    (h : Requested url a t) (hhead : Upgrade head) (hbytes : a.arrives.bytes = head++rest) :
    ∃ s, (connect url a).ws = some ⟨a.maskKey,some s⟩ ∧ s.bytes = rest := by
  obtain ⟨s,hread,hrest⟩ := readHead_of_upgrade hhead hbytes
  refine ⟨s,?_,hrest⟩
  rw [connect_of_requested h,hread,Option.bind_some,if_pos ⟨hhead.ends.isInfix,hhead.status⟩]

/-- The connection opens on an upgrade and on nothing else, and its next byte is the one behind
the head: no frame is read with it and none of it is left, wherever the chunks end. -/
theorem connect_upgrade {url : List UInt8} {a : Attempt} {t : Target} (h : Requested url a t) :
    (∀ ws, (connect url a).ws = some ws →
      ∃ head s, Upgrade head ∧ a.arrives.bytes = head++s.bytes ∧ ws = ⟨a.maskKey,some s⟩) ∧
    ∀ (head : List UInt8) (frames : List WebSocket.Frame), Upgrade head →
      (∀ f ∈ frames, Served f) → a.arrives.bytes = head++frames.flatMap WebSocket.encode →
        ∃ s, (connect url a).ws = some ⟨a.maskKey,some s⟩ ∧ ∀ n, recvTexts a.maskKey n s =
          ((frames.filter fun f => !f.opcode.control).map delivered).take n := by
  constructor
  · intro ws hws
    rw [connect_of_requested h] at hws
    obtain ⟨⟨resp,s⟩,hread,hws⟩ := Option.bind_eq_some_iff.mp hws
    dsimp only at hws
    split_ifs at hws with hresp
    obtain ⟨hall,hlen,hfirst⟩ := readHead_sound maxHead hread (by decide) hresp.1
    refine ⟨resp,s,⟨suffix_of_first hresp.1 hfirst,hfirst,?_,hresp.2⟩,hall.symm,?_⟩
    · simpa using hlen
    · exact (Option.some.inj hws).symm
  · intro head frames hhead hframes hbytes
    obtain ⟨s,hws,hrest⟩ := connect_of_upgrade h hhead hbytes
    exact ⟨s,hws,fun n => recvTexts_served a.maskKey n frames s hframes hrest⟩

/-- The answer of a server, whose first message comes in the chunk with the end of its head. -/
def upgradeHead : List UInt8 := ascii "HTTP/1.1 101 Switching Protocols\r\n\r\n"

def helloAttempt : Attempt where
  reached := true
  keybytes := Vector.replicate 16 7
  accepted := 1024
  arrives := ⟨[upgradeHead.take 35,upgradeHead.drop 35++
    WebSocket.encode ⟨true,.text,none,ascii "hi"⟩],by decide⟩
  maskKey := 0

theorem upgradeHead_upgrade : Upgrade upgradeHead where
  ends := by decide
  first := by decide +kernel
  length_le := by decide
  status := by decide

theorem helloAttempt_requested : Requested (ascii "ws://gpu:8765/anomaly") helloAttempt
    ⟨ascii "gpu",ascii "8765",ascii "/anomaly"⟩ where
  url := by decide +kernel
  reached := rfl
  accepted := by decide +kernel

theorem connect_upgrade_hello :
    ∃ s, (connect (ascii "ws://gpu:8765/anomaly") helloAttempt).ws = some ⟨0,some s⟩ ∧
      recvTexts 0 1 s = [ascii "hi"] := by
  have hserved : ∀ f ∈ [(⟨true,.text,none,ascii "hi"⟩ : WebSocket.Frame)], Served f := by
    intro f hf
    obtain rfl := List.mem_singleton.mp hf
    exact ⟨⟨by decide,by decide⟩,by decide,.inl rfl⟩
  obtain ⟨s,hws,hrecv⟩ := (connect_upgrade helloAttempt_requested).2 upgradeHead
    [⟨true,.text,none,ascii "hi"⟩] upgradeHead_upgrade hserved (by decide)
  exact ⟨s,hws,hrecv 1⟩

/-! ## The request -/

/-- A URL; without a port it has no colon. -/
structure Url where
  host : List UInt8
  port : Option (List UInt8)
  path : List UInt8

def Url.text (u : Url) : List UInt8 :=
  ascii "ws://"++(u.host++u.port.elim [] (58::·)++u.path)

structure Url.WellFormed (u : Url) : Prop where
  host_slash : 47 ∉ u.host
  host_colon : u.port = none → 58 ∉ u.host
  port : ∀ p ∈ u.port, 47 ∉ p ∧ 58 ∉ p
  path : u.path = [] ∨ u.path.head? = some 47
  clean : 13 ∉ u.text ∧ 32 ∉ u.text

def Url.target (u : Url) : Target :=
  ⟨u.host,u.port.getD (ascii "80"),if u.path = [] then ascii "/" else u.path⟩

theorem idxOf?_append {c : UInt8} {front : List UInt8} (h : c ∉ front) (back : List UInt8) :
    (front++c::back).idxOf? c = some front.length := by
  induction front with
  | nil => simp [List.idxOf?_cons]
  | cons b front ih =>
    obtain ⟨hb,hfront⟩ := List.ne_and_not_mem_of_not_mem_cons h
    simp [List.idxOf?_cons,ih hfront,Ne.symm hb]

theorem rfind_append {c : UInt8} {back : List UInt8} (h : c ∉ back) (front : List UInt8) :
    rfind c (front++c::back) = some front.length := by
  have hreverse : (front++c::back).reverse = back.reverse++c::front.reverse := by simp
  rw [rfind,hreverse,idxOf?_append (by simpa using h)]
  simp only [Option.map_some,List.length_append,List.length_cons,List.length_reverse,
    Option.some.injEq]
  omega

theorem rfind_none {c : UInt8} {bs : List UInt8} (h : c ∉ bs) : rfind c bs = none := by
  rw [rfind,List.idxOf?_eq_none_iff.mpr (by simpa using h)]
  rfl

/-- The last colon ends the host. -/
theorem split_authority {u : Url} (h : u.WellFormed) (path : List UInt8) :
    (match rfind 58 (u.host++u.port.elim [] (58::·)) with
      | some colon => some (Target.mk ((u.host++u.port.elim [] (58::·)).take colon)
          ((u.host++u.port.elim [] (58::·)).drop (colon+1)) path)
      | none => some ⟨u.host++u.port.elim [] (58::·),ascii "80",path⟩) =
      some ⟨u.host,u.port.getD (ascii "80"),path⟩ := by
  cases hport : u.port with
  | none =>
    simp only [Option.elim_none,List.append_nil,rfind_none (h.host_colon hport),
      Option.getD_none]
  | some p =>
    have hp := (h.port p hport).2
    have hdrop : (u.host++58::p).drop (u.host.length+1) = p := by
      rw [List.drop_append,List.drop_eq_nil_of_le (Nat.le_succ _)]
      simp
    simp only [Option.elim_some,rfind_append hp,List.take_left',hdrop,Option.getD_some]

theorem parseUrl_text {u : Url} (h : u.WellFormed) : parseUrl u.text = some u.target := by
  have hstart : ascii "ws://" <+: u.text := List.prefix_append _ _
  have hdrop : u.text.drop 5 = u.host++u.port.elim [] (58::·)++u.path :=
    List.drop_left' rfl
  have hslash : 47 ∉ u.host++u.port.elim [] (58::·) := by
    cases hport : u.port with
    | none => simpa using h.host_slash
    | some p => simpa using ⟨h.host_slash,(h.port p hport).1⟩
  rw [parseUrl,if_pos hstart,hdrop,Url.target]
  rcases h.path with hpath | hpath
  · have hfind : find 47 (u.host++u.port.elim [] (58::·)) = none :=
      List.idxOf?_eq_none_iff.mpr hslash
    rw [hpath,List.append_nil,if_pos rfl]
    simp only [hfind]
    exact split_authority h _
  · obtain ⟨path,hpath⟩ : ∃ path, u.path = 47::path := by
      cases hu : u.path with
      | nil => simp [hu] at hpath
      | cons c path => exact ⟨path,by simpa [hu] using hpath⟩
    have hfind : find 47 (u.host++u.port.elim [] (58::·)++47::path) =
        some (u.host++u.port.elim [] (58::·)).length := idxOf?_append hslash path
    rw [hpath,if_neg (List.cons_ne_nil _ _)]
    simp only [hfind,List.take_left',List.drop_left']
    exact split_authority h _

theorem tbl_getD {v : ℕ} (h : v < 64) : tbl.getD v 0 = Base64.digit v := by
  have hall : ∀ v < 64, tbl.getD v 0 = Base64.digit v := by decide +kernel
  exact hall v h

theorem tbl_digit (n : ℕ) {s k : ℕ} (h : s = 6*k) :
    tbl.getD (n >>> s &&& 63) 0 = Base64.digitAt n k := by
  rw [Nat.shiftRight_eq_div_pow,h,Nat.pow_mul,Nat.and_two_pow_sub_one_eq_mod _ 6,
    tbl_getD (Nat.mod_lt _ (by decide))]
  rfl

theorem base64Step_eq {a : UInt8} {b c : Option UInt8} {n : ℕ}
    (h : a.toNat <<< 16 ||| b.elim 0 (fun b => b.toNat <<< 8) ||| c.elim 0 UInt8.toNat = n) :
    base64Step a b c = [Base64.digitAt n 3,Base64.digitAt n 2,
      if b.isSome then Base64.digitAt n 1 else Base64.pad,
      if c.isSome then Base64.digitAt n 0 else Base64.pad] := by
  have h0 : tbl.getD (n &&& 63) 0 = Base64.digitAt n 0 := tbl_digit n (s := 0) (k := 0) rfl
  simp only [base64Step,h,tbl_digit n (s := 18) (k := 3) rfl,
    tbl_digit n (s := 12) (k := 2) rfl,tbl_digit n (s := 6) (k := 1) rfl,h0]
  rfl

theorem shift_or_two (a b : UInt8) :
    a.toNat <<< 16 ||| b.toNat <<< 8 = a.toNat*65536+b.toNat*256 := by
  have hshift : a.toNat <<< 16 = a.toNat <<< 8 <<< 8 := Nat.shiftLeft_add a.toNat 8 8
  rw [hshift,← Nat.shiftLeft_or_distrib,shift_or,Nat.shiftLeft_eq]
  ring

theorem shift_or_three (a b c : UInt8) :
    a.toNat <<< 16 ||| b.toNat <<< 8 ||| c.toNat = a.toNat*65536+b.toNat*256+c.toNat := by
  have hshift : a.toNat <<< 16 = a.toNat <<< 8 <<< 8 := Nat.shiftLeft_add a.toNat 8 8
  rw [hshift,← Nat.shiftLeft_or_distrib,shift_or,shift_or]
  ring

theorem base64_eq (data : List UInt8) : base64 data = Base64.encode data := by
  induction data using base64.induct with
  | case1 => rfl
  | case2 a =>
    exact base64Step_eq (by simp [Nat.shiftLeft_eq])
  | case3 a b =>
    exact base64Step_eq (by simpa using shift_or_two a b)
  | case4 a b c data ih =>
    rw [base64,base64Step_eq (shift_or_three a b c),ih]
    rfl

/-- The head that the request is. -/
def requestHead (t : Target) (keybytes : List UInt8) : HttpHead.Head :=
  ⟨ascii "GET "++t.path++ascii " HTTP/1.1",
    [⟨ascii "Host",t.host++58::t.port⟩,⟨ascii "Upgrade",ascii "websocket"⟩,
      ⟨ascii "Connection",ascii "Upgrade"⟩,
      ⟨ascii "Sec-WebSocket-Key",Base64.encode keybytes⟩,
      ⟨ascii "Sec-WebSocket-Version",ascii "13"⟩]⟩

theorem request_eq (t : Target) (keybytes : List UInt8) :
    request t keybytes = (requestHead t keybytes).render := by
  simp [request,requestHead,base64_eq,HttpHead.Head.render,HttpHead.Field.render,
    HttpHead.crlf,ascii]

/-- Neither a line end nor a blank. -/
def Plain (bs : List UInt8) : Prop := 13 ∉ bs ∧ 32 ∉ bs

instance (bs : List UInt8) : Decidable (Plain bs) := inferInstanceAs (Decidable (_ ∧ _))

structure Target.Clean (t : Target) : Prop where
  host : Plain t.host
  port : Plain t.port
  path : Plain t.path

theorem Url.target_clean {u : Url} (h : u.WellFormed) : u.target.Clean := by
  obtain ⟨hcr,hsp⟩ := h.clean
  simp only [Url.text,List.mem_append,not_or] at hcr hsp
  refine ⟨⟨hcr.2.1.1,hsp.2.1.1⟩,?_,?_⟩
  · cases hport : u.port with
    | none => simp only [Url.target,hport,Option.getD_none]; decide
    | some p =>
      have hcr' := hcr.2.1.2
      have hsp' := hsp.2.1.2
      simp only [hport,Option.elim_some,List.mem_cons,not_or] at hcr' hsp'
      simpa only [Url.target,hport,Option.getD_some] using ⟨hcr'.2,hsp'.2⟩
  · unfold Url.target
    dsimp only
    split_ifs
    · decide
    · exact ⟨hcr.2.2,hsp.2.2⟩

theorem head?_ne_of_not_mem {b : UInt8} {bs : List UInt8} (h : b ∉ bs) : bs.head? ≠ some b :=
  fun hhead => h (List.mem_of_mem_head? hhead)

theorem plain_encode (bs : List UInt8) : Plain (Base64.encode bs) :=
  ⟨fun h => absurd (Base64.le_of_mem_encode bs 13 h) (by decide),
    fun h => absurd (Base64.le_of_mem_encode bs 32 h) (by decide)⟩

theorem field_clean {name value : List UInt8} (hname : 58 ∉ name ∧ 13 ∉ name)
    (hvalue : Plain value) : HttpHead.Field.Clean ⟨name,value⟩ :=
  ⟨hname.1,hname.2,hvalue.1,head?_ne_of_not_mem hvalue.2⟩

theorem requestHead_clean {t : Target} (h : t.Clean) (keybytes : List UInt8) :
    (requestHead t keybytes).Clean := by
  have hhost : Plain (t.host++58::t.port) := by
    simpa [Plain,h.host.1,h.host.2] using h.port
  refine ⟨by simpa [requestHead] using ⟨by decide,h.path.1,by decide⟩,?_⟩
  simp only [requestHead,List.forall_mem_cons,List.not_mem_nil,false_imp_iff,implies_true,
    and_true]
  exact ⟨field_clean (by decide) hhost,field_clean (by decide) (by decide),
    field_clean (by decide) (by decide),field_clean (by decide) (plain_encode keybytes),
    field_clean (by decide) (by decide)⟩

/-! ### What the peer makes of it -/

structure Opening where
  path : List UInt8
  authority : List UInt8
  key : List UInt8
  deriving DecidableEq,Repr

def lookup (name : List UInt8) (fields : List HttpHead.Field) : Option (List UInt8) :=
  (fields.find? fun f => f.name = name).map HttpHead.Field.value

/-- The word before the first blank, and what follows the blank. -/
def word (bs : List UInt8) : List UInt8 × List UInt8 :=
  (bs.takeWhile (· ≠ 32),(bs.dropWhile (· ≠ 32)).tail)

/-- The path of a `GET` line. -/
def requestPath (start : List UInt8) : Option (List UInt8) :=
  let method := word start
  let path := word method.2
  if method.1 = ascii "GET" ∧ path.2 = ascii "HTTP/1.1" then some path.1 else none

/-- A server reads a request to upgrade; the key is sixteen bytes. -/
def readOpening (bs : List UInt8) : Option (Opening × List UInt8) :=
  (HttpHead.parse bs).bind fun r =>
    let field name := lookup (ascii name) r.1.fields
    (requestPath r.1.start).bind fun path => (field "Host").bind fun authority =>
      ((field "Sec-WebSocket-Key").bind Base64.decode).bind fun key =>
        if field "Upgrade" = some (ascii "websocket") ∧
            field "Connection" = some (ascii "Upgrade") ∧
            field "Sec-WebSocket-Version" = some (ascii "13") ∧ key.length = 16 then
          some (⟨path,authority,key⟩,r.2)
        else none

theorem word_append {w : List UInt8} (h : 32 ∉ w) (rest : List UInt8) :
    word (w++32::rest) = (w,rest) := by
  have hw : ∀ b ∈ w, decide (b ≠ 32) = true := by
    intro b hb
    simp only [decide_eq_true_eq]
    rintro rfl
    exact h hb
  rw [word,List.takeWhile_append_of_pos hw,List.dropWhile_append_of_pos hw]
  simp

theorem requestPath_start {path : List UInt8} (h : 32 ∉ path) :
    requestPath (ascii "GET "++path++ascii " HTTP/1.1") = some path := by
  have hmethod : word (ascii "GET "++path++ascii " HTTP/1.1") =
      (ascii "GET",path++ascii " HTTP/1.1") := by
    rw [List.append_assoc]
    exact word_append (w := ascii "GET") (by decide) _
  have hpath : word (path++ascii " HTTP/1.1") = (path,ascii "HTTP/1.1") := word_append h _
  simp only [requestPath,hmethod,hpath,and_self,if_true]

/-- The peer reads the request back, up to its end. -/
theorem readOpening_request {t : Target} (h : t.Clean) (keybytes : Vector UInt8 16)
    (rest : List UInt8) : readOpening (request t keybytes.toList++rest) =
      some (⟨t.path,t.host++58::t.port,keybytes.toList⟩,rest) := by
  have hhost : lookup (ascii "Host") (requestHead t keybytes.toList).fields =
      some (t.host++58::t.port) := rfl
  have hkey : lookup (ascii "Sec-WebSocket-Key") (requestHead t keybytes.toList).fields =
      some (Base64.encode keybytes.toList) := rfl
  have hupgrade : lookup (ascii "Upgrade") (requestHead t keybytes.toList).fields =
      some (ascii "websocket") := rfl
  have hconnection : lookup (ascii "Connection") (requestHead t keybytes.toList).fields =
      some (ascii "Upgrade") := rfl
  have hversion : lookup (ascii "Sec-WebSocket-Version")
      (requestHead t keybytes.toList).fields = some (ascii "13") := rfl
  have hpath : requestPath (requestHead t keybytes.toList).start = some t.path :=
    requestPath_start h.path.2
  rw [readOpening,request_eq,HttpHead.parse_render (requestHead_clean h _),Option.bind_some]
  simp only [hhost,hkey,hupgrade,hconnection,hversion,hpath,Option.bind_some,
    Base64.decode_encode,Vector.length_toList,and_self,if_true]

/-- Whenever `Connect` succeeds, the peer has read the path and the host of the URL and the
bytes of the key, and nothing is left behind the request. -/
theorem connect_opening {u : Url} (h : u.WellFormed) {a : Attempt} {ws : Connection}
    (hws : (connect u.text a).ws = some ws) : readOpening (connect u.text a).sent =
      some (⟨u.target.path,u.host++58::u.target.port,a.keybytes.toList⟩,[]) := by
  obtain ⟨t,ht,hsent⟩ := connect_requested hws
  obtain rfl : u.target = t := Option.some.inj ((parseUrl_text h).symm.trans ht.url)
  rw [hsent,← List.append_nil (request _ _)]
  exact readOpening_request (Url.target_clean h) a.keybytes []

def gpuUrl : Url := ⟨ascii "gpu",some (ascii "8765"),ascii "/anomaly"⟩

theorem connect_opening_hello : ∃ ws, (connect gpuUrl.text helloAttempt).ws = some ws ∧
    readOpening (connect gpuUrl.text helloAttempt).sent =
      some (⟨ascii "/anomaly",ascii "gpu:8765",List.replicate 16 7⟩,[]) := by
  have hform : gpuUrl.WellFormed :=
    ⟨by decide,by decide,by decide,by decide,by decide⟩
  have hbytes : helloAttempt.arrives.bytes =
      upgradeHead++WebSocket.encode ⟨true,.text,none,ascii "hi"⟩ := by decide
  have hrequested : Requested gpuUrl.text helloAttempt _ := helloAttempt_requested
  obtain ⟨s,hws,-⟩ := connect_of_upgrade hrequested upgradeHead_upgrade hbytes
  exact ⟨_,hws,connect_opening hform hws⟩

end Handshake
end ETraceDiag
