import ETraceDiag.WebSocketFrame
import Mathlib.Algebra.Order.BigOperators.Group.List
import Mathlib.Data.List.TakeWhile

/-!
# The WebSocket client

`WsClient` of `model/ws_client.cpp` on an open connection: the bytes `SendText` sends, the frames
`ReadFrame` takes from the receive calls, and `RecvText`, which answers pings until a message
has come. `RoundTrip` of `model/ws_model_client.cpp` pairs a request with what `RecvText`
returns. No wait times out.
-/

namespace ETraceDiag
namespace WsClient

open ByteStream WebSocket

/-- A `std::string`. -/
structure Message where
  bytes : List UInt8
  length_lt : bytes.length < 2^63

/-- The four bytes of `mask_key_` as they are sent. -/
def maskKey (key : UInt32) : MaskKey :=
  ⟨(key >>> 24).toUInt8,(key >>> 16).toUInt8,(key >>> 8).toUInt8,(key &&& 0xFF).toUInt8⟩

/-- What `SendText` sends. -/
def sendText (key : UInt32) (msg : List UInt8) : List UInt8 :=
  let n := msg.length
  let length :=
    if n < 126 then [0x80 ||| UInt8.ofNat n]
    else if n < 65536 then [0x80 ||| 126,UInt8.ofNat (n >>> 8),UInt8.ofNat (n &&& 0xFF)]
    else (0x80 ||| 127)::[7,6,5,4,3,2,1,0].map fun i => UInt8.ofNat ((n >>> (i*8)) &&& 0xFF)
  0x81::(length++((maskKey key).bytes++
    msg.mapIdx fun i b => b ^^^ ((key >>> UInt32.ofNat ((3-i%4)*8)) &&& 0xFF).toUInt8))

/-- What the ping branch of `RecvText` sends: the length byte is the size cut to eight bits. -/
def pong (key : UInt32) (payload : List UInt8) : List UInt8 :=
  0x8A::UInt8.ofNat (0x80 ||| payload.length)::
    ((maskKey key).bytes++applyMask (maskKey key) payload)

/-- The length that the second header byte announces or leaves to the bytes behind it. -/
def readLength (short : UInt8) (s : Chunks) : Option (ℕ × Chunks) :=
  if short = 126 then
    (readExact 2 s).map fun r =>
      ((r.1.getD 0 0).toNat <<< 8 ||| (r.1.getD 1 0).toNat,r.2)
  else if short = 127 then
    (readExact 8 s).map fun r => (r.1.foldl (fun len b => len <<< 8 ||| b.toNat) 0,r.2)
  else some (short.toNat,s)

def readPayload (masked : Bool) (len : ℕ) (s : Chunks) : Option (List UInt8 × Chunks) :=
  if masked then
    (readExact 4 s).bind fun k => (readExact len k.2).map fun r =>
      (r.1.mapIdx fun i b => b ^^^ k.1.getD (i%4) 0,r.2)
  else readExact len s

def maxPayload : ℕ := 64*1024*1024

/-- The opcode and the payload of the next frame; its FIN bit is not looked at. -/
def readFrame (s : Chunks) : Option ((UInt8 × List UInt8) × Chunks) :=
  (readExact 2 s).bind fun hdr =>
    (readLength (hdr.1.getD 1 0 &&& 0x7F) hdr.2).bind fun len =>
      if maxPayload < len.1 then none
      else (readPayload (hdr.1.getD 1 0 &&& 0x80 ≠ 0) len.1 len.2).map fun r =>
        ((hdr.1.getD 0 0 &&& 0x0F,r.1),r.2)

/-- The loop of `RecvText`: what it returns, the connection after it and the bytes it has sent.
A continuation frame ends it with the empty string. -/
def recvLoop (key : UInt32) : ℕ → Chunks → Option (List UInt8 × Chunks) × List UInt8
  | 0, _ => (none,[])
  | fuel+1, s =>
    match readFrame s with
    | none => (none,[])
    | some ((opcode,payload),s') =>
      if opcode = 0x1 then (some (payload,s'),[])
      else if opcode = 0x0 then (some ([],s'),[])
      else if opcode = 0x8 then (none,[])
      else if opcode = 0x9 then
        let r := recvLoop key fuel s'
        (r.1,pong key payload++r.2)
      else if opcode = 0xA then recvLoop key fuel s'
      else (none,[])

/-- Every frame takes bytes from the stream. -/
def recvText (key : UInt32) (s : Chunks) : Option (List UInt8 × Chunks) × List UInt8 :=
  recvLoop key (s.bytes.length+1) s

/-- The results of the calls up to the first that fails, at most `n` of them. -/
def recvTexts (key : UInt32) : ℕ → Chunks → List (List UInt8)
  | 0, _ => []
  | n+1, s =>
    match (recvText key s).1 with
    | none => []
    | some (out,s') => out::recvTexts key n s'

/-- A connection: the mask key and, while it is open, what is to be received on it. -/
structure Connection where
  maskKey : UInt32
  fd : Option Chunks

/-- The outcome of `RoundTrip`: the reply, what was sent and the connection. -/
structure Trip where
  reply : Option (List UInt8)
  sent : List UInt8
  ws : Connection

/-- `RoundTrip`; `connect` is what a new connection would be. Sending does not fail. -/
def roundTrip (connect : Option Connection) (ws : Connection) (payload : List UInt8) : Trip :=
  match (if ws.fd.isSome then some ws else connect) with
  | none => ⟨none,[],{ ws with fd := none }⟩
  | some ws =>
    match ws.fd with
    | none => ⟨none,[],ws⟩
    | some s =>
      let r := recvText ws.maskKey s
      ⟨r.1.map Prod.fst,sendText ws.maskKey payload++r.2,{ ws with fd := r.1.map Prod.snd }⟩

/-- Requests one after the other, each with its reply. -/
def roundTrips (connect : Option Connection) :
    Connection → List (List UInt8) → List (List UInt8 × Option (List UInt8))
  | _, [] => []
  | ws, payload::payloads =>
    let r := roundTrip connect ws payload
    (payload,r.reply)::roundTrips connect r.ws payloads

/-! ## ReadFrame -/

theorem shift_or (a : ℕ) (b : UInt8) : a <<< 8 ||| b.toNat = 256*a+b.toNat := by
  rw [← Nat.shiftLeft_add_eq_or_of_lt b.toNat_lt,Nat.shiftLeft_eq,Nat.mul_comm]

theorem foldl_shift_or (bs : List UInt8) :
    bs.foldl (fun len b => len <<< 8 ||| b.toNat) 0 = beValue bs := by
  simp only [beValue,shift_or]

/-- `ReadFrame` finds the length that the protocol gives it. -/
theorem readLength_of_decodeLength {short : UInt8} {s : Chunks} {r : ℕ × List UInt8}
    (h : decodeLength short s.bytes = some r) :
    ∃ s', readLength short s = some (r.1,s') ∧ s'.bytes = r.2 := by
  unfold decodeLength at h
  split at h
  · rename_i h126
    obtain ⟨t,ht,h⟩ := Option.bind_eq_some_iff.mp h
    obtain ⟨s',hread,hrest⟩ := readExact_of_splitExact ht
    obtain ⟨b0,b1,hb⟩ := List.length_eq_two.mp (splitExact_length ht)
    split at h
    · cases h
      refine ⟨s',?_,hrest⟩
      rw [readLength,if_pos h126,hread,hb]
      simp [beValue,shift_or]
    · cases h
  · rename_i h126
    split at h
    · rename_i h127
      obtain ⟨t,ht,h⟩ := Option.bind_eq_some_iff.mp h
      obtain ⟨s',hread,hrest⟩ := readExact_of_splitExact ht
      split at h
      · cases h
        refine ⟨s',?_,hrest⟩
        rw [readLength,if_neg h126,if_pos h127,hread,Option.map_some,foldl_shift_or]
      · cases h
    · rename_i h127
      cases h
      exact ⟨s,by rw [readLength,if_neg h126,if_neg h127],rfl⟩

theorem readPayload_of_decodePayload {masked : Bool} {n : ℕ} {s : Chunks}
    {r : Option MaskKey × List UInt8 × List UInt8}
    (h : decodePayload masked n s.bytes = some r) :
    ∃ s', readPayload masked n s = some (r.2.1,s') ∧ s'.bytes = r.2.2 := by
  unfold decodePayload at h
  split at h
  · rename_i bs
    obtain ⟨t,ht,rfl⟩ := Option.map_eq_some_iff.mp h
    exact readExact_of_splitExact ht
  · rename_i bs b0 b1 b2 b3 rest heq
    obtain ⟨t,ht,rfl⟩ := Option.map_eq_some_iff.mp h
    have hkey : s.bytes = [b0,b1,b2,b3]++rest := heq
    obtain ⟨s₁,hread₁,hrest₁⟩ := readExact_append hkey
    rw [← hrest₁] at ht
    obtain ⟨s₂,hread₂,hrest₂⟩ := readExact_of_splitExact ht
    have hread₁ : readExact 4 s = some ([b0,b1,b2,b3],s₁) := hread₁
    refine ⟨s₂,?_,hrest₂⟩
    rw [readPayload,if_pos rfl,hread₁,Option.bind_some,hread₂]
    rfl
  · cases h

theorem ofCode_eq_some {c : UInt8} {opcode : Opcode} (h : Opcode.ofCode c = some opcode) :
    c = opcode.code := by
  unfold Opcode.ofCode at h
  split_ifs at h with h0 h1 h2 h8 h9 h10 <;> cases h <;> assumption

/-- `ReadFrame` reads what the protocol says, up to its limit on the payload. -/
theorem readFrame_of_decode {s : Chunks} {f : Frame} {rest : List UInt8}
    (h : decode s.bytes = some (f,rest)) (hmax : f.payload.length ≤ maxPayload) :
    ∃ s', readFrame s = some ((f.opcode.code,f.payload),s') ∧ s'.bytes = rest := by
  match hs : s.bytes,h with
  | b0::b1::bs,h =>
    simp only [decode] at h
    split at h
    · cases h
    · obtain ⟨opcode,hopcode,h⟩ := Option.bind_eq_some_iff.mp h
      obtain ⟨len,hlen,h⟩ := Option.bind_eq_some_iff.mp h
      split at h
      · cases h
      · obtain ⟨r,hr,heq⟩ := Option.map_eq_some_iff.mp h
        cases heq
        have hhdr : s.bytes = [b0,b1]++bs := hs
        obtain ⟨s₁,hread₁,hrest₁⟩ := readExact_append hhdr
        have hread₁ : readExact 2 s = some ([b0,b1],s₁) := hread₁
        rw [← hrest₁] at hlen
        obtain ⟨s₂,hread₂,hrest₂⟩ := readLength_of_decodeLength hlen
        rw [← hrest₂] at hr
        obtain ⟨s₃,hread₃,hrest₃⟩ := readPayload_of_decodePayload hr
        have hcap : ¬ maxPayload < len.1 := by
          rw [← decodePayload_length hr]
          exact Nat.not_lt.mpr hmax
        refine ⟨s₃,?_,hrest₃⟩
        have hb0 : [b0,b1].getD 0 0 = b0 := rfl
        have hb1 : [b0,b1].getD 1 0 = b1 := rfl
        simp only [readFrame,hread₁,Option.bind_some,hb0,hb1,hread₂,if_neg hcap,hread₃,
          Option.map_some,ofCode_eq_some hopcode]

theorem readFrame_of_encode {s : Chunks} {f : Frame} {rest : List UInt8} (hf : f.Valid)
    (hmax : f.payload.length ≤ maxPayload) (h : s.bytes = encode f++rest) :
    ∃ s', readFrame s = some ((f.opcode.code,f.payload),s') ∧ s'.bytes = rest := by
  have hdecode := decode_encode_append hf rest
  rw [← h] at hdecode
  exact readFrame_of_decode hdecode hmax

theorem readLength_bytes {short : UInt8} {s : Chunks} {r : ℕ × Chunks}
    (h : readLength short s = some r) : r.2.bytes.length ≤ s.bytes.length := by
  have hread : ∀ {n : ℕ} {t : List UInt8 × Chunks}, readExact n s = some t →
      t.2.bytes.length ≤ s.bytes.length := fun ht => by
    rw [(readExact_eq ht).2,List.length_append]
    omega
  unfold readLength at h
  split_ifs at h
  · obtain ⟨t,ht,rfl⟩ := Option.map_eq_some_iff.mp h
    exact hread ht
  · obtain ⟨t,ht,rfl⟩ := Option.map_eq_some_iff.mp h
    exact hread ht
  · cases h
    exact le_rfl

theorem readPayload_bytes {masked : Bool} {n : ℕ} {s : Chunks} {r : List UInt8 × Chunks}
    (h : readPayload masked n s = some r) : r.2.bytes.length ≤ s.bytes.length := by
  unfold readPayload at h
  split_ifs at h
  · obtain ⟨k,hk,h⟩ := Option.bind_eq_some_iff.mp h
    obtain ⟨t,ht,rfl⟩ := Option.map_eq_some_iff.mp h
    have hkey := (readExact_eq hk).2
    have hdata := (readExact_eq ht).2
    simp only [hkey,hdata,List.length_append]
    omega
  · rw [(readExact_eq h).2,List.length_append]
    omega

/-- A frame takes its header from the stream at least. -/
theorem readFrame_bytes {s : Chunks} {r : (UInt8 × List UInt8) × Chunks}
    (h : readFrame s = some r) : r.2.bytes.length < s.bytes.length := by
  obtain ⟨hdr,hhdr,h⟩ := Option.bind_eq_some_iff.mp h
  obtain ⟨len,hlen,h⟩ := Option.bind_eq_some_iff.mp h
  split_ifs at h
  obtain ⟨t,ht,rfl⟩ := Option.map_eq_some_iff.mp h
  obtain ⟨htwo,hbytes⟩ := readExact_eq hhdr
  have hlength := readLength_bytes hlen
  have hpayload := readPayload_bytes ht
  rw [hbytes,List.length_append,htwo]
  exact Nat.lt_of_le_of_lt (hpayload.trans hlength) (by omega)

/-- More rounds than bytes make no difference: the loop has returned before. -/
theorem recvLoop_fuel (key : UInt32) (fuel : ℕ) : ∀ (s : Chunks) (more : ℕ),
    s.bytes.length < fuel → recvLoop key (fuel+more) s = recvLoop key fuel s := by
  induction fuel with
  | zero => intro s more h; omega
  | succ fuel ih =>
    intro s more h
    rw [Nat.succ_add]
    cases hread : readFrame s with
    | none => simp only [recvLoop,hread]
    | some r =>
      have hless := readFrame_bytes hread
      have htail := ih r.2 more (by omega)
      simp only [recvLoop,hread,htail]

/-! ## What is sent -/

theorem ofNat_and_255 (n : ℕ) : UInt8.ofNat (n &&& 0xFF) = UInt8.ofNat n := by
  have hmod : n &&& 255 = n%256 := Nat.and_two_pow_sub_one_eq_mod n 8
  rw [← UInt8.toNat_inj,hmod]
  simp

theorem toUInt8_and_255 (x : UInt32) : (x &&& 0xFF).toUInt8 = x.toUInt8 := by
  rw [← UInt8.toNat_inj]
  simp [Nat.and_two_pow_sub_one_eq_mod _ 8]

theorem keyByte (key : UInt32) (i : ℕ) :
    ((key >>> UInt32.ofNat ((3-i%4)*8)) &&& 0xFF).toUInt8 = (maskKey key).byte i := by
  have hi : i%4 < 4 := Nat.mod_lt _ (by decide)
  rw [toUInt8_and_255,MaskKey.byte,maskKey,toUInt8_and_255]
  generalize i%4 = j at hi ⊢
  match j,hi with
  | 0,_ => rfl
  | 1,_ => rfl
  | 2,_ => rfl
  | 3,_ => simp [MaskKey.bytes]

/-- The frame that carries a message, and the frame that answers a ping. -/
def textFrame (key : UInt32) (msg : List UInt8) : Frame := ⟨true,.text,some (maskKey key),msg⟩

def pongFrame (key : UInt32) (payload : List UInt8) : Frame :=
  ⟨true,.pong,some (maskKey key),payload⟩

theorem sendText_eq (key : UInt32) (msg : List UInt8) :
    sendText key msg = encode (textFrame key msg) := by
  have hmask : (msg.mapIdx fun i b =>
      b ^^^ ((key >>> UInt32.ofNat ((3-i%4)*8)) &&& 0xFF).toUInt8) =
        applyMask (maskKey key) msg := by
    simp only [keyByte,applyMask]
  have hlength : ∀ n : ℕ, (if n < 126 then [0x80 ||| UInt8.ofNat n]
      else if n < 65536 then [0x80 ||| 126,UInt8.ofNat (n >>> 8),UInt8.ofNat (n &&& 0xFF)]
      else (0x80 ||| 127)::[7,6,5,4,3,2,1,0].map fun i =>
        UInt8.ofNat ((n >>> (i*8)) &&& 0xFF)) = lengthBytes true n := by
    intro n
    simp only [lengthBytes,maskBit,if_true,beBytes,ofNat_and_255,List.map_cons,List.map_nil,
      Nat.shiftRight_eq_div_pow]
    norm_num
  have hfirst : finBit true ||| Opcode.text.code = 0x81 := by decide
  simp only [sendText,hmask,hlength,encode,textFrame,hfirst,maskedPayload,Option.isSome_some]

/-- A pong is the frame it should be as long as its payload may be in one. -/
theorem pong_eq (key : UInt32) {payload : List UInt8} (h : payload.length ≤ 125) :
    pong key payload = encode (pongFrame key payload) := by
  have hlength : lengthBytes true payload.length = [UInt8.ofNat (0x80 ||| payload.length)] := by
    rw [lengthBytes,if_pos (by omega)]
    simp [maskBit]
  simp only [encode,pongFrame,Option.isSome_some,hlength]
  rfl

/-- The pings that a call of `RecvText` reads. -/
def readPings : ℕ → Chunks → List (List UInt8)
  | 0, _ => []
  | fuel+1, s =>
    match readFrame s with
    | none => []
    | some ((opcode,payload),s') =>
      if opcode = 0x9 then payload::readPings fuel s'
      else if opcode = 0xA then readPings fuel s'
      else []

def pings (s : Chunks) : List (List UInt8) := readPings (s.bytes.length+1) s

theorem recvLoop_sent (key : UInt32) (fuel : ℕ) : ∀ s : Chunks,
    (recvLoop key fuel s).2 = (readPings fuel s).flatMap (pong key) := by
  induction fuel with
  | zero => intro s; rfl
  | succ fuel ih =>
    intro s
    cases hread : readFrame s with
    | none => simp only [recvLoop,readPings,hread,List.flatMap_nil]
    | some r =>
      obtain ⟨⟨opcode,payload⟩,s'⟩ := r
      simp only [recvLoop,readPings,hread]
      split_ifs <;> simp_all

/-- `RecvText` sends a pong for each ping it reads. -/
theorem recvText_sent (key : UInt32) (s : Chunks) :
    (recvText key s).2 = (pings s).flatMap (pong key) :=
  recvLoop_sent key _ s

/-- A call on the client: a message to send, or a read of what arrives. -/
inductive Call
  | sendText (msg : Message)
  | recvText (s : Chunks)

def Call.output (key : UInt32) : Call → List UInt8
  | .sendText msg => WsClient.sendText key msg.bytes
  | .recvText s => (WsClient.recvText key s).2

/-- The frames that the call is to send. -/
def Call.frames (key : UInt32) : Call → List Frame
  | .sendText msg => [textFrame key msg.bytes]
  | .recvText s => (pings s).map (pongFrame key)

def Call.pings : Call → List (List UInt8)
  | .sendText _ => []
  | .recvText s => WsClient.pings s

/-- What the client sends is a stream of the frames it is to send, and its own reader takes a
message back from its frame. -/
structure ValidStream (key : UInt32) (calls : List Call) : Prop where
  parse : parse (calls.flatMap (Call.output key)) = some (calls.flatMap (Call.frames key))
  readFrame : ∀ (msg : List UInt8) (s : Chunks), msg.length ≤ maxPayload →
    s.bytes = sendText key msg → ∃ s', readFrame s = some ((0x1,msg),s') ∧ s'.bytes = []

theorem readFrame_sendText (key : UInt32) {msg : List UInt8} {s : Chunks}
    (hmax : msg.length ≤ maxPayload) (h : s.bytes = sendText key msg) :
    ∃ s', readFrame s = some ((0x1,msg),s') ∧ s'.bytes = [] := by
  have hvalid : (textFrame key msg).Valid :=
    ⟨fun hc => Bool.noConfusion hc,hmax.trans_lt (by decide)⟩
  rw [sendText_eq,← List.append_nil (encode _)] at h
  exact readFrame_of_encode hvalid hmax h

theorem Call.output_eq (key : UInt32) {c : Call} (h : ∀ p ∈ c.pings, p.length ≤ 125) :
    c.output key = (c.frames key).flatMap encode := by
  cases c with
  | sendText msg =>
    simp only [Call.output,Call.frames,sendText_eq,List.flatMap_cons,List.flatMap_nil,
      List.append_nil]
  | recvText s =>
    simp only [Call.output,Call.frames,recvText_sent,List.flatMap_map]
    exact List.flatMap_congr fun p hp => pong_eq key (h p hp)

theorem Call.frames_valid (key : UInt32) {c : Call} (h : ∀ p ∈ c.pings, p.length ≤ 125) :
    ∀ f ∈ c.frames key, f.Valid := by
  cases c with
  | sendText msg =>
    rintro f hf
    rw [List.mem_singleton.mp hf]
    exact ⟨fun hc => Bool.noConfusion hc,msg.length_lt⟩
  | recvText s =>
    intro f hf
    obtain ⟨p,hp,rfl⟩ := List.mem_map.mp hf
    exact ⟨fun _ => ⟨rfl,h p hp⟩,(h p hp).trans_lt (by decide)⟩

/-- The client's output is valid exactly when no ping it has read carries more than 125 bytes. -/
theorem validStream_iff (key : UInt32) (calls : List Call) :
    ValidStream key calls ↔ ∀ c ∈ calls, ∀ p ∈ c.pings, p.length ≤ 125 := by
  constructor
  · intro h c hc p hp
    cases c with
    | sendText msg => cases hp
    | recvText s =>
      have hframe : pongFrame key p ∈ calls.flatMap (Call.frames key) :=
        List.mem_flatMap.mpr ⟨_,hc,List.mem_map_of_mem hp⟩
      exact parse_control h.parse _ hframe rfl
  · intro h
    refine ⟨?_,fun msg s hmax hs => readFrame_sendText key hmax hs⟩
    have houtput : calls.flatMap (Call.output key) =
        (calls.flatMap (Call.frames key)).flatMap encode := by
      rw [List.flatMap_assoc]
      exact List.flatMap_congr fun c hc => Call.output_eq key (h c hc)
    rw [houtput]
    refine parse_flatMap fun f hf => ?_
    obtain ⟨c,hc,hf⟩ := List.mem_flatMap.mp hf
    exact Call.frames_valid key (h c hc) f hf

/-- A ping of 126 bytes. -/
def longPing : Chunks := ⟨[[0x89,126,0,126]++List.replicate 126 0],by simp⟩

theorem longPing_pong_invalid : ¬ ∀ (key : UInt32) (calls : List Call), ValidStream key calls := by
  intro h
  have hread : List.replicate 126 0 ∈ (Call.recvText longPing).pings := by decide +kernel
  have hframe : pongFrame 0 (List.replicate 126 0) ∈
      [Call.recvText longPing].flatMap (Call.frames 0) :=
    List.mem_flatMap.mpr ⟨_,List.mem_singleton_self _,List.mem_map_of_mem hread⟩
  exact absurd (parse_control (h 0 [.recvText longPing]).parse _ hframe rfl) (by simp [pongFrame])

/-! ## What is received -/

/-- A message cut into the payloads of its frames. -/
structure Fragmented where
  first : List UInt8
  rest : List (List UInt8)

def Fragmented.message (m : Fragmented) : List UInt8 := m.first++m.rest.flatten

/-- The continuation frames; the last one is final. -/
def continuations : List (List UInt8) → List Frame
  | [] => []
  | p::ps => ⟨ps.isEmpty,.continuation,none,p⟩::continuations ps

def Fragmented.frames (m : Fragmented) : List Frame :=
  ⟨m.rest.isEmpty,.text,none,m.first⟩::continuations m.rest

/-- What a conforming server sends: the frames of its messages in their order, and pings and
pongs anywhere between them. -/
structure ServerStream where
  messages : List Fragmented
  frames : List Frame
  data : (frames.filter fun f => !f.opcode.control) = messages.flatMap Fragmented.frames
  control : ∀ f ∈ frames, f.opcode.control = true →
    (f.opcode = .ping ∨ f.opcode = .pong) ∧ f.fin = true ∧ f.payload.length ≤ 125
  small : ∀ m ∈ messages, m.message.length ≤ maxPayload

/-- A frame that `RecvText` takes. -/
structure Served (f : Frame) : Prop where
  valid : f.Valid
  small : f.payload.length ≤ maxPayload
  opcode : f.opcode = .text ∨ f.opcode = .continuation ∨ f.opcode = .ping ∨ f.opcode = .pong

theorem served_continuations (ps : List (List UInt8)) :
    ps.flatten.length ≤ maxPayload → ∀ f ∈ continuations ps, Served f := by
  induction ps with
  | nil => intro _ f hf; cases hf
  | cons p ps ih =>
    intro hsmall f hf
    rw [List.flatten_cons,List.length_append] at hsmall
    rcases List.mem_cons.mp hf with rfl | hf
    · have hp : p.length ≤ maxPayload := by omega
      exact ⟨⟨fun hc => Bool.noConfusion hc,hp.trans_lt (by decide)⟩,hp,.inr (.inl rfl)⟩
    · exact ih (by omega) f hf

theorem ServerStream.served (st : ServerStream) : ∀ f ∈ st.frames, Served f := by
  intro f hf
  by_cases hc : f.opcode.control = true
  · obtain ⟨hkind,hfin,hlen⟩ := st.control f hf hc
    have hsmall : f.payload.length ≤ maxPayload := hlen.trans (by decide)
    exact ⟨⟨fun _ => ⟨hfin,hlen⟩,hlen.trans_lt (by decide)⟩,hsmall,.inr (.inr hkind)⟩
  · have hdata : f ∈ st.messages.flatMap Fragmented.frames := by
      rw [← st.data]
      exact List.mem_filter.mpr ⟨hf,by simpa using hc⟩
    obtain ⟨m,hm,hf⟩ := List.mem_flatMap.mp hdata
    have hsmall := st.small m hm
    rw [Fragmented.message,List.length_append] at hsmall
    rcases List.mem_cons.mp hf with rfl | hf
    · have hp : m.first.length ≤ maxPayload := by omega
      exact ⟨⟨fun hc => Bool.noConfusion hc,hp.trans_lt (by decide)⟩,hp,.inl rfl⟩
    · exact served_continuations m.rest (by omega) f hf

/-- What `RecvText` returns for a data frame. -/
def delivered (f : Frame) : List UInt8 := if f.opcode = .text then f.payload else []

/-- The loop passes over control frames and returns at the first other one. -/
theorem recvLoop_served (key : UInt32) (frames : List Frame) : ∀ (fuel : ℕ) (s : Chunks),
    frames.length < fuel → (∀ f ∈ frames, Served f) → s.bytes = frames.flatMap encode →
      match frames.dropWhile fun f => f.opcode.control with
      | [] => (recvLoop key fuel s).1 = none
      | d::rest => ∃ s', (recvLoop key fuel s).1 = some (delivered d,s') ∧
          s'.bytes = rest.flatMap encode := by
  induction frames with
  | nil =>
    intro fuel s hfuel _ hs
    obtain ⟨fuel,rfl⟩ : ∃ k, fuel = k+1 := ⟨fuel-1,by simp at hfuel; omega⟩
    have hread : readExact 2 s = none := readExact_none (by simp [hs])
    simp only [List.dropWhile_nil,recvLoop,readFrame,hread,Option.bind_none]
  | cons f frames ih =>
    intro fuel s hfuel hserved hs
    obtain ⟨fuel,rfl⟩ : ∃ k, fuel = k+1 := ⟨fuel-1,by simp at hfuel; omega⟩
    obtain ⟨hvalid,hsmall,hkind⟩ := hserved f List.mem_cons_self
    obtain ⟨s₁,hread,hrest⟩ := readFrame_of_encode hvalid hsmall
      (hs.trans (List.flatMap_cons ..))
    have htail := ih fuel s₁ (by simp at hfuel; omega)
      (fun g hg => hserved g (List.mem_cons_of_mem _ hg)) hrest
    rcases hkind with hk | hk | hk | hk
    · simp only [List.dropWhile_cons,hk,Opcode.control,Bool.false_eq_true,if_false]
      exact ⟨s₁,by simp only [recvLoop,hread,hk,delivered]; rfl,hrest⟩
    · simp only [List.dropWhile_cons,hk,Opcode.control,Bool.false_eq_true,if_false]
      exact ⟨s₁,by simp only [recvLoop,hread,hk,delivered]; rfl,hrest⟩
    · have hloop : (recvLoop key (fuel+1) s).1 = (recvLoop key fuel s₁).1 := by
        simp only [recvLoop,hread,hk]
        rfl
      simp only [List.dropWhile_cons,hk,Opcode.control,if_true,hloop]
      exact htail
    · have hloop : (recvLoop key (fuel+1) s).1 = (recvLoop key fuel s₁).1 := by
        simp only [recvLoop,hread,hk]
        rfl
      simp only [List.dropWhile_cons,hk,Opcode.control,if_true,hloop]
      exact htail

theorem length_le_flatMap_encode (frames : List Frame) :
    frames.length ≤ (frames.flatMap encode).length := by
  induction frames with
  | nil => exact Nat.le_refl _
  | cons f frames ih =>
    obtain ⟨b,bs,hf⟩ := encode_cons f
    rw [List.flatMap_cons,hf,List.length_append,List.length_cons,List.length_cons]
    omega

/-- Every data frame is a result of its own. -/
theorem recvTexts_served (key : UInt32) (n : ℕ) : ∀ (frames : List Frame) (s : Chunks),
    (∀ f ∈ frames, Served f) → s.bytes = frames.flatMap encode →
      recvTexts key n s = ((frames.filter fun f => !f.opcode.control).map delivered).take n := by
  induction n with
  | zero => intro frames s _ _; simp [recvTexts]
  | succ n ih =>
    intro frames s hserved hs
    have hfuel : frames.length < s.bytes.length+1 := by
      rw [hs]
      exact Nat.lt_succ_of_le (length_le_flatMap_encode frames)
    have hloop := recvLoop_served key frames _ s hfuel hserved hs
    have hfilter : frames.filter (fun f => !f.opcode.control) =
        (frames.dropWhile fun f => f.opcode.control).filter fun f => !f.opcode.control := by
      conv_lhs => rw [← List.takeWhile_append_dropWhile (p := fun f : Frame => f.opcode.control)
        (l := frames)]
      rw [List.filter_append,List.append_left_eq_self,List.filter_eq_nil_iff]
      intro f hf
      simpa using List.mem_takeWhile_imp hf
    rw [hfilter]
    cases hdrop : frames.dropWhile fun f => f.opcode.control with
    | nil =>
      rw [hdrop] at hloop
      simp only [recvTexts,recvText,hloop]
      rfl
    | cons d rest =>
      rw [hdrop] at hloop
      obtain ⟨s',hd,hrest⟩ := hloop
      have hmem : ∀ f ∈ rest, f ∈ frames := fun f hf =>
        (List.dropWhile_sublist _).subset (hdrop ▸ List.mem_cons_of_mem _ hf)
      have hdata : d.opcode.control = false := by
        have hne : frames.dropWhile (fun f => f.opcode.control) ≠ [] := by
          rw [hdrop]
          exact List.cons_ne_nil _ _
        have hhead := List.head_dropWhile_not (fun f : Frame => f.opcode.control) hne
        simpa [hdrop] using hhead
      have htail := ih rest s' (fun f hf => hserved f (hmem f hf)) hrest
      simp only [recvTexts,recvText,hd,List.filter_cons,hdata,Bool.not_false,if_true,
        List.map_cons,List.take_succ_cons,htail]

/-- The results that the frames of one message give. -/
def Fragmented.results (m : Fragmented) : List (List UInt8) := m.first::m.rest.map fun _ => []

theorem delivered_continuations (ps : List (List UInt8)) :
    (continuations ps).map delivered = ps.map fun _ => [] := by
  induction ps with
  | nil => rfl
  | cons p ps ih => simp [continuations,ih,delivered]

theorem ServerStream.recvTexts_eq (st : ServerStream) (key : UInt32) {s : Chunks}
    (hs : s.bytes = st.frames.flatMap encode) (n : ℕ) :
    recvTexts key n s = (st.messages.flatMap Fragmented.results).take n := by
  have hresults : (Fragmented.frames · |>.map delivered) = Fragmented.results := by
    funext m
    simp [Fragmented.frames,Fragmented.results,delivered_continuations,delivered]
  rw [recvTexts_served key n st.frames s st.served hs,st.data,List.map_flatMap,hresults]

theorem length_results (ms : List Fragmented) : (ms.flatMap Fragmented.results).length =
    ms.length+(ms.map fun m => m.rest.length).sum := by
  induction ms with
  | nil => rfl
  | cons m ms ih =>
    simp only [List.flatMap_cons,List.length_append,ih,Fragmented.results,List.length_cons,
      List.length_map,List.map_cons,List.sum_cons]
    omega

/-- The results are the messages exactly when no message is cut. -/
theorem results_eq_iff (ms : List Fragmented) :
    ms.flatMap Fragmented.results = ms.map Fragmented.message ↔ ∀ m ∈ ms, m.rest = [] := by
  constructor
  · intro h m hm
    have hlen := congrArg List.length h
    rw [length_results,List.length_map] at hlen
    have hsum : (ms.map fun m => m.rest.length).sum = 0 := by omega
    have hzero := List.sum_eq_zero_iff.mp hsum m.rest.length (List.mem_map_of_mem hm)
    exact List.length_eq_zero_iff.mp hzero
  · intro h
    induction ms with
    | nil => rfl
    | cons m ms ih =>
      have hm := h m List.mem_cons_self
      have htail := ih fun m' hm' => h m' (List.mem_cons_of_mem _ hm')
      rw [List.flatMap_cons,htail]
      simp [Fragmented.results,Fragmented.message,hm]

/-- As long as `RecvText` succeeds, a request is paired with its result. -/
theorem roundTrips_eq (connect : Option Connection) (key : UInt32)
    (payloads : List (List UInt8)) : ∀ s : Chunks,
      (recvTexts key payloads.length s).length = payloads.length →
        roundTrips connect ⟨key,some s⟩ payloads =
          payloads.zip ((recvTexts key payloads.length s).map some) := by
  induction payloads with
  | nil => intro s _; rfl
  | cons payload payloads ih =>
    intro s hlen
    rw [List.length_cons] at hlen ⊢
    cases hrecv : (recvText key s).1 with
    | none => simp [recvTexts,hrecv] at hlen
    | some r =>
      simp only [recvTexts,hrecv,List.length_cons,Nat.add_right_cancel_iff] at hlen ⊢
      have htail := ih r.2 hlen
      simp only [roundTrips,roundTrip,Option.isSome_some,if_true,hrecv,Option.map_some,htail,
        List.map_cons,List.zip_cons_cons]

/-- The k-th success of `RecvText` returns the k-th message, there is no further one, and a
request gets its reply. -/
structure Paired (st : ServerStream) (key : UInt32) (s : Chunks) : Prop where
  recvText : ∀ n, recvTexts key n s = (st.messages.map Fragmented.message).take n
  roundTrip : ∀ (connect : Option Connection) (payloads : List (List UInt8)),
    payloads.length = st.messages.length → roundTrips connect ⟨key,some s⟩ payloads =
      payloads.zip ((st.messages.map Fragmented.message).map some)

/-- The bytes of the server, as they arrive. -/
structure Arrival (st : ServerStream) where
  chunks : Chunks
  bytes : chunks.bytes = st.frames.flatMap encode

/-- Replies are paired exactly when the server fragments no message. -/
theorem paired_iff (st : ServerStream) (key : UInt32) (a : Arrival st) :
    Paired st key a.chunks ↔ ∀ m ∈ st.messages, m.rest = [] := by
  have hrecv := st.recvTexts_eq key a.bytes
  constructor
  · intro h
    refine (results_eq_iff st.messages).mp ?_
    have hall := h.recvText ((st.messages.flatMap Fragmented.results).length+
      (st.messages.map Fragmented.message).length)
    rw [hrecv,List.take_of_length_le (Nat.le_add_right _ _),
      List.take_of_length_le (Nat.le_add_left _ _)] at hall
    exact hall
  · intro h
    have hresults := (results_eq_iff st.messages).mpr h
    rw [hresults] at hrecv
    refine ⟨hrecv,fun connect payloads hlen => ?_⟩
    have hall : recvTexts key payloads.length a.chunks =
        st.messages.map Fragmented.message := by
      rw [hrecv,List.take_of_length_le (by rw [List.length_map,hlen])]
    rw [roundTrips_eq connect key payloads a.chunks (by rw [hall,List.length_map,hlen]),hall]

/-- One reply in two frames. -/
def cutReply : ServerStream where
  messages := [⟨[104],[[105]]⟩]
  frames := [⟨false,.text,none,[104]⟩,⟨true,.continuation,none,[105]⟩]
  data := by decide
  control := by decide
  small := by decide

theorem cutReply_not_paired : ¬ ∀ (st : ServerStream) (key : UInt32) (a : Arrival st),
    Paired st key a.chunks := by
  intro h
  let a : Arrival cutReply := ⟨⟨[cutReply.frames.flatMap encode],by decide⟩,by decide⟩
  have hfirst := (h cutReply 0 a).recvText 1
  rw [cutReply.recvTexts_eq 0 a.bytes] at hfirst
  exact absurd hfirst (by decide)

end WsClient
end ETraceDiag
