import ETraceDiag.ByteStream
import Mathlib.Data.UInt

/-!
# WebSocket frames

The base framing of RFC 6455 without extensions: a header byte with the final-fragment bit and
the opcode, a length in its shortest form, an optional masking key and the payload. Control
frames are not fragmented and carry at most 125 bytes. A decoder accepts nothing else.
-/

namespace WebSocket

open ByteStream

inductive Opcode
  | continuation
  | text
  | binary
  | close
  | ping
  | pong
  deriving DecidableEq,Repr

def Opcode.code : Opcode → UInt8
  | .continuation => 0x0
  | .text => 0x1
  | .binary => 0x2
  | .close => 0x8
  | .ping => 0x9
  | .pong => 0xA

def Opcode.ofCode (c : UInt8) : Option Opcode :=
  if c = 0x0 then some .continuation
  else if c = 0x1 then some .text
  else if c = 0x2 then some .binary
  else if c = 0x8 then some .close
  else if c = 0x9 then some .ping
  else if c = 0xA then some .pong
  else none

def Opcode.control : Opcode → Bool
  | .continuation | .text | .binary => false
  | .close | .ping | .pong => true

structure MaskKey where
  b0 : UInt8
  b1 : UInt8
  b2 : UInt8
  b3 : UInt8
  deriving DecidableEq,Repr

def MaskKey.bytes (k : MaskKey) : List UInt8 := [k.b0,k.b1,k.b2,k.b3]

/-- The key byte for the payload byte at a position. -/
def MaskKey.byte (k : MaskKey) (i : ℕ) : UInt8 := k.bytes.getD (i%4) 0

def applyMask (k : MaskKey) (bs : List UInt8) : List UInt8 :=
  bs.mapIdx fun i b => b ^^^ k.byte i

@[simp] theorem applyMask_length (k : MaskKey) (bs : List UInt8) :
    (applyMask k bs).length = bs.length := by
  simp [applyMask]

@[simp] theorem applyMask_applyMask (k : MaskKey) (bs : List UInt8) :
    applyMask k (applyMask k bs) = bs := by
  apply List.ext_getElem
  · simp
  · intro i h1 h2
    simp only [applyMask,List.getElem_mapIdx]
    rw [UInt8.xor_assoc,UInt8.xor_self,UInt8.xor_zero]

structure Frame where
  fin : Bool
  opcode : Opcode
  mask : Option MaskKey
  payload : List UInt8
  deriving DecidableEq,Repr

/-- What the protocol allows. -/
structure Frame.Valid (f : Frame) : Prop where
  control : f.opcode.control = true → f.fin = true ∧ f.payload.length ≤ 125
  length : f.payload.length < 2^63

def finBit (fin : Bool) : UInt8 := if fin then 0x80 else 0

def maskBit (masked : Bool) : UInt8 := if masked then 0x80 else 0

def lengthBytes (masked : Bool) (n : ℕ) : List UInt8 :=
  if n < 126 then [maskBit masked ||| UInt8.ofNat n]
  else if n < 65536 then (maskBit masked ||| 126)::beBytes 2 n
  else (maskBit masked ||| 127)::beBytes 8 n

def maskedPayload : Option MaskKey → List UInt8 → List UInt8
  | none, payload => payload
  | some k, payload => k.bytes++applyMask k payload

def encode (f : Frame) : List UInt8 :=
  (finBit f.fin ||| f.opcode.code)::
    (lengthBytes f.mask.isSome f.payload.length++maskedPayload f.mask f.payload)

/-- The length behind its first seven bits; longer forms than needed are refused. -/
def decodeLength (short : UInt8) (bs : List UInt8) : Option (ℕ × List UInt8) :=
  if short = 126 then
    (splitExact 2 bs).bind fun r =>
      if 126 ≤ beValue r.1 then some (beValue r.1,r.2) else none
  else if short = 127 then
    (splitExact 8 bs).bind fun r =>
      if 65536 ≤ beValue r.1 ∧ beValue r.1 < 2^63 then some (beValue r.1,r.2) else none
  else some (short.toNat,bs)

/-- The payload behind the length. -/
def decodePayload (masked : Bool) (n : ℕ) (bs : List UInt8) :
    Option (Option MaskKey × List UInt8 × List UInt8) :=
  match masked,bs with
  | false,bs => (splitExact n bs).map fun r => (none,r.1,r.2)
  | true,b0::b1::b2::b3::bs =>
    (splitExact n bs).map fun r => (some ⟨b0,b1,b2,b3⟩,applyMask ⟨b0,b1,b2,b3⟩ r.1,r.2)
  | true,_ => none

/-- The first frame of a stream and what follows it. -/
def decode : List UInt8 → Option (Frame × List UInt8)
  | b0::b1::bs =>
    if b0 &&& 0x70 ≠ 0 then none
    else (Opcode.ofCode (b0 &&& 0x0F)).bind fun opcode =>
      (decodeLength (b1 &&& 0x7F) bs).bind fun len =>
        if opcode.control ∧ ¬ (b0 &&& 0x80 ≠ 0 ∧ len.1 ≤ 125) then none
        else (decodePayload (b1 &&& 0x80 ≠ 0) len.1 len.2).map fun r =>
          (⟨b0 &&& 0x80 ≠ 0,opcode,r.1,r.2.1⟩,r.2.2)
  | _ => none

def decodeAll : ℕ → List UInt8 → Option (List Frame)
  | _, [] => some []
  | 0, _::_ => none
  | fuel+1, b::bs =>
    (decode (b::bs)).bind fun r => (decodeAll fuel r.2).map fun fs => r.1::fs

/-- A stream as the frames it consists of; every frame takes at least two bytes. -/
def parse (bs : List UInt8) : Option (List Frame) := decodeAll bs.length bs

/-! ## Decoding what was encoded -/

theorem first_byte (fin : Bool) (opcode : Opcode) :
    (finBit fin ||| opcode.code) &&& 0x70 = 0 ∧
      Opcode.ofCode ((finBit fin ||| opcode.code) &&& 0x0F) = some opcode ∧
      decide ((finBit fin ||| opcode.code) &&& 0x80 ≠ 0) = fin := by
  cases fin <;> cases opcode <;> decide

theorem short_length (masked : Bool) {n : ℕ} (h : n < 128) :
    (maskBit masked ||| UInt8.ofNat n) &&& 0x7F = UInt8.ofNat n ∧
      decide ((maskBit masked ||| UInt8.ofNat n) &&& 0x80 ≠ 0) = masked := by
  have hall : ∀ n < 128, (maskBit masked ||| UInt8.ofNat n) &&& 0x7F = UInt8.ofNat n ∧
      decide ((maskBit masked ||| UInt8.ofNat n) &&& 0x80 ≠ 0) = masked := by
    cases masked <;> decide +kernel
  exact hall n h

/-- The second byte of a frame, then the bytes that extend its length. -/
theorem lengthBytes_spec (masked : Bool) {n : ℕ} (h : n < 2^63) (rest : List UInt8) :
    ∃ b bs, lengthBytes masked n = b::bs ∧ decide (b &&& 0x80 ≠ 0) = masked ∧
      decodeLength (b &&& 0x7F) (bs++rest) = some (n,rest) := by
  by_cases hshort : n < 126
  · obtain ⟨hlen,hmask⟩ := short_length masked (by omega : n < 128)
    refine ⟨_,[],by rw [lengthBytes,if_pos hshort],hmask,?_⟩
    have hn : (UInt8.ofNat n).toNat = n := UInt8.toNat_ofNat_of_lt' (by
      change n < 256
      omega)
    have h126 : UInt8.ofNat n ≠ 126 := fun heq => by
      rw [heq] at hn
      exact absurd hn (by simp; omega)
    have h127 : UInt8.ofNat n ≠ 127 := fun heq => by
      rw [heq] at hn
      exact absurd hn (by simp; omega)
    rw [hlen,decodeLength,if_neg h126,if_neg h127,hn]
    rfl
  · by_cases hmedium : n < 65536
    · have hcode : (maskBit masked ||| 126) &&& 0x7F = 126 :=
        (short_length masked (by decide : 126 < 128)).1
      have hmask : decide ((maskBit masked ||| 126) &&& 0x80 ≠ 0) = masked :=
        (short_length masked (by decide : 126 < 128)).2
      refine ⟨maskBit masked ||| 126,beBytes 2 n,?_,hmask,?_⟩
      · rw [lengthBytes,if_neg hshort,if_pos hmedium]
      have hval : beValue (beBytes 2 n) = n := beValue_beBytes (by omega)
      have hle : 126 ≤ n := by omega
      rw [hcode,decodeLength,if_pos rfl,splitExact_beBytes,Option.bind_some,hval,if_pos hle]
    · have hcode : (maskBit masked ||| 127) &&& 0x7F = 127 :=
        (short_length masked (by decide : 127 < 128)).1
      have hmask : decide ((maskBit masked ||| 127) &&& 0x80 ≠ 0) = masked :=
        (short_length masked (by decide : 127 < 128)).2
      refine ⟨maskBit masked ||| 127,beBytes 8 n,?_,hmask,?_⟩
      · rw [lengthBytes,if_neg hshort,if_neg hmedium]
      have hval : beValue (beBytes 8 n) = n := beValue_beBytes (by omega)
      have hle : 65536 ≤ n ∧ n < 2^63 := ⟨by omega,h⟩
      rw [hcode,decodeLength,if_neg (by decide),if_pos rfl,splitExact_beBytes,
        Option.bind_some,hval,if_pos hle]

theorem decodePayload_maskedPayload (mask : Option MaskKey) (payload rest : List UInt8) :
    decodePayload mask.isSome payload.length (maskedPayload mask payload++rest) =
      some (mask,payload,rest) := by
  cases mask with
  | none =>
    simp only [maskedPayload,Option.isSome_none,decodePayload,splitExact_append,Option.map_some]
  | some k =>
    have hsplit : splitExact payload.length (applyMask k payload++rest) =
        some (applyMask k payload,rest) := by
      have h := splitExact_append (applyMask k payload) rest
      rwa [applyMask_length] at h
    simp only [maskedPayload,MaskKey.bytes,Option.isSome_some,List.cons_append,List.nil_append,
      decodePayload,hsplit,Option.map_some,applyMask_applyMask]

/-- A valid frame comes back, and the bytes behind it are untouched. -/
theorem decode_encode_append {f : Frame} (h : f.Valid) (rest : List UInt8) :
    decode (encode f++rest) = some (f,rest) := by
  obtain ⟨hreserved,hopcode,hfin⟩ := first_byte f.fin f.opcode
  obtain ⟨b,bs,hlength,hmasked,hdecoded⟩ := lengthBytes_spec f.mask.isSome h.length
    (maskedPayload f.mask f.payload++rest)
  have hcontrol : ¬ (f.opcode.control = true ∧
      ¬ ((finBit f.fin ||| f.opcode.code) &&& 0x80 ≠ 0 ∧ f.payload.length ≤ 125)) := by
    rintro ⟨hc,hbad⟩
    obtain ⟨hf,hlen⟩ := h.control hc
    rw [hf,decide_eq_true_iff] at hfin
    rw [hf] at hbad
    exact hbad ⟨hfin,hlen⟩
  simp only [encode,hlength,List.cons_append,List.append_assoc,decode,hreserved,hopcode,
    hdecoded,ne_eq,not_true_eq_false,if_false,Option.bind_some]
  rw [if_neg hcontrol,hmasked,decodePayload_maskedPayload,Option.map_some,hfin]

theorem encode_cons (f : Frame) : ∃ b bs, encode f = b::bs := ⟨_,_,rfl⟩

/-- A stream of valid frames parses as these frames. -/
theorem decodeAll_flatMap (fs : List Frame) : ∀ fuel, (fs.flatMap encode).length ≤ fuel →
    (∀ f ∈ fs, f.Valid) → decodeAll fuel (fs.flatMap encode) = some fs := by
  induction fs with
  | nil => intro fuel _ _; cases fuel <;> rfl
  | cons f fs ih =>
    intro fuel hfuel hvalid
    obtain ⟨b,bs,hcons⟩ := encode_cons f
    have hdecode := decode_encode_append (hvalid f List.mem_cons_self) (fs.flatMap encode)
    rw [List.flatMap_cons,hcons,List.cons_append] at hfuel ⊢
    rw [hcons,List.cons_append] at hdecode
    obtain ⟨fuel,rfl⟩ : ∃ k, fuel = k+1 := ⟨fuel-1,by simp at hfuel; omega⟩
    have htail := ih fuel (by simp at hfuel; simp; omega)
      fun g hg => hvalid g (List.mem_cons_of_mem _ hg)
    rw [decodeAll,hdecode,Option.bind_some,htail,Option.map_some]

theorem parse_flatMap {fs : List Frame} (h : ∀ f ∈ fs, f.Valid) :
    parse (fs.flatMap encode) = some fs :=
  decodeAll_flatMap fs _ le_rfl h

/-! ## What is accepted -/

theorem decodePayload_length {masked : Bool} {n : ℕ} {bs : List UInt8}
    {r : Option MaskKey × List UInt8 × List UInt8} (h : decodePayload masked n bs = some r) :
    r.2.1.length = n := by
  unfold decodePayload at h
  split at h
  · obtain ⟨t,ht,rfl⟩ := Option.map_eq_some_iff.mp h
    exact splitExact_length ht
  · obtain ⟨t,ht,rfl⟩ := Option.map_eq_some_iff.mp h
    exact (applyMask_length _ _).trans (splitExact_length ht)
  · cases h

/-- No control frame of more than 125 bytes is accepted. -/
theorem decode_control {bs rest : List UInt8} {f : Frame} (h : decode bs = some (f,rest))
    (hc : f.opcode.control = true) : f.payload.length ≤ 125 := by
  match bs,h with
  | b0::b1::bs,h =>
    simp only [decode] at h
    split at h
    · cases h
    · obtain ⟨opcode,_,h⟩ := Option.bind_eq_some_iff.mp h
      obtain ⟨len,_,h⟩ := Option.bind_eq_some_iff.mp h
      split at h
      · cases h
      · rename_i hbad
        obtain ⟨r,hr,heq⟩ := Option.map_eq_some_iff.mp h
        cases heq
        have hlen : r.2.1.length = len.1 := decodePayload_length hr
        have hok : b0 &&& 0x80 ≠ 0 ∧ len.1 ≤ 125 := by
          by_contra hno
          exact hbad ⟨hc,hno⟩
        exact hlen ▸ hok.2

theorem decodeAll_control (fuel : ℕ) : ∀ {bs : List UInt8} {fs : List Frame},
    decodeAll fuel bs = some fs → ∀ f ∈ fs, f.opcode.control = true → f.payload.length ≤ 125 := by
  induction fuel with
  | zero =>
    intro bs fs h f hf
    cases bs with
    | nil => cases h; cases hf
    | cons b bs => cases h
  | succ fuel ih =>
    intro bs fs h f hf hc
    cases bs with
    | nil => cases h; cases hf
    | cons b bs =>
      obtain ⟨r,hr,h⟩ := Option.bind_eq_some_iff.mp h
      obtain ⟨gs,hgs,rfl⟩ := Option.map_eq_some_iff.mp h
      rcases List.mem_cons.mp hf with rfl | hf
      · exact decode_control hr hc
      · exact ih hgs f hf hc

theorem parse_control {bs : List UInt8} {fs : List Frame} (h : parse bs = some fs) :
    ∀ f ∈ fs, f.opcode.control = true → f.payload.length ≤ 125 :=
  decodeAll_control _ h

end WebSocket
