import Mathlib.Algebra.Ring.Nat
import Mathlib.Data.List.Basic

/-!
# Base64

Three bytes are four digits of six bits each. A last group of one or two bytes has two or three
digits, and padding in place of the others.
-/

namespace Base64

/-- The character of a digit. -/
def digit (v : ℕ) : UInt8 :=
  if v < 26 then UInt8.ofNat (65+v)
  else if v < 52 then UInt8.ofNat (71+v)
  else if v < 62 then UInt8.ofNat (v-4)
  else if v = 62 then 43
  else 47

/-- The padding `=`. -/
def pad : UInt8 := 61

def value (c : UInt8) : Option ℕ :=
  let n := c.toNat
  if 65 ≤ n ∧ n ≤ 90 then some (n-65)
  else if 97 ≤ n ∧ n ≤ 122 then some (n-71)
  else if 48 ≤ n ∧ n ≤ 57 then some (n+4)
  else if n = 43 then some 62
  else if n = 47 then some 63
  else none

/-- The digit of weight `64^k`. -/
def digitAt (n k : ℕ) : UInt8 := digit (n/64^k%64)

def encode : List UInt8 → List UInt8
  | [] => []
  | [a] =>
    let n := a.toNat*65536
    [digitAt n 3,digitAt n 2,pad,pad]
  | [a,b] =>
    let n := a.toNat*65536+b.toNat*256
    [digitAt n 3,digitAt n 2,digitAt n 1,pad]
  | a::b::c::bs =>
    let n := a.toNat*65536+b.toNat*256+c.toNat
    digitAt n 3::digitAt n 2::digitAt n 1::digitAt n 0::encode bs

/-- The byte of weight `256^k`. -/
def byteAt (n k : ℕ) : UInt8 := UInt8.ofNat (n/256^k%256)

/-- The bytes of a group, the last one if `last`. -/
def decodeGroup (last : Bool) (p q r s : UInt8) : Option (List UInt8) :=
  (value p).bind fun w => (value q).bind fun x =>
    if last ∧ r = pad ∧ s = pad then some [byteAt (w*262144+x*4096) 2]
    else (value r).bind fun y =>
      if last ∧ s = pad then
        let n := w*262144+x*4096+y*64
        some [byteAt n 2,byteAt n 1]
      else (value s).map fun z =>
        let n := w*262144+x*4096+y*64+z
        [byteAt n 2,byteAt n 1,byteAt n 0]

def decode : List UInt8 → Option (List UInt8)
  | [] => some []
  | p::q::r::s::cs =>
    (decodeGroup cs.isEmpty p q r s).bind fun g => (decode cs).map (g++·)
  | _ => none

theorem value_digit {v : ℕ} (h : v < 64) : value (digit v) = some v := by
  have hall : ∀ v < 64, value (digit v) = some v := by decide
  exact hall v h

theorem digit_ne_pad {v : ℕ} (h : v < 64) : digit v ≠ pad := by
  have hall : ∀ v < 64, digit v ≠ pad := by decide
  exact hall v h

@[simp] theorem value_digitAt (n k : ℕ) : value (digitAt n k) = some (n/64^k%64) :=
  value_digit (Nat.mod_lt _ (by decide))

@[simp] theorem digitAt_ne_pad (n k : ℕ) : digitAt n k ≠ pad :=
  digit_ne_pad (Nat.mod_lt _ (by decide))

theorem byteAt_eq {n k : ℕ} {b : UInt8} (h : n/256^k%256 = b.toNat) : byteAt n k = b := by
  rw [byteAt,h,UInt8.ofNat_toNat]

/-- The digits of a number below `64^4` add up to it. -/
theorem sum_digits {n : ℕ} (h : n < 16777216) :
    n/64^3%64*262144+n/64^2%64*4096+n/64^1%64*64+n/64^0%64 = n := by
  omega

theorem decodeGroup_one (a : UInt8) :
    decodeGroup true (digitAt (a.toNat*65536) 3) (digitAt (a.toNat*65536) 2) pad pad =
      some [a] := by
  have ha := a.toNat_lt
  have hbyte : byteAt (a.toNat*65536/64^3%64*262144+a.toNat*65536/64^2%64*4096) 2 = a :=
    byteAt_eq (by omega)
  simp only [decodeGroup,value_digitAt,Option.bind_some,and_self,if_true,hbyte]

theorem decodeGroup_two (a b : UInt8) :
    let n := a.toNat*65536+b.toNat*256
    decodeGroup true (digitAt n 3) (digitAt n 2) (digitAt n 1) pad = some [a,b] := by
  intro n
  have ha := a.toNat_lt
  have hb := b.toNat_lt
  have hsum : n/64^3%64*262144+n/64^2%64*4096+n/64^1%64*64 = n := by omega
  have ha' : byteAt n 2 = a := byteAt_eq (by omega)
  have hb' : byteAt n 1 = b := byteAt_eq (by omega)
  simp only [decodeGroup,value_digitAt,Option.bind_some,digitAt_ne_pad,false_and,and_false,
    if_false,and_self,if_true,hsum,ha',hb']

theorem decodeGroup_three (last : Bool) (a b c : UInt8) :
    let n := a.toNat*65536+b.toNat*256+c.toNat
    decodeGroup last (digitAt n 3) (digitAt n 2) (digitAt n 1) (digitAt n 0) =
      some [a,b,c] := by
  intro n
  have ha := a.toNat_lt
  have hb := b.toNat_lt
  have hc := c.toNat_lt
  have ha' : byteAt n 2 = a := byteAt_eq (by omega)
  have hb' : byteAt n 1 = b := byteAt_eq (by omega)
  have hc' : byteAt n 0 = c := byteAt_eq (by omega)
  simp only [decodeGroup,value_digitAt,Option.bind_some,Option.map_some,digitAt_ne_pad,
    and_false,if_false,sum_digits (n := n) (by omega),ha',hb',hc']

theorem decode_encode (bs : List UInt8) : decode (encode bs) = some bs := by
  induction bs using encode.induct with
  | case1 => rfl
  | case2 a => simp [encode,decode,decodeGroup_one]
  | case3 a b => simp [encode,decode,decodeGroup_two]
  | case4 a b c bs ih => simp [encode,decode,decodeGroup_three,ih]

/-- No character of the text stands before `+` in the alphabet. -/
theorem le_of_mem_encode (bs : List UInt8) : ∀ c ∈ encode bs, 43 ≤ c.toNat := by
  have hdigit (n k : ℕ) : 43 ≤ (digitAt n k).toNat := by
    have hall : ∀ v < 64, 43 ≤ (digit v).toNat := by decide
    exact hall _ (Nat.mod_lt _ (by decide))
  have hpad : 43 ≤ pad.toNat := by decide
  induction bs using encode.induct with
  | case1 => simp [encode]
  | case2 a => simp [encode,hdigit,hpad]
  | case3 a b => simp [encode,hdigit,hpad]
  | case4 a b c bs ih => simpa [encode,hdigit] using ih

end Base64
