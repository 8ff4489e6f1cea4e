import Mathlib.Data.Nat.Digits.Defs
import Mathlib.Data.List.Forall2
import Mathlib.Data.List.TakeWhile

/-!
# Printing and scanning lines of fields

A line is a tag byte and its fields, each behind one blank. Numbers are printed in decimal;
scanning follows `sscanf` in the C locale: a conversion skips white space, a number may carry
a sign and saturates like `strtoul`, and the scan stops at the first conversion that fails.
The last section is about readers that cut a chunked text into lines.
-/

namespace TextScan

def isSpace (c : UInt8) : Bool := c = 32 || (9 ≤ c && c ≤ 13)

def isDigit (c : UInt8) : Bool := 48 ≤ c && c ≤ 57

def digitsVal (cs : List UInt8) : ℕ := cs.foldl (fun a c => 10*a+(c.toNat-48)) 0

def decimal (n : ℕ) : List UInt8 :=
  if n = 0 then [48] else ((Nat.digits 10 n).map fun d => UInt8.ofNat (48+d)).reverse

/-- The conversions `%hhu`, `%u`, `%llu` and `%<width>s`. -/
inductive Conv
  | hhu
  | u
  | llu
  | s (width : ℕ)
  deriving DecidableEq,Repr

inductive Value
  | num (n : ℕ)
  | str (cs : List UInt8)
  deriving DecidableEq,Repr

def Conv.bits : Conv → ℕ
  | .hhu => 8
  | .u => 32
  | _ => 64

def Value.render : Value → List UInt8
  | .num n => decimal n
  | .str cs => cs

/-- `printf` of a tag and blank-separated fields. -/
def printFields (tag : UInt8) (vs : List Value) : List UInt8 :=
  tag :: vs.flatMap fun v => 32 :: v.render

def skipSpace (cs : List UInt8) : List UInt8 := cs.dropWhile isSpace

def sign : List UInt8 → Bool × List UInt8
  | [] => (false,[])
  | c::cs => if c = 45 then (true,cs) else if c = 43 then (false,cs) else (false,c::cs)

/-- Out-of-range input saturates; a minus sign negates in 64 bits. -/
def strtoul (neg : Bool) (v : ℕ) : ℕ :=
  if 2^64 ≤ v then 2^64-1 else if neg then (2^64-v) % 2^64 else v

def scanNumber (cs : List UInt8) : Option (ℕ × List UInt8) :=
  let r := sign cs
  if r.2.takeWhile isDigit = [] then none
  else some (strtoul r.1 (digitsVal (r.2.takeWhile isDigit)),r.2.dropWhile isDigit)

def scanToken (width : ℕ) (cs : List UInt8) : Option (List UInt8 × List UInt8) :=
  let tok := (cs.takeWhile fun c => !isSpace c).take width
  if tok = [] then none else some (tok,cs.drop tok.length)

def Conv.scan (v : Conv) (cs : List UInt8) : Option (Value × List UInt8) :=
  match v with
  | .s width => (scanToken width (skipSpace cs)).map fun r => (.str r.1,r.2)
  | v => (scanNumber (skipSpace cs)).map fun r => (.num (r.1 % 2^v.bits),r.2)

/-- The conversions of a scan format, with the blank before each of them. -/
def scanFields : List Conv → List UInt8 → List Value
  | [], _ => []
  | v::vs, cs =>
    match v.scan (skipSpace cs) with
    | none => []
    | some r => r.1 :: scanFields vs r.2

/-- `sscanf` with a literal tag in front of the conversions: the values it converts. -/
def sscanf (tag : UInt8) (vs : List Conv) : List UInt8 → List Value
  | [] => []
  | c::cs => if c = tag then scanFields vs cs else []

/-- A value the conversion can deliver. -/
def Conv.Fits (v : Conv) (x : Value) : Prop :=
  match v,x with
  | .s width,.str cs => cs ≠ [] ∧ cs.length ≤ width ∧ ∀ c ∈ cs, isSpace c = false
  | .s _,.num _ => False
  | _,.str _ => False
  | v,.num n => n < 2^v.bits

/-! ## Decimal numbers -/

theorem digit_toNat {d : ℕ} (h : d < 10) : (UInt8.ofNat (48+d)).toNat = 48+d := by
  simp only [UInt8.toNat_ofNat']
  omega

theorem isDigit_digit {d : ℕ} (h : d < 10) : isDigit (UInt8.ofNat (48+d)) = true := by
  have hd := digit_toNat h
  simp only [isDigit,Bool.and_eq_true,decide_eq_true_eq,UInt8.le_iff_toNat_le,hd]
  constructor
  · exact Nat.le_add_right 48 d
  · change 48+d ≤ 57
    omega

theorem not_isSpace_of_isDigit {c : UInt8} (h : isDigit c = true) : isSpace c = false := by
  simp only [isDigit,Bool.and_eq_true,decide_eq_true_eq,UInt8.le_iff_toNat_le] at h
  have h48 : 48 ≤ c.toNat := h.1
  simp only [isSpace,Bool.or_eq_false_iff,decide_eq_false_iff_not,Bool.and_eq_false_iff,
    UInt8.le_iff_toNat_le]
  refine ⟨?_,Or.inr ?_⟩
  · rintro rfl
    exact absurd h48 (by decide)
  · change ¬ c.toNat ≤ 13
    omega

theorem decimal_digits (n : ℕ) : ∀ c ∈ decimal n, isDigit c = true := by
  intro c hc
  by_cases hn : n = 0
  · simp only [decimal,hn,if_true,List.mem_singleton] at hc
    rw [hc]
    decide
  · simp only [decimal,hn,if_false,List.mem_reverse,List.mem_map] at hc
    obtain ⟨d,hd,rfl⟩ := hc
    exact isDigit_digit (Nat.digits_lt_base (by decide) hd)

theorem decimal_ne_nil (n : ℕ) : decimal n ≠ [] := by
  by_cases hn : n = 0
  · simp [decimal,hn]
  · simp [decimal,hn,Nat.digits_ne_nil_iff_ne_zero]

theorem digitsVal_decimal (n : ℕ) : digitsVal (decimal n) = n := by
  by_cases hn : n = 0
  · simp [decimal,digitsVal,hn]
  · have hfold : ∀ ds : List ℕ, (∀ d ∈ ds, d < 10) →
        digitsVal (ds.map fun d => UInt8.ofNat (48+d)).reverse = Nat.ofDigits 10 ds := by
      intro ds hds
      induction ds with
      | nil => rfl
      | cons d ds ih =>
        have hd := digit_toNat (hds d (by simp))
        have ht := ih fun x hx => hds x (by simp [hx])
        simp only [digitsVal] at ht ⊢
        rw [List.map_cons,List.reverse_cons,List.foldl_append,ht,Nat.ofDigits_cons]
        simp only [List.foldl_cons,List.foldl_nil,hd]
        omega
    have h := hfold (Nat.digits 10 n) fun d hd => Nat.digits_lt_base (by decide) hd
    rw [decimal,if_neg hn,h,Nat.ofDigits_digits]

/-! ## One field -/

theorem skipSpace_of_head {c : UInt8} (cs : List UInt8) (h : isSpace c = false) :
    skipSpace (c::cs) = c::cs := by
  simp [skipSpace,h]

theorem skipSpace_decimal (n : ℕ) (rest : List UInt8) :
    skipSpace (decimal n++rest) = decimal n++rest := by
  cases hd : decimal n with
  | nil => exact absurd hd (decimal_ne_nil n)
  | cons c cs =>
    have hc : isDigit c = true := decimal_digits n c (by simp [hd])
    exact skipSpace_of_head (cs++rest) (not_isSpace_of_isDigit hc)

theorem sign_decimal (n : ℕ) (rest : List UInt8) :
    sign (decimal n++rest) = (false,decimal n++rest) := by
  cases hd : decimal n with
  | nil => exact absurd hd (decimal_ne_nil n)
  | cons c cs =>
    have hc : isDigit c = true := decimal_digits n c (by simp [hd])
    have h45 : c ≠ 45 := by rintro rfl; exact absurd hc (by decide)
    have h43 : c ≠ 43 := by rintro rfl; exact absurd hc (by decide)
    simp [sign,h45,h43]

/-- What may follow a field: nothing, or white space. -/
def Ends (rest : List UInt8) : Prop := ∀ c ∈ rest.head?, isSpace c = true

theorem takeWhile_decimal (n : ℕ) {rest : List UInt8} (hr : Ends rest) :
    (decimal n++rest).takeWhile isDigit = decimal n := by
  rw [List.takeWhile_append_of_pos (decimal_digits n)]
  cases rest with
  | nil => simp
  | cons c rest =>
    have hc : isDigit c = false := by
      by_contra hd
      have hs := not_isSpace_of_isDigit (by simpa using hd)
      exact absurd (hr c rfl) (by simp [hs])
    simp [hc]

theorem scanNumber_decimal (n : ℕ) (hn : n < 2^64) {rest : List UInt8} (hr : Ends rest) :
    scanNumber (decimal n++rest) = some (n,rest) := by
  have hall := decimal_digits n
  have hdrop : (decimal n++rest).dropWhile isDigit = rest := by
    rw [List.dropWhile_append_of_pos hall]
    cases rest with
    | nil => rfl
    | cons c rest =>
      have hc : isDigit c = false := by
        by_contra hd
        have hs := not_isSpace_of_isDigit (by simpa using hd)
        exact absurd (hr c rfl) (by simp [hs])
      simp [hc]
  simp only [scanNumber,sign_decimal,takeWhile_decimal n hr,hdrop,decimal_ne_nil,if_false,
    digitsVal_decimal,strtoul,Bool.false_eq_true]
  rw [if_neg (by omega)]

theorem scanToken_self {width : ℕ} {cs rest : List UInt8} (hne : cs ≠ []) (hw : cs.length ≤ width)
    (hs : ∀ c ∈ cs, isSpace c = false) (hr : Ends rest) :
    scanToken width (cs++rest) = some (cs,rest) := by
  have htake : (cs++rest).takeWhile (fun c => !isSpace c) = cs := by
    rw [List.takeWhile_append_of_pos (by simpa using hs)]
    cases rest with
    | nil => simp
    | cons c rest => simp [hr c rfl]
  simp [scanToken,htake,List.take_of_length_le hw,hne]

theorem skipSpace_field {v : Conv} {x : Value} (h : v.Fits x) (rest : List UInt8) :
    skipSpace (x.render++rest) = x.render++rest := by
  cases x with
  | num n => exact skipSpace_decimal n rest
  | str cs =>
    cases v with
    | s width =>
      obtain ⟨hne,_,hs⟩ := h
      cases cs with
      | nil => exact absurd rfl hne
      | cons c cs => simp [Value.render,skipSpace_of_head _ (hs c (by simp))]
    | _ => exact absurd h (by simp [Conv.Fits])

theorem scan_render {v : Conv} {x : Value} (h : v.Fits x) {rest : List UInt8} (hr : Ends rest) :
    v.scan (x.render++rest) = some (x,rest) := by
  have hskip := skipSpace_field h rest
  have hnum : ∀ n, n < 2^v.bits → n < 2^64 := by
    intro n hn
    refine lt_of_lt_of_le hn (Nat.pow_le_pow_right (by decide) ?_)
    cases v <;> simp [Conv.bits]
  cases x with
  | num n =>
    cases v with
    | s width => exact absurd h (by simp [Conv.Fits])
    | _ =>
      have hn : n < 2^_ := h
      have hscan := scanNumber_decimal n (hnum n hn) hr
      simp only [Value.render] at hskip ⊢
      simp only [Conv.scan,hskip,hscan,Option.map_some,Nat.mod_eq_of_lt hn]
  | str cs =>
    cases v with
    | s width =>
      obtain ⟨hne,hw,hs⟩ := h
      simp only [Value.render] at hskip ⊢
      simp only [Conv.scan,hskip,scanToken_self hne hw hs hr,Option.map_some]
    | _ => exact absurd h (by simp [Conv.Fits])

/-- A conversion only ever delivers values that fit it. -/
theorem scan_fits {v : Conv} {cs : List UInt8} {r : Value × List UInt8} (h : v.scan cs = some r) :
    v.Fits r.1 := by
  cases v with
  | s width =>
    simp only [Conv.scan,scanToken,Option.map_eq_some_iff] at h
    obtain ⟨t,ht,rfl⟩ := h
    by_cases hnil : ((skipSpace cs).takeWhile fun c => !isSpace c).take width = []
    · simp [hnil] at ht
    · simp only [hnil,if_false,Option.some.injEq] at ht
      subst ht
      refine ⟨hnil,by simp,?_⟩
      intro c hc
      have hm := List.mem_takeWhile_imp (List.mem_of_mem_take hc)
      simpa using hm
  | _ =>
    simp only [Conv.scan,Option.map_eq_some_iff] at h
    obtain ⟨t,_,rfl⟩ := h
    exact Nat.mod_lt _ (by decide)

/-! ## Lines -/

theorem scanFields_render {vs : List Conv} {xs : List Value} (h : List.Forall₂ Conv.Fits vs xs) :
    scanFields vs (xs.flatMap fun x => 32 :: x.render) = xs := by
  induction h with
  | nil => rfl
  | @cons v x vs xs hv hvs ih =>
    have hends : Ends (xs.flatMap fun x => 32 :: x.render) := by
      cases xs with
      | nil => simp [Ends]
      | cons y ys => simp [Ends,isSpace]
    have hskip : skipSpace (32 :: (x.render++xs.flatMap fun x => 32 :: x.render)) =
        x.render++xs.flatMap fun x => 32 :: x.render := by
      have h32 : isSpace 32 = true := by decide
      have hs := skipSpace_field hv (xs.flatMap fun x => 32 :: x.render)
      simpa [skipSpace,h32] using hs
    simp only [List.flatMap_cons,List.cons_append,scanFields,hskip,scan_render hv hends,ih]

/-- Scanning a printed line gives its fields back. -/
theorem sscanf_printFields (tag : UInt8) {vs : List Conv} {xs : List Value}
    (h : List.Forall₂ Conv.Fits vs xs) : sscanf tag vs (printFields tag xs) = xs := by
  simp only [sscanf,printFields,if_true,scanFields_render h]

theorem scanFields_fits (vs : List Conv) : ∀ cs : List UInt8,
    ∀ p ∈ vs.zip (scanFields vs cs), p.1.Fits p.2 := by
  induction vs with
  | nil => intro cs p hp; simp at hp
  | cons v vs ih =>
    intro cs p hp
    cases hs : v.scan (skipSpace cs) with
    | none => simp [scanFields,hs] at hp
    | some r =>
      simp only [scanFields,hs,List.zip_cons_cons,List.mem_cons] at hp
      rcases hp with rfl | hp
      · exact scan_fits hs
      · exact ih _ p hp

theorem sscanf_fits {tag : UInt8} {vs : List Conv} {cs : List UInt8} {xs : List Value}
    (h : sscanf tag vs cs = xs) : ∀ p ∈ vs.zip xs, p.1.Fits p.2 := by
  subst h
  cases cs with
  | nil => simp [sscanf]
  | cons c cs =>
    by_cases hc : c = tag
    · simpa [sscanf,hc] using scanFields_fits vs cs
    · simp [sscanf,hc]

/-- A printed line holds a byte only if its tag or one of its fields does. -/
theorem mem_printFields {tag b : UInt8} {xs : List Value} (h : b ∈ printFields tag xs) :
    b = tag ∨ b = 32 ∨ ∃ x ∈ xs, b ∈ x.render := by
  simp only [printFields,List.mem_cons,List.mem_flatMap] at h
  rcases h with h | ⟨x,hx,h | h⟩
  · exact Or.inl h
  · exact Or.inr (Or.inl h)
  · exact Or.inr (Or.inr ⟨x,hx,h⟩)

/-! ## Chunked line reading -/

section LineReader

variable {σ : Type*} (line : List UInt8 → σ → σ)

/-- Take complete lines off the front of the buffer; the first argument bounds their number. -/
def lineLoop : ℕ → List UInt8 → σ → List UInt8 × σ
  | 0, leftover, st => (leftover,st)
  | fuel+1, leftover, st =>
    match leftover.findIdx? (· = 10) with
    | none => (leftover,st)
    | some pos => lineLoop fuel (leftover.drop (pos+1)) (line (leftover.take pos) st)

/-- All complete lines of the buffer. -/
def takeLines (leftover : List UInt8) (st : σ) : List UInt8 × σ :=
  lineLoop line leftover.length leftover st

theorem split_at_newline {text : List UInt8} {pos : ℕ} (h : text.findIdx? (· = 10) = some pos) :
    text = text.take pos++10::text.drop (pos+1) ∧ 10 ∉ text.take pos := by
  rw [List.findIdx?_eq_some_iff_getElem] at h
  obtain ⟨hlt,hat,hbefore⟩ := h
  constructor
  · have hat' : text[pos] = 10 := by simpa using hat
    rw [← hat',← List.drop_eq_getElem_cons hlt,List.take_append_drop]
  · intro hmem
    obtain ⟨i,hi,heq⟩ := List.mem_take_iff_getElem.mp hmem
    have hb := hbefore i (by omega)
    simp [heq] at hb

theorem findIdx?_newline {l rest : List UInt8} (h : 10 ∉ l) :
    (l++10::rest).findIdx? (· = 10) = some l.length := by
  rw [List.findIdx?_append]
  have hl : l.findIdx? (· = 10) = none := by
    rw [List.findIdx?_eq_none_iff]
    intro x hx
    have hne : x ≠ 10 := fun heq => h (heq ▸ hx)
    simpa using hne
  simp [hl,List.findIdx?_cons]

theorem lineLoop_line {l rest : List UInt8} (h : 10 ∉ l) (fuel : ℕ) (st : σ) :
    lineLoop line (fuel+1) (l++10::rest) st = lineLoop line fuel rest (line l st) := by
  have hdrop : (l++10::rest).drop (l.length+1) = rest := by
    rw [List.drop_length_add_append]
    rfl
  simp only [lineLoop,findIdx?_newline h,hdrop,List.take_left']

/-- Fuel for the length of the buffer is enough. -/
theorem lineLoop_eq_takeLines (fuel : ℕ) : ∀ (text : List UInt8) (st : σ), text.length ≤ fuel →
    lineLoop line fuel text st = takeLines line text st := by
  have key : ∀ (n fuel : ℕ) (text : List UInt8) (st : σ), text.length ≤ n → n ≤ fuel →
      lineLoop line fuel text st = lineLoop line n text st := by
    intro n
    induction n with
    | zero =>
      intro fuel text st hn _
      have hnil : text = [] := List.length_eq_zero_iff.mp (by omega)
      subst hnil
      cases fuel with
      | zero => rfl
      | succ fuel => simp [lineLoop]
    | succ n ih =>
      intro fuel text st hn hf
      obtain ⟨fuel,rfl⟩ : ∃ f, fuel = f+1 := ⟨fuel-1,by omega⟩
      cases hp : text.findIdx? (· = 10) with
      | none => simp only [lineLoop,hp]
      | some pos =>
        simp only [lineLoop,hp]
        exact ih fuel _ _ (by simp only [List.length_drop]; omega) (by omega)
  intro text st h
  exact key text.length fuel text st (le_refl _) h

theorem takeLines_line {l rest : List UInt8} (h : 10 ∉ l) (st : σ) :
    takeLines line (l++10::rest) st = takeLines line rest (line l st) := by
  have hlen : (l++10::rest).length = (l.length+rest.length)+1 := by
    simp only [List.length_append,List.length_cons]
    omega
  rw [takeLines,hlen,lineLoop_line line h,lineLoop_eq_takeLines line _ _ _ (by omega)]

theorem takeLines_none {l : List UInt8} (h : l.findIdx? (· = 10) = none) (st : σ) :
    takeLines line l st = (l,st) := by
  cases hl : l.length with
  | zero => simp only [takeLines,hl,lineLoop]
  | succ n => simp only [takeLines,hl,lineLoop,h]

/-- Reading a text in two pieces is reading it at once. -/
theorem takeLines_append (b : List UInt8) : ∀ (n : ℕ) (a : List UInt8) (st : σ), a.length ≤ n →
    takeLines line (a++b) st =
      takeLines line ((takeLines line a st).1++b) (takeLines line a st).2 := by
  intro n
  induction n with
  | zero =>
    intro a st hn
    have hnil : a = [] := List.length_eq_zero_iff.mp (by omega)
    subst hnil
    rfl
  | succ n ih =>
    intro a st hn
    cases hp : a.findIdx? (· = 10) with
    | none => rw [takeLines_none line hp]
    | some pos =>
      obtain ⟨hsplit,hno⟩ := split_at_newline hp
      have hlen := congrArg List.length hsplit
      simp only [List.length_append,List.length_cons] at hlen
      rw [hsplit,takeLines_line line hno,List.append_assoc,List.cons_append,
        takeLines_line line hno]
      exact ih _ _ (by omega)

/-- What is left in the buffer holds no further line. -/
theorem takeLines_idem (a : List UInt8) (st : σ) :
    takeLines line (takeLines line a st).1 (takeLines line a st).2 = takeLines line a st := by
  simpa using (takeLines_append line [] a.length a st (le_refl _)).symm

end LineReader

end TextScan
