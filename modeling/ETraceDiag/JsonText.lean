import ETraceDiag.DecimalText
import ETraceDiag.Dictionaries
import ETraceDiag.JsonValue

/-!
# JSON as text

Values are written in ASCII as Python's `json` writes them, and read as it reads them. How floats
are printed and read is left open, and integers that have more digits than a limit are neither
printed nor read; the limit zero is none.
-/

namespace JsonText

open DecimalText

/-! ## Strings -/

def hexDigit (d : ℕ) : Char := Nat.digitChar d

/-- Four hexadecimal digits. -/
def hex4 (n : ℕ) : List Char :=
  [hexDigit (n/4096%16),hexDigit (n/256%16),hexDigit (n/16%16),hexDigit (n%16)]

/-- `\uXXXX` of a code unit. -/
def unitEscape (n : ℕ) : List Char := '\\' :: 'u'::hex4 n

/-- The characters with an escape of one letter. -/
def shortEscapes : List (Char × Char) :=
  [('"','"'),('\\','\\'),('\n','n'),('\r','r'),('\t','t'),(Char.ofNat 12,'f'),(Char.ofNat 8,'b')]

def escapeChar (c : Char) : List Char :=
  match shortEscapes.lookup c with
  | some e => ['\\',e]
  | none =>
    if 32 ≤ c.toNat ∧ c.toNat ≤ 126 then [c]
    else if c.toNat < 0x10000 then unitEscape c.toNat
    else unitEscape (0xd800+(c.toNat-0x10000)/1024)++
      unitEscape (0xdc00+(c.toNat-0x10000)%1024)

def quote (s : String) : List Char := '"'::(s.toList.flatMap escapeChar++['"'])

/-- The value of a hexadecimal digit. -/
def hexVal (c : Char) : Option ℕ :=
  let n := c.toNat
  if 48 ≤ n ∧ n ≤ 57 then some (n-48)
  else if 97 ≤ n ∧ n ≤ 102 then some (n-87)
  else if 65 ≤ n ∧ n ≤ 70 then some (n-55) else none

def codeUnit (a b c d : Char) : Option ℕ := do
  let a ← hexVal a
  let b ← hexVal b
  let c ← hexVal c
  let d ← hexVal d
  pure (4096*a+256*b+16*c+d)

def unescape (c : Char) : Option Char := ((shortEscapes.map Prod.swap)++[('/','/')]).lookup c

/-- The text up to the closing quote, and what is behind it. A surrogate without its partner has no
character and is refused. -/
def scanString : List Char → Option (List Char × List Char)
  | [] => none
  | '"'::rest => some ([],rest)
  | '\\' :: 'u'::a::b::c::d::rest =>
    match codeUnit a b c d with
    | none => none
    | some n =>
      if 0xd800 ≤ n ∧ n ≤ 0xdbff then
        match rest with
        | '\\' :: 'u'::e::f::g::h::rest =>
          match codeUnit e f g h with
          | none => none
          | some m =>
            if 0xdc00 ≤ m ∧ m ≤ 0xdfff then
              (scanString rest).map fun p =>
                (Char.ofNat (0x10000+(n-0xd800)*1024+(m-0xdc00))::p.1,p.2)
            else none
        | _ => none
      else if 0xdc00 ≤ n ∧ n ≤ 0xdfff then none
      else (scanString rest).map fun p => (Char.ofNat n::p.1,p.2)
  | '\\'::c::rest =>
    match unescape c with
    | none => none
    | some e => (scanString rest).map fun p => (e::p.1,p.2)
  | c::rest => if c.toNat < 32 then none else (scanString rest).map fun p => (c::p.1,p.2)

theorem hexVal_hexDigit : ∀ d < 16, hexVal (hexDigit d) = some d := by decide

theorem codeUnit_hex4 {n : ℕ} (h : n < 0x10000) :
    codeUnit (hexDigit (n/4096%16)) (hexDigit (n/256%16)) (hexDigit (n/16%16)) (hexDigit (n%16)) =
      some n := by
  have hmod : ∀ m, m%16 < 16 := fun m => Nat.mod_lt m (by decide)
  simp only [codeUnit,hexVal_hexDigit _ (hmod _),Option.pure_def,Option.bind_eq_bind,
    Option.bind_some,Option.some.injEq]
  omega

theorem scanString_short {x : Char × Char} (h : x ∈ shortEscapes) (rest : List Char) :
    scanString ('\\'::x.2::rest) = (scanString rest).map fun p => (x.1::p.1,p.2) := by
  simp only [shortEscapes,List.mem_cons,List.not_mem_nil,or_false] at h
  rcases h with rfl | rfl | rfl | rfl | rfl | rfl | rfl <;> rfl

/-- A character that is escaped by one code unit. -/
theorem scanString_unit {n : ℕ} (h : n < 0x10000) (hlow : n < 0xd800 ∨ 0xdfff < n)
    (rest : List Char) : scanString (unitEscape n++rest) =
      (scanString rest).map fun p => (Char.ofNat n::p.1,p.2) := by
  have hhigh : ¬ (0xd800 ≤ n ∧ n ≤ 0xdbff) := by omega
  have hsecond : ¬ (0xdc00 ≤ n ∧ n ≤ 0xdfff) := by omega
  rw [unitEscape,hex4]
  simp only [List.cons_append,List.nil_append]
  rw [scanString,codeUnit_hex4 h]
  simp only [if_neg hhigh,if_neg hsecond]

/-- A character that is escaped by a pair of surrogates. -/
theorem scanString_pair {n : ℕ} (h : n < 0x100000) (rest : List Char) :
    scanString (unitEscape (0xd800+n/1024)++(unitEscape (0xdc00+n%1024)++rest)) =
      (scanString rest).map fun p => (Char.ofNat (0x10000+n)::p.1,p.2) := by
  have hfirst : 0xd800 ≤ 0xd800+n/1024 ∧ 0xd800+n/1024 ≤ 0xdbff := by omega
  have hsecond : 0xdc00 ≤ 0xdc00+n%1024 ∧ 0xdc00+n%1024 ≤ 0xdfff := by omega
  have hcode : 0x10000+(0xd800+n/1024-0xd800)*1024+(0xdc00+n%1024-0xdc00) = 0x10000+n := by omega
  rw [unitEscape,unitEscape,hex4,hex4]
  simp only [List.cons_append,List.nil_append]
  rw [scanString,codeUnit_hex4 (by omega)]
  simp only [if_pos hfirst]
  rw [codeUnit_hex4 (by omega)]
  simp only [if_pos hsecond,hcode]

/-- No other character stands for itself in a string. -/
theorem plain_of_not_short {c : Char} (h : shortEscapes.lookup c = none) : c ≠ '"' ∧ c ≠ '\\' := by
  constructor
  · rintro rfl
    cases h
  · rintro rfl
    cases h

/-- Reading a string undoes the escape of a character. -/
theorem scanString_escapeChar (c : Char) (rest : List Char) :
    scanString (escapeChar c++rest) = (scanString rest).map fun p => (c::p.1,p.2) := by
  unfold escapeChar
  split
  · next e heq => exact scanString_short (Dictionaries.mem_of_lookup heq) rest
  · next heq =>
    obtain ⟨hquote,hslash⟩ := plain_of_not_short heq
    have hvalid : c.toNat < 0xd800 ∨ (0xdfff < c.toNat ∧ c.toNat < 0x110000) := c.valid
    split
    · next hprint =>
      rw [List.singleton_append,scanString]
      · rw [if_neg (by omega)]
      · exact hquote
      · exact fun _ _ _ _ _ heq _ => hslash heq
      · exact fun _ _ heq _ => hslash heq
    · split
      · next hsmall =>
        rw [scanString_unit hsmall (hvalid.imp_right And.left),Char.ofNat_toNat]
      · next hlarge =>
        have hcode : 0x10000+(c.toNat-0x10000) = c.toNat := by omega
        rw [List.append_assoc,scanString_pair (by omega),hcode,Char.ofNat_toNat]

theorem scanString_quote (s : String) (rest : List Char) :
    scanString (s.toList.flatMap escapeChar ++ '"'::rest) = some (s.toList,rest) := by
  induction s.toList with
  | nil => rfl
  | cons c cs ih =>
    rw [List.flatMap_cons,List.append_assoc,scanString_escapeChar,ih]
    rfl

/-! ## Numbers -/

/-- Digits without a zero in front. -/
def WholeDigits (ds : List Char) : Prop :=
  ds = ['0'] ∨ ∃ d rest, ds = d::rest ∧ d.isDigit = true ∧ d ≠ '0' ∧ ∀ c ∈ rest, c.isDigit = true

/-- A number that is not an integer: a fraction, an exponent or both. -/
structure FloatLiteral where
  negative : Bool
  whole : List Char
  fraction : Option (List Char)
  exponent : Option (Option Char × List Char)
  wholeDigits : WholeDigits whole
  fractionDigits : ∀ ds ∈ fraction, ds ≠ [] ∧ ∀ c ∈ ds, c.isDigit = true
  exponentDigits : ∀ e ∈ exponent, (∀ c ∈ e.1, c = '+' ∨ c = '-') ∧ e.2 ≠ [] ∧
    ∀ c ∈ e.2, c.isDigit = true
  notWhole : fraction.isSome ∨ exponent.isSome

def FloatLiteral.fractionText (l : FloatLiteral) : List Char :=
  (l.fraction.map fun ds => '.'::ds).getD []

def FloatLiteral.exponentText (l : FloatLiteral) : List Char :=
  (l.exponent.map fun e => 'e'::(e.1.toList++e.2)).getD []

def FloatLiteral.text (l : FloatLiteral) : List Char :=
  (if l.negative then ['-'] else [])++l.whole++l.fractionText++l.exponentText

/-- What a float is for the printer. -/
inductive Shape (F : Type)
  | nan
  | infinity
  | negInfinity
  | finite (literal : FloatLiteral)

/-- `float.__repr__` and `float` of a number text: what is printed of a float is read as it. -/
class JsonFloat (F : Type) where
  shape : F → Shape F
  nan : F
  infinity : F
  negInfinity : F
  float : List Char → F
  float_of_finite : ∀ x literal, shape x = .finite literal → float literal.text = x
  eq_infinity : ∀ x, shape x = .infinity → x = infinity
  eq_negInfinity : ∀ x, shape x = .negInfinity → x = negInfinity

/-- `-?(0|[1-9]\d*)`. -/
def scanWhole (cs : List Char) : Option (List Char × List Char) :=
  match cs with
  | [] => none
  | c::rest =>
    if c = '0' then some (['0'],rest)
    else if c.isDigit then
      some (c::rest.takeWhile Char.isDigit,rest.dropWhile Char.isDigit)
    else none

def scanInteger (cs : List Char) : Option (List Char × List Char) :=
  match cs with
  | '-'::rest => (scanWhole rest).map fun p => ('-'::p.1,p.2)
  | _ => scanWhole cs

/-- `(\.\d+)?`. -/
def scanFraction (cs : List Char) : List Char × List Char :=
  match cs with
  | '.'::rest =>
    if rest.takeWhile Char.isDigit = [] then ([],cs)
    else ('.'::rest.takeWhile Char.isDigit,rest.dropWhile Char.isDigit)
  | _ => ([],cs)

/-- `[-+]?`. -/
def scanSign (cs : List Char) : List Char × List Char :=
  match cs with
  | c::rest => if c = '+' ∨ c = '-' then ([c],rest) else ([],cs)
  | [] => ([],[])

/-- `([eE][-+]?\d+)?`. -/
def scanExponent (cs : List Char) : List Char × List Char :=
  match cs with
  | c::rest =>
    if c = 'e' ∨ c = 'E' then
      let (sign,digits) := scanSign rest
      if digits.takeWhile Char.isDigit = [] then ([],cs)
      else (c::(sign++digits.takeWhile Char.isDigit),digits.dropWhile Char.isDigit)
    else ([],cs)
  | [] => ([],[])

/-- The three parts of a number and what is behind it. -/
def scanNumber (cs : List Char) : Option (List Char × List Char × List Char × List Char) :=
  (scanInteger cs).map fun p =>
    let (fraction,rest) := scanFraction p.2
    let (exponent,rest) := scanExponent rest
    (p.1,fraction,exponent,rest)

/-- What is behind a number goes on with none of its parts. -/
def Stops (rest : List Char) : Prop :=
  ∀ c ∈ rest.head?, c.isDigit = false ∧ c ≠ '.' ∧ c ≠ 'e' ∧ c ≠ 'E'

def NoDigit (rest : List Char) : Prop := ∀ c ∈ rest.head?, c.isDigit = false

theorem Stops.noDigit {rest : List Char} (h : Stops rest) : NoDigit rest := fun c hc => (h c hc).1

theorem digits_append {ds rest : List Char} (h : ∀ c ∈ ds, c.isDigit = true)
    (hrest : NoDigit rest) : (ds++rest).takeWhile Char.isDigit = ds ∧
      (ds++rest).dropWhile Char.isDigit = rest := by
  rw [List.takeWhile_append_of_pos h,List.dropWhile_append_of_pos h]
  cases rest with
  | nil => simp
  | cons c rest =>
    have hc : c.isDigit = false := hrest c rfl
    simp [hc]

theorem scanWhole_append {ds rest : List Char} (h : WholeDigits ds) (hrest : NoDigit rest) :
    scanWhole (ds++rest) = some (ds,rest) := by
  rcases h with rfl | ⟨d,ds,rfl,hd,hzero,hds⟩
  · rfl
  · obtain ⟨htake,hdrop⟩ := digits_append hds hrest
    rw [List.cons_append,scanWhole,if_neg hzero,if_pos hd,htake,hdrop]

theorem wholeDigits_toDigits (n : ℕ) : WholeDigits (Nat.toDigits 10 n) := by
  rcases eq_or_ne n 0 with rfl | hn
  · exact .inl (Nat.toDigits_zero 10)
  · exact .inr (toDigits_eq_cons n hn)

/-- An integer is scanned up to its end. -/
theorem scanInteger_append {negative : Bool} {ds rest : List Char} (h : WholeDigits ds)
    (hrest : NoDigit rest) : scanInteger ((if negative then ['-'] else [])++ds++rest) =
      some ((if negative then ['-'] else [])++ds,rest) := by
  cases negative with
  | true =>
    simp only [if_true,List.cons_append,List.nil_append]
    rw [scanInteger,scanWhole_append h hrest]
    rfl
  | false =>
    have hsign : ∀ cs, ds++rest ≠ '-'::cs := by
      intro cs heq
      rcases h with rfl | ⟨d,ds,rfl,hd,-,-⟩
      · cases heq
      · obtain rfl := (List.cons.inj heq).1
        cases hd
    simp only [Bool.false_eq_true,if_false,List.nil_append]
    rw [scanInteger]
    · exact scanWhole_append h hrest
    · exact hsign

theorem scanFraction_of_stops {rest : List Char} (h : Stops rest) :
    scanFraction rest = ([],rest) := by
  rw [scanFraction]
  rintro cs rfl
  exact (h '.' rfl).2.1 rfl

theorem scanExponent_of_stops {rest : List Char} (h : Stops rest) :
    scanExponent rest = ([],rest) := by
  cases rest with
  | nil => rfl
  | cons c rest =>
    obtain ⟨-,-,he,hE⟩ := h c rfl
    rw [scanExponent,if_neg (not_or.mpr ⟨he,hE⟩)]

theorem scanExponent_append (l : FloatLiteral) {rest : List Char} (h : Stops rest) :
    scanExponent (l.exponentText++rest) = (l.exponentText,rest) := by
  rw [FloatLiteral.exponentText]
  cases hexp : l.exponent with
  | none => exact scanExponent_of_stops h
  | some e =>
    obtain ⟨sign,ds⟩ := e
    obtain ⟨hsign,hne,hds⟩ := l.exponentDigits _ hexp
    obtain ⟨htake,hdrop⟩ := digits_append hds h.noDigit
    have hscan : scanSign (sign.toList++(ds++rest)) = (sign.toList,ds++rest) := by
      cases sign with
      | some c => exact if_pos (hsign c rfl)
      | none =>
        obtain ⟨d,ds,rfl⟩ := List.exists_cons_of_ne_nil hne
        have hd : d.isDigit = true := hds d List.mem_cons_self
        have hnot : ¬ (d = '+' ∨ d = '-') := by
          rintro (rfl | rfl)
          · cases hd
          · cases hd
        exact if_neg hnot
    simp only [Option.map_some,Option.getD_some,List.cons_append,List.append_assoc]
    rw [scanExponent,if_pos (.inl rfl),hscan]
    simp only [htake,hdrop,if_neg hne]

theorem scanFraction_append (l : FloatLiteral) {rest : List Char} (h : Stops rest) :
    scanFraction (l.fractionText++(l.exponentText++rest)) =
      (l.fractionText,l.exponentText++rest) := by
  have hnoDigit : NoDigit (l.exponentText++rest) := by
    rw [FloatLiteral.exponentText]
    cases l.exponent with
    | none => exact h.noDigit
    | some e =>
      rintro c ⟨⟩
      rfl
  rw [FloatLiteral.fractionText]
  cases hfrac : l.fraction with
  | none =>
    rw [Option.map_none,Option.getD_none,List.nil_append,scanFraction]
    intro cs heq
    rw [FloatLiteral.exponentText] at heq
    cases hexp : l.exponent with
    | none =>
      rw [hexp] at heq
      have heq : rest = '.'::cs := heq
      exact (h '.' (by rw [heq]; rfl)).2.1 rfl
    | some e =>
      rw [hexp] at heq
      cases heq
  | some ds =>
    obtain ⟨hne,hds⟩ := l.fractionDigits ds hfrac
    obtain ⟨htake,hdrop⟩ := digits_append hds hnoDigit
    rw [Option.map_some,Option.getD_some,List.cons_append,scanFraction,htake,hdrop,if_neg hne]

theorem scanNumber_literal (l : FloatLiteral) {rest : List Char} (h : Stops rest) :
    scanNumber (l.text++rest) = some ((if l.negative then ['-'] else [])++l.whole,l.fractionText,
      l.exponentText,rest) := by
  have hnoDigit : NoDigit (l.fractionText++(l.exponentText++rest)) := by
    rw [FloatLiteral.fractionText,FloatLiteral.exponentText]
    cases l.fraction with
    | some ds =>
      rintro c ⟨⟩
      rfl
    | none =>
      cases l.exponent with
      | none => exact h.noDigit
      | some e =>
        rintro c ⟨⟩
        rfl
  rw [scanNumber,FloatLiteral.text,List.append_assoc,List.append_assoc,
    scanInteger_append l.wholeDigits hnoDigit,Option.map_some]
  simp only [scanFraction_append l h,scanExponent_append l h]

theorem decimal_eq (n : ℤ) :
    decimal n = (if decide (n < 0) then ['-'] else [])++Nat.toDigits 10 n.natAbs := by
  cases n with
  | ofNat n =>
    have hnot : ¬ Int.ofNat n < 0 := by simp
    rw [decide_eq_false hnot]
    rfl
  | negSucc n =>
    rw [decide_eq_true (Int.negSucc_lt_zero n)]
    rfl

theorem scanNumber_decimal (n : ℤ) {rest : List Char} (h : Stops rest) :
    scanNumber (decimal n++rest) = some (decimal n,[],[],rest) := by
  rw [scanNumber,decimal_eq,scanInteger_append (wholeDigits_toDigits _) h.noDigit,Option.map_some]
  simp only [scanFraction_of_stops h,scanExponent_of_stops h]

/-! ## Printing -/

variable {F : Type} [JsonFloat F]

def floatText (x : F) : List Char :=
  match JsonFloat.shape x with
  | .nan => "NaN".toList
  | .infinity => "Infinity".toList
  | .negInfinity => "-Infinity".toList
  | .finite literal => literal.text

mutual

@[simp] def encode : JsonValue F → List Char
  | .null => "null".toList
  | .bool true => "true".toList
  | .bool false => "false".toList
  | .int n => decimal n
  | .float x => floatText x
  | .str s => quote s
  | .arr [] => ['[',']']
  | .arr (x::xs) => '['::(encode x++(encodeTail xs++[']']))
  | .obj [] => ['{','}']
  | .obj ((k,x)::fields) =>
    '{'::(quote k++(':' :: ' '::(encode x++(encodeFieldsTail fields++['}']))))

/-- The elements behind the first. -/
@[simp] def encodeTail : List (JsonValue F) → List Char
  | [] => []
  | x::xs => ',' :: ' '::(encode x++encodeTail xs)

/-- The fields behind the first. -/
@[simp] def encodeFieldsTail : List (String × JsonValue F) → List Char
  | [] => []
  | (k,x)::fields => ',' :: ' '::(quote k++(':' :: ' '::(encode x++encodeFieldsTail fields)))

end

mutual

/-- `sort_keys=True`. -/
def sortKeys : JsonValue F → JsonValue F
  | .arr xs => .arr (sortKeysList xs)
  | .obj fields => .obj ((sortKeysFields fields).mergeSort fun a b => a.1 ≤ b.1)
  | j => j

def sortKeysList : List (JsonValue F) → List (JsonValue F)
  | [] => []
  | x::xs => sortKeys x::sortKeysList xs

def sortKeysFields : List (String × JsonValue F) → List (String × JsonValue F)
  | [] => []
  | (k,x)::fields => (k,sortKeys x)::sortKeysFields fields

end

/-- The digits of an integer, which the limit is about. -/
def digitCount (cs : List Char) : ℕ := (cs.filter Char.isDigit).length

/-- An integer that the interpreter prints and reads. -/
def Printable (limit : ℕ) (n : ℤ) : Prop := limit = 0 ∨ digitCount (decimal n) ≤ limit

instance (limit : ℕ) (n : ℤ) : Decidable (Printable limit n) := inferInstanceAs (Decidable (_ ∨ _))

mutual

/-- The integers of a value. -/
def integers : JsonValue F → List ℤ
  | .int n => [n]
  | .arr xs => integersList xs
  | .obj fields => integersFields fields
  | _ => []

def integersList : List (JsonValue F) → List ℤ
  | [] => []
  | x::xs => integers x++integersList xs

def integersFields : List (String × JsonValue F) → List ℤ
  | [] => []
  | (_,x)::fields => integers x++integersFields fields

end

/-- `json.dumps(obj,sort_keys=True)`; an integer beyond the limit is a `ValueError`. -/
def dumps (limit : ℕ) (j : JsonValue F) : Option (List Char) :=
  if ∀ n ∈ integers j, Printable limit n then some (encode (sortKeys j)) else none

/-! ## Reading -/

def number (limit : ℕ) (whole fraction exponent : List Char) : Option (JsonValue F) :=
  if fraction = [] ∧ exponent = [] then
    if limit = 0 ∨ digitCount whole ≤ limit then (readInt whole).map .int else none
  else some (.float (JsonFloat.float (whole++fraction++exponent)))

def skipSpace (cs : List Char) : List Char :=
  cs.dropWhile fun c => c = ' ' || c = '\t' || c = '\n' || c = '\r'

/-- The key and the value of a field. -/
def member (value : List Char → Option (JsonValue F × List Char)) (cs : List Char) :
    Option ((String × JsonValue F) × List Char) :=
  match cs with
  | '"'::cs =>
    match scanString cs with
    | none => none
    | some (k,rest) =>
      match skipSpace rest with
      | ':'::rest => (value (skipSpace rest)).map fun p => ((String.ofList k,p.1),p.2)
      | _ => none
  | _ => none

/-- The names of values. -/
def scanName : List Char → Option (JsonValue F × List Char)
  | 'n' :: 'u' :: 'l' :: 'l'::rest => some (.null,rest)
  | 't' :: 'r' :: 'u' :: 'e'::rest => some (.bool true,rest)
  | 'f' :: 'a' :: 'l' :: 's' :: 'e'::rest => some (.bool false,rest)
  | 'N' :: 'a' :: 'N'::rest => some (.float JsonFloat.nan,rest)
  | 'I' :: 'n' :: 'f' :: 'i' :: 'n' :: 'i' :: 't' :: 'y'::rest =>
    some (.float JsonFloat.infinity,rest)
  | '-' :: 'I' :: 'n' :: 'f' :: 'i' :: 'n' :: 'i' :: 't' :: 'y'::rest =>
    some (.float JsonFloat.negInfinity,rest)
  | _ => none

mutual

/-- A value and what is behind it; the fuel is spent on nesting and on elements. -/
def value (limit : ℕ) : ℕ → List Char → Option (JsonValue F × List Char)
  | 0,_ => none
  | fuel+1,cs =>
    (scanNumber cs).elim
      (match cs with
        | '"'::cs => (scanString cs).map fun p => (.str (String.ofList p.1),p.2)
        | '['::cs =>
          match skipSpace cs with
          | ']'::rest => some (.arr [],rest)
          | cs => (value limit fuel cs).bind fun p =>
            (elements limit fuel p.2).map fun q => (.arr (p.1::q.1),q.2)
        | '{'::cs =>
          match skipSpace cs with
          | '}'::rest => some (.obj [],rest)
          | cs => (member (value limit fuel) cs).bind fun p =>
            (members limit fuel p.2).map fun q => (.obj (Dictionaries.update [] (p.1::q.1)),q.2)
        | cs => scanName cs)
      fun p => (number limit p.1 p.2.1 p.2.2.1).map (·,p.2.2.2)

/-- The elements that follow one, up to the closing bracket. -/
def elements (limit : ℕ) : ℕ → List Char → Option (List (JsonValue F) × List Char)
  | 0,_ => none
  | fuel+1,cs =>
    match skipSpace cs with
    | ']'::rest => some ([],rest)
    | ','::rest => (value limit fuel (skipSpace rest)).bind fun p =>
      (elements limit fuel p.2).map fun q => (p.1::q.1,q.2)
    | _ => none

/-- The fields that follow one, up to the closing brace. -/
def members (limit : ℕ) : ℕ → List Char → Option (List (String × JsonValue F) × List Char)
  | 0,_ => none
  | fuel+1,cs =>
    match skipSpace cs with
    | '}'::rest => some ([],rest)
    | ','::rest => (member (value limit fuel) (skipSpace rest)).bind fun p =>
      (members limit fuel p.2).map fun q => (p.1::q.1,q.2)
    | _ => none

end

/-- `json.loads`. -/
def loads (limit : ℕ) (text : List Char) : Option (JsonValue F) :=
  if text.head? = some (Char.ofNat 0xfeff) then none
  else (value limit (text.length+1) (skipSpace text)).bind fun p =>
    if skipSpace p.2 = [] then some p.1 else none

/-! ## Reading what has been printed -/

section RoundTrip

variable {limit : ℕ}

/-- A value that is printed and read as it is: its integers are within the limit, no float is NaN
and an object has one field for each key. -/
inductive Fits (limit : ℕ) : JsonValue F → Prop
  | null : Fits limit .null
  | bool (b : Bool) : Fits limit (.bool b)
  | int {n : ℤ} (h : Printable limit n) : Fits limit (.int n)
  | float {x : F} (h : JsonFloat.shape x ≠ .nan) : Fits limit (.float x)
  | str (s : String) : Fits limit (.str s)
  | arr {xs : List (JsonValue F)} (h : ∀ x ∈ xs, Fits limit x) : Fits limit (.arr xs)
  | obj {fields : List (String × JsonValue F)} (unique : (fields.map Prod.fst).Nodup)
    (h : ∀ f ∈ fields, Fits limit f.2) : Fits limit (.obj fields)

/-- A text that begins with no blank, no closing bracket and no byte order mark. -/
def Starts (cs : List Char) : Prop :=
  ∃ c rest, cs = c::rest ∧ c ∉ [' ','\t','\n','\r',']','}',Char.ofNat 0xfeff]

theorem Starts.append {cs : List Char} (h : Starts cs) (rest : List Char) : Starts (cs++rest) := by
  obtain ⟨c,cs,rfl,hc⟩ := h
  exact ⟨c,cs++rest,rfl,hc⟩

theorem starts_of_digits {ds : List Char} (h : WholeDigits ds) (rest : List Char) :
    Starts (ds++rest) := by
  rcases h with rfl | ⟨d,ds,rfl,hd,-,-⟩
  · exact ⟨'0',rest,rfl,by decide⟩
  · refine ⟨d,ds++rest,rfl,fun hmem => ?_⟩
    simp only [List.mem_cons,List.not_mem_nil,or_false] at hmem
    rcases hmem with rfl | rfl | rfl | rfl | rfl | rfl | rfl <;> cases hd

theorem starts_of_number (negative : Bool) {ds : List Char} (h : WholeDigits ds)
    (rest : List Char) : Starts ((if negative then ['-'] else [])++ds++rest) := by
  cases negative with
  | true => exact ⟨'-',ds++rest,rfl,by decide⟩
  | false => exact starts_of_digits h rest

theorem starts_encode (j : JsonValue F) : Starts (encode j) := by
  match j with
  | .null => exact ⟨_,_,rfl,by decide⟩
  | .bool true => exact ⟨_,_,rfl,by decide⟩
  | .bool false => exact ⟨_,_,rfl,by decide⟩
  | .int n =>
    have hstarts := starts_of_number (decide (n < 0)) (wholeDigits_toDigits n.natAbs) []
    rw [List.append_nil,← decimal_eq] at hstarts
    rwa [encode]
  | .float x =>
    rw [encode,floatText]
    split
    · exact ⟨_,_,rfl,by decide⟩
    · exact ⟨_,_,rfl,by decide⟩
    · exact ⟨_,_,rfl,by decide⟩
    · next l _ =>
      rw [FloatLiteral.text,List.append_assoc]
      exact starts_of_number _ l.wholeDigits _
  | .str s => exact ⟨_,_,rfl,by decide⟩
  | .arr [] => exact ⟨_,_,rfl,by decide⟩
  | .arr (x::xs) =>
    rw [encode]
    exact ⟨_,_,rfl,by decide⟩
  | .obj [] => exact ⟨_,_,rfl,by decide⟩
  | .obj ((k,x)::fields) =>
    rw [encode]
    exact ⟨_,_,rfl,by decide⟩

theorem skipSpace_of_starts {cs : List Char} (h : Starts cs) (rest : List Char) :
    skipSpace (cs++rest) = cs++rest := by
  obtain ⟨c,cs,rfl,hc⟩ := h
  simp only [List.mem_cons,List.not_mem_nil,or_false,not_or] at hc
  rw [skipSpace,List.cons_append,List.dropWhile_cons_of_neg]
  simp [hc]

theorem skipSpace_blank (cs : List Char) : skipSpace (' '::cs) = skipSpace cs := rfl

theorem stops_tail (xs : List (JsonValue F)) (rest : List Char) :
    Stops (encodeTail xs ++ ']'::rest) := by
  cases xs with
  | nil =>
    rintro c ⟨⟩
    decide
  | cons x xs =>
    rw [encodeTail]
    rintro c ⟨⟩
    decide

theorem stops_fieldsTail (fields : List (String × JsonValue F)) (rest : List Char) :
    Stops (encodeFieldsTail fields ++ '}'::rest) := by
  cases fields with
  | nil =>
    rintro c ⟨⟩
    decide
  | cons f fields =>
    rw [encodeFieldsTail]
    rintro c ⟨⟩
    decide

/-- Reading gives the value back, whatever is behind it. -/
def ReadsBack (limit : ℕ) (j : JsonValue F) : Prop := ∀ fuel rest, (encode j).length ≤ fuel →
  Stops rest → value limit fuel (encode j++rest) = some (j,rest)

theorem elements_comma {fuel : ℕ} {cs rest : List Char} (h : skipSpace cs = ','::rest) :
    (elements limit (fuel+1) cs : Option (List (JsonValue F) × List Char)) =
      (value limit fuel (skipSpace rest)).bind fun p =>
        (elements limit fuel p.2).map fun q => (p.1::q.1,q.2) := by
  rw [elements,h]
  rfl

theorem members_comma {fuel : ℕ} {cs rest : List Char} (h : skipSpace cs = ','::rest) :
    (members limit (fuel+1) cs : Option (List (String × JsonValue F) × List Char)) =
      (member (value limit fuel) (skipSpace rest)).bind fun p =>
        (members limit fuel p.2).map fun q => (p.1::q.1,q.2) := by
  rw [members,h]
  rfl

theorem elements_encodeTail {xs : List (JsonValue F)} (h : ∀ x ∈ xs, ReadsBack limit x) :
    ∀ fuel rest, (encodeTail xs).length+1 ≤ fuel →
      elements limit fuel (encodeTail xs ++ ']'::rest) = some (xs,rest) := by
  induction xs with
  | nil =>
    intro fuel rest hfuel
    obtain ⟨fuel,rfl⟩ := Nat.exists_eq_add_of_le' hfuel
    rw [encodeTail]
    rfl
  | cons x xs ih =>
    intro fuel rest hfuel
    obtain ⟨hx,hxs⟩ := List.forall_mem_cons.mp h
    rw [encodeTail] at hfuel ⊢
    simp only [List.length_cons,List.length_append] at hfuel
    obtain ⟨fuel,rfl⟩ : ∃ f, fuel = f+1 := ⟨fuel-1,by omega⟩
    have hread := hx fuel (encodeTail xs ++ ']'::rest) (by omega) (stops_tail xs rest)
    have htail := ih hxs fuel rest (by omega)
    have hskip : skipSpace (' '::(encode x++(encodeTail xs ++ ']'::rest))) =
        encode x++(encodeTail xs ++ ']'::rest) :=
      (skipSpace_blank _).trans (skipSpace_of_starts (starts_encode x) _)
    have hcomma : skipSpace (',' :: ' '::(encode x++encodeTail xs) ++ ']'::rest) =
        ',' :: ' '::(encode x++(encodeTail xs ++ ']'::rest)) := by
      simp [skipSpace]
    rw [elements_comma hcomma,hskip,hread,Option.bind_some,htail]
    rfl

theorem member_encode {x : JsonValue F} (k : String) {fuel : ℕ} {rest : List Char}
    (h : value limit fuel (encode x++rest) = some (x,rest)) :
    member (value limit fuel) (quote k++(':' :: ' '::(encode x++rest))) = some ((k,x),rest) := by
  have hquote : quote k++(':' :: ' '::(encode x++rest)) =
      '"'::(k.toList.flatMap escapeChar ++ '"'::(':' :: ' '::(encode x++rest))) := by
    rw [quote,List.cons_append,List.append_assoc]
    rfl
  have hskip : skipSpace (' '::(encode x++rest)) = encode x++rest :=
    (skipSpace_blank _).trans (skipSpace_of_starts (starts_encode x) rest)
  have hmember : member (value (F:=F) limit fuel) (quote k++(':' :: ' '::(encode x++rest))) =
      (value limit fuel (skipSpace (' '::(encode x++rest)))).map
        fun p => ((String.ofList k.toList,p.1),p.2) := by
    rw [hquote,member,scanString_quote]
    rfl
  rw [hmember,hskip,h,Option.map_some,String.ofList_toList]

theorem members_encodeFieldsTail {fields : List (String × JsonValue F)}
    (h : ∀ f ∈ fields, ReadsBack limit f.2) : ∀ fuel rest,
      (encodeFieldsTail fields).length+1 ≤ fuel →
        members limit fuel (encodeFieldsTail fields ++ '}'::rest) = some (fields,rest) := by
  induction fields with
  | nil =>
    intro fuel rest hfuel
    obtain ⟨fuel,rfl⟩ := Nat.exists_eq_add_of_le' hfuel
    rw [encodeFieldsTail]
    rfl
  | cons f fields ih =>
    intro fuel rest hfuel
    obtain ⟨k,x⟩ := f
    obtain ⟨hx,hfields⟩ := List.forall_mem_cons.mp h
    have hx : ReadsBack limit x := hx
    rw [encodeFieldsTail] at hfuel ⊢
    simp only [List.length_cons,List.length_append] at hfuel
    obtain ⟨fuel,rfl⟩ : ∃ f, fuel = f+1 := ⟨fuel-1,by omega⟩
    have hread := hx fuel (encodeFieldsTail fields ++ '}'::rest) (by omega)
      (stops_fieldsTail fields rest)
    have htail := ih hfields fuel rest (by omega)
    have hskip : skipSpace (' '::(quote k++(':' :: ' '::(encode x++(encodeFieldsTail fields++
        '}'::rest))))) =
          quote k++(':' :: ' '::(encode x++(encodeFieldsTail fields ++ '}'::rest))) :=
      (skipSpace_blank _).trans rfl
    have hcomma : skipSpace (',' :: ' '::(quote k++(':' :: ' '::(encode x++
        encodeFieldsTail fields)))++ '}'::rest) = ',' :: ' '::(quote k++(':' :: ' '::(encode x++(encodeFieldsTail fields++
          '}'::rest)))) := by
      simp [skipSpace]
    rw [members_comma hcomma,hskip,member_encode k hread,Option.bind_some,htail]
    rfl

/-- A number is read as it is printed. -/
theorem value_of_number {fuel : ℕ} {cs whole fraction exponent rest : List Char}
    (h : scanNumber cs = some (whole,fraction,exponent,rest)) :
    (value limit (fuel+1) cs : Option (JsonValue F × List Char)) =
      (number limit whole fraction exponent).map (·,rest) := by
  unfold value
  rw [h]
  rfl

theorem readsBack_int {n : ℤ} (h : Printable limit n) :
    ReadsBack limit (.int n : JsonValue F) := by
  intro fuel rest hfuel hstops
  have hpos : 0 < fuel := lt_of_lt_of_le (List.length_pos_of_ne_nil (by
    rw [encode]
    exact decimal_ne_nil n)) hfuel
  obtain ⟨fuel,rfl⟩ : ∃ f, fuel = f+1 := ⟨fuel-1,by omega⟩
  rw [encode,value_of_number (scanNumber_decimal n hstops),number,if_pos ⟨rfl,rfl⟩,
    if_pos (show limit = 0 ∨ digitCount (decimal n) ≤ limit from h),readInt_decimal]
  rfl

theorem text_parts_ne (l : FloatLiteral) : ¬ (l.fractionText = [] ∧ l.exponentText = []) := by
  rintro ⟨hfraction,hexponent⟩
  rw [FloatLiteral.fractionText] at hfraction
  rw [FloatLiteral.exponentText] at hexponent
  rcases l.notWhole with h | h
  · obtain ⟨ds,hds⟩ := Option.isSome_iff_exists.mp h
    rw [hds] at hfraction
    cases hfraction
  · obtain ⟨e,he⟩ := Option.isSome_iff_exists.mp h
    rw [he] at hexponent
    cases hexponent

theorem readsBack_float {x : F} (h : JsonFloat.shape x ≠ .nan) :
    ReadsBack limit (.float x : JsonValue F) := by
  intro fuel rest hfuel hstops
  obtain ⟨c,cs,hcs,-⟩ := starts_encode (.float x : JsonValue F)
  rw [hcs] at hfuel
  simp only [List.length_cons] at hfuel
  obtain ⟨fuel,rfl⟩ : ∃ f, fuel = f+1 := ⟨fuel-1,by omega⟩
  rw [encode,floatText]
  split
  · next heq => exact absurd heq h
  · next heq =>
    rw [JsonFloat.eq_infinity x heq]
    rfl
  · next heq =>
    rw [JsonFloat.eq_negInfinity x heq]
    rfl
  · next l heq =>
    rw [value_of_number (scanNumber_literal l hstops),number,if_neg (text_parts_ne l),
      ← FloatLiteral.text,JsonFloat.float_of_finite x l heq]
    rfl

theorem readsBack_str (s : String) : ReadsBack limit (.str s : JsonValue F) := by
  intro fuel rest hfuel hstops
  rw [encode,quote] at hfuel ⊢
  simp only [List.length_cons] at hfuel
  obtain ⟨fuel,rfl⟩ : ∃ f, fuel = f+1 := ⟨fuel-1,by omega⟩
  have hvalue : (value limit (fuel+1) ('"'::(s.toList.flatMap escapeChar ++ '"'::rest)) :
      Option (JsonValue F × List Char)) =
        (scanString (s.toList.flatMap escapeChar ++ '"'::rest)).map
          fun p => (.str (String.ofList p.1),p.2) := by
    rw [value]
    rfl
  rw [List.cons_append,List.append_assoc,List.singleton_append,hvalue,scanString_quote,
    Option.map_some,String.ofList_toList]

theorem value_array {fuel : ℕ} {cs : List Char} (h : Starts (skipSpace cs)) :
    (value limit (fuel+1) ('['::cs) : Option (JsonValue F × List Char)) =
      (value limit fuel (skipSpace cs)).bind fun p =>
        (elements limit fuel p.2).map fun q => (.arr (p.1::q.1),q.2) := by
  have hstep : (value limit (fuel+1) ('['::cs) : Option (JsonValue F × List Char)) =
      match skipSpace cs with
      | ']'::rest => some (.arr [],rest)
      | cs => (value limit fuel cs).bind fun p =>
        (elements limit fuel p.2).map fun q => (.arr (p.1::q.1),q.2) := by
    rw [value]
    rfl
  obtain ⟨c,rest,heq,hc⟩ := h
  rw [hstep,heq]
  split
  · next hbracket =>
    obtain rfl := (List.cons.inj hbracket).1
    exact absurd hc (by decide)
  · rfl

theorem value_object {fuel : ℕ} {cs : List Char} (h : Starts (skipSpace cs)) :
    (value limit (fuel+1) ('{'::cs) : Option (JsonValue F × List Char)) =
      (member (value limit fuel) (skipSpace cs)).bind fun p => (members limit fuel p.2).map
        fun q => (.obj (Dictionaries.update [] (p.1::q.1)),q.2) := by
  have hstep : (value limit (fuel+1) ('{'::cs) : Option (JsonValue F × List Char)) =
      match skipSpace cs with
      | '}'::rest => some (.obj [],rest)
      | cs => (member (value limit fuel) cs).bind fun p => (members limit fuel p.2).map
        fun q => (.obj (Dictionaries.update [] (p.1::q.1)),q.2) := by
    rw [value]
    rfl
  obtain ⟨c,rest,heq,hc⟩ := h
  rw [hstep,heq]
  split
  · next hbrace =>
    obtain rfl := (List.cons.inj hbrace).1
    exact absurd hc (by decide)
  · rfl

theorem readsBack_arr {xs : List (JsonValue F)} (h : ∀ x ∈ xs, ReadsBack limit x) :
    ReadsBack limit (.arr xs : JsonValue F) := by
  intro fuel rest hfuel hstops
  cases xs with
  | nil =>
    rw [encode] at hfuel ⊢
    simp only [List.length_cons] at hfuel
    obtain ⟨fuel,rfl⟩ : ∃ f, fuel = f+1 := ⟨fuel-1,by omega⟩
    rfl
  | cons x xs =>
    obtain ⟨hx,hxs⟩ := List.forall_mem_cons.mp h
    rw [encode] at hfuel ⊢
    simp only [List.length_cons,List.length_append] at hfuel
    obtain ⟨fuel,rfl⟩ : ∃ f, fuel = f+1 := ⟨fuel-1,by omega⟩
    have htext : '['::(encode x++(encodeTail xs++[']']))++rest =
        '['::(encode x++(encodeTail xs ++ ']'::rest)) := by simp
    have hskip := skipSpace_of_starts (starts_encode x) (encodeTail xs ++ ']'::rest)
    have hstarts : Starts (skipSpace (encode x++(encodeTail xs ++ ']'::rest))) := by
      rw [hskip]
      exact (starts_encode x).append _
    rw [htext,value_array hstarts,hskip,hx fuel _ (by omega) (stops_tail xs rest),
      Option.bind_some,elements_encodeTail hxs fuel rest (by omega)]
    rfl

theorem readsBack_obj {fields : List (String × JsonValue F)}
    (hunique : (fields.map Prod.fst).Nodup) (h : ∀ f ∈ fields, ReadsBack limit f.2) :
    ReadsBack limit (.obj fields : JsonValue F) := by
  intro fuel rest hfuel hstops
  cases fields with
  | nil =>
    rw [encode] at hfuel ⊢
    simp only [List.length_cons] at hfuel
    obtain ⟨fuel,rfl⟩ : ∃ f, fuel = f+1 := ⟨fuel-1,by omega⟩
    rfl
  | cons f fields =>
    obtain ⟨k,x⟩ := f
    obtain ⟨hx,hfields⟩ := List.forall_mem_cons.mp h
    have hx : ReadsBack limit x := hx
    rw [encode] at hfuel ⊢
    simp only [List.length_cons,List.length_append] at hfuel
    obtain ⟨fuel,rfl⟩ : ∃ f, fuel = f+1 := ⟨fuel-1,by omega⟩
    have htext : '{'::(quote k++(':' :: ' '::(encode x++(encodeFieldsTail fields++['}']))))++rest =
        '{'::(quote k++(':' :: ' '::(encode x++(encodeFieldsTail fields ++ '}'::rest)))) := by simp
    have hskip : skipSpace (quote k++(':' :: ' '::(encode x++(encodeFieldsTail fields ++
        '}'::rest)))) =
        quote k++(':' :: ' '::(encode x++(encodeFieldsTail fields ++ '}'::rest))) := rfl
    have hstarts : Starts (skipSpace (quote k++(':' :: ' '::(encode x++(encodeFieldsTail fields++
        '}'::rest))))) := ⟨'"',_,rfl,by decide⟩
    have hread := hx fuel (encodeFieldsTail fields ++ '}'::rest) (by omega)
      (stops_fieldsTail fields rest)
    rw [htext,value_object hstarts,hskip,member_encode k hread,Option.bind_some,
      members_encodeFieldsTail hfields fuel rest (by omega),Option.map_some,
      Dictionaries.update_of_nodup]
    · rfl
    · exact hunique

/-- By the cases of what fits: a value is read back when its parts are. -/
theorem Fits.readsBack {j : JsonValue F} (h : Fits limit j) : ReadsBack limit j := by
  induction h with
  | null =>
    intro fuel rest hfuel hstops
    obtain ⟨fuel,rfl⟩ : ∃ f, fuel = f+1 := ⟨fuel-1,by rw [encode] at hfuel; simp at hfuel; omega⟩
    rfl
  | bool b =>
    intro fuel rest hfuel hstops
    obtain ⟨fuel,rfl⟩ : ∃ f, fuel = f+1 :=
      ⟨fuel-1,by cases b <;> (rw [encode] at hfuel; simp at hfuel; omega)⟩
    cases b <;> rfl
  | int h => exact readsBack_int h
  | float h => exact readsBack_float h
  | str s => exact readsBack_str s
  | arr _ ih => exact readsBack_arr ih
  | obj hunique _ ih => exact readsBack_obj hunique ih

/-- What has been printed is loaded. -/
theorem loads_encode {j : JsonValue F} (h : Fits limit j) : loads limit (encode j) = some j := by
  have hread := h.readsBack ((encode j).length+1) [] (Nat.le_succ _) (fun c hc => by cases hc)
  have hskip := skipSpace_of_starts (starts_encode j) []
  rw [List.append_nil] at hread hskip
  have hmark : ¬ (encode j).head? = some (Char.ofNat 0xfeff) := by
    obtain ⟨c,cs,heq,hc⟩ := starts_encode j
    rw [heq]
    intro hhead
    obtain rfl := Option.some.inj hhead
    exact absurd hc (by decide)
  rw [loads,if_neg hmark,hskip,hread]
  rfl

/-! ## Sorted keys -/

omit [JsonFloat F] in
theorem sortKeysList_eq_map (xs : List (JsonValue F)) : sortKeysList xs = xs.map sortKeys := by
  induction xs with
  | nil => rfl
  | cons x xs ih => rw [sortKeysList,ih,List.map_cons]

omit [JsonFloat F] in
theorem sortKeysFields_eq_map (fields : List (String × JsonValue F)) :
    sortKeysFields fields = fields.map fun f => (f.1,sortKeys f.2) := by
  induction fields with
  | nil => rfl
  | cons f fields ih => rw [sortKeysFields,ih,List.map_cons]

omit [JsonFloat F] in
theorem integersFields_eq_flatMap (fields : List (String × JsonValue F)) :
    integersFields fields = fields.flatMap fun f => integers f.2 := by
  induction fields with
  | nil => rfl
  | cons f fields ih => rw [integersFields,ih,List.flatMap_cons]

omit [JsonFloat F] in
theorem keys_sortKeysFields (fields : List (String × JsonValue F)) :
    (sortKeysFields fields).map Prod.fst = fields.map Prod.fst := by
  rw [sortKeysFields_eq_map,List.map_map]
  rfl

omit [JsonFloat F] in
/-- The field of a key is where it was, with its own keys sorted. -/
theorem lookup_sortKeys {fields : List (String × JsonValue F)}
    (hunique : (fields.map Prod.fst).Nodup) (k : String) :
    ((sortKeysFields fields).mergeSort fun a b => a.1 ≤ b.1).lookup k =
      (fields.lookup k).map sortKeys := by
  have hperm := List.mergeSort_perm (sortKeysFields fields) fun a b => a.1 ≤ b.1
  rw [← Dictionaries.sameDict_of_perm hperm.symm (by rwa [keys_sortKeysFields]),
    sortKeysFields_eq_map,Dictionaries.lookup_map_values fun _ => sortKeys]

theorem Fits.sortKeys {j : JsonValue F} (h : Fits limit j) : Fits limit (sortKeys j) := by
  induction h with
  | null => exact .null
  | bool b => exact .bool b
  | int h => exact .int h
  | float h => exact .float h
  | str s => exact .str s
  | arr _ ih =>
    rw [JsonText.sortKeys,sortKeysList_eq_map]
    exact .arr (List.forall_mem_map.mpr ih)
  | @obj fields hunique _ ih =>
    have hperm := List.mergeSort_perm (sortKeysFields fields) fun a b => a.1 ≤ b.1
    rw [JsonText.sortKeys]
    refine .obj ?_ fun f hf => ?_
    · rwa [(hperm.map Prod.fst).nodup_iff,keys_sortKeysFields]
    · rw [hperm.mem_iff,sortKeysFields_eq_map] at hf
      obtain ⟨g,hg,rfl⟩ := List.mem_map.mp hf
      exact ih g hg

/-- The limit is one on the size of an integer. -/
theorem printable_iff (n : ℤ) : Printable limit n ↔ limit = 0 ∨ n.natAbs < 10^limit := by
  have hdigits : ∀ k, (Nat.toDigits 10 k).filter Char.isDigit = Nat.toDigits 10 k := fun k =>
    List.filter_eq_self.mpr fun c hc => isDigit_of_mem_toDigits hc
  have hcount : digitCount (decimal n) = (Nat.toDigits 10 n.natAbs).length := by
    rw [digitCount]
    cases n with
    | ofNat k => exact congrArg List.length (hdigits k)
    | negSucc k => exact congrArg List.length (hdigits (k+1))
  refine or_congr_right' fun hpos => ?_
  rw [hcount,Nat.length_toDigits_le_iff (by decide) (Nat.pos_of_ne_zero hpos)]

/-! ## Characters -/

/-- The characters that are printed. -/
def Ascii (cs : List Char) : Prop := ∀ c ∈ cs, 32 ≤ c.toNat ∧ c.toNat ≤ 126

theorem Ascii.append {cs cs' : List Char} (h : Ascii cs) (h' : Ascii cs') : Ascii (cs++cs') :=
  fun c hc => (List.mem_append.mp hc).elim (h c) (h' c)

theorem Ascii.cons {c : Char} {cs : List Char} (hc : 32 ≤ c.toNat ∧ c.toNat ≤ 126) (h : Ascii cs) :
    Ascii (c::cs) := List.forall_mem_cons.mpr ⟨hc,h⟩

theorem ascii_of_all {cs : List Char}
    (h : (cs.all fun c => decide (32 ≤ c.toNat) && decide (c.toNat ≤ 126)) = true) : Ascii cs := by
  intro c hc
  simpa using List.all_eq_true.mp h c hc

theorem ascii_nil : Ascii [] := fun c hc => by cases hc

theorem ascii_digits {ds : List Char} (h : ∀ c ∈ ds, c.isDigit = true) : Ascii ds := by
  intro c hc
  have hdigit := h c hc
  simp only [Char.isDigit,Bool.and_eq_true,decide_eq_true_eq,ge_iff_le,UInt32.le_iff_toNat_le]
    at hdigit
  have hcode : c.val.toNat = c.toNat := rfl
  have hzero : '0'.val.toNat = 48 := rfl
  have hnine : '9'.val.toNat = 57 := rfl
  omega

theorem ascii_wholeDigits {ds : List Char} (h : WholeDigits ds) : Ascii ds := by
  rcases h with rfl | ⟨d,rest,rfl,hd,-,hrest⟩
  · exact ascii_digits (List.forall_mem_singleton.mpr rfl)
  · exact ascii_digits (List.forall_mem_cons.mpr ⟨hd,hrest⟩)

theorem ascii_decimal (n : ℤ) : Ascii (decimal n) := by
  intro c hc
  rcases mem_decimal hc with rfl | hdigit
  · decide
  · exact ascii_digits (List.forall_mem_singleton.mpr hdigit) c List.mem_cons_self

theorem ascii_literal (l : FloatLiteral) : Ascii l.text := by
  have hsign : Ascii (if l.negative then ['-'] else []) := by
    split
    · exact Ascii.cons (by decide) ascii_nil
    · exact ascii_nil
  have hfraction : Ascii l.fractionText := by
    rw [FloatLiteral.fractionText]
    cases hfrac : l.fraction with
    | none => exact ascii_nil
    | some ds => exact Ascii.cons (by decide) (ascii_digits (l.fractionDigits ds hfrac).2)
  have hexponent : Ascii l.exponentText := by
    rw [FloatLiteral.exponentText]
    cases hexp : l.exponent with
    | none => exact ascii_nil
    | some e =>
      obtain ⟨hsign,-,hds⟩ := l.exponentDigits e hexp
      refine Ascii.cons (by decide) (Ascii.append (fun c hc => ?_) (ascii_digits hds))
      rcases hsign c (Option.mem_toList.mp hc) with rfl | rfl
      · decide
      · decide
  exact ((hsign.append (ascii_wholeDigits l.wholeDigits)).append hfraction).append hexponent

theorem ascii_unitEscape (n : ℕ) : Ascii (unitEscape n) := by
  have hdigit : ∀ d < 16, 32 ≤ (hexDigit d).toNat ∧ (hexDigit d).toNat ≤ 126 := by decide
  have hmod : ∀ m, m%16 < 16 := fun m => Nat.mod_lt m (by decide)
  rw [unitEscape,hex4]
  exact Ascii.cons (by decide) (Ascii.cons (by decide) (Ascii.cons (hdigit _ (hmod _))
    (Ascii.cons (hdigit _ (hmod _)) (Ascii.cons (hdigit _ (hmod _))
      (Ascii.cons (hdigit _ (hmod _)) ascii_nil)))))

theorem ascii_escapeChar (c : Char) : Ascii (escapeChar c) := by
  unfold escapeChar
  split
  · next e heq =>
    have hshort : ∀ x ∈ shortEscapes, 32 ≤ x.2.toNat ∧ x.2.toNat ≤ 126 := by decide
    exact Ascii.cons (by decide) (Ascii.cons (hshort _ (Dictionaries.mem_of_lookup heq)) ascii_nil)
  · split
    · next hprint => exact Ascii.cons hprint ascii_nil
    · split
      · exact ascii_unitEscape _
      · exact (ascii_unitEscape _).append (ascii_unitEscape _)

theorem ascii_quote (s : String) : Ascii (quote s) := by
  refine Ascii.cons (by decide) (Ascii.append (fun c hc => ?_) (Ascii.cons (by decide) ascii_nil))
  obtain ⟨d,-,hd⟩ := List.mem_flatMap.mp hc
  exact ascii_escapeChar d c hd

theorem ascii_encodeTail {xs : List (JsonValue F)} (h : ∀ x ∈ xs, Ascii (encode x)) :
    Ascii (encodeTail xs) := by
  induction xs with
  | nil => exact ascii_nil
  | cons x xs ih =>
    obtain ⟨hx,hxs⟩ := List.forall_mem_cons.mp h
    rw [encodeTail]
    exact Ascii.cons (by decide) (Ascii.cons (by decide) (hx.append (ih hxs)))

theorem ascii_field (k : String) {x : JsonValue F} (hx : Ascii (encode x)) {cs : List Char}
    (h : Ascii cs) : Ascii (quote k++(':' :: ' '::(encode x++cs))) :=
  (ascii_quote k).append (Ascii.cons (by decide) (Ascii.cons (by decide) (hx.append h)))

theorem ascii_encodeFieldsTail {fields : List (String × JsonValue F)}
    (h : ∀ f ∈ fields, Ascii (encode f.2)) : Ascii (encodeFieldsTail fields) := by
  induction fields with
  | nil => exact ascii_nil
  | cons f fields ih =>
    obtain ⟨hf,hfields⟩ := List.forall_mem_cons.mp h
    rw [encodeFieldsTail]
    exact Ascii.cons (by decide) (Ascii.cons (by decide) (ascii_field f.1 hf (ih hfields)))

/-- Nothing but printable characters of ASCII is printed. -/
theorem Fits.ascii {j : JsonValue F} (h : Fits limit j) : Ascii (encode j) := by
  have hclose : ∀ c : Char, 32 ≤ c.toNat ∧ c.toNat ≤ 126 → Ascii [c] := fun c hc =>
    Ascii.cons hc ascii_nil
  induction h with
  | null =>
    rw [encode]
    exact ascii_of_all (by decide)
  | bool b =>
    cases b with
    | false =>
      rw [encode]
      exact ascii_of_all (by decide)
    | true =>
      rw [encode]
      exact ascii_of_all (by decide)
  | int _ =>
    rw [encode]
    exact ascii_decimal _
  | float _ =>
    rw [encode,floatText]
    split
    · exact ascii_of_all (by decide)
    · exact ascii_of_all (by decide)
    · exact ascii_of_all (by decide)
    · exact ascii_literal _
  | str s =>
    rw [encode]
    exact ascii_quote s
  | @arr xs _ ih =>
    cases xs with
    | nil =>
      rw [encode]
      exact ascii_of_all (by decide)
    | cons x xs =>
      obtain ⟨hx,hxs⟩ := List.forall_mem_cons.mp ih
      rw [encode]
      exact Ascii.cons (by decide)
        (hx.append ((ascii_encodeTail hxs).append (hclose _ (by decide))))
  | @obj fields _ _ ih =>
    cases fields with
    | nil =>
      rw [encode]
      exact ascii_of_all (by decide)
    | cons f fields =>
      obtain ⟨hf,hfields⟩ := List.forall_mem_cons.mp ih
      rw [encode]
      exact Ascii.cons (by decide)
        (ascii_field f.1 hf ((ascii_encodeFieldsTail hfields).append (hclose _ (by decide))))

end RoundTrip

end JsonText
