import Mathlib.Algebra.Ring.Nat
import Mathlib.Data.List.Lex

/-!
# Texts of fixed width

Numbers are printed in columns with zeros in front and characters in between, as `strftime` does.
The values are read back from the columns, and the texts are ordered as the values are.
-/

namespace FixedWidth

inductive Piece where
  | digits (width : ℕ)
  | char (c : Char)

/-- The number with zeros in front; what does not fit is cut off. -/
def padded : ℕ → ℕ → List Char
  | 0,_ => []
  | w+1,n => padded w (n/10)++[(n%10).digitChar]

def format : List Piece → List ℕ → List Char
  | [],_ => []
  | .char c::ps,ns => c::format ps ns
  | .digits w::ps,n::ns => padded w n++format ps ns
  | .digits _::_,[] => []

/-- The values in the columns and the text behind them. -/
def scan : List Piece → List Char → Option (List ℕ×List Char)
  | [],text => some ([],text)
  | .char c::ps,d::text => if d = c then scan ps text else none
  | .char _::_,[] => none
  | .digits w::ps,text =>
    if (text.take w).length = w ∧ (text.take w).all Char.isDigit then
      (scan ps (text.drop w)).map fun r => (Nat.ofDigitChars 10 (text.take w) 0::r.1,r.2)
    else none

/-- Each value has its column and fits into it. -/
def Fits : List Piece → List ℕ → Prop
  | [],ns => ns = []
  | .char _::ps,ns => Fits ps ns
  | .digits w::ps,n::ns => n < 10^w ∧ Fits ps ns
  | .digits _::_,[] => False

/-! ## One column -/

@[simp] theorem length_padded (w n : ℕ) : (padded w n).length = w := by
  induction w generalizing n with
  | zero => rfl
  | succ w ih => rw [padded,List.length_append,ih,List.length_singleton]

theorem isDigit_digitChar {d : ℕ} (h : d < 10) : d.digitChar.isDigit = true := by
  have hall : ∀ d < 10, d.digitChar.isDigit = true := by decide
  exact hall d h

theorem all_padded (w n : ℕ) : (padded w n).all Char.isDigit = true := by
  induction w generalizing n with
  | zero => rfl
  | succ w ih =>
    rw [padded,List.all_append,ih,List.all_cons,isDigit_digitChar (Nat.mod_lt n (by decide))]
    rfl

theorem ofDigitChars_padded {w n : ℕ} (h : n < 10^w) :
    Nat.ofDigitChars 10 (padded w n) 0 = n := by
  induction w generalizing n with
  | zero => exact (Nat.lt_one_iff.mp h).symm
  | succ w ih =>
    have hdiv : n/10 < 10^w := Nat.div_lt_of_lt_mul (by rw [pow_succ] at h; omega)
    rw [padded,Nat.ofDigitChars_append,ih hdiv,
      Nat.ofDigitChars_cons_digitChar_of_lt_ten (Nat.mod_lt n (by decide)),Nat.ofDigitChars_nil]
    omega

theorem append_lt_append {a b : List Char} (hlen : a.length = b.length) (h : a < b)
    (x y : List Char) : a++x < b++y := by
  induction a generalizing b with
  | nil =>
    cases b with
    | nil => exact absurd h (List.lt_irrefl [])
    | cons d b => cases hlen
  | cons c a ih =>
    cases b with
    | nil => cases hlen
    | cons d b =>
      rw [List.cons_append,List.cons_append,List.cons_lt_cons_iff]
      exact (List.cons_lt_cons_iff.mp h).imp_right fun hb => ⟨hb.1,ih (Nat.succ.inj hlen) hb.2⟩

theorem digitChar_lt {d e : ℕ} (h : d < e) (he : e < 10) : d.digitChar < e.digitChar := by
  have hall : ∀ e < 10, ∀ d < e, d.digitChar < e.digitChar := by decide
  exact hall e he d h

theorem padded_lt {w n m : ℕ} (hnm : n < m) (hm : m < 10^w) : padded w n < padded w m := by
  induction w generalizing n m with
  | zero => exact absurd (Nat.lt_one_iff.mp hm) (by omega)
  | succ w ih =>
    have hdiv : m/10 < 10^w := Nat.div_lt_of_lt_mul (by rw [pow_succ] at hm; omega)
    rw [padded,padded]
    rcases Nat.lt_or_eq_of_le (Nat.div_le_div_right (Nat.le_of_lt hnm) : n/10 ≤ m/10) with hlt | heq
    · exact append_lt_append (by simp) (ih hlt hdiv) _ _
    · have hdigit : (n%10).digitChar < (m%10).digitChar := digitChar_lt (by omega) (by omega)
      rw [heq]
      exact List.append_left_lt (List.cons_lt_cons_iff.mpr (.inl hdigit))

/-! ## All of them -/

/-- What is printed is read. -/
theorem scan_format {ps : List Piece} {ns : List ℕ} (h : Fits ps ns) (rest : List Char) :
    scan ps (format ps ns++rest) = some (ns,rest) := by
  induction ps generalizing ns with
  | nil =>
    rw [show ns = [] from h]
    rfl
  | cons p ps ih =>
    cases p with
    | char c =>
      rw [format,List.cons_append,scan,if_pos rfl]
      exact ih h
    | digits w =>
      cases ns with
      | nil => exact h.elim
      | cons n ns =>
        obtain ⟨hn,hns⟩ := h
        have htake : (padded w n++(format ps ns++rest)).take w = padded w n :=
          List.take_left' (length_padded w n)
        have hdrop : (padded w n++(format ps ns++rest)).drop w = format ps ns++rest :=
          List.drop_left' (length_padded w n)
        rw [format,List.append_assoc,scan,htake,hdrop,
          if_pos ⟨length_padded w n,all_padded w n⟩,ih hns,ofDigitChars_padded hn]
        rfl

/-- The texts of later values come later, whatever stands behind them. -/
theorem format_lt {ps : List Piece} {ns ms : List ℕ} (hns : Fits ps ns) (hms : Fits ps ms)
    (h : ns < ms) (x y : List Char) : format ps ns++x < format ps ms++y := by
  induction ps generalizing ns ms with
  | nil =>
    rw [show ns = [] from hns,show ms = [] from hms] at h
    exact absurd h (List.lt_irrefl [])
  | cons p ps ih =>
    cases p with
    | char c => exact List.cons_lt_cons_iff.mpr (.inr ⟨rfl,ih hns hms h⟩)
    | digits w =>
      cases ns with
      | nil => exact hns.elim
      | cons n ns =>
        cases ms with
        | nil => exact hms.elim
        | cons m ms =>
          rw [format,format,List.append_assoc,List.append_assoc]
          rcases List.cons_lt_cons_iff.mp h with hlt | ⟨rfl,hlt⟩
          · exact append_lt_append (by simp) (padded_lt hlt hms.1) _ _
          · exact List.append_left_lt (ih hns.2 hms.2 hlt)

/-! ## The shape -/

/-- A digit, or this character, for each place of the text. -/
def shape : List Piece → List (Option Char)
  | [] => []
  | .char c::ps => some c::shape ps
  | .digits w::ps => List.replicate w none++shape ps

def behind : List (Option Char) → List Char → Option (List Char)
  | [],text => some text
  | some c::ss,d::text => if d = c then behind ss text else none
  | none::ss,d::text => if d.isDigit then behind ss text else none
  | _::_,[] => none

theorem behind_eq {ss : List (Option Char)} {text rest : List Char}
    (h : behind ss text = some rest) :
    ∃ front, text = front++rest ∧ ∀ c ∈ front, c.isDigit = true ∨ some c ∈ ss := by
  induction ss generalizing text with
  | nil => exact ⟨[],Option.some.inj h,List.forall_mem_nil _⟩
  | cons s ss ih =>
    have htail : ∀ {d : Char} {text : List Char}, behind ss text = some rest →
        (d.isDigit = true ∨ some d ∈ s::ss) →
        ∃ front, d::text = front++rest ∧ ∀ c ∈ front, c.isDigit = true ∨ some c ∈ s::ss := by
      intro d text htext hd
      obtain ⟨front,rfl,hfront⟩ := ih htext
      exact ⟨d::front,rfl,List.forall_mem_cons.mpr
        ⟨hd,fun c hc => (hfront c hc).imp_right (List.mem_cons_of_mem s)⟩⟩
    cases text with
    | nil => cases s <;> cases h
    | cons d text =>
      cases s with
      | none =>
        obtain ⟨hd,htext⟩ := Option.ite_none_right_eq_some.mp h
        exact htail htext (.inl hd)
      | some c =>
        obtain ⟨rfl,htext⟩ := Option.ite_none_right_eq_some.mp h
        exact htail htext (.inr List.mem_cons_self)

theorem behind_replicate (w : ℕ) (ss : List (Option Char)) (text : List Char) :
    behind (List.replicate w none++ss) text =
      if (text.take w).length = w ∧ (text.take w).all Char.isDigit then behind ss (text.drop w)
      else none := by
  induction w generalizing text with
  | zero => simp
  | succ w ih =>
    cases text with
    | nil => simp [List.replicate_succ,behind]
    | cons d text =>
      rw [List.replicate_succ,List.cons_append,behind,ih]
      by_cases hd : d.isDigit = true
      · simp [hd]
      · simp [hd]

/-- What is left behind the columns is a matter of the shape. -/
theorem scan_rest (ps : List Piece) (text : List Char) :
    (scan ps text).map Prod.snd = behind (shape ps) text := by
  induction ps generalizing text with
  | nil => rfl
  | cons p ps ih =>
    cases p with
    | char c =>
      cases text with
      | nil => rfl
      | cons d text =>
        rw [scan,shape,behind]
        split
        · exact ih text
        · rfl
    | digits w =>
      rw [scan,shape,behind_replicate]
      split
      · rw [Option.map_map,← ih]
        rfl
      · rfl

end FixedWidth
