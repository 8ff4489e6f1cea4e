import Mathlib.Data.Int.Notation
import Mathlib.Data.List.Basic
import Mathlib.Order.Basic

/-!
# Integers in decimal

Integers as texts of digits with a sign, and back.
-/

namespace DecimalText

def decimal : ℤ → List Char
  | .ofNat n => Nat.toDigits 10 n
  | .negSucc n => '-'::Nat.toDigits 10 (n+1)

def readNat (text : List Char) : Option ℕ :=
  if text ≠ [] ∧ text.all Char.isDigit then some (Nat.ofDigitChars 10 text 0) else none

def readInt (text : List Char) : Option ℤ :=
  match text with
  | '-'::digits => (readNat digits).map fun n => -(n : ℤ)
  | _ => (readNat text).map Int.ofNat

theorem isDigit_of_mem_toDigits {n : ℕ} {c : Char} (h : c ∈ Nat.toDigits 10 n) :
    c.isDigit = true := Nat.isDigit_of_mem_toDigits (by decide) (by decide) h

/-- A number that is not zero has no zero in front. -/
theorem toDigits_eq_cons (n : ℕ) (h : n ≠ 0) : ∃ d rest, Nat.toDigits 10 n = d::rest ∧
    d.isDigit = true ∧ d ≠ '0' ∧ ∀ c ∈ rest, c.isDigit = true := by
  induction n using Nat.strongRecOn with
  | ind n ih =>
    by_cases hsmall : n < 10
    · refine ⟨n.digitChar,[],Nat.toDigits_of_lt_base hsmall,?_,?_,by simp⟩
      · exact isDigit_of_mem_toDigits (n:=n) (by rw [Nat.toDigits_of_lt_base hsmall]; simp)
      · have hdigits : ∀ m < 10, m ≠ 0 → m.digitChar ≠ '0' := by decide
        exact hdigits n hsmall h
    · obtain ⟨d,rest,hdigits,hd,hzero,hrest⟩ := ih (n/10) (by omega) (by omega)
      refine ⟨d,rest++[(n%10).digitChar],?_,hd,hzero,?_⟩
      · rw [Nat.toDigits_of_base_le (by decide) (by omega),hdigits]
        rfl
      · intro c hc
        refine isDigit_of_mem_toDigits (n:=n) ?_
        rw [Nat.toDigits_of_base_le (by decide) (by omega),hdigits]
        exact List.mem_cons_of_mem d hc

theorem readNat_toDigits (n : ℕ) : readNat (Nat.toDigits 10 n) = some n := by
  have hall : (Nat.toDigits 10 n).all Char.isDigit = true :=
    List.all_eq_true.mpr fun c hc => isDigit_of_mem_toDigits hc
  rw [readNat,if_pos ⟨Nat.toDigits_ne_nil,hall⟩,Nat.ofDigitChars_ten_toDigits]

theorem decimal_ne_nil (n : ℤ) : decimal n ≠ [] := by
  cases n with
  | ofNat n => exact Nat.toDigits_ne_nil
  | negSucc n => exact List.cons_ne_nil _ _

/-- A decimal has digits and at most a sign. -/
theorem mem_decimal {n : ℤ} {c : Char} (h : c ∈ decimal n) : c = '-' ∨ c.isDigit = true := by
  cases n with
  | ofNat n => exact .inr (isDigit_of_mem_toDigits h)
  | negSucc n => exact (List.mem_cons.mp h).imp_right isDigit_of_mem_toDigits

theorem readInt_decimal (n : ℤ) : readInt (decimal n) = some n := by
  cases n with
  | ofNat n =>
    have hsign : ∀ digits, Nat.toDigits 10 n ≠ '-'::digits := fun digits heq => by
      have hdigit := isDigit_of_mem_toDigits (heq ▸ List.mem_cons_self)
      exact absurd hdigit (by decide)
    rw [decimal,readInt]
    · rw [readNat_toDigits]
      rfl
    · exact hsign
  | negSucc n =>
    rw [decimal,readInt,readNat_toDigits]
    rfl

end DecimalText
