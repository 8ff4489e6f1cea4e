import Mathlib.Data.Nat.Digits.Defs
import Mathlib.Data.Nat.ModEq
import Mathlib.Tactic.Ring
import Mathlib.Tactic.Linarith

/-!
# Column sums of digit vectors

Numbers are given by their base-`b` digits, least significant first. Adding several such
vectors column by column and reducing every column modulo `b` forgets the carries. The
results below say exactly when the forgotten carries are harmless.
-/

namespace DigitSum

/-- Add the digit vectors column by column, without any carry. -/
def columns (w : ℕ) (vs : List (List ℕ)) : List ℕ :=
  vs.foldr (List.zipWith (· + ·)) (List.replicate w 0)

/-- What a column-wise adder keeps of each column. -/
def wrapped (b : ℕ) (cols : List ℕ) : List ℕ := cols.map (· % b)

/-- What a column-wise adder drops of each column. -/
def dropped (b : ℕ) (cols : List ℕ) : List ℕ := cols.map (· / b)

/-- The value of the carries out of every column but the last one. -/
def lostCarry (b : ℕ) (cols : List ℕ) : ℕ := Nat.ofDigits b (dropped b cols).dropLast

@[simp] theorem wrapped_length (b : ℕ) (cols : List ℕ) :
    (wrapped b cols).length = cols.length := by
  simp [wrapped]

@[simp] theorem dropped_length (b : ℕ) (cols : List ℕ) :
    (dropped b cols).length = cols.length := by
  simp [dropped]

@[simp] theorem columns_nil (w : ℕ) : columns w [] = List.replicate w 0 := rfl

@[simp] theorem columns_cons (w : ℕ) (v : List ℕ) (vs : List (List ℕ)) :
    columns w (v::vs) = List.zipWith (· + ·) v (columns w vs) := rfl

theorem columns_length {w : ℕ} {vs : List (List ℕ)} (h : ∀ v ∈ vs, v.length = w) :
    (columns w vs).length = w := by
  induction vs with
  | nil => simp
  | cons v vs ih =>
    have hv := h v (by simp)
    have ht := ih (fun u hu => h u (by simp [hu]))
    simp [hv,ht]

/-- The columns together carry the sum of the values. -/
theorem ofDigits_columns (b : ℕ) {w : ℕ} {vs : List (List ℕ)} (h : ∀ v ∈ vs, v.length = w) :
    Nat.ofDigits b (columns w vs) = (vs.map (Nat.ofDigits b)).sum := by
  induction vs with
  | nil => simp
  | cons v vs ih =>
    have ht : ∀ u ∈ vs, u.length = w := fun u hu => h u (by simp [hu])
    have hl : v.length = (columns w vs).length := by rw [columns_length ht,h v (by simp)]
    rw [columns_cons,← Nat.ofDigits_add_ofDigits_eq_ofDigits_zipWith_of_length_eq hl,ih ht]
    simp

/-- Wrapping between two additions changes nothing that a last wrapping keeps. -/
theorem wrapped_zipWith_wrapped (b : ℕ) (u v cols : List ℕ) :
    wrapped b (List.zipWith (· + ·) (wrapped b (List.zipWith (· + ·) u v)) cols) =
      wrapped b (List.zipWith (· + ·) u (List.zipWith (· + ·) v cols)) := by
  apply List.ext_getElem
  · simp [wrapped]
  · intro i h1 h2
    simp only [wrapped,List.getElem_map,List.getElem_zipWith,Nat.mod_add_mod,Nat.add_assoc]

/-- Every column is its kept digit plus `b` times its dropped carry. -/
theorem wrapped_add_dropped (b : ℕ) (cols : List ℕ) :
    Nat.ofDigits b (wrapped b cols) + b*Nat.ofDigits b (dropped b cols) =
      Nat.ofDigits b cols := by
  induction cols with
  | nil => simp [wrapped,dropped]
  | cons c cs ih =>
    have hc := Nat.mod_add_div c b
    simp only [wrapped,dropped,List.map_cons,Nat.ofDigits_cons] at ih ⊢
    rw [← ih]
    calc
      _ = (c % b + b*(c / b)) + b*(Nat.ofDigits b (cs.map (· % b)) +
          b*Nat.ofDigits b (cs.map (· / b))) := by ring
      _ = _ := by rw [hc]

theorem wrapped_lt {b : ℕ} (hb : 1 < b) (cols : List ℕ) :
    Nat.ofDigits b (wrapped b cols) < b^cols.length := by
  have hd : ∀ x ∈ wrapped b cols, x < b := by
    intro x hx
    obtain ⟨c,_,rfl⟩ := List.mem_map.mp hx
    exact Nat.mod_lt _ (by omega)
  simpa using Nat.ofDigits_lt_base_pow_length hb hd

/-- The carry out of the last column is a multiple of the modulus, so it never matters. -/
theorem dropped_value {b : ℕ} {cols : List ℕ} (hne : cols ≠ []) :
    Nat.ofDigits b (dropped b cols) =
      lostCarry b cols + b^(cols.length-1)*(cols.getLast hne / b) := by
  have hd : dropped b cols ≠ [] := by simpa [dropped] using hne
  conv_lhs => rw [← List.dropLast_concat_getLast hd]
  rw [Nat.ofDigits_append,Nat.ofDigits_singleton]
  simp [lostCarry,dropped,List.getLast_map]

/-- The column-wise adder computes the sum modulo `b^w` exactly when the carries lost
below the last column amount to a multiple of `b^(w-1)`. -/
theorem wrapped_eq_mod_iff {b : ℕ} (hb : 1 < b) {cols : List ℕ} (hne : cols ≠ []) :
    Nat.ofDigits b (wrapped b cols) = Nat.ofDigits b cols % b^cols.length ↔
      b^(cols.length-1) ∣ lostCarry b cols := by
  have hpos : 0 < cols.length := List.length_pos_iff.mpr hne
  have hpow : b^cols.length = b*b^(cols.length-1) := by
    rw [← pow_succ',Nat.sub_add_cancel hpos]
  have hlt := wrapped_lt hb cols
  have hsum := wrapped_add_dropped b cols
  have hsplit : Nat.ofDigits b (wrapped b cols) = Nat.ofDigits b cols % b^cols.length ↔
      b^cols.length ∣ b*Nat.ofDigits b (dropped b cols) := by
    rw [← hsum]
    constructor
    · intro h
      have hmod : Nat.ofDigits b (wrapped b cols) + b*Nat.ofDigits b (dropped b cols) ≡
          Nat.ofDigits b (wrapped b cols) + 0 [MOD b^cols.length] := by
        change _ % _ = _ % _
        rw [Nat.add_zero,Nat.mod_eq_of_lt hlt,← h]
      exact (Nat.modEq_zero_iff_dvd).mp (Nat.ModEq.add_left_cancel' _ hmod)
    · rintro ⟨q,hq⟩
      rw [hq,Nat.add_mul_mod_self_left,Nat.mod_eq_of_lt hlt]
  rw [hsplit,hpow,Nat.mul_dvd_mul_iff_left (by omega : 0 < b),dropped_value hne]
  exact (Nat.dvd_add_iff_left (Dvd.intro _ rfl)).symm

theorem lostCarry_eq_zero_iff {b : ℕ} (hb : 1 < b) (cols : List ℕ) :
    lostCarry b cols = 0 ↔ ∀ c ∈ cols.dropLast, c < b := by
  have hmap : (dropped b cols).dropLast = cols.dropLast.map (· / b) := by
    simp [dropped,List.map_dropLast]
  rw [lostCarry,hmap]
  induction cols.dropLast with
  | nil => simp
  | cons c cs ih =>
    simp only [List.map_cons,Nat.ofDigits_cons,Nat.add_eq_zero_iff,Nat.mul_eq_zero,
      List.forall_mem_cons]
    have hc : c / b = 0 ↔ c < b := Nat.div_eq_zero_iff_lt (by omega)
    have hb0 : b ≠ 0 := by omega
    simp only [hc,hb0,false_or,ih]

/-- With at most `b+1` vectors of digits no column reaches `b*b`. -/
theorem columns_lt_square {b w : ℕ} (hb : 1 < b) {vs : List (List ℕ)}
    (hlen : vs.length ≤ b+1) (hdig : ∀ v ∈ vs, ∀ d ∈ v, d < b) :
    ∀ c ∈ columns w vs, c < b*b := by
  have hbound : ∀ c ∈ columns w vs, c ≤ vs.length*(b-1) := by
    clear hlen
    induction vs with
    | nil => simp +contextual [columns_nil,List.mem_replicate]
    | cons v vs ih =>
      intro c hc
      rw [columns_cons,List.mem_iff_getElem] at hc
      obtain ⟨i,hi,rfl⟩ := hc
      simp only [List.length_zipWith,lt_min_iff] at hi
      have hv : v[i] < b := hdig v (by simp) _ (List.getElem_mem hi.1)
      have ht := ih (fun u hu => hdig u (by simp [hu])) _ (List.getElem_mem hi.2)
      simp only [List.getElem_zipWith,List.length_cons,Nat.add_mul,Nat.one_mul]
      omega
  intro c hc
  have h := hbound c hc
  obtain ⟨d,rfl⟩ : ∃ d, b = d+2 := ⟨b-2,by omega⟩
  have hm : vs.length*(d+2-1) ≤ (d+2+1)*(d+2-1) := Nat.mul_le_mul_right _ hlen
  have he : (d+2+1)*(d+2-1) + 1 = (d+2)*(d+2) := by
    rw [show d+2-1 = d+1 by omega]; ring
  omega

/-- For so few vectors the lost carries cannot conspire: the sum is right exactly when
no column below the last one overflows its digit. -/
theorem dvd_lostCarry_iff {b w : ℕ} (hb : 1 < b) {vs : List (List ℕ)}
    (hw : ∀ v ∈ vs, v.length = w) (hlen : vs.length ≤ b+1)
    (hdig : ∀ v ∈ vs, ∀ d ∈ v, d < b) :
    b^(w-1) ∣ lostCarry b (columns w vs) ↔ ∀ c ∈ (columns w vs).dropLast, c < b := by
  have hlt : lostCarry b (columns w vs) < b^(w-1) := by
    have hd : ∀ x ∈ (dropped b (columns w vs)).dropLast, x < b := by
      intro x hx
      have hx' : x ∈ (columns w vs).map (· / b) := (List.dropLast_sublist _).subset hx
      obtain ⟨c,hc,rfl⟩ := List.mem_map.mp hx'
      exact Nat.div_lt_of_lt_mul (columns_lt_square hb hlen hdig c hc)
    have h := Nat.ofDigits_lt_base_pow_length hb hd
    rwa [List.length_dropLast,dropped_length,columns_length hw] at h
  rw [← lostCarry_eq_zero_iff hb]
  constructor
  · intro h
    exact Nat.eq_zero_of_dvd_of_lt h hlt
  · intro h
    rw [h]
    exact dvd_zero _

end DigitSum
