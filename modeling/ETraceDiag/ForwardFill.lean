import ETraceDiag.TimeRcdFuse

/-!
# Forward fill by row numbers

`pd_ffill` of `detection/time_rcd_fuse.py` as numpy computes it: a running maximum over the numbers
of the rows that hold a number, with 0 for none yet, says which row a cell is taken from.
-/

namespace ETraceDiag
namespace ForwardFill

open AlignedGrid TimeRcdFuse

variable {α F : Type} {m n : ℕ}

/-- An array of `m` rows and `n` columns. -/
abbrev Array2 (α : Type) (m n : ℕ) := Fin m → Fin n → α

/-- `np.where`. -/
def npWhere (mask : Array2 Bool m n) (a b : Array2 α m n) : Array2 α m n :=
  fun i j => if mask i j then a i j else b i j

/-- `np.maximum.accumulate` of a column, up to a row. -/
def maximumAccumulate (column : Fin m → ℕ) : (i : ℕ) → i < m → ℕ
  | 0,h => column ⟨0,h⟩
  | i+1,h => max (maximumAccumulate column i (Nat.lt_of_succ_lt h)) (column ⟨i+1,h⟩)

/-- `out[idx,np.arange(n)]`; a row number that is outside is an `IndexError`. -/
def takeRows (out : Array2 α m n) (idx : Array2 ℕ m n) : Option (Array2 α m n) :=
  if h : ∀ i j, idx i j < m then some fun i j => out ⟨idx i j,h i j⟩ j else none

section Fill

variable [NanFloat F]

/-- `np.isnan`. -/
def isnan (out : Array2 F m n) : Array2 Bool m n := fun i j => NanFloat.isNan (out i j)

/-- The row numbers of the cells that hold a number, 0 elsewhere. -/
def rowNumbers (mask : Array2 Bool m n) : Array2 ℕ m n :=
  npWhere (fun i j => !mask i j) (fun i _ => i.val) (fun _ _ => 0)

/-- `pd_ffill`. -/
def pdFfill (mat : Array2 F m n) : Option (Array2 F m n) :=
  let mask := isnan mat
  let idx : Array2 ℕ m n := fun i j =>
    maximumAccumulate (fun i => rowNumbers mask i j) i.val i.isLt
  (takeRows mat idx).map fun taken => npWhere mask taken mat

/-- The nearest cell at or above a cell that is a number. -/
def Nearest (mat : Array2 F m n) (i : Fin m) (j : Fin n) (k : Fin m) : Prop :=
  k ≤ i ∧ NanFloat.isNan (mat k j) = false ∧ ∀ l, k < l → l ≤ i → NanFloat.isNan (mat l j) = true

/-- What the running maximum says after a row: the last row with a number, or 0 before any. -/
structure LastRow (mat : Array2 F m n) (j : Fin n) (i r : ℕ) : Prop where
  le : r ≤ i
  after : ∀ l : Fin m, r < l.val → l.val ≤ i → NanFloat.isNan (mat l j) = true
  first : ∀ l : Fin m, l.val = r → NanFloat.isNan (mat l j) = true → r = 0

theorem LastRow.lt {mat : Array2 F m n} {j : Fin n} {i r : ℕ} (h : LastRow mat j i r) (hi : i < m) :
    r < m := h.le.trans_lt hi

/-- Another row: it has a number, or the row before it counts on. -/
theorem LastRow.step {mat : Array2 F m n} {j : Fin n} {i r : ℕ} (h : LastRow mat j i r)
    (hi : i+1 < m) : LastRow mat j (i+1) (max r (rowNumbers (isnan mat) ⟨i+1,hi⟩ j)) := by
  cases hnan : NanFloat.isNan (mat ⟨i+1,hi⟩ j) with
  | true =>
    have hzero : rowNumbers (isnan mat) ⟨i+1,hi⟩ j = 0 := by simp [rowNumbers,npWhere,isnan,hnan]
    rw [hzero,Nat.max_zero]
    refine ⟨Nat.le_succ_of_le h.le,fun l hl hli => ?_,h.first⟩
    rcases Nat.lt_or_eq_of_le hli with hlt | heq
    · exact h.after l hl (Nat.le_of_lt_succ hlt)
    · obtain rfl : l = ⟨i+1,hi⟩ := Fin.ext heq
      exact hnan
  | false =>
    have hrow : rowNumbers (isnan mat) ⟨i+1,hi⟩ j = i+1 := by
      simp [rowNumbers,npWhere,isnan,hnan]
    rw [hrow,Nat.max_eq_right (Nat.le_succ_of_le h.le)]
    refine ⟨Nat.le_refl _,fun l hl hli => absurd hl (Nat.not_lt.mpr hli),fun l hl hnot => ?_⟩
    obtain rfl : l = ⟨i+1,hi⟩ := Fin.ext hl
    rw [hnan] at hnot
    cases hnot

theorem lastRow_accumulate (mat : Array2 F m n) (j : Fin n) : ∀ (i : ℕ) (hi : i < m),
    LastRow mat j i (maximumAccumulate (fun i => rowNumbers (isnan mat) i j) i hi)
  | 0,hi => by
    have hzero : rowNumbers (isnan mat) ⟨0,hi⟩ j = 0 := by simp [rowNumbers,npWhere]
    rw [maximumAccumulate,hzero]
    exact ⟨Nat.le_refl _,fun l hl hli => absurd hl (Nat.not_lt.mpr hli),fun _ _ _ => rfl⟩
  | i+1,hi => (lastRow_accumulate mat j i (Nat.lt_of_succ_lt hi)).step hi

/-- The row a cell is taken from is inside the array, and the cell keeps its own number. -/
theorem pdFfill_eq (mat : Array2 F m n) : ∃ out, pdFfill mat = some out ∧
    ∀ (i : Fin m) (j : Fin n), ∃ r : Fin m, LastRow mat j i r ∧ out i j = mat r j := by
  have hidx := fun (i : Fin m) j => lastRow_accumulate mat j i.val i.isLt
  have hlt := fun (i : Fin m) j => (hidx i j).lt i.isLt
  refine ⟨_,by rw [pdFfill,takeRows,dif_pos hlt,Option.map_some],fun i j =>
    ⟨⟨_,hlt i j⟩,hidx i j,?_⟩⟩
  cases hnan : NanFloat.isNan (mat i j) with
  | true => simp [npWhere,isnan,hnan]
  | false =>
    have hself : maximumAccumulate (fun i => rowNumbers (isnan mat) i j) i.val i.isLt = i.val := by
      by_contra hne
      have hbefore := Nat.lt_of_le_of_ne (hidx i j).le hne
      have hno := (hidx i j).after i hbefore (Nat.le_refl _)
      rw [hnan] at hno
      cases hno
    simp [npWhere,isnan,hnan,hself]

/-- A cell is taken from the nearest number, and is none where there is none. -/
theorem LastRow.nearest {mat : Array2 F m n} {i r : Fin m} {j : Fin n} (h : LastRow mat j i r) :
    (∀ k, Nearest mat i j k → k = r) ∧
      (NanFloat.isNan (mat r j) = true ↔ ∀ k ≤ i, NanFloat.isNan (mat k j) = true) := by
  constructor
  · rintro k ⟨hki,hk,hafter⟩
    rcases lt_trichotomy k r with hlt | heq | hgt
    · have hnan := hafter r hlt h.le
      have hzero := h.first r rfl hnan
      exact absurd hlt (by simp [Fin.lt_def,hzero])
    · exact heq
    · have hnan := h.after k hgt hki
      rw [hk] at hnan
      cases hnan
  · constructor
    · intro hnan k hki
      rcases Nat.lt_or_ge r k with hlt | hge
      · exact h.after k hlt hki
      · have hzero := h.first r rfl hnan
        obtain rfl : k = r := Fin.ext (Nat.le_antisymm hge (by rw [hzero]; exact Nat.zero_le _))
        exact hnan
    · exact fun hall => hall r h.le

/-- In each cell the value of the nearest number at or above it in its column, no number exactly
where there is none, and every number where it was. -/
theorem pdFfill_nearest (mat : Array2 F m n) : ∃ out, pdFfill mat = some out ∧ ∀ i j,
    (∀ k, Nearest mat i j k → out i j = mat k j) ∧
      (NanFloat.isNan (out i j) = true ↔ ∀ k ≤ i, NanFloat.isNan (mat k j) = true) ∧
      (NanFloat.isNan (mat i j) = false → out i j = mat i j) := by
  obtain ⟨out,hout,hcells⟩ := pdFfill_eq mat
  refine ⟨out,hout,fun i j => ?_⟩
  obtain ⟨r,hr,hcell⟩ := hcells i j
  obtain ⟨hnearest,hnan⟩ := hr.nearest
  have htaken : ∀ k, Nearest mat i j k → out i j = mat k j := by
    intro k hk
    rw [hcell,hnearest k hk]
  refine ⟨htaken,hcell ▸ hnan,fun hnumber => htaken i ⟨le_rfl,hnumber,fun l hl hli => ?_⟩⟩
  exact absurd hl (not_lt.mpr hli)

example : (pdFfill (F:=Option ℚ) fun i (_ : Fin 1) => [none,some 1,none].get i).map
    (fun out => List.ofFn fun i => out i 0) = some [none,some 1,some 1] := by decide

end Fill

/-! ## The matrix of the detector -/

section Matrix

variable [Checkpoint F]

/-- A column that is filled row by row takes the nearest number too. -/
theorem ffill_nearest : ∀ (last : F) {xs : List F} {i k : ℕ} {x : F}, k ≤ i → i < xs.length →
    xs[k]? = some x → NanFloat.isNan x = false →
    (∀ l, k < l → l ≤ i → ∀ y ∈ xs[l]?, NanFloat.isNan y = true) → (ffill last xs)[i]? = some x := by
  intro last xs
  induction xs generalizing last with
  | nil => exact fun _ h => absurd h (Nat.not_lt_zero _)
  | cons y ys ih =>
    intro i k x hki hi hx hnumber hafter
    cases k with
    | zero =>
      obtain rfl : y = x := by simpa using hx
      rw [ffill,if_neg (by simp [hnumber])]
      cases i with
      | zero => rfl
      | succ i =>
        rw [List.getElem?_cons_succ]
        exact ffill_getElem? y (Nat.lt_of_succ_lt_succ hi) fun l hl =>
          hafter (l+1) (Nat.succ_pos l) (Nat.succ_le_succ hl)
    | succ k =>
      obtain ⟨i,rfl⟩ : ∃ i', i = i'+1 := ⟨i-1,by omega⟩
      have hrest := fun last' => ih last' (Nat.le_of_succ_le_succ hki) (Nat.lt_of_succ_lt_succ hi)
        (by simpa using hx) hnumber fun l hl hli => hafter (l+1) (Nat.succ_lt_succ hl)
          (Nat.succ_le_succ hli)
      rw [ffill]
      split <;> rw [List.getElem?_cons_succ,hrest]

theorem length_ffill (last : F) (xs : List F) : (ffill last xs).length = xs.length := by
  induction xs generalizing last with
  | nil => rfl
  | cons x xs ih =>
    rw [ffill]
    split <;> rw [List.length_cons,List.length_cons,ih]

/-- The columns of `_frame_to_matrix` are those of `pd_ffill`, after `np.nan_to_num`. -/
theorem map_nanToNum_pdFfill {mat out : Array2 F m n} (h : pdFfill mat = some out) (j : Fin n) :
    (List.ofFn fun i => nanToNum (out i j)) =
      (ffill NanFloat.nan (List.ofFn fun i => mat i j)).map nanToNum := by
  obtain ⟨out',hout',hcells⟩ := pdFfill_eq mat
  obtain rfl := Option.some.inj (h.symm.trans hout')
  refine List.ext_getElem? fun i => ?_
  rw [List.getElem?_map,List.getElem?_ofFn]
  by_cases hi : i < m
  · rw [dif_pos hi]
    obtain ⟨r,hr,hcell⟩ := hcells ⟨i,hi⟩ j
    have hlen : i < (List.ofFn fun i => mat i j).length := by rwa [List.length_ofFn]
    cases hnan : NanFloat.isNan (mat r j) with
    | true =>
      have hnone : ∀ l ≤ i, ∀ x ∈ (List.ofFn fun i => mat i j)[l]?, NanFloat.isNan x = true := by
        intro l hl x hx
        rw [List.getElem?_ofFn,dif_pos (hl.trans_lt hi)] at hx
        obtain rfl := Option.some.inj hx
        exact hr.nearest.2.mp hnan ⟨l,hl.trans_lt hi⟩ hl
      rw [ffill_getElem? _ hlen hnone,Option.map_some,hcell]
      simp [nanToNum,hnan,NanFloat.isNan_nan]
    | false =>
      have hrow : (List.ofFn fun i => mat i j)[r.val]? = some (mat r j) := by
        rw [List.getElem?_ofFn,dif_pos r.isLt]
      rw [ffill_nearest _ hr.le hlen hrow hnan,Option.map_some,hcell]
      intro l hl hli x hx
      rw [List.getElem?_ofFn,dif_pos (hli.trans_lt hi)] at hx
      obtain rfl := Option.some.inj hx
      exact hr.after ⟨l,hli.trans_lt hi⟩ hl hli
  · have hlen : (ffill NanFloat.nan (List.ofFn fun i => mat i j)).length ≤ i := by
      rw [length_ffill,List.length_ofFn]
      exact Nat.le_of_not_lt hi
    rw [dif_neg hi,List.getElem?_eq_none hlen,Option.map_none]

end Matrix

end ForwardFill
end ETraceDiag
