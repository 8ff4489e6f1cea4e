import Mathlib.Data.List.Basic
import Mathlib.Data.List.TakeWhile
import Mathlib.Order.Lattice

/-!
# Two pointers over a sorted list

A pointer moves on over the elements whose key is below a bound. On a list that is sorted by its
keys, two such pointers with bounds that only grow cut out the elements whose keys lie between
the bounds.
-/

namespace TwoPointers

variable {α κ : Type*}

/-- The first position from `i` on whose element does not satisfy `below`. -/
def advance (below : α → Bool) (xs : List α) (i : ℕ) : ℕ :=
  if h : i < xs.length then if below xs[i] then advance below xs (i+1) else i else i
termination_by xs.length-i

theorem le_advance (below : α → Bool) (xs : List α) (i : ℕ) : i ≤ advance below xs i := by
  fun_induction advance below xs i with
  | case1 i hi hb ih => exact (Nat.le_succ i).trans ih
  | case2 i hi hb => exact le_rfl
  | case3 i hi => exact le_rfl

/-- Behind the pointer is what is left without the elements that it has passed. -/
theorem drop_advance (below : α → Bool) (xs : List α) (i : ℕ) :
    xs.drop (advance below xs i) = (xs.drop i).dropWhile below := by
  fun_induction advance below xs i with
  | case1 i hi hb ih =>
    rw [ih,List.drop_eq_getElem_cons hi,List.dropWhile_cons_of_pos hb]
  | case2 i hi hb =>
    rw [List.drop_eq_getElem_cons hi,List.dropWhile_cons_of_neg hb]
  | case3 i hi =>
    rw [List.drop_eq_nil_of_le (Nat.le_of_not_lt hi),List.dropWhile_nil]

/-- The pointer passes a stretch of elements that satisfy `below`. -/
theorem take_advance (below : α → Bool) (xs : List α) (i : ℕ) :
    (xs.drop i).take (advance below xs i-i) = (xs.drop i).takeWhile below := by
  have hdrop : (xs.drop i).drop (advance below xs i-i) = (xs.drop i).dropWhile below := by
    rw [List.drop_drop,Nat.add_sub_cancel' (le_advance below xs i),drop_advance]
  have hsplit := (List.take_append_drop (advance below xs i-i) (xs.drop i)).trans
    (List.takeWhile_append_dropWhile (p:=below) (l:=xs.drop i)).symm
  rw [hdrop] at hsplit
  exact List.append_cancel_right hsplit

theorem advance_le_max (below : α → Bool) (xs : List α) (i : ℕ) :
    advance below xs i ≤ max i xs.length := by
  fun_induction advance below xs i with
  | case1 i hi hb ih => exact ih.trans (max_le (by omega) (le_max_right _ _))
  | case2 i hi hb => exact le_max_left _ _
  | case3 i hi => exact le_max_left _ _

/-- Something is cut out exactly when the second pointer has moved on. -/
theorem take_advance_ne_nil (below : α → Bool) (xs : List α) (i : ℕ) :
    (xs.drop i).take (advance below xs i-i) ≠ [] ↔ i < advance below xs i := by
  have hle := advance_le_max below xs i
  rw [← List.length_pos_iff,List.length_take,List.length_drop]
  omega

section Sorted

variable [LinearOrder κ] {key : α → κ}

theorem dropWhile_lt {xs : List α} (h : xs.Pairwise fun x y => key x ≤ key y) (b : κ) :
    xs.dropWhile (fun x => key x < b) = xs.filter fun x => b ≤ key x := by
  induction xs with
  | nil => rfl
  | cons x xs ih =>
    obtain ⟨hx,hxs⟩ := List.pairwise_cons.mp h
    by_cases hb : key x < b
    · rw [List.dropWhile_cons_of_pos (by simpa using hb),ih hxs,
        List.filter_cons_of_neg (by simpa using hb)]
    · have hall : ∀ y ∈ x::xs, decide (b ≤ key y) = true := by
        intro y hy
        rcases List.mem_cons.mp hy with rfl | hy
        · simpa using hb
        · exact decide_eq_true ((not_lt.mp hb).trans (hx y hy))
      rw [List.dropWhile_cons_of_neg (by simpa using hb),List.filter_eq_self.mpr hall]

theorem takeWhile_lt {xs : List α} (h : xs.Pairwise fun x y => key x ≤ key y) (b : κ) :
    xs.takeWhile (fun x => key x < b) = xs.filter fun x => key x < b := by
  induction xs with
  | nil => rfl
  | cons x xs ih =>
    obtain ⟨hx,hxs⟩ := List.pairwise_cons.mp h
    by_cases hb : key x < b
    · rw [List.takeWhile_cons_of_pos (by simpa using hb),ih hxs,
        List.filter_cons_of_pos (by simpa using hb)]
    · have hnone : ∀ y ∈ x::xs, ¬ decide (key y < b) = true := by
        intro y hy
        rcases List.mem_cons.mp hy with rfl | hy
        · simpa using hb
        · simpa using (not_lt.mp hb).trans (hx y hy)
      rw [List.takeWhile_cons_of_neg (by simpa using hb),List.filter_eq_nil_iff.mpr hnone]

/-- The elements before the pointer `i` have keys below `a`. -/
def Passed (key : α → κ) (xs : List α) (a : κ) (i : ℕ) : Prop := ∀ x ∈ xs.take i, key x < a

theorem passed_zero (xs : List α) (a : κ) : Passed key xs a 0 := by
  intro x hx
  cases hx

theorem Passed.mono {xs : List α} {a b : κ} {i : ℕ} (h : Passed key xs a i) (hab : a ≤ b) :
    Passed key xs b i := fun x hx => (h x hx).trans_le hab

/-- A pointer that has only passed keys below `a` leaves all others. -/
theorem drop_of_passed {xs : List α} {a : κ} {i : ℕ} (h : Passed key xs a i) :
    (xs.drop i).filter (fun x => a ≤ key x) = xs.filter fun x => a ≤ key x := by
  have hnone : (xs.take i).filter (fun x => decide (a ≤ key x)) = [] :=
    List.filter_eq_nil_iff.mpr fun x hx => by simpa using h x hx
  conv_rhs => rw [← List.take_append_drop i xs,List.filter_append,hnone,List.nil_append]

theorem drop_advance_lt {xs : List α} (hs : xs.Pairwise fun x y => key x ≤ key y) {a : κ} {i : ℕ}
    (h : Passed key xs a i) :
    xs.drop (advance (fun x => key x < a) xs i) = xs.filter fun x => a ≤ key x := by
  rw [drop_advance,dropWhile_lt (hs.sublist (List.drop_sublist i xs)),drop_of_passed h]

/-- The lower pointer never passes what a later bound still needs. -/
theorem passed_advance {xs : List α} {a : κ} {i : ℕ} (h : Passed key xs a i) :
    Passed key xs a (advance (fun x => key x < a) xs i) := by
  intro x hx
  rw [← Nat.add_sub_cancel' (le_advance (fun x => decide (key x < a)) xs i),List.take_add] at hx
  rcases List.mem_append.mp hx with hx | hx
  · exact h x hx
  · rw [take_advance] at hx
    have hb := List.mem_takeWhile_imp hx
    exact of_decide_eq_true hb

/-- Between the two pointers are the elements whose keys are from `a` on and below `b`. -/
theorem slice_advance {xs : List α} (hs : xs.Pairwise fun x y => key x ≤ key y) {a : κ} (b : κ)
    {i : ℕ} (h : Passed key xs a i) :
    (xs.drop (advance (fun x => key x < a) xs i)).take
        (advance (fun x => key x < b) xs (advance (fun x => key x < a) xs i)-
          advance (fun x => key x < a) xs i) =
      xs.filter fun x => a ≤ key x ∧ key x < b := by
  rw [take_advance,drop_advance_lt hs h,takeWhile_lt (hs.sublist List.filter_sublist),
    List.filter_filter]
  refine List.filter_congr fun x _ => ?_
  rw [← Bool.decide_and,decide_eq_decide]
  exact and_comm

end Sorted

end TwoPointers
