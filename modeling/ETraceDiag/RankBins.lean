import Mathlib.Data.List.Sort
import Mathlib.Algebra.BigOperators.Group.List.Basic
import Mathlib.Algebra.Ring.Nat

/-!
# Ranks and bins

A histogram counts the elements of a list by bin. Where the bins follow the order of the
elements, the bin in which the running count reaches a rank is the bin of the element of that
rank.
-/

namespace RankBins

/-- The first bin in which the running count, begun at `acc`, reaches the target. -/
def reach (target : ℕ) : ℕ → List ℕ → Option ℕ
  | _, [] => none
  | acc, c::cs => if target ≤ acc+c then some 0 else (reach target (acc+c) cs).map (·+1)

theorem reach_eq_some_iff {target : ℕ} (cs : List ℕ) : ∀ {acc i : ℕ}, acc < target →
    (reach target acc cs = some i ↔
      i < cs.length ∧ acc+(cs.take i).sum < target ∧ target ≤ acc+(cs.take (i+1)).sum) := by
  induction cs with
  | nil => intro acc i _; simp [reach]
  | cons c cs ih =>
    intro acc i hacc
    rw [reach]
    split
    · next hle =>
      cases i with
      | zero => simpa using ⟨hacc,hle⟩
      | succ i =>
        refine iff_of_false nofun fun h => ?_
        have hfar := h.2.1
        rw [List.take_succ_cons,List.sum_cons] at hfar
        omega
    · next hlt =>
      cases i with
      | zero =>
        refine iff_of_false ?_ fun h => hlt (by simpa using h.2.2)
        simp
      | succ i =>
        rw [Option.map_eq_some_iff]
        have hrest := ih (i:=i) (Nat.lt_of_not_le hlt)
        simp only [List.take_succ_cons,List.sum_cons,List.length_cons,Nat.add_lt_add_iff_right,
          ← Nat.add_assoc]
        rw [← hrest]
        constructor
        · rintro ⟨j,hj,hij⟩
          obtain rfl : j = i := Nat.succ.inj hij
          exact hj
        · exact fun h => ⟨i,h,rfl⟩

variable {α : Type*} [LinearOrder α]

/-- The element of rank `r`, counted from one. -/
def ranked (xs : List α) (r : ℕ) : Option α := (xs.insertionSort (· ≤ ·))[r-1]?

/-- How many elements fall into each of the first `bins` bins. -/
def counts (bin : α → ℕ) (bins : ℕ) (xs : List α) : List ℕ :=
  (List.range bins).map fun i => xs.countP fun x => bin x = i

omit [LinearOrder α] in
theorem sum_counts (bin : α → ℕ) (bins : ℕ) (xs : List α) :
    (counts bin bins xs).sum = xs.countP fun x => bin x < bins := by
  induction bins with
  | zero => simp [counts]
  | succ bins ih =>
    have hsplit : (counts bin (bins+1) xs).sum =
        (counts bin bins xs).sum+xs.countP fun x => bin x = bins := by
      simp [counts,List.range_succ]
    rw [hsplit,ih]
    clear hsplit ih
    induction xs with
    | nil => rfl
    | cons x xs ih =>
      simp only [List.countP_cons,decide_eq_true_eq]
      split <;> split <;> split <;> omega

omit [LinearOrder α] in
theorem take_counts {i bins : ℕ} (h : i ≤ bins) (bin : α → ℕ) (xs : List α) :
    (counts bin bins xs).take i = counts bin i xs := by
  rw [counts,← List.map_take,List.take_range,Nat.min_eq_left h]
  rfl

/-- In a sorted list, a property that passes down holds of as many elements as it holds of
from the front. -/
theorem lt_countP_sorted_iff {p : α → Bool} (hp : ∀ a b, a ≤ b → p b = true → p a = true)
    {ys : List α} (h : ys.Pairwise (· ≤ ·)) :
    ∀ {k : ℕ} (hk : k < ys.length), k < ys.countP p ↔ p ys[k] = true := by
  induction ys with
  | nil => intro k hk; cases hk
  | cons y ys ih =>
    intro k hk
    obtain ⟨hy,hys⟩ := List.pairwise_cons.mp h
    by_cases hpy : p y = true
    · rw [List.countP_cons_of_pos hpy]
      cases k with
      | zero => simpa using hpy
      | succ k => simpa using ih hys (Nat.lt_of_succ_lt_succ hk)
    · have hnone : ys.countP p = 0 :=
        List.countP_eq_zero.mpr fun z hz hpz => hpy (hp y z (hy z hz) hpz)
      rw [List.countP_cons_of_neg hpy,hnone]
      refine iff_of_false (Nat.not_lt_zero k) fun hk' => hpy ?_
      cases k with
      | zero => exact hk'
      | succ k => exact hp y _ (hy _ (List.getElem_mem _)) hk'

theorem ranked_eq_none_iff (xs : List α) {r : ℕ} :
    ranked xs r = none ↔ xs.length ≤ r-1 := by
  rw [ranked,List.getElem?_eq_none_iff,List.length_insertionSort]

/-- The running count reaches a rank in the bin of the element of that rank. -/
theorem reach_counts {bin : α → ℕ} (hbin : Monotone bin) {bins : ℕ} (hbins : ∀ x, bin x < bins)
    {xs : List α} {r : ℕ} (hr : 0 < r) {x : α} (hx : ranked xs r = some x) :
    reach r 0 (counts bin bins xs) = some (bin x) := by
  obtain ⟨hk,hx⟩ := List.getElem?_eq_some_iff.mp hx
  have hsorted : (xs.insertionSort (· ≤ ·)).Pairwise (· ≤ ·) := List.pairwise_insertionSort _ _
  have hcount : ∀ i, r-1 < xs.countP (fun y => bin y < i) ↔ bin x < i := by
    intro i
    have hdown : ∀ a b : α, a ≤ b → decide (bin b < i) = true → decide (bin a < i) = true := by
      intro a b hab hb
      exact decide_eq_true ((hbin hab).trans_lt (of_decide_eq_true hb))
    rw [← (List.perm_insertionSort (· ≤ ·) xs).countP_eq,lt_countP_sorted_iff hdown hsorted hk,
      decide_eq_true_eq,hx]
  have hlt := hbins x
  have hself : ¬ r-1 < xs.countP fun y => bin y < bin x :=
    fun h => Nat.lt_irrefl _ ((hcount (bin x)).mp h)
  have hnext : r-1 < xs.countP fun y => bin y < bin x+1 :=
    (hcount (bin x+1)).mpr (Nat.lt_add_one _)
  rw [reach_eq_some_iff _ hr,take_counts (Nat.le_of_lt hlt),take_counts (i:=bin x+1) hlt,
    sum_counts,sum_counts]
  refine ⟨by simpa [counts] using hlt,?_,?_⟩
  · omega
  · omega

end RankBins
