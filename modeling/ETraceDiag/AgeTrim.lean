import Mathlib.Data.List.DropRight
import Mathlib.Data.List.Infix

/-!
# Logs that are trimmed by age

A log loses its front elements while they are old and more than a certain number are left. In a
log whose old elements come first, what stays is its end: the elements that are not old, and at
least that number.
-/

namespace AgeTrim

variable {α : Type*}

/-- Old elements go from the front, down to `least`. -/
def trim (old : α → Bool) (least : ℕ) : List α → List α
  | [] => []
  | a::as => if least < as.length+1 ∧ old a = true then trim old least as else a::as

/-- An element behind one that is not old is not old. -/
abbrev OldFirst (old : α → Bool) (l : List α) : Prop :=
  l.Pairwise fun a b => old b = true → old a = true

/-- What is not old, and at least so many. -/
def keep (old : α → Bool) (least : ℕ) (l : List α) : ℕ := max least (l.countP fun a => !old a)

theorem rtake_of_length_le {n : ℕ} {l : List α} (h : l.length ≤ n) : l.rtake n = l := by
  rw [List.rtake,Nat.sub_eq_zero_of_le h,List.drop_zero]

theorem rtake_cons_of_le {n : ℕ} {a : α} {l : List α} (h : n ≤ l.length) :
    (a::l).rtake n = l.rtake n := by
  have hsub : (a::l).length-n = l.length-n+1 := by
    rw [List.length_cons]
    omega
  rw [List.rtake,List.rtake,hsub,List.drop_succ_cons]

theorem rtake_rtake (m n : ℕ) (l : List α) : (l.rtake m).rtake n = l.rtake (min m n) := by
  rw [List.rtake,List.rtake,List.rtake,List.drop_drop,List.length_drop]
  congr 1
  omega

theorem length_rtake (n : ℕ) (l : List α) : (l.rtake n).length = min n l.length := by
  rw [List.rtake,List.length_drop]
  omega

theorem rtake_min_length (n : ℕ) (l : List α) : l.rtake (min n l.length) = l.rtake n := by
  rw [← rtake_rtake]
  exact rtake_of_length_le (length_rtake n l ▸ min_le_right ..)

theorem countP_fresh {old : α → Bool} {a : α} {l : List α} (h : OldFirst old (a::l))
    (ha : old a = false) : (l.countP fun b => !old b) = l.length := by
  rw [List.countP_eq_length]
  intro b hb
  cases hold : old b with
  | false => rfl
  | true => exact absurd ((List.pairwise_cons.mp h).1 b hb hold) (by simp [ha])

theorem eq_rtake_of_suffix {l l' : List α} (h : l' <:+ l) : l' = l.rtake l'.length :=
  List.suffix_iff_eq_drop.mp h

theorem trim_suffix (old : α → Bool) (least : ℕ) (l : List α) : trim old least l <:+ l := by
  induction l with
  | nil => exact List.suffix_rfl
  | cons a l ih =>
    rw [trim]
    split
    · exact ih.trans (List.suffix_cons ..)
    · exact List.suffix_rfl

/-- Trimming leaves the end of the log. -/
theorem trim_eq_rtake {old : α → Bool} (least : ℕ) {l : List α} (h : OldFirst old l) :
    trim old least l = l.rtake (keep old least l) := by
  induction l with
  | nil => rw [List.rtake_nil,trim]
  | cons a l ih =>
    rw [trim]
    split
    · next hold =>
      have hcount : keep old least (a::l) = keep old least l := by simp [keep,hold.2]
      have hle : keep old least l ≤ l.length :=
        max_le (Nat.lt_succ_iff.mp hold.1) List.countP_le_length
      rw [hcount,rtake_cons_of_le hle]
      exact ih (List.pairwise_cons.mp h).2
    · next hkeep =>
      refine (rtake_of_length_le ?_).symm
      rw [List.length_cons,keep]
      cases ha : old a with
      | true =>
        have hleast : ¬least < l.length+1 := fun hlt => hkeep ⟨hlt,ha⟩
        exact (Nat.le_of_not_lt hleast).trans (le_max_left ..)
      | false =>
        rw [List.countP_cons_of_pos (by simp [ha]),countP_fresh h ha]
        exact le_max_right ..

/-- The end of a log has all that is not old, or nothing else. -/
theorem countP_rtake {old : α → Bool} (m : ℕ) {l : List α} (h : OldFirst old l) :
    ((l.rtake m).countP fun a => !old a) = min m (l.countP fun a => !old a) := by
  induction l with
  | nil => simp
  | cons a l ih =>
    have hcount := List.countP_le_length (p:=fun b => !old b) (l:=a::l)
    by_cases hm : m ≤ l.length
    · rw [rtake_cons_of_le hm,ih (List.pairwise_cons.mp h).2]
      cases ha : old a with
      | true => rw [List.countP_cons_of_neg (by simp [ha])]
      | false =>
        rw [List.countP_cons_of_pos (by simp [ha]),countP_fresh h ha]
        omega
    · rw [List.length_cons] at hcount
      rw [rtake_of_length_le (by rw [List.length_cons]; omega)]
      omega

theorem OldFirst.rtake {old : α → Bool} {l : List α} (h : OldFirst old l) (m : ℕ) :
    OldFirst old (l.rtake m) := h.sublist (List.drop_sublist ..)

/-- A log that holds the end of what was logged holds the end of it after one more element and
a trim. -/
theorem trim_rtake_concat {old : α → Bool} (least m : ℕ) {l : List α} {a : α}
    (h : OldFirst old (l++[a])) : trim old least (l.rtake m++[a]) =
      (l++[a]).rtake (min (m+1) (keep old least (l++[a]))) := by
  rw [← List.rtake_concat_succ,trim_eq_rtake least (h.rtake _),rtake_rtake,keep,keep,
    countP_rtake _ h]
  congr 1
  omega

end AgeTrim
