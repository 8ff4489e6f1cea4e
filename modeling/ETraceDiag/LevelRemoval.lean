import Mathlib.Data.Finset.Card

/-!
# Removal level by level

Elements of a finite set are removed when a set of others separates them from a centre. On each
level all elements are visited once, and only sets with as many elements as the level says are
tried, out of what is left at that time. Elements that are left are not separated by any of these
sets, as what is left only gets smaller.
-/

namespace LevelRemoval

variable {α : Type*} [DecidableEq α] (sep : α → Finset α → Prop)

/-- Some `d` of the others separate `y`. -/
def Separated (d : ℕ) (left : Finset α) (y : α) : Prop :=
  ∃ S ⊆ left.erase y, S.card = d ∧ sep y S

/-- A visit removes the element exactly when it is separated. -/
def Visit (d : ℕ) (y : α) (left left' : Finset α) : Prop :=
  Separated sep d left y ∧ left' = left.erase y ∨ ¬ Separated sep d left y ∧ left' = left

/-- Visits one after the other. -/
inductive Sweep (d : ℕ) : List α → Finset α → Finset α → Prop
  | nil (left : Finset α) : Sweep d [] left left
  | cons {y : α} {ys : List α} {left left' left'' : Finset α} :
    Visit sep d y left left' → Sweep d ys left' left'' → Sweep d (y::ys) left left''

/-- The levels below `d`, each over all elements that are left. -/
inductive Levels : ℕ → Finset α → Finset α → Prop
  | zero (left : Finset α) : Levels 0 left left
  | succ {d : ℕ} {ys : List α} {left left' left'' : Finset α} :
    Levels d left left' → (∀ y ∈ left', y ∈ ys) → Sweep sep d ys left' left'' →
      Levels (d+1) left left''

variable {sep}

theorem Separated.mono {d : ℕ} {left left' : Finset α} (h : left' ⊆ left) {y : α}
    (hsep : Separated sep d left' y) : Separated sep d left y := by
  obtain ⟨S,hS,hcard,hs⟩ := hsep
  exact ⟨S,hS.trans (Finset.erase_subset_erase y h),hcard,hs⟩

theorem Visit.subset {d : ℕ} {y : α} {left left' : Finset α} (h : Visit sep d y left left') :
    left' ⊆ left := by
  rcases h with ⟨-,rfl⟩ | ⟨-,rfl⟩
  · exact Finset.erase_subset y left
  · exact Finset.Subset.refl left'

theorem Sweep.subset {d : ℕ} {ys : List α} {left left' : Finset α}
    (h : Sweep sep d ys left left') : left' ⊆ left := by
  induction h with
  | nil left => exact Finset.Subset.refl left
  | cons hvisit _ ih => exact ih.trans hvisit.subset

/-- Whoever has been visited and is left was not separated at that time, and is not now. -/
theorem Sweep.not_separated {d : ℕ} {ys : List α} {left left' : Finset α}
    (h : Sweep sep d ys left left') {y : α} (hy : y ∈ ys) (hleft : y ∈ left') :
    ¬ Separated sep d left' y := by
  induction h with
  | nil => cases hy
  | cons hvisit hrest ih =>
    rcases List.mem_cons.mp hy with rfl | hy
    · rcases hvisit with ⟨-,rfl⟩ | ⟨hno,rfl⟩
      · exact absurd (hrest.subset hleft) (Finset.notMem_erase _ _)
      · exact fun hsep => hno (hsep.mono hrest.subset)
    · exact ih hy hleft

theorem Levels.not_separated {n d : ℕ} {left left' : Finset α} (h : Levels sep n left left')
    (hd : d < n) {y : α} (hy : y ∈ left') : ¬ Separated sep d left' y := by
  induction h with
  | zero => exact absurd hd (Nat.not_lt_zero d)
  | succ _ hall hsweep ih =>
    rcases Nat.lt_succ_iff_lt_or_eq.mp hd with hlt | rfl
    · exact fun hsep => ih hlt (hsweep.subset hy) (hsep.mono hsweep.subset)
    · exact hsweep.not_separated (hall y (hsweep.subset hy)) hy

/-- With as many levels as elements are left, no set of others separates one of them. -/
theorem Levels.complete {n : ℕ} {left left' : Finset α} (h : Levels sep n left left')
    (hn : left'.card ≤ n) {y : α} (hy : y ∈ left') {S : Finset α} (hS : S ⊆ left'.erase y) :
    ¬ sep y S := by
  intro hsep
  have hcard : S.card < n :=
    (Finset.card_le_card hS).trans_lt ((Finset.card_erase_lt_of_mem hy).trans_le hn)
  exact h.not_separated hcard hy ⟨S,hS,rfl,hsep⟩

end LevelRemoval
