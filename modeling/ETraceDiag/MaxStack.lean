import Mathlib.Data.List.InsertIdx
import Mathlib.Data.List.Nodup
import Mathlib.Data.List.Perm.Basic
import Mathlib.Order.Lattice

/-!
# A stack of greatest values

Keys and their values are kept in two lists. Over and over the key of the first greatest value is
put onto a stack, and it goes from both lists. In the end the stack has all keys, from the least
value up.
-/

namespace MaxStack

variable {α β : Type*} [DecidableEq α] [LinearOrder β]

/-- The first position of a greatest value. -/
def argmax : List β → ℕ
  | [] => 0
  | x::xs => if ∃ y ∈ xs, x < y then argmax xs+1 else 0

def push (keys : List α) (values : List β) (stack : List α) : List α :=
  match _ : keys[argmax values]? with
  | none => stack
  | some key => push (keys.erase key) (values.eraseIdx (argmax values)) (key::stack)
termination_by keys.length
decreasing_by
  have hmem := List.mem_of_getElem? ‹keys[argmax values]? = some key›
  rw [List.length_erase_of_mem hmem]
  exact Nat.sub_lt (List.length_pos_of_mem hmem) Nat.one_pos

theorem argmax_lt {xs : List β} (h : xs ≠ []) : argmax xs < xs.length := by
  induction xs with
  | nil => exact absurd rfl h
  | cons x xs ih =>
    rw [argmax]
    split
    · next hlater =>
      obtain ⟨y,hy,-⟩ := hlater
      exact Nat.succ_lt_succ (ih (List.ne_nil_of_mem hy))
    · exact Nat.succ_pos _

theorem le_argmax {xs : List β} {a : β} (ha : xs[argmax xs]? = some a) : ∀ x ∈ xs, x ≤ a := by
  induction xs with
  | nil => exact fun x hx => absurd hx List.not_mem_nil
  | cons y ys ih =>
    rw [argmax] at ha
    split at ha
    · next hlater =>
      obtain ⟨z,hz,hyz⟩ := hlater
      rw [List.getElem?_cons_succ] at ha
      intro x hx
      rcases List.mem_cons.mp hx with rfl | hx
      · exact hyz.le.trans (ih ha z hz)
      · exact ih ha x hx
    · next hnone =>
      obtain rfl := Option.some.inj ha
      intro x hx
      rcases List.mem_cons.mp hx with rfl | hx
      · exact le_rfl
      · exact not_lt.mp fun hlt => hnone ⟨x,hx,hlt⟩

/-- What is on the stack stays below what is put on it, as values only get smaller. -/
theorem push_spec (f : α → β) {n : ℕ} : ∀ {keys : List α} (stack : List α),
    keys.length = n → keys.Nodup → (∀ k ∈ keys, ∀ s ∈ stack, f k ≤ f s) →
      stack.Pairwise (f · ≤ f ·) →
      (push keys (keys.map f) stack).Perm (keys++stack) ∧
        (push keys (keys.map f) stack).Pairwise (f · ≤ f ·) := by
  induction n with
  | zero =>
    intro keys stack hlen _ _ hsorted
    obtain rfl := List.length_eq_zero_iff.mp hlen
    rw [push]
    exact ⟨List.Perm.refl stack,hsorted⟩
  | succ n ih =>
    intro keys stack hlen hnodup hle hsorted
    have hlt : argmax (keys.map f) < keys.length := by
      rw [← List.length_map f]
      exact argmax_lt fun hnil => by simp [List.map_eq_nil_iff.mp hnil] at hlen
    have hget : keys[argmax (keys.map f)]? = some keys[argmax (keys.map f)] :=
      List.getElem?_eq_getElem hlt
    have hmax : ∀ k ∈ keys, f k ≤ f keys[argmax (keys.map f)] := by
      intro k hk
      refine le_argmax ?_ (f k) (List.mem_map_of_mem hk)
      rw [List.getElem?_map,hget,Option.map_some]
    rw [push]
    split
    · next hnone =>
      rw [hget] at hnone
      cases hnone
    · next key hkey =>
      obtain rfl := Option.some.inj (hget.symm.trans hkey)
      rw [hnodup.erase_getElem,List.eraseIdx_map]
      generalize argmax (keys.map f) = i at hlt hmax
      have hrest : ∀ k ∈ keys.eraseIdx i, k ∈ keys := fun k hk => List.mem_of_mem_eraseIdx hk
      have hbelow : ∀ k ∈ keys.eraseIdx i, ∀ s ∈ keys[i]::stack, f k ≤ f s := by
        intro k hk s hs
        rcases List.mem_cons.mp hs with rfl | hs
        · exact hmax k (hrest k hk)
        · exact hle k (hrest k hk) s hs
      obtain ⟨hperm,hpairwise⟩ := ih _ (by rw [List.length_eraseIdx_of_lt hlt,hlen]; rfl)
        (hnodup.eraseIdx i) hbelow (List.pairwise_cons.mpr
          ⟨fun s hs => hle _ (List.getElem_mem hlt) s hs,hsorted⟩)
      refine ⟨hperm.trans (List.perm_middle.trans ?_),hpairwise⟩
      exact (List.getElem_cons_eraseIdx_perm hlt).append_right stack

end MaxStack
