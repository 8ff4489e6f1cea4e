import Mathlib.Data.List.DropRight
import Mathlib.Logic.Function.Basic

/-!
# A ring that is written over

Item `i` of a log goes into slot `i % cap`, over whatever is there. The last `cap` items are in
the slots; nothing in a slot tells which turn it is from.
-/

namespace OverwriteRing

variable {α : Type*} {cap : ℕ} {slots : ℕ → α} {log : List α}

def put (cap n : ℕ) (a : α) (slots : ℕ → α) : ℕ → α := Function.update slots (n % cap) a

/-- The last `cap` items are in their slots. -/
def Holds (cap : ℕ) (slots : ℕ → α) (log : List α) : Prop :=
  ∀ (i : ℕ) (a : α), log[i]? = some a → log.length ≤ i+cap → slots (i % cap) = a

theorem holds_nil (cap : ℕ) (slots : ℕ → α) : Holds cap slots [] := nofun

theorem mod_ne_of_lt {i n : ℕ} (hi : i < n) (hn : n < i+cap) : i % cap ≠ n % cap := by
  intro h
  have hzero : (n-i) % cap = 0 := Nat.sub_mod_eq_zero_of_mod_eq h.symm
  rw [Nat.mod_eq_of_lt (by omega)] at hzero
  omega

theorem Holds.put (h : Holds cap slots log) (a : α) :
    Holds cap (put cap log.length a slots) (log++[a]) := by
  intro i b hb hin
  rw [List.length_append,List.length_singleton] at hin
  rcases Nat.lt_or_ge i log.length with hi | hi
  · rw [List.getElem?_append_left hi] at hb
    rw [OverwriteRing.put,Function.update_of_ne (mod_ne_of_lt hi hin)]
    exact h i b hb (by omega)
  · rw [List.getElem?_append_right hi] at hb
    obtain ⟨hlt,rfl⟩ := List.getElem?_eq_some_iff.mp hb
    rw [List.length_singleton] at hlt
    have hlast : i = log.length := by omega
    subst hlast
    rw [OverwriteRing.put,Function.update_self]
    simp

/-- Reading the last `n` slots, oldest first, gives the last `n` items. -/
theorem Holds.map_range (h : Holds cap slots log) {n : ℕ} (hcap : n ≤ cap)
    (hlen : n ≤ log.length) :
    (List.range n).map (fun j => slots ((log.length-n+j) % cap)) = log.rtake n := by
  refine List.ext_getElem ?_ fun j hj hj' => ?_
  · simp only [List.rtake,List.length_map,List.length_range,List.length_drop]
    omega
  · rw [List.length_map,List.length_range] at hj
    simp only [List.rtake,List.getElem_map,List.getElem_range,List.getElem_drop]
    exact h _ _ (List.getElem?_eq_getElem _) (by omega)

end OverwriteRing
