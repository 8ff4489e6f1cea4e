import Mathlib.Data.List.Basic
import Mathlib.Data.List.Infix
import Mathlib.Data.List.TakeWhile

/-!
# Streaks

A streak is a block of consecutive elements with a property. The current streak of a list is
the longest one that ends it; the first streak of a given length is where a counter that is
reset at every miss fires for the first time.
-/

namespace Streak

variable {α : Type*} (p : α → Bool)

/-- The streak the list ends with. -/
def current (xs : List α) : List α := (xs.reverse.takeWhile p).reverse

/-- No block of `n` consecutive hits. -/
def NoRun (n : ℕ) (xs : List α) : Prop :=
  ∀ ys, ys <:+: xs → (∀ y ∈ ys, p y = true) → ys.length < n

/-- In `pre++run++post` the block `run` is the first streak of length `n`. -/
structure FirstRun (n : ℕ) (pre run : List α) : Prop where
  length : run.length = n
  hits : ∀ x ∈ run, p x = true
  first : NoRun p n (pre++run.dropLast)

@[simp] theorem current_nil : current p [] = [] := rfl

theorem current_concat_hit {x : α} (h : p x = true) (xs : List α) :
    current p (xs++[x]) = current p xs++[x] := by
  simp [current,h]

theorem current_concat_miss {x : α} (h : p x = false) (xs : List α) :
    current p (xs++[x]) = [] := by
  simp [current,h]

theorem current_hits (xs : List α) : ∀ x ∈ current p xs, p x = true := by
  intro x hx
  exact List.mem_takeWhile_imp (List.mem_reverse.mp hx)

theorem current_suffix (xs : List α) : current p xs <:+ xs := by
  have h : xs.reverse.takeWhile p <+: xs.reverse := List.takeWhile_prefix p
  rw [← List.reverse_suffix,List.reverse_reverse] at h
  exact h

/-- No streak at the end is longer than the current one. -/
theorem length_le_current (xs : List α) : ∀ ys, ys <:+ xs → (∀ y ∈ ys, p y = true) →
    ys.length ≤ (current p xs).length := by
  induction xs using List.reverseRecOn with
  | nil => intro ys hs _; simp [List.suffix_nil.mp hs]
  | append_singleton xs x ih =>
    intro ys hs hp
    rcases List.suffix_concat_iff.mp hs with rfl | ⟨t,rfl,ht⟩
    · simp
    · have hx : p x = true := hp x (by simp)
      have hle := ih t ht fun y hy => hp y (by simp [hy])
      simpa [current_concat_hit p hx] using hle

theorem noRun_nil {n : ℕ} (hn : 0 < n) : NoRun p n [] := by
  intro ys hs _
  simpa [List.infix_nil.mp hs] using hn

theorem noRun_concat_miss {n : ℕ} (hn : 0 < n) {xs : List α} (h : NoRun p n xs) {x : α}
    (hx : p x = false) : NoRun p n (xs++[x]) := by
  intro ys hs hp
  rcases List.infix_concat_iff.mp hs with hs | hs
  · rcases List.suffix_concat_iff.mp hs with rfl | ⟨t,rfl,_⟩
    · simpa using hn
    · have hx' := hp x (by simp)
      rw [hx] at hx'
      cases hx'
  · exact h ys hs hp

theorem noRun_concat_hit {n : ℕ} (hn : 0 < n) {xs : List α} (h : NoRun p n xs) {x : α}
    (hc : (current p xs).length+1 < n) : NoRun p n (xs++[x]) := by
  intro ys hs hp
  rcases List.infix_concat_iff.mp hs with hs | hs
  · rcases List.suffix_concat_iff.mp hs with rfl | ⟨t,rfl,ht⟩
    · simpa using hn
    · have hle := length_le_current p xs t ht fun y hy => hp y (by simp [hy])
      simp only [List.length_append,List.length_singleton]
      omega
  · exact h ys hs hp

/-- The counter fires: the current streak, one hit longer, is the first of its length. -/
theorem firstRun_concat {n : ℕ} {pre xs : List α} (h : NoRun p n xs)
    (hs : xs = pre++current p xs) {x : α} (hx : p x = true)
    (hc : (current p xs).length+1 = n) : FirstRun p n pre (current p xs++[x]) := by
  refine ⟨by simpa using hc,?_,?_⟩
  · intro y hy
    rcases List.mem_append.mp hy with hy | hy
    · exact current_hits p xs y hy
    · rwa [List.mem_singleton.mp hy]
  · rwa [List.dropLast_concat,← hs]

end Streak
