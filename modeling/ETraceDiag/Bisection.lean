import Mathlib.Data.List.Basic

/-!
# Bisection

A bisection for the end of the first part of a range, where a test holds. It looks at one
place in each round; where the test is not monotone it still ends somewhere, at a place that
what it has seen agrees with.
-/

namespace Bisection

variable {p q : ℕ → Bool} {lo hi L : ℕ}

def search (p : ℕ → Bool) (lo hi : ℕ) : ℕ :=
  if _h : lo < hi then
    if p (lo+(hi-lo)/2) then search p (lo+(hi-lo)/2+1) hi else search p lo (lo+(hi-lo)/2)
  else lo
termination_by hi-lo

/-- The places that a bisection ending at `L` looks at. -/
def probes (L lo hi : ℕ) : List ℕ :=
  if _h : lo < hi then
    (lo+(hi-lo)/2)::
      if lo+(hi-lo)/2 < L then probes L (lo+(hi-lo)/2+1) hi else probes L lo (lo+(hi-lo)/2)
  else []
termination_by hi-lo

theorem search_bounds (h : lo ≤ hi) : lo ≤ search p lo hi ∧ search p lo hi ≤ hi := by
  fun_induction search p lo hi with
  | case1 lo hi hlt hp ih =>
    have hrest := ih (by omega)
    omega
  | case2 lo hi hlt hp ih =>
    have hrest := ih (by omega)
    omega
  | case3 lo hi hge => omega

/-- Just before the end the test holds. -/
theorem test_before (h : lo < search p lo hi) : p (search p lo hi-1) = true := by
  fun_induction search p lo hi with
  | case1 lo hi hlt hp ih =>
    have hle : lo+(hi-lo)/2+1 ≤ search p (lo+(hi-lo)/2+1) hi := (search_bounds (by omega)).1
    rcases Nat.eq_or_lt_of_le hle with heq | hgt
    · rw [← heq,Nat.add_sub_cancel]
      exact hp
    · exact ih hgt
  | case2 lo hi hlt hp ih => exact ih h
  | case3 lo hi hge => omega

/-- And at the end it does not. -/
theorem test_at (hle : lo ≤ hi) (h : search p lo hi < hi) : p (search p lo hi) = false := by
  fun_induction search p lo hi with
  | case1 lo hi hlt hp ih => exact ih (by omega) h
  | case2 lo hi hlt hp ih =>
    have hbound : search p lo (lo+(hi-lo)/2) ≤ lo+(hi-lo)/2 := (search_bounds (by omega)).2
    rcases Nat.eq_or_lt_of_le hbound with heq | hgt
    · rw [heq]
      simpa using hp
    · exact ih (by omega) hgt
  | case3 lo hi hge => omega

/-- A bisection ends where everything it looks at points to. -/
theorem search_eq_iff (hlo : lo ≤ L) (hhi : L ≤ hi) :
    search p lo hi = L ↔ ∀ m ∈ probes L lo hi, (p m = true ↔ m < L) := by
  fun_induction search p lo hi with
  | case1 lo hi hlt hp ih =>
    rw [probes,dif_pos hlt,List.forall_mem_cons]
    have hle : lo+(hi-lo)/2+1 ≤ search p (lo+(hi-lo)/2+1) hi := (search_bounds (by omega)).1
    by_cases hL : lo+(hi-lo)/2 < L
    · rw [if_pos hL,ih (by omega) hhi]
      exact (and_iff_right (iff_of_true hp hL)).symm
    · refine iff_of_false (by omega) fun hall => hL (hall.1.mp hp)
  | case2 lo hi hlt hp ih =>
    rw [probes,dif_pos hlt,List.forall_mem_cons]
    have hle : search p lo (lo+(hi-lo)/2) ≤ lo+(hi-lo)/2 := (search_bounds (by omega)).2
    by_cases hL : lo+(hi-lo)/2 < L
    · refine iff_of_false (by omega) fun hall => hp (hall.1.mpr hL)
    · rw [if_neg hL,ih hlo (by omega)]
      exact (and_iff_right (iff_of_false hp hL)).symm
  | case3 lo hi hge =>
    rw [probes,dif_neg hge]
    exact iff_of_true (by omega) nofun

theorem probes_bounds {m : ℕ} (hm : m ∈ probes L lo hi) : lo ≤ m ∧ m < hi := by
  fun_induction probes L lo hi with
  | case1 lo hi hlt ih₁ ih₂ =>
    rcases List.mem_cons.mp hm with rfl | hm
    · omega
    · split at hm
      · have hrest := ih₁ hm
        omega
      · have hrest := ih₂ hm
        omega
  | case2 lo hi hge => cases hm

/-! ## Keeping a bracket -/

/-- The bisection that moves either end to the middle until the two ends are neighbours. -/
def bracket (p : ℕ → Bool) (lo hi : ℕ) : ℕ × ℕ :=
  if _h : 1 < hi-lo then
    if p ((lo+hi)/2) then bracket p ((lo+hi)/2) hi else bracket p lo ((lo+hi)/2)
  else (lo,hi)
termination_by hi-lo

/-- From a place where the test holds to one where it does not, it ends between two such places
that are neighbours. -/
theorem bracket_spec (hlt : lo < hi) (hlo : p lo = true) (hhi : p hi = false) :
    lo ≤ (bracket p lo hi).1 ∧ (bracket p lo hi).2 = (bracket p lo hi).1+1 ∧
      (bracket p lo hi).2 ≤ hi ∧ p (bracket p lo hi).1 = true ∧
        p (bracket p lo hi).2 = false := by
  fun_induction bracket p lo hi with
  | case1 lo hi hgap hp ih =>
    obtain ⟨hle,hrest⟩ := ih (by omega) hp hhi
    exact ⟨by omega,hrest⟩
  | case2 lo hi hgap hp ih =>
    obtain ⟨hle,hnext,hend,hrest⟩ := ih (by omega) hlo (by simpa using hp)
    exact ⟨hle,hnext,by omega,hrest⟩
  | case3 lo hi hgap => exact ⟨Nat.le_refl _,by omega,Nat.le_refl _,hlo,hhi⟩

end Bisection
