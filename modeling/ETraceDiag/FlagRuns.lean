import Mathlib.Algebra.Order.Ring.Nat

/-!
# Runs of flags

The scan of a list of flags that gives, from the left, where each run of them starts and ends.
-/

namespace FlagRuns

/-- The end of the run that is at `j`. -/
def lastFlagged (flags : List Bool) (j : ℕ) : ℕ :=
  if j+1 < flags.length ∧ flags[j+1]? = some true then lastFlagged flags (j+1) else j
termination_by flags.length-j

theorem le_lastFlagged (flags : List Bool) (j : ℕ) : j ≤ lastFlagged flags j := by
  fun_induction lastFlagged flags j with
  | case1 j _ ih => exact Nat.le_of_succ_le ih
  | case2 j _ => exact le_rfl

/-- The runs from `i` on. -/
def segmentsFrom (flags : List Bool) (i : ℕ) : List (ℕ × ℕ) :=
  if i < flags.length then
    if flags[i]? = some true then
      (i,lastFlagged flags i)::segmentsFrom flags (lastFlagged flags i+1)
    else segmentsFrom flags (i+1)
  else []
termination_by flags.length-i
decreasing_by
  · have hle := le_lastFlagged flags i
    omega
  · omega

def segments (flags : List Bool) : List (ℕ × ℕ) := segmentsFrom flags 0

/-- All flags from `i` to `j` are set, and those on both sides are not. -/
structure IsRun (flags : List Bool) (i j : ℕ) : Prop where
  le : i ≤ j
  flagged : ∀ k, i ≤ k → k ≤ j → flags[k]? = some true
  before : ∀ k, k+1 = i → flags[k]? ≠ some true
  after : flags[j+1]? ≠ some true

theorem flagged_lastFlagged (flags : List Bool) (j : ℕ) :
    ∀ k, j < k → k ≤ lastFlagged flags j → flags[k]? = some true := by
  fun_induction lastFlagged flags j with
  | case1 j h ih =>
    intro k hlow hhigh
    rcases Nat.eq_or_lt_of_le (Nat.succ_le_of_lt hlow) with rfl | hlt
    · exact h.2
    · exact ih k hlt hhigh
  | case2 j h => exact fun k hlow hhigh => absurd hlow (Nat.not_lt.mpr hhigh)

theorem after_lastFlagged (flags : List Bool) (j : ℕ) :
    flags[lastFlagged flags j+1]? ≠ some true := by
  fun_induction lastFlagged flags j with
  | case1 j _ ih => exact ih
  | case2 j h => exact fun hset => h ⟨(List.getElem?_eq_some_iff.mp hset).1,hset⟩

/-- A run from `i` on ends where the scan finds its end. -/
theorem IsRun.eq_lastFlagged {flags : List Bool} {i j : ℕ} (h : IsRun flags i j) :
    j = lastFlagged flags i := by
  rcases Nat.lt_trichotomy j (lastFlagged flags i) with hlt | heq | hgt
  · have hset := flagged_lastFlagged flags i (j+1) (Nat.lt_succ_of_le h.le) hlt
    exact absurd hset h.after
  · exact heq
  · have hset := h.flagged (lastFlagged flags i+1)
      (Nat.le_succ_of_le (le_lastFlagged flags i)) hgt
    exact absurd hset (after_lastFlagged flags i)

/-- From a place where no run goes on, the scan gives exactly the runs behind it. -/
theorem mem_segmentsFrom {flags : List Bool} {i : ℕ}
    (hstart : flags[i]? = some true → ∀ k, k+1 = i → flags[k]? ≠ some true) (a b : ℕ) :
    (a,b) ∈ segmentsFrom flags i ↔ i ≤ a ∧ IsRun flags a b := by
  fun_induction segmentsFrom flags i with
  | case1 i hlt hset ih =>
    have hrest := ih fun hnext => absurd hnext (after_lastFlagged flags i)
    have hrun : IsRun flags i (lastFlagged flags i) := by
      refine ⟨le_lastFlagged flags i,fun k hlow hhigh => ?_,hstart hset,after_lastFlagged flags i⟩
      rcases Nat.eq_or_lt_of_le hlow with rfl | hlow
      · exact hset
      · exact flagged_lastFlagged flags i k hlow hhigh
    rw [List.mem_cons,hrest,Prod.mk.injEq]
    constructor
    · rintro (⟨rfl,rfl⟩ | ⟨hle,h⟩)
      · exact ⟨le_rfl,hrun⟩
      · exact ⟨(le_lastFlagged flags i).trans (Nat.le_of_succ_le hle),h⟩
    · rintro ⟨hle,h⟩
      rcases Nat.eq_or_lt_of_le hle with rfl | hlt'
      · exact .inl ⟨rfl,h.eq_lastFlagged⟩
      · refine .inr ⟨?_,h⟩
        by_contra hin
        -- a run cannot start inside another one
        obtain ⟨k,rfl⟩ := Nat.exists_eq_add_of_le' (Nat.one_le_of_lt hlt')
        exact h.before k rfl (hrun.flagged k (by omega) (by omega))
  | case2 i hlt hset ih =>
    rw [ih fun _ k hk => by obtain rfl : k = i := Nat.succ.inj hk; exact hset]
    refine ⟨fun h => ⟨Nat.le_of_succ_le h.1,h.2⟩,fun h => ⟨?_,h.2⟩⟩
    rcases Nat.eq_or_lt_of_le h.1 with rfl | hlt'
    · exact absurd (h.2.flagged i le_rfl h.2.le) hset
    · exact hlt'
  | case3 i hend =>
    refine iff_of_false List.not_mem_nil ?_
    rintro ⟨hle,h⟩
    have hset := h.flagged a le_rfl h.le
    exact hend (hle.trans_lt (List.getElem?_eq_some_iff.mp hset).1)

/-- What the scan gives from `i` on starts there or later, and ends before the next one starts. -/
theorem ordered_segmentsFrom (flags : List Bool) (i : ℕ) :
    (∀ ab ∈ segmentsFrom flags i, i ≤ ab.1) ∧
      (segmentsFrom flags i).Pairwise fun ab cd => ab.2 < cd.1 := by
  fun_induction segmentsFrom flags i with
  | case1 i _ _ ih =>
    obtain ⟨hlow,hordered⟩ := ih
    refine ⟨fun ab hab => ?_,List.pairwise_cons.mpr ⟨fun cd hcd => hlow cd hcd,hordered⟩⟩
    rcases List.mem_cons.mp hab with rfl | hab
    · exact le_rfl
    · exact (le_lastFlagged flags i).trans (Nat.le_of_succ_le (hlow ab hab))
  | case2 i _ _ ih => exact ⟨fun ab hab => Nat.le_of_succ_le (ih.1 ab hab),ih.2⟩
  | case3 i _ => exact ⟨fun ab hab => absurd hab List.not_mem_nil,List.Pairwise.nil⟩

theorem pairwise_segments (flags : List Bool) :
    (segments flags).Pairwise fun ab cd => ab.2 < cd.1 :=
  (ordered_segmentsFrom flags 0).2

/-- The scan gives the runs of flags. -/
theorem mem_segments (flags : List Bool) (a b : ℕ) :
    (a,b) ∈ segments flags ↔ IsRun flags a b := by
  rw [segments,mem_segmentsFrom fun _ k hk => absurd hk (Nat.succ_ne_zero k)]
  exact and_iff_right (Nat.zero_le a)

end FlagRuns
