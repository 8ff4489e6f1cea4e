import Mathlib.Algebra.BigOperators.Field
import Mathlib.Algebra.BigOperators.Ring.Finset
import Mathlib.Algebra.CharZero.Defs
import Mathlib.Algebra.Order.BigOperators.Group.Finset
import Mathlib.Data.Finset.Card
import Mathlib.Data.List.Count
import Mathlib.Order.Lattice

/-!
# Contingency tables

Rows are counted by two labels, and the counts are compared with what the marginals lead to expect.
Labels that do not occur change nothing, neither the statistic nor the degrees of freedom, and
neither does the choice of labels, as long as the same rows are told apart. With a third label the
rows are stratified first.
-/

namespace Contingency

variable {ρ σ σ' α α' β β' : Type*} [DecidableEq σ] [DecidableEq σ'] [DecidableEq α]
  [DecidableEq α'] [DecidableEq β] [DecidableEq β']

/-! ## One table -/

/-- The labels that occur. -/
def labels (rows : List ρ) (x : ρ → α) : Finset α := (rows.map x).toFinset

def marginal (rows : List ρ) (x : ρ → α) (a : α) : ℕ := rows.countP fun r => x r = a

def observed (rows : List ρ) (x : ρ → α) (y : ρ → β) (a : α) (b : β) : ℕ :=
  rows.countP fun r => x r = a ∧ y r = b

variable {K : Type*} [Field K]

def expected (rows : List ρ) (x : ρ → α) (y : ρ → β) (a : α) (b : β) : K :=
  marginal rows x a*marginal rows y b/rows.length

def statistic (rows : List ρ) (x : ρ → α) (y : ρ → β) : K :=
  ∑ a ∈ labels rows x, ∑ b ∈ labels rows y,
    ((observed rows x y a b : K)-expected rows x y a b)^2/expected rows x y a b

def freedom (rows : List ρ) (x : ρ → α) (y : ρ → β) : ℤ :=
  ((labels rows x).card-1)*((labels rows y).card-1)

theorem mem_labels {rows : List ρ} {x : ρ → α} {a : α} :
    a ∈ labels rows x ↔ ∃ r ∈ rows, x r = a := by
  rw [labels,List.mem_toFinset,List.mem_map]

theorem marginal_eq_zero {rows : List ρ} {x : ρ → α} {a : α} :
    marginal rows x a = 0 ↔ a ∉ labels rows x := by
  rw [marginal,List.countP_eq_zero,mem_labels]
  simp

theorem observed_le_left (rows : List ρ) (x : ρ → α) (y : ρ → β) (a : α) (b : β) :
    observed rows x y a b ≤ marginal rows x a :=
  List.countP_mono_left fun _ _ h => by simpa using (of_decide_eq_true h).1

theorem observed_le_right (rows : List ρ) (x : ρ → α) (y : ρ → β) (a : α) (b : β) :
    observed rows x y a b ≤ marginal rows y b :=
  List.countP_mono_left fun _ _ h => by simpa using (of_decide_eq_true h).2

theorem freedom_nonneg {rows : List ρ} (h : rows ≠ []) (x : ρ → α) (y : ρ → β) :
    0 ≤ freedom rows x y := by
  obtain ⟨r,hr⟩ := List.exists_mem_of_ne_nil rows h
  have hx : 0 < (labels rows x).card := Finset.card_pos.mpr ⟨x r,mem_labels.mpr ⟨r,hr,rfl⟩⟩
  have hy : 0 < (labels rows y).card := Finset.card_pos.mpr ⟨y r,mem_labels.mpr ⟨r,hr,rfl⟩⟩
  exact mul_nonneg (by omega) (by omega)

/-! ## Counting by cells -/

section Cells

variable {rows : List ρ} {x : ρ → α} {y : ρ → β} {A : Finset α} {B : Finset β}

theorem sum_marginal (hA : ∀ r ∈ rows, x r ∈ A) : ∑ a ∈ A, marginal rows x a = rows.length := by
  induction rows with
  | nil => simp [marginal]
  | cons r rows ih =>
    have hstep : ∀ a, marginal (r::rows) x a = marginal rows x a+if x r = a then 1 else 0 := by
      intro a
      rw [marginal,List.countP_cons,marginal]
      simp only [decide_eq_true_eq]
    simp only [hstep]
    rw [Finset.sum_add_distrib,ih fun r' hr' => hA r' (List.mem_cons_of_mem r hr'),
      Finset.sum_ite_eq,if_pos (hA r List.mem_cons_self),List.length_cons]

theorem observed_eq_marginal (a : α) (b : β) :
    observed rows x y a b = marginal (rows.filter fun r => x r = a) y b := by
  rw [observed,marginal,List.countP_filter]
  exact List.countP_congr fun r _ => by simp [and_comm]

theorem marginal_eq_length (a : α) :
    marginal rows x a = (rows.filter fun r => x r = a).length := by
  rw [marginal,List.countP_eq_length_filter]

theorem observed_comm (a : α) (b : β) : observed rows x y a b = observed rows y x b a :=
  List.countP_congr fun r _ => by simp [and_comm]

/-- The sum along a row. -/
theorem sum_observed_right (hB : ∀ r ∈ rows, y r ∈ B) (a : α) :
    ∑ b ∈ B, observed rows x y a b = marginal rows x a := by
  simp only [observed_eq_marginal]
  rw [sum_marginal fun r hr => hB r (List.mem_filter.mp hr).1,marginal_eq_length]

theorem sum_observed_left (hA : ∀ r ∈ rows, x r ∈ A) (b : β) :
    ∑ a ∈ A, observed rows x y a b = marginal rows y b := by
  simp only [observed_comm (x:=x)]
  exact sum_observed_right hA b

variable [CharZero K]

theorem expected_eq_zero (h : rows ≠ []) (a : α) (b : β) :
    expected rows x y a b = (0 : K) ↔ a ∉ labels rows x ∨ b ∉ labels rows y := by
  have hlen : (rows.length : K) ≠ 0 :=
    Nat.cast_ne_zero.mpr fun hzero => h (List.length_eq_zero_iff.mp hzero)
  rw [expected,div_eq_zero_iff,or_iff_left hlen,mul_eq_zero,Nat.cast_eq_zero,Nat.cast_eq_zero,
    marginal_eq_zero,marginal_eq_zero]

/-- What a cell adds to the statistic; nothing is expected where nothing can be. -/
def deviation [DecidableEq K] (observed : ℕ) (expected : K) : K :=
  ((observed : K)-expected)^2/if expected = 0 then 1 else expected

/-- Labels that do not occur add nothing to the statistic. -/
theorem statistic_of_subset [DecidableEq K] (h : rows ≠ []) (hA : labels rows x ⊆ A)
    (hB : labels rows y ⊆ B) :
    ∑ a ∈ A, ∑ b ∈ B, deviation (observed rows x y a b) (expected rows x y a b : K) =
      statistic rows x y := by
  have hnone : ∀ a b, a ∉ labels rows x ∨ b ∉ labels rows y →
      deviation (observed rows x y a b) (expected rows x y a b : K) = 0 := by
    intro a b hab
    have hobserved : observed rows x y a b = 0 := by
      rcases hab with ha | hb
      · exact Nat.le_zero.mp ((observed_le_left rows x y a b).trans (marginal_eq_zero.mpr ha).le)
      · exact Nat.le_zero.mp ((observed_le_right rows x y a b).trans (marginal_eq_zero.mpr hb).le)
    rw [deviation,hobserved,(expected_eq_zero h a b).mpr hab]
    simp
  rw [statistic,← Finset.sum_subset hA fun a _ ha =>
    Finset.sum_eq_zero fun b _ => hnone a b (.inl ha)]
  refine Finset.sum_congr rfl fun a ha => ?_
  rw [← Finset.sum_subset hB fun b _ hb => hnone a b (.inr hb)]
  refine Finset.sum_congr rfl fun b hb => ?_
  have hne : expected rows x y a b ≠ (0 : K) := fun hzero =>
    ((expected_eq_zero h a b).mp hzero).elim (absurd ha) (absurd hb)
  rw [deviation,if_neg hne]

/-- The rows of a table without anything expected are those of labels that do not occur. -/
theorem card_filter_expected [DecidableEq K] (h : rows ≠ []) (hA : labels rows x ⊆ A)
    (hB : labels rows y ⊆ B) :
    ((A.filter fun a => ∀ b ∈ B, expected rows x y a b = (0 : K)).card : ℤ) =
      A.card-(labels rows x).card := by
  have hfilter : (A.filter fun a => ∀ b ∈ B, expected rows x y a b = (0 : K)) =
      A \ labels rows x := by
    ext a
    rw [Finset.mem_filter,Finset.mem_sdiff]
    refine and_congr_right fun _ => ?_
    simp only [expected_eq_zero h]
    constructor
    · obtain ⟨r,hr⟩ := List.exists_mem_of_ne_nil rows h
      have hmem : y r ∈ labels rows y := mem_labels.mpr ⟨r,hr,rfl⟩
      exact fun hall => (hall (y r) (hB hmem)).resolve_right fun hnot => hnot hmem
    · exact fun ha b _ => .inl ha
  rw [hfilter,Finset.card_sdiff_of_subset hA,Nat.cast_sub (Finset.card_le_card hA)]

omit [CharZero K] in
theorem expected_comm (a : α) (b : β) : expected rows x y a b = (expected rows y x b a : K) := by
  rw [expected,expected,mul_comm]

/-- Nor to the degrees of freedom. -/
theorem freedom_of_subset [DecidableEq K] (h : rows ≠ []) (hA : labels rows x ⊆ A)
    (hB : labels rows y ⊆ B) :
    ((A.card : ℤ)-1-(A.filter fun a => ∀ b ∈ B, expected rows x y a b = (0 : K)).card)*
        (B.card-1-(B.filter fun b => ∀ a ∈ A, expected rows x y a b = (0 : K)).card) =
      freedom rows x y := by
  have hcols : ((B.filter fun b => ∀ a ∈ A, expected rows x y a b = (0 : K)).card : ℤ) =
      B.card-(labels rows y).card := by
    simp only [expected_comm (x:=x)]
    exact card_filter_expected h hB hA
  rw [card_filter_expected h hA hB,hcols,freedom]
  congr 1 <;> omega

end Cells

/-! ## Other labels -/

/-- A sum over labels does not change when the same rows are told apart by other labels. -/
theorem sum_labels {M : Type*} [AddCommMonoid M] {rows : List ρ} {x : ρ → α} {x' : ρ → α'}
    (h : ∀ r ∈ rows, ∀ r' ∈ rows, x r = x r' ↔ x' r = x' r') {f : α → M} {f' : α' → M}
    (hf : ∀ r ∈ rows, f (x r) = f' (x' r)) :
    ∑ a ∈ labels rows x, f a = ∑ a ∈ labels rows x', f' a := by
  choose row hrow hx using fun a (ha : a ∈ labels rows x) => mem_labels.mp ha
  refine Finset.sum_bij (fun a ha => x' (row a ha)) (fun a ha => ?_) (fun a ha b hb heq => ?_)
    (fun a' ha' => ?_) (fun a ha => ?_)
  · exact mem_labels.mpr ⟨row a ha,hrow a ha,rfl⟩
  · rw [← hx a ha,← hx b hb]
    exact (h _ (hrow a ha) _ (hrow b hb)).mpr heq
  · obtain ⟨r,hr,rfl⟩ := mem_labels.mp ha'
    have hmem : x r ∈ labels rows x := mem_labels.mpr ⟨r,hr,rfl⟩
    exact ⟨x r,hmem,(h _ (hrow _ hmem) r hr).mp (hx _ hmem)⟩
  · rw [← hf _ (hrow a ha),hx a ha]

section Relabel

variable {rows : List ρ} {x : ρ → α} {x' : ρ → α'} {y : ρ → β} {y' : ρ → β'}

theorem marginal_congr (hx : ∀ r ∈ rows, ∀ r' ∈ rows, x r = x r' ↔ x' r = x' r') {r : ρ}
    (hr : r ∈ rows) : marginal rows x (x r) = marginal rows x' (x' r) :=
  List.countP_congr fun r' hr' => by simpa using hx r' hr' r hr

theorem card_labels (hx : ∀ r ∈ rows, ∀ r' ∈ rows, x r = x r' ↔ x' r = x' r') :
    (labels rows x).card = (labels rows x').card := by
  rw [Finset.card_eq_sum_ones,Finset.card_eq_sum_ones]
  exact sum_labels hx fun _ _ => rfl

theorem freedom_congr (hx : ∀ r ∈ rows, ∀ r' ∈ rows, x r = x r' ↔ x' r = x' r')
    (hy : ∀ r ∈ rows, ∀ r' ∈ rows, y r = y r' ↔ y' r = y' r') :
    freedom rows x y = freedom rows x' y' := by
  rw [freedom,freedom,card_labels hx,card_labels hy]

theorem statistic_congr (hx : ∀ r ∈ rows, ∀ r' ∈ rows, x r = x r' ↔ x' r = x' r')
    (hy : ∀ r ∈ rows, ∀ r' ∈ rows, y r = y r' ↔ y' r = y' r') :
    (statistic rows x y : K) = statistic rows x' y' := by
  refine sum_labels hx fun r hr => sum_labels hy fun q hq => ?_
  have hobserved : observed rows x y (x r) (y q) = observed rows x' y' (x' r) (y' q) :=
    List.countP_congr fun r' hr' => by simp [hx r' hr' r hr,hy r' hr' q hq]
  rw [expected,expected,marginal_congr hx hr,marginal_congr hy hq,hobserved]

end Relabel

/-! ## Strata -/

def stratum (rows : List ρ) (s : ρ → σ) (k : σ) : List ρ := rows.filter fun r => s r = k

/-- The sums over all strata that occur. -/
def stratified (rows : List ρ) (s : ρ → σ) (x : ρ → α) (y : ρ → β) : K × ℤ :=
  (∑ k ∈ labels rows s, statistic (stratum rows s k) x y,
    ∑ k ∈ labels rows s, freedom (stratum rows s k) x y)

theorem stratum_ne_nil {rows : List ρ} {s : ρ → σ} {k : σ} (h : k ∈ labels rows s) :
    stratum rows s k ≠ [] := by
  obtain ⟨r,hr,rfl⟩ := mem_labels.mp h
  exact List.ne_nil_of_mem (List.mem_filter.mpr ⟨hr,decide_eq_true rfl⟩)

theorem stratified_freedom_nonneg (rows : List ρ) (s : ρ → σ) (x : ρ → α) (y : ρ → β) :
    0 ≤ (stratified rows s x y : K × ℤ).2 :=
  Finset.sum_nonneg fun _ hk => freedom_nonneg (stratum_ne_nil hk) x y

/-- Labels that tell the same rows apart lead to the same sums. -/
theorem stratified_congr {rows : List ρ} {s : ρ → σ} {s' : ρ → σ'} {x : ρ → α} {x' : ρ → α'}
    {y : ρ → β} {y' : ρ → β'} (hs : ∀ r ∈ rows, ∀ r' ∈ rows, s r = s r' ↔ s' r = s' r')
    (hx : ∀ r ∈ rows, ∀ r' ∈ rows, x r = x r' ↔ x' r = x' r')
    (hy : ∀ r ∈ rows, ∀ r' ∈ rows, y r = y r' ↔ y' r = y' r') :
    (stratified rows s x y : K × ℤ) = stratified rows s' x' y' := by
  have hstratum : ∀ r ∈ rows, stratum rows s (s r) = stratum rows s' (s' r) := fun r hr =>
    List.filter_congr fun r' hr' => by simp [hs r' hr' r hr]
  have hsub : ∀ r, ∀ q ∈ stratum rows s' (s' r), q ∈ rows := fun r q hq =>
    (List.mem_filter.mp hq).1
  refine Prod.ext (sum_labels hs fun r hr => ?_) (sum_labels hs fun r hr => ?_)
  · rw [hstratum r hr]
    exact statistic_congr (fun p hp q hq => hx p (hsub r p hp) q (hsub r q hq))
      fun p hp q hq => hy p (hsub r p hp) q (hsub r q hq)
  · rw [hstratum r hr]
    exact freedom_congr (fun p hp q hq => hx p (hsub r p hp) q (hsub r q hq))
      fun p hp q hq => hy p (hsub r p hp) q (hsub r q hq)

end Contingency
