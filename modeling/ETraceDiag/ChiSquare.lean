import Mathlib.Data.Int.Interval
import Mathlib.Data.List.FinRange
import Mathlib.Data.List.GetD
import Mathlib.Data.Rat.BigOperators
import ETraceDiag.Contingency
import ETraceDiag.MixedRadix
import ETraceDiag.TimeTable

/-!
# The chi-square test

`chisq_ci` of `causal/psi_pc.py`: rows are counted by one number that is made of several columns
with 64-bit arithmetic, in tables that are laid out by that number. Counts and what is compared
with them are exact.
-/

namespace ETraceDiag
namespace ChiSquare

open Contingency MixedRadix TimeTable

/-- `int64` arithmetic wraps around. -/
def wrap (v : ℤ) : ℤ := v.bmod (2^64)

abbrev Row (m : ℕ) := Fin m → ℤ

/-- A matrix of `int64`. -/
structure DataMatrix (m : ℕ) where
  rows : List (Row m)
  int64 : ∀ r ∈ rows, ∀ j, -2^63 ≤ r j ∧ r j < 2^63

/-- What `_chi2_pvalue` gets: counts, and what is expected, in tables of the same shape. -/
structure Tables where
  rows : ℕ
  cols : ℕ
  tables : List ((ℕ → ℕ → ℕ) × (ℕ → ℕ → ℚ))

namespace Tables

variable (t : Tables)

def stat : ℚ := (t.tables.map fun c =>
  ∑ x ∈ Finset.range t.rows, ∑ y ∈ Finset.range t.cols, deviation (c.1 x y) (c.2 x y)).sum

def zeroRows (expected : ℕ → ℕ → ℚ) : ℕ :=
  ((Finset.range t.rows).filter fun x => ∀ y ∈ Finset.range t.cols, expected x y = 0).card

def zeroCols (expected : ℕ → ℕ → ℚ) : ℕ :=
  ((Finset.range t.cols).filter fun y => ∀ x ∈ Finset.range t.rows, expected x y = 0).card

def dof : ℤ := (t.tables.map fun c =>
  ((t.rows : ℤ)-1-t.zeroRows c.2)*(t.cols-1-t.zeroCols c.2)).sum

def sums : ℚ × ℤ := (t.stat,t.dof)

end Tables

def chi2Pvalue (gammaincc : ℚ → ℚ → ℚ) (t : Tables) : ℚ :=
  if t.dof = 0 then 1 else gammaincc (t.dof/2) (t.stat/2)

/-- The product of the marginals, over the number of rows. -/
def marginals (cardX cardY n : ℕ) (counts : ℕ → ℕ → ℕ) (x y : ℕ) : ℚ :=
  ((∑ j ∈ Finset.range cardY, counts x j : ℕ) : ℚ)*(∑ i ∈ Finset.range cardX, counts i y : ℕ)/n

/-- `np.bincount(..).reshape(..)`; nothing when a number is negative, or does not fit into the
shape, or when the size of the shape is not one of 64 bits. -/
def bincount (indexed : List ℤ) (cardS cardX cardY : ℤ) : Option (ℕ → ℕ → ℕ → ℕ) :=
  if 0 ≤ cardX ∧ 0 ≤ cardY ∧ cardS*cardX*cardY < 2^63 ∧
      ∀ i ∈ indexed, 0 ≤ i ∧ i < cardS*cardX*cardY then
    some fun s x y => indexed.count (((s : ℤ)*cardX+x)*cardY+y)
  else none

section Test

variable {m : ℕ} (rows : List (Row m))

/-- `np.max(data,axis=0)+1`. -/
def cardinality (j : Fin m) : ℤ := wrap (((rows.map (· j)).max?).getD 0+1)

/-- `np.prod`. -/
def prod64 (cards : List ℤ) : ℤ := wrap cards.prod

/-- What comes after a column, multiplied. -/
def cardCum : List ℤ → List ℤ
  | [] => []
  | _::cards => prod64 cards::cardCum cards

def dot64 (ws vs : List ℤ) : ℤ := wrap (ws.zipWith (·*·) vs).sum

/-- A number for what a row has in some columns. -/
def encode (cols : List (Fin m)) (r : Row m) : ℤ :=
  dot64 (cardCum (cols.map (cardinality rows))) (cols.map r)

def BINCOUNT_UNIQUE_THRESHOLD : ℤ := 100000

variable (x y : Fin m) (S : List (Fin m))

/-! ## Without conditions -/

def flatIndex (r : Row m) : ℤ := wrap (r x*cardinality rows y+r y)

def flat : Option Tables :=
  let cardX := cardinality rows x
  let cardY := cardinality rows y
  (bincount (rows.map (flatIndex rows x y)) 1 cardX cardY).map fun counts =>
    { rows := cardX.toNat
      cols := cardY.toNat
      tables := [(counts 0,marginals cardX.toNat cardY.toNat rows.length (counts 0))] }

/-! ## One table for all values of the conditions -/

def cardS : ℤ := prod64 (S.map (cardinality rows))

def denseIndex : Row m → ℤ := encode rows (S++[x,y])

def mass (cardX cardY : ℕ) (counts : ℕ → ℕ → ℕ) : ℕ :=
  ∑ i ∈ Finset.range cardX, ∑ j ∈ Finset.range cardY, counts i j

def dense : Option Tables :=
  let cardX := cardinality rows x
  let cardY := cardinality rows y
  (bincount (rows.map (denseIndex rows x y S)) (cardS rows S) cardX cardY).map fun counts =>
    let sMarg := fun s => mass cardX.toNat cardY.toNat (counts s)
    { rows := cardX.toNat
      cols := cardY.toNat
      tables := ((List.range (cardS rows S).toNat).filter fun s => sMarg s ≠ 0).map fun s =>
        (counts s,marginals cardX.toNat cardY.toNat (sMarg s) (counts s)) }

/-! ## Tables for the values that occur -/

/-- `np.unique`. -/
def uniqS : List ℤ := sortedSet (rows.map (encode rows S))

def inverseS (r : Row m) : ℕ := (uniqS rows S).idxOf (encode rows S r)

def uniqueIndex (r : Row m) : ℤ :=
  wrap (inverseS rows S r*cardinality rows x*cardinality rows y+r x*cardinality rows y+r y)

def unique : Option Tables :=
  let cardX := cardinality rows x
  let cardY := cardinality rows y
  (bincount (rows.map (uniqueIndex rows x y S)) (uniqS rows S).length cardX cardY).map
    fun counts =>
      { rows := cardX.toNat
        cols := cardY.toNat
        tables := (uniqS rows S).mapIdx fun s u =>
          (counts s,marginals cardX.toNat cardY.toNat ((rows.map (encode rows S)).count u)
            (counts s)) }

end Test

section Paths

variable {m : ℕ}

/-- `sorted({int(s) for s in S})`. -/
def sortedS (S : List (Fin m)) : List (Fin m) := (List.finRange m).filter S.contains

/-- The product of the cardinalities is that of a small table. -/
def isDense (rows : List (Row m)) (S : List (Fin m)) : Bool :=
  0 < cardS rows S && cardS rows S < BINCOUNT_UNIQUE_THRESHOLD

def chisqTables (data : DataMatrix m) (x y : Fin m) (S : List (Fin m)) : Option Tables :=
  let rows := data.rows
  let S := sortedS S
  if rows = [] then none
  else if S = [] then flat rows x y
  else if isDense rows S then dense rows x y S
  else unique rows x y S

/-- `chisq_ci`; nothing when an exception is raised. -/
def chisqCi (gammaincc : ℚ → ℚ → ℚ) (data : DataMatrix m) (x y : Fin m) (S : List (Fin m)) :
    Option ℚ :=
  (chisqTables data x y S).map (chi2Pvalue gammaincc)

end Paths

/-! ## Cells -/

/-- How many strata a table has, and where in it a row is counted. -/
structure Layout (m : ℕ) where
  strata : ℤ
  index : Row m → ℤ

section Cells

variable {m : ℕ} (rows : List (Row m)) (x y : Fin m)

/-- The table is not too large, and all rows are in it. -/
structure Layout.Placed (l : Layout m) : Prop where
  cardX : 0 ≤ cardinality rows x
  cardY : 0 ≤ cardinality rows y
  size : l.strata*cardinality rows x*cardinality rows y < 2^63
  index : ∀ r ∈ rows, 0 ≤ l.index r ∧
    l.index r < l.strata*cardinality rows x*cardinality rows y

/-- The stratum, the row and the column of the cell in which a row of the data is counted. -/
def Layout.stratumOf (l : Layout m) (r : Row m) : ℕ :=
  (l.index r).toNat/(cardinality rows y).toNat/(cardinality rows x).toNat

def Layout.rowOf (l : Layout m) (r : Row m) : ℕ :=
  (l.index r).toNat/(cardinality rows y).toNat%(cardinality rows x).toNat

def Layout.colOf (l : Layout m) (r : Row m) : ℕ := (l.index r).toNat%(cardinality rows y).toNat

/-- The sums over the cells in which rows are counted. -/
def Layout.sums (l : Layout m) : ℚ × ℤ :=
  stratified rows (l.stratumOf rows x y) (l.rowOf rows x y) (l.colOf rows y)

variable {rows x y}

theorem bincount_isSome {l : Layout m} :
    (bincount (rows.map l.index) l.strata (cardinality rows x) (cardinality rows y)).isSome ↔
      l.Placed rows x y := by
  rw [bincount]
  split
  · next h =>
    refine iff_of_true rfl ⟨h.1,h.2.1,h.2.2.1,fun r hr => h.2.2.2 _ (List.mem_map_of_mem hr)⟩
  · next h =>
    refine iff_of_false Bool.false_ne_true fun hplaced => h ?_
    refine ⟨hplaced.cardX,hplaced.cardY,hplaced.size,fun i hi => ?_⟩
    obtain ⟨r,hr,rfl⟩ := List.mem_map.mp hi
    exact hplaced.index r hr

/-- A number is that of one cell. -/
theorem eq_cell_iff {R C i s a b : ℕ} (ha : a < R) (hb : b < C) :
    i = (s*R+a)*C+b ↔ i/C/R = s ∧ i/C%R = a ∧ i%C = b := by
  constructor
  · rintro rfl
    have hC : 0 < C := Nat.zero_lt_of_lt hb
    have hR : 0 < R := Nat.zero_lt_of_lt ha
    have hdiv : ((s*R+a)*C+b)/C = s*R+a := by
      rw [Nat.add_comm,Nat.add_mul_div_right _ _ hC,Nat.div_eq_of_lt hb,Nat.zero_add]
    rw [hdiv]
    refine ⟨?_,?_,?_⟩
    · rw [Nat.add_comm,Nat.add_mul_div_right _ _ hR,Nat.div_eq_of_lt ha,Nat.zero_add]
    · rw [Nat.mul_add_mod_self_right,Nat.mod_eq_of_lt ha]
    · rw [Nat.mul_add_mod_self_right,Nat.mod_eq_of_lt hb]
  · rintro ⟨rfl,rfl,rfl⟩
    rw [Nat.div_add_mod',Nat.div_add_mod']

/-- What is counted in a cell are the rows that have it. -/
theorem bincount_eq_observed {l : Layout m} (h : l.Placed rows x y) {counts : ℕ → ℕ → ℕ → ℕ}
    (hcounts : bincount (rows.map l.index) l.strata (cardinality rows x) (cardinality rows y) =
      some counts) (k : ℕ) {a b : ℕ} (ha : a < (cardinality rows x).toNat)
    (hb : b < (cardinality rows y).toNat) :
    counts k a b = observed (stratum rows (l.stratumOf rows x y) k) (l.rowOf rows x y)
      (l.colOf rows y) a b := by
  rw [bincount] at hcounts
  split at hcounts
  · obtain rfl := Option.some.inj hcounts
    dsimp only
    rw [List.count_eq_countP,List.countP_map,observed,stratum,List.countP_filter]
    refine List.countP_congr fun r hr => ?_
    have hcell := eq_cell_iff (i:=(l.index r).toNat) (s:=k) ha hb
    have hX : ((cardinality rows x).toNat : ℤ) = cardinality rows x := Int.toNat_of_nonneg h.cardX
    have hY : ((cardinality rows y).toNat : ℤ) = cardinality rows y := Int.toNat_of_nonneg h.cardY
    have hindex : ((l.index r).toNat : ℤ) = l.index r := Int.toNat_of_nonneg (h.index r hr).1
    have hcast : l.index r = ((k : ℤ)*cardinality rows x+a)*cardinality rows y+b ↔
        (l.index r).toNat = (k*(cardinality rows x).toNat+a)*(cardinality rows y).toNat+b := by
      rw [← Int.natCast_inj]
      push_cast
      rw [hX,hY,hindex]
    simp only [Function.comp_apply,beq_iff_eq,Bool.and_eq_true,decide_eq_true_eq]
    rw [hcast,hcell,Layout.stratumOf,Layout.rowOf,Layout.colOf]
    exact ⟨fun h => ⟨h.2,h.1⟩,fun h => ⟨h.2,h.1⟩⟩
  · cases hcounts

/-- The tables of some strata, with what their marginals lead to expect. -/
def tablesOf (R C : ℕ) (ks : List ℕ) (counts : ℕ → ℕ → ℕ → ℕ) (n : ℕ → ℕ) : Tables where
  rows := R
  cols := C
  tables := ks.map fun k => (counts k,marginals R C (n k) (counts k))

theorem sum_labels {ρ M : Type} [AddCommMonoid M] {rows : List ρ} {s : ρ → ℕ} {ks : List ℕ}
    (hnodup : ks.Nodup) (hks : ∀ k, k ∈ ks ↔ k ∈ labels rows s) (f : ℕ → M) :
    ∑ k ∈ labels rows s, f k = (ks.map f).sum := by
  have hlabels : labels rows s = ks.toFinset := by
    ext k
    rw [List.mem_toFinset,hks]
  rw [hlabels,List.sum_toFinset _ hnodup]

theorem labels_subset {ρ γ : Type} [DecidableEq γ] {rows : List ρ} {f : ρ → γ} {A : Finset γ}
    (h : ∀ r ∈ rows, f r ∈ A) : labels rows f ⊆ A := by
  intro c hc
  obtain ⟨r,hr,rfl⟩ := mem_labels.mp hc
  exact h r hr

/-- From the counts of all cells the marginals lead to what is expected. -/
theorem marginals_eq_expected {ρ : Type} {rows : List ρ} {a b : ρ → ℕ} {R C : ℕ}
    (ha : ∀ r ∈ rows, a r ∈ Finset.range R) (hb : ∀ r ∈ rows, b r ∈ Finset.range C)
    {counts : ℕ → ℕ → ℕ} (hcounts : ∀ i j, i < R → j < C → counts i j = observed rows a b i j) :
    ∀ i ∈ Finset.range R, ∀ j ∈ Finset.range C,
      marginals R C rows.length counts i j = expected rows a b i j := by
  intro i hi j hj
  have hrow : ∑ j ∈ Finset.range C, counts i j = marginal rows a i := by
    rw [← sum_observed_right hb]
    exact Finset.sum_congr rfl fun j hj =>
      hcounts i j (Finset.mem_range.mp hi) (Finset.mem_range.mp hj)
  have hcol : ∑ i ∈ Finset.range R, counts i j = marginal rows b j := by
    rw [← sum_observed_left ha]
    exact Finset.sum_congr rfl fun i hi =>
      hcounts i j (Finset.mem_range.mp hi) (Finset.mem_range.mp hj)
  rw [marginals,hrow,hcol,expected]

/-- Tables of cells add up to what the cells do. -/
theorem sums_tablesOf {ρ : Type} {rows : List ρ} {s a b : ρ → ℕ} {R C : ℕ}
    (ha : ∀ r ∈ rows, a r < R) (hb : ∀ r ∈ rows, b r < C) {counts : ℕ → ℕ → ℕ → ℕ}
    (hcounts : ∀ k i j, i < R → j < C → counts k i j = observed (stratum rows s k) a b i j)
    {ks : List ℕ} (hnodup : ks.Nodup) (hks : ∀ k, k ∈ ks ↔ k ∈ labels rows s) {n : ℕ → ℕ}
    (hn : ∀ k ∈ ks, n k = (stratum rows s k).length) :
    (tablesOf R C ks counts n).sums = stratified rows s a b := by
  have hA : ∀ k, ∀ r ∈ stratum rows s k, a r ∈ Finset.range R := fun k r hr =>
    Finset.mem_range.mpr (ha r (List.mem_filter.mp hr).1)
  have hB : ∀ k, ∀ r ∈ stratum rows s k, b r ∈ Finset.range C := fun k r hr =>
    Finset.mem_range.mpr (hb r (List.mem_filter.mp hr).1)
  have hexpected : ∀ k ∈ ks, ∀ i ∈ Finset.range R, ∀ j ∈ Finset.range C,
      marginals R C (n k) (counts k) i j = expected (stratum rows s k) a b i j := by
    intro k hk
    rw [hn k hk]
    exact marginals_eq_expected (hA k) (hB k) (hcounts k)
  refine Prod.ext (Eq.trans ?_ (sum_labels hnodup hks _).symm)
    (Eq.trans ?_ (sum_labels hnodup hks _).symm)
  · rw [Tables.sums,Tables.stat,tablesOf,List.map_map]
    refine congrArg List.sum (List.map_congr_left fun k hk => ?_)
    rw [← statistic_of_subset (stratum_ne_nil ((hks k).mp hk))
      (labels_subset (hA k)) (labels_subset (hB k))]
    refine Finset.sum_congr rfl fun i hi => Finset.sum_congr rfl fun j hj => ?_
    dsimp only [Function.comp_apply]
    rw [hexpected k hk i hi j hj,hcounts k i j (Finset.mem_range.mp hi) (Finset.mem_range.mp hj)]
  · rw [Tables.sums,Tables.dof,tablesOf,List.map_map]
    refine congrArg List.sum (List.map_congr_left fun k hk => ?_)
    rw [← freedom_of_subset (K:=ℚ) (stratum_ne_nil ((hks k).mp hk))
      (labels_subset (hA k)) (labels_subset (hB k)),
      Finset.card_range,Finset.card_range]
    dsimp only [Function.comp_apply]
    rw [Tables.zeroRows,Tables.zeroCols]
    congr 3
    · congr 1
      refine Finset.filter_congr fun i hi => forall₂_congr fun j hj => ?_
      rw [hexpected k hk i hi j hj]
    · congr 1
      refine Finset.filter_congr fun j hj => forall₂_congr fun i hi => ?_
      rw [hexpected k hk i hi j hj]

theorem Layout.Placed.pos {l : Layout m} (h : l.Placed rows x y) (hne : rows ≠ []) :
    0 < cardinality rows x ∧ 0 < cardinality rows y := by
  obtain ⟨r,hr⟩ := List.exists_mem_of_ne_nil rows hne
  have hpos := (h.index r hr).1.trans_lt (h.index r hr).2
  refine ⟨lt_of_le_of_ne h.cardX fun hzero => ?_,lt_of_le_of_ne h.cardY fun hzero => ?_⟩
  · rw [← hzero,mul_zero,zero_mul] at hpos
    exact lt_irrefl 0 hpos
  · rw [← hzero,mul_zero] at hpos
    exact lt_irrefl 0 hpos

theorem Layout.Placed.rowOf_lt {l : Layout m} (h : l.Placed rows x y) (hne : rows ≠ [])
    (r : Row m) : l.rowOf rows x y r < (cardinality rows x).toNat :=
  Nat.mod_lt _ (Int.pos_iff_toNat_pos.mp (h.pos hne).1)

theorem Layout.Placed.colOf_lt {l : Layout m} (h : l.Placed rows x y) (hne : rows ≠ [])
    (r : Row m) : l.colOf rows y r < (cardinality rows y).toNat :=
  Nat.mod_lt _ (Int.pos_iff_toNat_pos.mp (h.pos hne).2)

theorem Layout.Placed.stratumOf_lt {l : Layout m} (h : l.Placed rows x y) {r : Row m}
    (hr : r ∈ rows) : l.stratumOf rows x y r < l.strata.toNat := by
  obtain ⟨hlow,hhigh⟩ := h.index r hr
  obtain ⟨hX,hY⟩ := h.pos (List.ne_nil_of_mem hr)
  have hprod : 0 < l.strata*cardinality rows x :=
    (mul_pos_iff_of_pos_right hY).mp (hlow.trans_lt hhigh)
  have hS : 0 < l.strata := (mul_pos_iff_of_pos_right hX).mp hprod
  rw [Layout.stratumOf,Nat.div_lt_iff_lt_mul (Int.pos_iff_toNat_pos.mp hX),
    Nat.div_lt_iff_lt_mul (Int.pos_iff_toNat_pos.mp hY),← Int.toNat_mul hS.le hX.le,
    ← Int.toNat_mul hprod.le hY.le]
  omega

/-- A path makes tables when rows have their places, and these add up to what the cells do. -/
structure Counts (rows : List (Row m)) (x y : Fin m) (l : Layout m) (made : Option Tables) :
    Prop where
  isSome_iff : made.isSome = true ↔ l.Placed rows x y
  sums_eq : ∀ t, made = some t → t.sums = l.sums rows x y

/-- What is left to be shown of a path. -/
theorem Counts.of_map {l : Layout m} (hne : rows ≠ []) {f : (ℕ → ℕ → ℕ → ℕ) → Tables}
    (hf : l.Placed rows x y → ∀ counts : ℕ → ℕ → ℕ → ℕ,
      (∀ k i j, i < (cardinality rows x).toNat → j < (cardinality rows y).toNat →
        counts k i j = observed (stratum rows (l.stratumOf rows x y) k) (l.rowOf rows x y)
          (l.colOf rows y) i j) →
      ∃ ks n,
        f counts = tablesOf (cardinality rows x).toNat (cardinality rows y).toNat ks counts n ∧
        ks.Nodup ∧ (∀ k, k ∈ ks ↔ k ∈ labels rows (l.stratumOf rows x y)) ∧
        ∀ k ∈ ks, n k = (stratum rows (l.stratumOf rows x y) k).length) :
    Counts rows x y l
      ((bincount (rows.map l.index) l.strata (cardinality rows x) (cardinality rows y)).map f) where
  isSome_iff := by rw [Option.isSome_map,bincount_isSome]
  sums_eq t ht := by
    obtain ⟨counts,hcounts,rfl⟩ := Option.map_eq_some_iff.mp ht
    have hplaced := bincount_isSome.mp (Option.isSome_iff_exists.mpr ⟨counts,hcounts⟩)
    have hobserved := fun k i j (hi : i < (cardinality rows x).toNat) hj =>
      bincount_eq_observed hplaced hcounts k (b:=j) hi hj
    obtain ⟨ks,n,heq,hnodup,hks,hn⟩ := hf hplaced counts hobserved
    rw [heq]
    exact sums_tablesOf (fun r _ => hplaced.rowOf_lt hne r) (fun r _ => hplaced.colOf_lt hne r)
      hobserved hnodup hks hn

end Cells

/-! ## The paths -/

section Paths

variable {m : ℕ} (rows : List (Row m)) (x y : Fin m) (S : List (Fin m))

def flatLayout : Layout m := ⟨1,flatIndex rows x y⟩

def denseLayout : Layout m := ⟨cardS rows S,denseIndex rows x y S⟩

def uniqueLayout : Layout m := ⟨(uniqS rows S).length,uniqueIndex rows x y S⟩

variable {rows}

theorem counts_flat (hne : rows ≠ []) : Counts rows x y (flatLayout rows x y) (flat rows x y) := by
  refine Counts.of_map hne fun hplaced counts hcounts => ⟨[0],fun _ => rows.length,rfl,
    List.nodup_singleton 0,fun k => ?_,fun k hk => ?_⟩
  all_goals
    have hzero : ∀ r ∈ rows, (flatLayout rows x y).stratumOf rows x y r = 0 := fun r hr =>
      Nat.lt_one_iff.mp (hplaced.stratumOf_lt hr)
  · rw [List.mem_singleton,mem_labels]
    constructor
    · rintro rfl
      obtain ⟨r,hr⟩ := List.exists_mem_of_ne_nil rows hne
      exact ⟨r,hr,hzero r hr⟩
    · rintro ⟨r,hr,rfl⟩
      exact hzero r hr
  · obtain rfl := List.mem_singleton.mp hk
    rw [stratum,List.filter_eq_self.mpr fun r hr => decide_eq_true (hzero r hr)]

/-- The mass of a stratum is the number of its rows. -/
theorem mass_eq_length {ρ : Type} {rows : List ρ} {s a b : ρ → ℕ} {R C : ℕ}
    (ha : ∀ r ∈ rows, a r < R) (hb : ∀ r ∈ rows, b r < C) {k : ℕ} {counts : ℕ → ℕ → ℕ}
    (hcounts : ∀ i j, i < R → j < C → counts i j = observed (stratum rows s k) a b i j) :
    mass R C counts = (stratum rows s k).length := by
  have hA : ∀ r ∈ stratum rows s k, a r ∈ Finset.range R := fun r hr =>
    Finset.mem_range.mpr (ha r (List.mem_filter.mp hr).1)
  have hB : ∀ r ∈ stratum rows s k, b r ∈ Finset.range C := fun r hr =>
    Finset.mem_range.mpr (hb r (List.mem_filter.mp hr).1)
  rw [mass,← sum_marginal hA]
  refine Finset.sum_congr rfl fun i hi => ?_
  rw [← sum_observed_right hB]
  exact Finset.sum_congr rfl fun j hj =>
    hcounts i j (Finset.mem_range.mp hi) (Finset.mem_range.mp hj)

theorem counts_dense (hne : rows ≠ []) :
    Counts rows x y (denseLayout rows x y S) (dense rows x y S) := by
  refine Counts.of_map hne fun hplaced counts hcounts => ⟨_,_,rfl,?_,fun k => ?_,fun k hk => ?_⟩
  all_goals
    have hmass := fun k => mass_eq_length (fun r _ => hplaced.rowOf_lt hne r)
      (fun r _ => hplaced.colOf_lt hne r) (hcounts k)
  · exact List.nodup_range.filter _
  · rw [List.mem_filter,decide_eq_true_iff]
    dsimp only
    rw [hmass,Ne,List.length_eq_zero_iff]
    constructor
    · rintro ⟨-,hsome⟩
      obtain ⟨r,hr⟩ := List.exists_mem_of_ne_nil _ hsome
      obtain ⟨hr,heq⟩ := List.mem_filter.mp hr
      exact mem_labels.mpr ⟨r,hr,of_decide_eq_true heq⟩
    · intro hk
      refine ⟨List.mem_range.mpr ?_,stratum_ne_nil hk⟩
      obtain ⟨r,hr,rfl⟩ := mem_labels.mp hk
      exact hplaced.stratumOf_lt hr
  · exact hmass k

theorem wrap_of_lt {v : ℤ} (hlow : -2^63 ≤ v) (hhigh : v < 2^63) : wrap v = v :=
  Int.bmod_eq_of_le (by omega) (by omega)

/-- The entries of some columns are 64-bit numbers from zero on. -/
def Nonneg (rows : List (Row m)) (cols : List (Fin m)) : Prop :=
  ∀ r ∈ rows, ∀ j ∈ cols, 0 ≤ r j ∧ r j < 2^63

variable {x y S}

/-- One more than the greatest entry. -/
def card (rows : List (Row m)) (j : Fin m) : ℤ := ((rows.map (· j)).max?).getD 0+1

theorem lt_card {r : Row m} (hr : r ∈ rows) (j : Fin m) : r j < card rows j := by
  have hmem : r j ∈ rows.map (· j) := List.mem_map_of_mem hr
  obtain ⟨v,hv⟩ := Option.isSome_iff_exists.mp (List.isSome_max?_of_mem hmem)
  have hle := (List.max?_eq_some_iff.mp hv).2 _ hmem
  rw [card,hv,Option.getD_some]
  omega

theorem card_mem (hne : rows ≠ []) (j : Fin m) : ∃ r ∈ rows, card rows j = r j+1 := by
  have hmap : rows.map (· j) ≠ [] := fun h => hne (List.map_eq_nil_iff.mp h)
  obtain ⟨v,hv⟩ := Option.isSome_iff_exists.mp (List.isSome_max?_of_ne_nil hmap)
  obtain ⟨r,hr,rfl⟩ := List.mem_map.mp (List.max?_eq_some_iff.mp hv).1
  exact ⟨r,hr,by rw [card,hv,Option.getD_some]⟩

/-- A cardinality that is not negative has not wrapped around. -/
theorem cardinality_eq_card (hne : rows ≠ []) {cols : List (Fin m)} (h : Nonneg rows cols)
    {j : Fin m} (hj : j ∈ cols) (hcard : 0 ≤ cardinality rows j) :
    cardinality rows j = card rows j := by
  obtain ⟨r,hr,heq⟩ := card_mem hne j
  obtain ⟨hlow,hhigh⟩ := h r hr j hj
  have hwrap : cardinality rows j = wrap (card rows j) := rfl
  by_cases hfull : r j+1 < 2^63
  · rw [hwrap,heq,wrap_of_lt (by omega) hfull]
  · have hmin : wrap (2^63) = -2^63 := by decide
    rw [hwrap,heq,show r j+1 = 2^63 by omega,hmin] at hcard
    exact absurd hcard (by decide)

theorem cell_of_eq {l : Layout m} {r : Row m} {q : ℤ} (hq : 0 ≤ q)
    (hX : 0 ≤ r x ∧ r x < cardinality rows x) (hY : 0 ≤ r y ∧ r y < cardinality rows y)
    (hindex : l.index r = (q*cardinality rows x+r x)*cardinality rows y+r y) :
    l.stratumOf rows x y r = q.toNat ∧ l.rowOf rows x y r = (r x).toNat ∧
      l.colOf rows y r = (r y).toNat := by
  have hR : 0 ≤ cardinality rows x := hX.1.trans hX.2.le
  have hC : 0 ≤ cardinality rows y := hY.1.trans hY.2.le
  refine (eq_cell_iff ((Int.toNat_lt_toNat (by omega)).mpr hX.2)
    ((Int.toNat_lt_toNat (by omega)).mpr hY.2)).mp ?_
  have hmul := mul_nonneg hq hR
  have hsum : 0 ≤ q*cardinality rows x+r x := add_nonneg hmul hX.1
  rw [hindex,Int.toNat_add (mul_nonneg hsum hC) hY.1,Int.toNat_mul hsum hC,
    Int.toNat_add hmul hX.1,Int.toNat_mul hq hR]

/-- A row is counted by a number for its stratum and by its two entries. -/
def ByNumber (rows : List (Row m)) (x y : Fin m) (l : Layout m) (q : Row m → ℤ) : Prop :=
  ∀ r ∈ rows, 0 ≤ q r ∧ l.index r = (q r*cardinality rows x+r x)*cardinality rows y+r y

theorem lt_cardinality (hne : rows ≠ []) {cols : List (Fin m)} (h : Nonneg rows cols) {j : Fin m}
    (hj : j ∈ cols) (hcard : 0 ≤ cardinality rows j) {r : Row m} (hr : r ∈ rows) :
    0 ≤ r j ∧ r j < cardinality rows j :=
  ⟨(h r hr j hj).1,cardinality_eq_card hne h hj hcard ▸ lt_card hr j⟩

theorem mem_uniqS {c : ℤ} : c ∈ uniqS rows S ↔ ∃ r ∈ rows, encode rows S r = c := by
  rw [uniqS,mem_sortedSet,List.mem_map]

theorem inverseS_lt {r : Row m} (hr : r ∈ rows) : inverseS rows S r < (uniqS rows S).length :=
  List.idxOf_lt_length_iff.mpr (mem_uniqS.mpr ⟨r,hr,rfl⟩)

theorem inverseS_eq_iff {r : Row m} (hr : r ∈ rows) {k : ℕ} (hk : k < (uniqS rows S).length) :
    inverseS rows S r = k ↔ encode rows S r = (uniqS rows S)[k] := by
  have hmem : encode rows S r ∈ uniqS rows S := mem_uniqS.mpr ⟨r,hr,rfl⟩
  have hnodup : (uniqS rows S).Nodup := (sortedSet_pairwise _).imp fun h => h.ne
  have hself : (uniqS rows S).idxOf (uniqS rows S)[k] = k := hnodup.idxOf_getElem k hk
  constructor
  · rintro rfl
    exact (List.getElem_idxOf (List.idxOf_lt_length_iff.mpr hmem)).symm
  · intro heq
    rw [inverseS,heq,hself]

/-- As long as the size of the table is one, a row of the unique path has its own number. -/
theorem byNumber_unique (hX : ∀ r ∈ rows, 0 ≤ r x ∧ r x < cardinality rows x)
    (hY : ∀ r ∈ rows, 0 ≤ r y ∧ r y < cardinality rows y)
    (hsize : (uniqS rows S).length*cardinality rows x*cardinality rows y < 2^63) :
    ByNumber rows x y (uniqueLayout rows x y S) fun r => inverseS rows S r := by
  intro r hr
  have hinverse : (0 : ℤ) ≤ inverseS rows S r ∧
      (inverseS rows S r : ℤ) < (uniqS rows S).length :=
    ⟨Int.natCast_nonneg _,Int.ofNat_lt.mpr (inverseS_lt hr)⟩
  have hrange := mul_add_lt (mul_add_lt hinverse (hX r hr)) (hY r hr)
  refine ⟨hinverse.1,?_⟩
  rw [add_mul] at hrange ⊢
  exact wrap_of_lt (by omega) (by omega)

theorem counts_unique (hne : rows ≠ []) (h : Nonneg rows [x,y]) :
    Counts rows x y (uniqueLayout rows x y S) (unique rows x y S) := by
  refine Counts.of_map hne fun hplaced counts hcounts =>
    ⟨List.range (uniqS rows S).length,
      fun k => (rows.map (encode rows S)).count ((uniqS rows S).getD k 0),?_,List.nodup_range,
      fun k => ?_,fun k hk => ?_⟩
  · rw [tablesOf,Tables.mk.injEq]
    refine ⟨rfl,rfl,List.mapIdx_eq_iff.mpr fun i => ?_⟩
    rw [List.getElem?_map]
    rcases lt_or_ge i (uniqS rows S).length with hi | hi
    · rw [List.getElem?_range hi,List.getElem?_eq_getElem hi,Option.map_some,Option.map_some,
        List.getD_eq_getElem _ _ hi]
    · rw [List.getElem?_eq_none hi,List.getElem?_eq_none (by rwa [List.length_range])]
      rfl
  all_goals
    have hX := fun r (hr : r ∈ rows) => lt_cardinality hne h (j:=x) (by simp) hplaced.cardX hr
    have hY := fun r (hr : r ∈ rows) => lt_cardinality hne h (j:=y) (by simp) hplaced.cardY hr
    have hstratum : ∀ r ∈ rows, (uniqueLayout rows x y S).stratumOf rows x y r =
        inverseS rows S r := by
      intro r hr
      obtain ⟨hq,hindex⟩ := byNumber_unique hX hY hplaced.size r hr
      exact (cell_of_eq hq (hX r hr) (hY r hr) hindex).1
  · rw [List.mem_range,mem_labels]
    constructor
    · intro hk
      obtain ⟨r,hr,heq⟩ := mem_uniqS.mp (List.getElem_mem hk)
      exact ⟨r,hr,(hstratum r hr).trans ((inverseS_eq_iff hr hk).mpr heq)⟩
    · rintro ⟨r,hr,rfl⟩
      rw [hstratum r hr]
      exact inverseS_lt hr
  · have hk := List.mem_range.mp hk
    dsimp only
    rw [List.count_eq_countP,List.countP_map,stratum,← List.countP_eq_length_filter]
    refine List.countP_congr fun r hr => ?_
    rw [hstratum r hr,decide_eq_true_iff,inverseS_eq_iff hr hk,List.getD_eq_getElem _ _ hk]
    simp

/-! ## Exact numbers -/

theorem wrap_add (a b : ℤ) : wrap (a+b) = wrap (wrap a+wrap b) := Int.add_bmod a b _

/-- The number for some columns is the one of mixed radices, as long as there are 64 bits. -/
theorem encode_eq_wrap (rows : List (Row m)) (cols : List (Fin m)) (r : Row m) :
    encode rows cols r = wrap (value (cardinality rows) r cols) := by
  induction cols with
  | nil => rfl
  | cons j cols ih =>
    rw [encode,dot64] at ih ⊢
    have hmul : wrap (prod64 (cols.map (cardinality rows))*r j) =
        wrap (r j*(cols.map (cardinality rows)).prod) := by
      rw [mul_comm (r j)]
      exact Int.bmod_mul_bmod
    rw [List.map_cons,List.map_cons,cardCum,List.zipWith_cons_cons,List.sum_cons,value,wrap_add,ih,
      hmul,← wrap_add]

theorem encode_eq_value {cols : List (Fin m)} {r : Row m} (h : Digits (cardinality rows) r cols)
    (hsize : (cols.map (cardinality rows)).prod < 2^63) :
    encode rows cols r = value (cardinality rows) r cols := by
  obtain ⟨hlow,hhigh⟩ := value_lt h
  rw [encode_eq_wrap,wrap_of_lt (by omega) (by omega)]

theorem card_pos (hne : rows ≠ []) {cols : List (Fin m)} (h : Nonneg rows cols) {j : Fin m}
    (hj : j ∈ cols) : 1 ≤ card rows j := by
  obtain ⟨r,hr,heq⟩ := card_mem hne j
  have hlow := (h r hr j hj).1
  omega

theorem le_prod {cs : List ℤ} (h : ∀ c ∈ cs, 1 ≤ c) : 1 ≤ cs.prod ∧ ∀ c ∈ cs, c ≤ cs.prod := by
  induction cs with
  | nil => exact ⟨le_refl 1,fun c hc => absurd hc List.not_mem_nil⟩
  | cons c cs ih =>
    obtain ⟨hc,hcs⟩ := List.forall_mem_cons.mp h
    obtain ⟨hone,hle⟩ := ih hcs
    rw [List.prod_cons]
    have hfirst : c*1 ≤ c*cs.prod := Int.mul_le_mul_of_nonneg_left hone (by omega)
    have hrest : 1*cs.prod ≤ c*cs.prod := Int.mul_le_mul_of_nonneg_right hc (by omega)
    refine ⟨by omega,List.forall_mem_cons.mpr ⟨by omega,fun d hd => ?_⟩⟩
    exact (hle d hd).trans (by omega)

theorem prod_card : ((S++[x,y]).map (card rows)).prod =
    (S.map (card rows)).prod*card rows x*card rows y := by
  rw [List.map_append,List.prod_append,mul_assoc]
  simp

/-- No product of cardinalities leaves the 64 bits. -/
structure Fits (rows : List (Row m)) (x y : Fin m) (S : List (Fin m)) : Prop where
  ne_nil : rows ≠ []
  nonneg : Nonneg rows (S++[x,y])
  size : (S.map (card rows)).prod*card rows x*card rows y < 2^63

namespace Fits

variable (h : Fits rows x y S)
include h

theorem cardinality_eq {j : Fin m} (hj : j ∈ S++[x,y]) : cardinality rows j = card rows j := by
  have hall : ∀ c ∈ (S++[x,y]).map (card rows), 1 ≤ c := by
    intro c hc
    obtain ⟨i,hi,rfl⟩ := List.mem_map.mp hc
    exact card_pos h.ne_nil h.nonneg hi
  have hle := (le_prod hall).2 _ (List.mem_map_of_mem hj)
  rw [prod_card] at hle
  have hsize := h.size
  have hpos := card_pos h.ne_nil h.nonneg hj
  have hwrap : cardinality rows j = wrap (card rows j) := rfl
  rw [hwrap,wrap_of_lt (by omega) (by omega)]

theorem digits {r : Row m} (hr : r ∈ rows) : Digits (cardinality rows) r (S++[x,y]) := fun j hj =>
  ⟨(h.nonneg r hr j hj).1,h.cardinality_eq hj ▸ lt_card hr j⟩

theorem prod_lt : (S.map (cardinality rows)).prod = (S.map (card rows)).prod ∧
    (S.map (cardinality rows)).prod*cardinality rows x*cardinality rows y < 2^63 ∧
    (S.map (cardinality rows)).prod < 2^63 := by
  have hmap : S.map (cardinality rows) = S.map (card rows) :=
    List.map_congr_left fun j hj => h.cardinality_eq (List.mem_append_left _ hj)
  have hX := h.cardinality_eq (j:=x) (by simp)
  have hY := h.cardinality_eq (j:=y) (by simp)
  have hpos : 1 ≤ (S.map (card rows)).prod := by
    refine (le_prod fun c hc => ?_).1
    obtain ⟨i,hi,rfl⟩ := List.mem_map.mp hc
    exact card_pos h.ne_nil h.nonneg (List.mem_append_left _ hi)
  have hx := card_pos h.ne_nil h.nonneg (j:=x) (by simp)
  have hy := card_pos h.ne_nil h.nonneg (j:=y) (by simp)
  have hsize := h.size
  rw [hmap,hX,hY]
  have hfirst := Int.mul_le_mul_of_nonneg_left hx (show 0 ≤ (S.map (card rows)).prod by omega)
  have hsecond := Int.mul_le_mul_of_nonneg_left hy
    (show 0 ≤ (S.map (card rows)).prod*card rows x by omega)
  exact ⟨rfl,hsize,by omega⟩

theorem encode_eq {r : Row m} (hr : r ∈ rows) :
    encode rows S r = value (cardinality rows) r S :=
  encode_eq_value (fun j hj => h.digits hr j (List.mem_append_left _ hj)) h.prod_lt.2.2

/-- Rows have the same number exactly when they agree. -/
theorem encode_inj {r r' : Row m} (hr : r ∈ rows) (hr' : r' ∈ rows) :
    encode rows S r = encode rows S r' ↔ ∀ j ∈ S, r j = r' j := by
  rw [h.encode_eq hr,h.encode_eq hr']
  exact value_inj (fun j hj => h.digits hr j (List.mem_append_left _ hj))
    fun j hj => h.digits hr' j (List.mem_append_left _ hj)

theorem encode_lt {r : Row m} (hr : r ∈ rows) :
    0 ≤ encode rows S r ∧ encode rows S r < (S.map (cardinality rows)).prod := by
  rw [h.encode_eq hr]
  exact value_lt fun j hj => h.digits hr j (List.mem_append_left _ hj)

theorem cardS_eq : cardS rows S = (S.map (cardinality rows)).prod := by
  obtain ⟨r,hr⟩ := List.exists_mem_of_ne_nil rows h.ne_nil
  have hlt := h.encode_lt hr
  have hsize := h.prod_lt.2.2
  rw [cardS,prod64,wrap_of_lt (by omega) hsize]

end Fits

/-- In the strata of a layout rows have the numbers `q`, one for each value of the conditions. -/
structure Exact (rows : List (Row m)) (x y : Fin m) (S : List (Fin m)) (l : Layout m)
    (q : Row m → ℤ) : Prop where
  index : ∀ r ∈ rows, l.index r = (q r*cardinality rows x+r x)*cardinality rows y+r y
  range : ∀ r ∈ rows, 0 ≤ q r ∧ q r < l.strata
  inj : ∀ r ∈ rows, ∀ r' ∈ rows, q r = q r' ↔ ∀ j ∈ S, r j = r' j
  size : l.strata*cardinality rows x*cardinality rows y < 2^63

theorem exact_flat (h : Fits rows x y []) : Exact rows x y [] (flatLayout rows x y) fun _ => 0 where
  index r hr := by
    have hX := h.digits hr x (by simp)
    have hY := h.digits hr y (by simp)
    have hrange := mul_add_lt hX hY
    have hsize := h.prod_lt.2.1
    rw [List.map_nil,List.prod_nil,one_mul] at hsize
    rw [zero_mul,zero_add]
    exact wrap_of_lt (by omega) (by omega)
  range r hr := ⟨le_refl 0,Int.one_pos⟩
  inj r hr r' hr' := by simp
  size := h.prod_lt.2.1

theorem exact_dense (h : Fits rows x y S) :
    Exact rows x y S (denseLayout rows x y S) (encode rows S) where
  index r hr := by
    have hall := h.digits hr
    have hprod : ((S++[x,y]).map (cardinality rows)).prod < 2^63 := by
      rw [List.map_append,List.prod_append,List.map_cons,List.map_cons,List.map_nil,
        List.prod_cons,List.prod_singleton,← mul_assoc]
      exact h.prod_lt.2.1
    have hindex : (denseLayout rows x y S).index r = encode rows (S++[x,y]) r := rfl
    rw [hindex,encode_eq_value hall hprod,h.encode_eq hr,value_append]
    simp only [value,List.map_cons,List.map_nil,List.prod_cons,List.prod_nil,mul_one,add_zero]
    rw [add_mul,mul_assoc,add_assoc]
  range r hr := by
    have hlt := h.encode_lt hr
    rwa [← h.cardS_eq] at hlt
  inj r hr r' hr' := h.encode_inj hr hr'
  size := by
    have hsize := h.prod_lt.2.1
    rwa [← h.cardS_eq] at hsize

theorem length_uniqS_le (h : Fits rows x y S) :
    ((uniqS rows S).length : ℤ) ≤ (S.map (cardinality rows)).prod := by
  have hnodup : (uniqS rows S).Nodup := (sortedSet_pairwise _).imp fun h => h.ne
  have hsub : (uniqS rows S).toFinset ⊆ Finset.Ico 0 (S.map (cardinality rows)).prod := by
    intro c hc
    obtain ⟨r,hr,rfl⟩ := mem_uniqS.mp (List.mem_toFinset.mp hc)
    exact Finset.mem_Ico.mpr (h.encode_lt hr)
  have hcard := Finset.card_le_card hsub
  rw [List.toFinset_card_of_nodup hnodup,Int.card_Ico] at hcard
  obtain ⟨r,hr⟩ := List.exists_mem_of_ne_nil rows h.ne_nil
  have hlt := h.encode_lt hr
  omega

theorem exact_unique (h : Fits rows x y S) :
    Exact rows x y S (uniqueLayout rows x y S) fun r => inverseS rows S r := by
  have hX := fun r (hr : r ∈ rows) => h.digits hr x (by simp)
  have hY := fun r (hr : r ∈ rows) => h.digits hr y (by simp)
  have hsize : (uniqS rows S).length*cardinality rows x*cardinality rows y < 2^63 := by
    obtain ⟨r,hr⟩ := List.exists_mem_of_ne_nil rows h.ne_nil
    have hx := hX r hr
    have hy := hY r hr
    have hfirst := Int.mul_le_mul_of_nonneg_right (length_uniqS_le h)
      (show 0 ≤ cardinality rows x by omega)
    exact (Int.mul_le_mul_of_nonneg_right hfirst (show 0 ≤ cardinality rows y by omega)).trans_lt
      h.prod_lt.2.1
  refine ⟨fun r hr => (byNumber_unique hX hY hsize r hr).2,fun r hr => ?_,fun r hr r' hr' => ?_,
    hsize⟩
  · exact ⟨Int.natCast_nonneg _,Int.ofNat_lt.mpr (inverseS_lt hr)⟩
  · rw [Int.natCast_inj,inverseS,inverseS,List.idxOf_inj (mem_uniqS.mpr ⟨r,hr,rfl⟩)]
    exact h.encode_inj hr hr'

/-- Rows are told apart by the strata, rows and columns of a table as by their entries. -/
structure Separates (rows : List (Row m)) (x y : Fin m) (S : List (Fin m)) (l : Layout m) :
    Prop where
  stratumOf : ∀ r ∈ rows, ∀ r' ∈ rows,
    l.stratumOf rows x y r = l.stratumOf rows x y r' ↔ S.map r = S.map r'
  rowOf : ∀ r ∈ rows, ∀ r' ∈ rows, l.rowOf rows x y r = l.rowOf rows x y r' ↔ r x = r' x
  colOf : ∀ r ∈ rows, ∀ r' ∈ rows, l.colOf rows y r = l.colOf rows y r' ↔ r y = r' y

/-- What the test stands for: the sums over the values of the conditions that occur. -/
def byValues (rows : List (Row m)) (x y : Fin m) (S : List (Fin m)) : ℚ × ℤ :=
  stratified rows (fun r => S.map r) (· x) (· y)

theorem Separates.sums_eq {l : Layout m} (h : Separates rows x y S l) :
    l.sums rows x y = byValues rows x y S := stratified_congr h.stratumOf h.rowOf h.colOf

theorem Exact.placed {l : Layout m} {q : Row m → ℤ} (h : Exact rows x y S l q)
    (hfits : Fits rows x y S) : l.Placed rows x y := by
  obtain ⟨r,hr⟩ := List.exists_mem_of_ne_nil rows hfits.ne_nil
  have hX := fun r (hr : r ∈ rows) => hfits.digits hr x (by simp)
  have hY := fun r (hr : r ∈ rows) => hfits.digits hr y (by simp)
  refine ⟨(hX r hr).1.trans (hX r hr).2.le,(hY r hr).1.trans (hY r hr).2.le,h.size,fun r hr => ?_⟩
  rw [h.index r hr]
  exact mul_add_lt (mul_add_lt (h.range r hr) (hX r hr)) (hY r hr)

theorem Exact.separates {l : Layout m} {q : Row m → ℤ} (h : Exact rows x y S l q)
    (hfits : Fits rows x y S) : Separates rows x y S l := by
  have hcell := fun r (hr : r ∈ rows) => cell_of_eq (h.range r hr).1
    (hfits.digits hr x (by simp)) (hfits.digits hr y (by simp)) (h.index r hr)
  have htoNat : ∀ {a b : ℤ}, 0 ≤ a → 0 ≤ b → (a.toNat = b.toNat ↔ a = b) := fun ha hb => by omega
  have hentry := fun r (hr : r ∈ rows) j (hj : j ∈ S++[x,y]) => (hfits.nonneg r hr j hj).1
  refine ⟨fun r hr r' hr' => ?_,fun r hr r' hr' => ?_,fun r hr r' hr' => ?_⟩
  · rw [(hcell r hr).1,(hcell r' hr').1,htoNat (h.range r hr).1 (h.range r' hr').1,
      h.inj r hr r' hr',List.map_inj_left]
  · rw [(hcell r hr).2.1,(hcell r' hr').2.1,
      htoNat (hentry r hr x (by simp)) (hentry r' hr' x (by simp))]
  · rw [(hcell r hr).2.2,(hcell r' hr').2.2,
      htoNat (hentry r hr y (by simp)) (hentry r' hr' y (by simp))]

/-- As long as the products fit, a path makes the tables of the strata. -/
theorem Counts.exact {l : Layout m} {q : Row m → ℤ} {made : Option Tables}
    (h : Counts rows x y l made) (hexact : Exact rows x y S l q) (hfits : Fits rows x y S) :
    made.map Tables.sums = some (byValues rows x y S) := by
  obtain ⟨t,rfl⟩ := Option.isSome_iff_exists.mp (h.isSome_iff.mpr (hexact.placed hfits))
  rw [Option.map_some,h.sums_eq t rfl,(hexact.separates hfits).sums_eq]

end Paths

/-! ## The test -/

section Stratified

variable {m : ℕ} (data : DataMatrix m) (x y : Fin m) (S : List (Fin m))

/-- Where rows are counted by the test. -/
def layout : Layout m :=
  let S := sortedS S
  if S = [] then flatLayout data.rows x y
  else if isDense data.rows S then denseLayout data.rows x y S
  else uniqueLayout data.rows x y S

def NoNegative : Prop := ∀ r ∈ data.rows, ∀ j ∈ S++[x,y], 0 ≤ r j

/-- The statistic and the degrees of freedom are those of the strata, these are not negative, and
where there are few values both paths agree. -/
structure Meets : Prop where
  sums : (chisqTables data x y S).map Tables.sums = some (byValues data.rows x y S)
  dof : ∀ t, chisqTables data x y S = some t → 0 ≤ t.dof
  paths : sortedS S ≠ [] → ((sortedS S).map (card data.rows)).prod < BINCOUNT_UNIQUE_THRESHOLD →
    (dense data.rows x y (sortedS S)).map Tables.sums =
      (unique data.rows x y (sortedS S)).map Tables.sums

/-- There are rows, without negative entries, which fit into the table; and they are told apart
there as by their values, or else the strata that are put together add up to the same. -/
structure Good : Prop where
  rows : data.rows ≠ []
  nonneg : NoNegative data x y S
  placed : (layout data x y S).Placed data.rows x y
  cells : Separates data.rows x y S (layout data x y S) ∨
    (layout data x y S).sums data.rows x y = byValues data.rows x y S

variable {data x y S}

theorem mem_sortedS {j : Fin m} : j ∈ sortedS S ↔ j ∈ S := by
  rw [sortedS,List.mem_filter,List.contains_iff_mem]
  exact and_iff_right (List.mem_finRange j)

theorem NoNegative.sorted (h : NoNegative data x y S) :
    Nonneg data.rows (sortedS S++[x,y]) := by
  intro r hr j hj
  refine ⟨h r hr j ?_,(data.int64 r hr j).2⟩
  rw [List.mem_append,mem_sortedS,← List.mem_append] at hj
  exact hj

theorem byValues_sortedS : byValues data.rows x y (sortedS S) = byValues data.rows x y S := by
  refine stratified_congr (fun r _ r' _ => ?_) (fun _ _ _ _ => Iff.rfl) fun _ _ _ _ => Iff.rfl
  rw [List.map_inj_left,List.map_inj_left]
  exact forall_congr' fun j => by rw [mem_sortedS]

/-- The tables are those of the layout. -/
theorem counts_chisqTables (hne : data.rows ≠ []) (h : NoNegative data x y S) :
    Counts data.rows x y (layout data x y S) (chisqTables data x y S) := by
  rw [chisqTables,layout,if_neg hne]
  split
  · exact counts_flat x y hne
  · split
    · exact counts_dense x y _ hne
    · refine counts_unique hne fun r hr j hj => h.sorted r hr j ?_
      exact List.mem_append_right _ hj

theorem ne_nil_of_chisqTables {t : Tables} (h : chisqTables data x y S = some t) :
    data.rows ≠ [] := by
  rintro hnil
  rw [chisqTables,if_pos hnil] at h
  cases h

theorem prod_card_pos (hne : data.rows ≠ []) (h : NoNegative data x y S) :
    1 ≤ ((sortedS S).map (card data.rows)).prod ∧
      ∀ j ∈ sortedS S, card data.rows j ≤ ((sortedS S).map (card data.rows)).prod := by
  have hcards : ∀ c ∈ (sortedS S).map (card data.rows), 1 ≤ c := by
    intro c hc
    obtain ⟨j,hj,rfl⟩ := List.mem_map.mp hc
    exact card_pos hne h.sorted (List.mem_append_left _ hj)
  obtain ⟨hone,hle⟩ := le_prod hcards
  exact ⟨hone,fun j hj => hle _ (List.mem_map_of_mem hj)⟩

/-- With few values the dense path is taken, and there is room for its table. -/
theorem fits_of_few (hne : data.rows ≠ []) (h : NoNegative data x y S)
    (hplaced : (layout data x y S).Placed data.rows x y) (hS : sortedS S ≠ [])
    (hfew : ((sortedS S).map (card data.rows)).prod < BINCOUNT_UNIQUE_THRESHOLD) :
    Fits data.rows x y (sortedS S) := by
  obtain ⟨hpos,hle⟩ := prod_card_pos hne h
  have hlt : ((sortedS S).map (card data.rows)).prod < 2^63 := hfew.trans (by decide)
  have hcard : (sortedS S).map (cardinality data.rows) = (sortedS S).map (card data.rows) := by
    refine List.map_congr_left fun j hj => ?_
    have hlow := card_pos hne h.sorted (List.mem_append_left [x,y] hj)
    have hhigh := hle j hj
    exact wrap_of_lt (v:=card data.rows j) (by omega) (by omega)
  have hprod : cardS data.rows (sortedS S) = ((sortedS S).map (card data.rows)).prod := by
    rw [cardS,prod64,hcard,wrap_of_lt (by omega) hlt]
  have hdense : isDense data.rows (sortedS S) = true := by
    rw [isDense,hprod,Bool.and_eq_true,decide_eq_true_iff,decide_eq_true_iff]
    exact ⟨by omega,hfew⟩
  have hlayout : layout data x y S = denseLayout data.rows x y (sortedS S) := by
    rw [layout,if_neg hS,if_pos hdense]
  rw [hlayout] at hplaced
  have hsize := hplaced.size
  rw [denseLayout,hprod,cardinality_eq_card hne h.sorted (by simp) hplaced.cardX,
    cardinality_eq_card hne h.sorted (by simp) hplaced.cardY] at hsize
  exact ⟨hne,h.sorted,hsize⟩

theorem Good.meets (h : Good data x y S) : Meets data x y S := by
  have hcounts := counts_chisqTables h.rows h.nonneg
  obtain ⟨t,ht⟩ := Option.isSome_iff_exists.mp (hcounts.isSome_iff.mpr h.placed)
  have hsums : t.sums = byValues data.rows x y S := by
    rw [hcounts.sums_eq t ht]
    exact h.cells.elim Separates.sums_eq id
  refine ⟨by rw [ht,Option.map_some,hsums],fun t' ht' => ?_,fun hS hfew => ?_⟩
  · obtain rfl := Option.some.inj (ht.symm.trans ht')
    have hdof : t.dof = (byValues data.rows x y S).2 := congrArg Prod.snd hsums
    rw [hdof]
    exact stratified_freedom_nonneg _ _ _ _
  · have hfits := fits_of_few h.rows h.nonneg h.placed hS hfew
    rw [(counts_dense x y _ h.rows).exact (exact_dense hfits) hfits,
      (counts_unique h.rows fun r hr j hj =>
        h.nonneg.sorted r hr j (List.mem_append_right _ hj)).exact (exact_unique hfits) hfits]

theorem Meets.good (h : Meets data x y S) (hnonneg : NoNegative data x y S) :
    Good data x y S := by
  obtain ⟨t,ht,hsums⟩ := Option.map_eq_some_iff.mp h.sums
  have hne := ne_nil_of_chisqTables ht
  have hcounts := counts_chisqTables hne hnonneg
  refine ⟨hne,hnonneg,hcounts.isSome_iff.mp (Option.isSome_iff_exists.mpr ⟨t,ht⟩),.inr ?_⟩
  rw [← hcounts.sums_eq t ht,hsums]

theorem Fits.good (hfits : Fits data.rows x y (sortedS S)) (h : NoNegative data x y S) :
    Good data x y S := by
  have hexact : ∃ q, Exact data.rows x y (sortedS S) (layout data x y S) q := by
    rw [layout]
    split
    · next hnil =>
      rw [hnil] at hfits ⊢
      exact ⟨_,exact_flat hfits⟩
    · split
      · exact ⟨_,exact_dense hfits⟩
      · exact ⟨_,exact_unique hfits⟩
  obtain ⟨q,hq⟩ := hexact
  refine ⟨hfits.ne_nil,h,hq.placed hfits,.inr ?_⟩
  rw [(hq.separates hfits).sums_eq,byValues_sortedS]

end Stratified

/-- Two rows with 65 conditions of two values each, which differ in the first one. -/
def wide : DataMatrix 67 where
  rows := [fun j => if j.val = 0 ∨ 65 ≤ j.val then 0 else 1,fun _ => 1]
  int64 := by decide

def conditions : List (Fin 67) := (List.finRange 67).take 65

end ChiSquare
end ETraceDiag
