import Mathlib.Algebra.BigOperators.Ring.List
import Mathlib.Algebra.Order.BigOperators.Group.List
import Mathlib.Algebra.Order.Field.Basic
import Mathlib.Data.Rat.Cast.Order
import ETraceDiag.MaxStack
import ETraceDiag.RootCauses

/-!
# Severity

With exact numbers the two ways to score the columns of a table are one: a column that is constant
has no spread, and both then divide by one. The score keeps the size of the greatest deviation, but
not its sign.
-/

namespace ETraceDiag
namespace Torai

open LabelTable TimeTable PyValue

/-! ## Exact numbers -/

section Scaler

variable {K : Type} [Field K] [LinearOrder K]

def meanOf (xs : List K) : K := xs.sum/xs.length

/-- The variance of a population. -/
def variance (xs : List K) : K := (xs.map fun x => (x-meanOf xs)*(x-meanOf xs)).sum/xs.length

/-- `StandardScaler` takes one for a constant column, the other path for no deviation. -/
def scale (root : K → K) (variant : Variant) (normal : List K) : K :=
  match variant with
  | .faithful => if ∀ x ∈ normal, x = meanOf normal then 1 else root (variance normal)
  | .fast => if root (variance normal) = 0 then 1 else root (variance normal)

def zScores (root : K → K) (variant : Variant) (normal anomal : List K) : List K :=
  anomal.map fun x => (x-meanOf normal)/scale root variant normal

def maxAbs (zs : List K) : K := (zs.map fun z => |z|).foldl max 0

end Scaler

/-- The arithmetic is that of a field, with a square root of some kind. -/
class ExactNumpy (K : Type) [Field K] [LinearOrder K] [IsStrictOrderedRing K] [Numpy K]
    [Python K] where
  root : K → K
  root_nonneg : ∀ x, 0 ≤ root x
  root_eq_zero : ∀ x, 0 ≤ x → (root x = 0 ↔ x = 0)
  lt_eq : ∀ a b : K, Numpy.lt a b = decide (a < b)
  differs_eq : ∀ a b : K, Numpy.differs a b = decide (a ≠ b)
  div_eq : ∀ a b : K, Numpy.div a b = a/b
  finite_eq : ∀ a : K, Python.finite a = true
  maxZ_eq : ∀ variant (normal anomal : List K),
    Numpy.maxZ variant normal anomal = maxAbs (zScores root variant normal anomal)

section Deviations

variable {K : Type} [Field K] [LinearOrder K] [IsStrictOrderedRing K]

theorem variance_nonneg (xs : List K) : 0 ≤ variance xs := by
  refine div_nonneg (List.sum_nonneg fun d hd => ?_) (Nat.cast_nonneg _)
  obtain ⟨x,-,rfl⟩ := List.mem_map.mp hd
  exact mul_self_nonneg _

/-- There is no variance exactly in constant columns. -/
theorem variance_eq_zero {xs : List K} : variance xs = 0 ↔ ∀ x ∈ xs, x = meanOf xs := by
  have hnonneg : ∀ d ∈ xs.map fun x => (x-meanOf xs)*(x-meanOf xs), 0 ≤ d := by
    intro d hd
    obtain ⟨x,-,rfl⟩ := List.mem_map.mp hd
    exact mul_self_nonneg _
  rw [variance,div_eq_zero_iff]
  constructor
  · rintro (hsum | hlen) x hx
    · have hzero := List.all_zero_of_le_zero_le_of_sum_eq_zero hnonneg hsum
        (List.mem_map_of_mem hx)
      exact sub_eq_zero.mp (mul_self_eq_zero.mp hzero)
    · rw [Nat.cast_eq_zero,List.length_eq_zero_iff] at hlen
      rw [hlen] at hx
      cases hx
  · intro h
    refine .inl (List.sum_eq_zero fun d hd => ?_)
    obtain ⟨x,hx,rfl⟩ := List.mem_map.mp hd
    rw [← h x hx]
    simp

theorem scale_eq {root : K → K} (hroot : ∀ x, 0 ≤ x → (root x = 0 ↔ x = 0)) (variant : Variant)
    (xs : List K) : scale root variant xs = scale root .fast xs := by
  cases variant with
  | fast => rfl
  | faithful =>
    exact if_congr (variance_eq_zero.symm.trans (hroot _ (variance_nonneg xs)).symm) rfl rfl

theorem scale_pos {root : K → K} (hnonneg : ∀ x, 0 ≤ root x) (xs : List K) :
    0 < scale root .fast xs := by
  rw [scale]
  split
  · exact one_pos
  · next hne => exact lt_of_le_of_ne (hnonneg _) (Ne.symm hne)

omit [Field K] [IsStrictOrderedRing K] in
theorem le_foldl_max (zs : List K) :
    ∀ m : K, m ≤ zs.foldl max m ∧ ∀ z ∈ zs, z ≤ zs.foldl max m := by
  induction zs with
  | nil => exact fun m => ⟨le_rfl,fun z hz => absurd hz List.not_mem_nil⟩
  | cons z zs ih =>
    intro m
    obtain ⟨hstart,hall⟩ := ih (max m z)
    refine ⟨(le_max_left m z).trans hstart,fun z' hz' => ?_⟩
    rcases List.mem_cons.mp hz' with rfl | hz'
    · exact (le_max_right m z').trans hstart
    · exact hall z' hz'

omit [IsStrictOrderedRing K] in
theorem maxAbs_nonneg (zs : List K) : 0 ≤ maxAbs zs := (le_foldl_max _ 0).1

omit [IsStrictOrderedRing K] in
theorem abs_le_maxAbs {zs : List K} {z : K} (hz : z ∈ zs) : |z| ≤ maxAbs zs :=
  (le_foldl_max _ 0).2 _ (List.mem_map_of_mem hz)

end Deviations

/-! ## The scores of a table -/

section Scores

variable {K : Type} [Field K] [LinearOrder K] [IsStrictOrderedRing K] [Numpy K] [Python K]
  [ExactNumpy K]

omit [LinearOrder K] [IsStrictOrderedRing K] [Numpy K] [Python K] [ExactNumpy K] in
theorem foldl_add_eq_sum {ι : Type} (xs : List (ι × K)) :
    ∀ acc : K, xs.foldl (fun acc x => acc+x.2) acc = acc+(xs.map Prod.snd).sum := by
  induction xs with
  | nil => exact fun acc => (add_zero acc).symm
  | cons x xs ih =>
    intro acc
    rw [List.foldl_cons,ih,List.map_cons,List.sum_cons,add_assoc]

theorem total_eq {ι : Type} (xs : List (ι × K)) :
    total xs = if (xs.map Prod.snd).sum = 0 then 1 else (xs.map Prod.snd).sum := by
  rw [total,foldl_add_eq_sum,zero_add,ExactNumpy.differs_eq]
  by_cases hzero : (xs.map Prod.snd).sum = 0 <;> simp [hzero]

theorem total_pos {ι : Type} {xs : List (ι × K)} (h : ∀ x ∈ xs, 0 ≤ x.2) : 0 < total xs := by
  rw [total_eq]
  split
  · exact one_pos
  · next hne =>
    refine lt_of_le_of_ne (List.sum_nonneg fun d hd => ?_) (Ne.symm hne)
    obtain ⟨x,hx,rfl⟩ := List.mem_map.mp hd
    exact h x hx

theorem mem_shares {ι : Type} {sum : K} {xs : List (ι × K)} {s : ι × K} :
    s ∈ shares sum xs ↔ ∃ x ∈ xs, s = (x.1,x.2/sum) := by
  rw [shares,List.mem_map]
  refine exists_congr fun x => and_congr_right fun _ => ?_
  rw [ExactNumpy.div_eq]
  exact eq_comm

/-- Shares of the whole make up one, unless there is nothing. -/
theorem sum_shares {ι : Type} {xs : List (ι × K)} (h : ∀ x ∈ xs, 0 ≤ x.2) :
    (∀ s ∈ shares (total xs) xs, s.2 = 0) ∨ ((shares (total xs) xs).map Prod.snd).sum = 1 := by
  by_cases hzero : (xs.map Prod.snd).sum = 0
  · left
    intro s hs
    obtain ⟨x,hx,rfl⟩ := mem_shares.mp hs
    have hnonneg : ∀ d ∈ xs.map Prod.snd, 0 ≤ d := by
      intro d hd
      obtain ⟨x,hx,rfl⟩ := List.mem_map.mp hd
      exact h x hx
    rw [List.all_zero_of_le_zero_le_of_sum_eq_zero hnonneg hzero (List.mem_map_of_mem hx),zero_div]
  · right
    have hmap : (shares (total xs) xs).map Prod.snd = (xs.map Prod.snd).map (·*(total xs)⁻¹) := by
      rw [shares,List.map_map,List.map_map]
      refine List.map_congr_left fun x _ => ?_
      rw [Function.comp_apply,Function.comp_apply,ExactNumpy.div_eq,div_eq_mul_inv]
    rw [hmap,List.sum_map_mul_right,List.map_id',total_eq,if_neg hzero,mul_inv_cancel₀ hzero]

omit [Field K] [LinearOrder K] [IsStrictOrderedRing K] [ExactNumpy K] [Python K] [Numpy K] in
/-- Columns that are looked up by name are the ones of the same place. -/
theorem filterMap_lookup_eq_zipWith {β : Type} {ds : List (String × β)}
    (hds : (ds.map Prod.fst).Nodup) (g : String × β → β → K) {cs ds' : List (String × β)}
    (hnames : ds'.map Prod.fst = cs.map Prod.fst) (hsub : ∀ d ∈ ds', d ∈ ds) :
    (cs.filterMap fun c => (ds.lookup c.1).bind fun f => some (g c f)) =
      cs.zipWith (fun c d => g c d.2) ds' := by
  induction cs generalizing ds' with
  | nil => rfl
  | cons c cs ih =>
    cases ds' with
    | nil => cases hnames
    | cons d ds' =>
      obtain ⟨hname,hrest⟩ := List.cons.inj hnames
      have hlookup : ds.lookup c.1 = some d.2 := by
        rw [← hname]
        exact lookup_of_mem hds (hsub d List.mem_cons_self)
      rw [List.zipWith_cons_cons,List.filterMap_cons_some (by rw [hlookup]; rfl),
        ih hrest fun e he => hsub e (List.mem_cons_of_mem d he)]

/-- `_severity_faithful`, column by column. -/
def severityFaithful (normal anomal : Table K) : List (String × K) :=
  if normal.isEmpty || anomal.isEmpty then []
  else
    let result := normal.cols.filterMap fun c => (anomal.cols.lookup c.1).bind fun f =>
      let nv := normal.values c.2
      let av := anomal.values f
      if nv.isEmpty || av.isEmpty then none
      else some (c.1,maxAbs (zScores ExactNumpy.root .faithful nv av))
    shares (total (sortDesc result)) (sortDesc result)

/-- `_severity_fast`, all columns at once. -/
def severityFast (normal anomal : Table K) : List (String × K) :=
  if normal.isEmpty || anomal.isEmpty then []
  else
    let result := normal.cols.zipWith (fun c d => (c.1,
      maxAbs (zScores ExactNumpy.root .fast (normal.values c.2) (anomal.values d.2)))) anomal.cols
    shares (total (sortDesc result)) (sortDesc result)

/-- What `severity_scores` chooses from. -/
theorem severityScores_eq (variant : Variant) (normal anomal : Table K) :
    severityScores variant normal anomal =
      match variant with
      | .faithful => severityFaithful normal anomal
      | .fast => severityFast normal anomal := by
  have hfinite : ∀ xs : List K, xs.filter Python.finite = xs := fun xs =>
    List.filter_eq_self.mpr fun x _ => ExactNumpy.finite_eq x
  cases variant with
  | fast =>
    unfold severityScores severityFast
    simp only [ExactNumpy.maxZ_eq]
  | faithful =>
    unfold severityScores severityFaithful
    simp only [ExactNumpy.maxZ_eq,hfinite]

/-- The scores of the columns, before they are put in order. -/
def rawScores (t : Sides K) : List (String × K) :=
  t.normal.cols.zipWith (fun c d => (c.1,
    maxAbs (zScores ExactNumpy.root .fast (t.normal.values c.2) (t.anomal.values d.2))))
      t.anomal.cols

theorem mem_rawScores {t : Sides K} {s : String × K} :
    s ∈ rawScores t ↔ ∃ c d, (c,d) ∈ t.normal.cols.zip t.anomal.cols ∧
      (c.1,maxAbs (zScores ExactNumpy.root .fast (t.normal.values c.2)
        (t.anomal.values d.2))) = s := by
  rw [rawScores,← List.map_uncurry_zip_eq_zipWith,List.mem_map,Prod.exists]
  rfl

theorem rawScores_nonneg (t : Sides K) : ∀ s ∈ sortDesc (rawScores t), 0 ≤ s.2 := by
  intro s hs
  obtain ⟨c,d,-,rfl⟩ := mem_rawScores.mp ((sortDesc_perm _).mem_iff.mp hs)
  exact maxAbs_nonneg _

theorem severityFast_eq (t : Sides K) : severityFast t.normal t.anomal =
    if t.normal.isEmpty || t.anomal.isEmpty then []
    else shares (total (sortDesc (rawScores t))) (sortDesc (rawScores t)) := rfl

theorem severityFaithful_eq (t : Sides K) : severityFaithful t.normal t.anomal =
    if t.normal.isEmpty || t.anomal.isEmpty then []
    else shares (total (sortDesc (rawScores t))) (sortDesc (rawScores t)) := by
  have hvalues : ∀ {u : Table K}, u.isEmpty = false → ∀ f, (u.values f).isEmpty = false := by
    intro u hu f
    rw [Table.isEmpty,Bool.or_eq_false_iff] at hu
    rw [Table.values,List.isEmpty_map]
    exact hu.1
  have hanomal : t.anomal.columns.Nodup := t.columns_eq ▸ t.nodup
  rw [severityFaithful]
  split
  · rfl
  · next hempty =>
    rw [Bool.or_eq_true,not_or,Bool.not_eq_true,Bool.not_eq_true] at hempty
    simp only [hvalues hempty.1,hvalues hempty.2,Bool.or_self,Bool.false_eq_true,if_false]
    rw [filterMap_lookup_eq_zipWith hanomal (fun c f => (c.1,
      maxAbs (zScores ExactNumpy.root .faithful (t.normal.values c.2) (t.anomal.values f))))
        t.columns_eq fun d hd => hd]
    have hraw : t.normal.cols.zipWith (fun c d => (c.1,maxAbs (zScores ExactNumpy.root .faithful
        (t.normal.values c.2) (t.anomal.values d.2)))) t.anomal.cols = rawScores t := by
      refine congrArg₂ (fun f ds => List.zipWith f t.normal.cols ds) ?_ rfl
      funext c d
      rw [zScores,zScores,scale_eq ExactNumpy.root_eq_zero]
    rw [hraw]

end Scores

/-! ## Fractions -/

theorem root_eq_zero {q : ℚ} (h : 0 ≤ q) : root q = 0 ↔ q = 0 := by
  have hnum : 0 ≤ q.num := Rat.num_nonneg.mpr h
  have hden : (Nat.sqrt q.den : ℤ) ≠ 0 := by
    have hpos := Nat.sqrt_pos.mpr q.den_pos
    omega
  rw [root,Rat.mkRat_eq_zero (by omega),Int.natCast_eq_zero,Nat.sqrt_eq_zero,← Rat.num_eq_zero]
  omega

instance : ExactNumpy ℚ where
  root := root
  root_nonneg x := by
    rw [root,Rat.mkRat_eq_div]
    exact div_nonneg (Int.cast_nonneg (Int.natCast_nonneg _)) (Nat.cast_nonneg _)
  root_eq_zero x := root_eq_zero
  lt_eq _ _ := rfl
  differs_eq _ _ := rfl
  div_eq _ _ := rfl
  finite_eq _ := rfl
  maxZ_eq variant normal anomal := by
    rw [zScores,scale_eq (fun _ => root_eq_zero),maxAbs,List.map_map]
    rfl

/-- A column that varies and one that does not. -/
def steady : Sides ℚ where
  normal := { index := [0,1], cols := [("cpu",fun i => i),("memory",fun _ => 3)] }
  anomal := { index := [0,1], cols := [("cpu",fun i => 2*i),("memory",fun _ => 4)] }
  columns_eq := rfl
  nodup := by decide

end Torai
end ETraceDiag
