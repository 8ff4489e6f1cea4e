import ETraceDiag.TextPieces
import ETraceDiag.TextScan
import Mathlib.Data.Finset.Sort

/-!
# Lists of CPUs

`ParseCpuListCount` of `collect/target_selector.cpp` counts the CPUs of a control group, which the
kernel prints as the runs of a set.
-/

namespace ETraceDiag
namespace CpuList

open TextScan TextPieces

/-- `strtol` with the base 10: zero where nothing is converted, and no further than `long`. -/
def strtol (s : List UInt8) : ℤ :=
  let r := sign (skipSpace s)
  let v : ℤ := digitsVal (r.2.takeWhile isDigit)
  if r.1 then max (-v) (-2^63) else min v (2^63-1)

/-- A token: nothing, a number, or two around a dash. -/
def countToken (n : UInt32) (tok : List UInt8) : UInt32 :=
  match splitOnce [45] tok with
  | none => if tok = [] then n else n+1
  | some (a,b) => if strtol a ≤ strtol b then n+UInt32.ofInt (strtol b-strtol a+1) else n

/-- The loop ends before an empty token behind the last comma, which counts nothing. -/
def parseCpuListCount (s : List UInt8) : UInt32 := (s.splitOn 44).foldl countToken 0

/-! ## What the kernel prints -/

/-- The runs of a list of numbers, the first of them from `a` to `b` so far. -/
def runsFrom (a b : ℕ) : List ℕ → List (ℕ × ℕ)
  | [] => [(a,b)]
  | c::cs => if c = b+1 then runsFrom a c cs else (a,b)::runsFrom c c cs

def runs : List ℕ → List (ℕ × ℕ)
  | [] => []
  | c::cs => runsFrom c c cs

def printRun (r : ℕ × ℕ) : List UInt8 :=
  if r.1 = r.2 then decimal r.1 else decimal r.1++45::decimal r.2

/-- The format `%*pbl`. -/
def cpuList (cpus : Finset ℕ) : List UInt8 :=
  [44].intercalate ((runs (cpus.sort (· ≤ ·))).map printRun)

example : runs [0,1,2,3,8,10,11] = [(0,3),(8,8),(10,11)] := rfl

def size (r : ℕ × ℕ) : ℕ := r.2-r.1+1

theorem sum_runsFrom (cs : List ℕ) : ∀ {a b : ℕ}, a ≤ b →
    ((runsFrom a b cs).map size).sum = b-a+1+cs.length := by
  induction cs with
  | nil => exact fun _ => rfl
  | cons c cs ih =>
    intro a b hab
    rw [runsFrom,List.length_cons]
    split
    · next hc =>
      rw [ih (by omega)]
      omega
    · rw [List.map_cons,List.sum_cons,ih (Nat.le_refl c),size]
      omega

theorem mem_runsFrom (cs : List ℕ) : ∀ {a b : ℕ}, a ≤ b → ∀ r ∈ runsFrom a b cs,
    r.1 ≤ r.2 ∧ r.2 ∈ b::cs := by
  induction cs with
  | nil =>
    intro a b hab r hr
    rw [List.mem_singleton.mp hr]
    exact ⟨hab,List.mem_cons_self⟩
  | cons c cs ih =>
    intro a b hab r hr
    rw [runsFrom] at hr
    split at hr
    · next hc =>
      obtain ⟨hle,hmem⟩ := ih (by omega) r hr
      exact ⟨hle,List.mem_cons_of_mem b hmem⟩
    · rcases List.mem_cons.mp hr with rfl | hr
      · exact ⟨hab,List.mem_cons_self⟩
      · obtain ⟨hle,hmem⟩ := ih (Nat.le_refl c) r hr
        exact ⟨hle,List.mem_cons_of_mem b hmem⟩

theorem sum_runs (cpus : List ℕ) : ((runs cpus).map size).sum = cpus.length := by
  cases cpus with
  | nil => rfl
  | cons c cs =>
    rw [runs,sum_runsFrom cs (Nat.le_refl c),List.length_cons]
    omega

theorem mem_runs {cpus : List ℕ} {r : ℕ × ℕ} (hr : r ∈ runs cpus) : r.1 ≤ r.2 ∧ r.2 ∈ cpus := by
  cases cpus with
  | nil => cases hr
  | cons c cs => exact mem_runsFrom cs (Nat.le_refl c) r hr

/-! ## Tokens -/

theorem notMem_decimal {c : UInt8} (hc : isDigit c = false) (n : ℕ) : c ∉ decimal n := by
  intro hmem
  rw [decimal_digits n c hmem] at hc
  cases hc

theorem strtol_decimal {n : ℕ} (h : n < 2^63) : strtol (decimal n) = n := by
  have hskip := skipSpace_decimal n []
  have hsign := sign_decimal n []
  rw [List.append_nil] at hskip hsign
  simp only [strtol,hskip,hsign,List.takeWhile_eq_self_iff.mpr (decimal_digits n),
    digitsVal_decimal,Bool.false_eq_true,if_false]
  omega

theorem countToken_printRun {r : ℕ × ℕ} (hle : r.1 ≤ r.2) (h : r.2 < 2^31) (n : UInt32) :
    countToken n (printRun r) = n+UInt32.ofNat (size r) := by
  obtain ⟨a,b⟩ := r
  have hdash : ∀ k, 45 ∉ decimal k := notMem_decimal (by decide)
  rw [printRun]
  by_cases hab : a = b
  · subst hab
    have hsplit : splitOnce [45] (decimal a) = none :=
      (splitOnce_eq_none_iff (by decide)).mpr fun hin =>
        hdash a ((List.singleton_infix_iff _ _).mp hin)
    rw [if_pos rfl,countToken,hsplit,size,Nat.sub_self]
    exact if_neg (decimal_ne_nil a)
  · have hsplit : splitOnce [45] (decimal a++45::decimal b) = some (decimal a,decimal b) :=
      splitOnce_single_iff.mpr ⟨rfl,hdash a⟩
    have hsize : (((b : ℤ)-a+1) % 2^32).toNat = b-a+1 := by
      have hle : a ≤ b := hle
      have hb : b < 2^31 := h
      omega
    rw [if_neg hab,countToken,hsplit]
    show (if strtol (decimal a) ≤ strtol (decimal b) then _ else n) = _
    rw [strtol_decimal (lt_of_le_of_lt hle (lt_trans h (by decide))),
      strtol_decimal (lt_trans h (by decide)),if_pos (Int.ofNat_le.mpr hle),UInt32.ofInt,hsize]
    rfl

theorem foldl_countToken {rs : List (ℕ × ℕ)} (h : ∀ r ∈ rs, r.1 ≤ r.2 ∧ r.2 < 2^31) :
    ∀ n, (rs.map printRun).foldl countToken n = n+UInt32.ofNat (rs.map size).sum := by
  induction rs with
  | nil => exact fun n => (UInt32.add_zero n).symm
  | cons r rs ih =>
    intro n
    obtain ⟨⟨hle,hlt⟩,hrs⟩ := List.forall_mem_cons.mp h
    rw [List.map_cons,List.foldl_cons,countToken_printRun hle hlt,ih hrs,List.map_cons,
      List.sum_cons,UInt32.ofNat_add,UInt32.add_assoc]

theorem notMem_printRun (r : ℕ × ℕ) : 44 ∉ printRun r := by
  have hcomma : ∀ k, 44 ∉ decimal k := notMem_decimal (by decide)
  rw [printRun]
  split
  · exact hcomma r.1
  · intro hmem
    rcases List.mem_append.mp hmem with hmem | hmem
    · exact hcomma r.1 hmem
    · rcases List.mem_cons.mp hmem with hmem | hmem
      · exact absurd hmem (by decide)
      · exact hcomma r.2 hmem

/-- Every set of CPUs is counted. -/
theorem cpus_counted {cpus : Finset ℕ} (h : ∀ c ∈ cpus, c < 2^31) :
    (parseCpuListCount (cpuList cpus)).toNat = cpus.card := by
  have hruns : ∀ r ∈ runs (cpus.sort (· ≤ ·)), r.1 ≤ r.2 ∧ r.2 < 2^31 := by
    intro r hr
    obtain ⟨hle,hmem⟩ := mem_runs hr
    exact ⟨hle,h r.2 ((Finset.mem_sort _).mp hmem)⟩
  have hcount : parseCpuListCount (cpuList cpus) = UInt32.ofNat cpus.card := by
    have hfold := foldl_countToken hruns 0
    rw [sum_runs,Finset.length_sort,UInt32.zero_add] at hfold
    rw [← hfold,parseCpuListCount,cpuList]
    cases hrs : runs (cpus.sort (· ≤ ·)) with
    | nil => rfl
    | cons r rs =>
      rw [List.splitOn_intercalate 44 (fun l hl => ?_) (by simp)]
      obtain ⟨r',-,rfl⟩ := List.mem_map.mp hl
      exact notMem_printRun r'
  have hcard : cpus.card ≤ 2^31 := by
    have hsub : cpus ⊆ Finset.range (2^31) := fun c hc => Finset.mem_range.mpr (h c hc)
    exact (Finset.card_le_card hsub).trans_eq (Finset.card_range _)
  rw [hcount,UInt32.toNat_ofNat_of_lt' (lt_of_le_of_lt hcard (by decide))]

theorem cpus_counted_threeRuns :
    (parseCpuListCount (cpuList {0,1,2,3,8,10,11})).toNat = 7 :=
  cpus_counted (by decide)

end CpuList
end ETraceDiag
