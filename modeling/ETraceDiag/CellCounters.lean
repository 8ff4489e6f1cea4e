import Mathlib.Algebra.Order.BigOperators.Group.Finset
import Mathlib.Algebra.BigOperators.Pi
import Mathlib.Algebra.BigOperators.Intervals

/-!
# Per-processor counters in fixed-width cells

A counter map holds for every key one value per processor, and a value is a vector of cells of
given widths. A processor counts in its own slice; a reader adds the slices up. As long as the
exact sum fits the cells, the reader sees it, and it only grows.
-/

namespace CellCounters

abbrev Counters (κ γ : Type*) := κ → Option (ℕ → γ → ℕ)

variable {κ γ : Type*}

/-- Addition in the cells. -/
def add (width : γ → ℕ) (v d : γ → ℕ) : γ → ℕ := fun c => (v c+d c) % 2^width c

def slice (m : Counters κ γ) (k : κ) (cpu : ℕ) : γ → ℕ :=
  match m k with
  | some p => p cpu
  | none => 0

/-- The exact sum over the first `n` processors. -/
def total (n : ℕ) (m : Counters κ γ) (k : κ) : γ → ℕ :=
  fun c => ∑ cpu ∈ Finset.range n, slice m k cpu c

/-- One step of the reader: absent entries are skipped. -/
def gather (width : γ → ℕ) (m : Counters κ γ) (k : κ) (acc : γ → ℕ) (cpu : ℕ) : γ → ℕ :=
  match m k with
  | some p => add width acc (p cpu)
  | none => acc

/-- What the reader ends with. -/
def read (width : γ → ℕ) (n : ℕ) (m : Counters κ γ) (k : κ) : γ → ℕ :=
  (List.range n).foldl (gather width m k) 0

variable [DecidableEq κ]

/-- Add an entry for a new key: `z` in the slice of `cpu`, zeros in the others. A full map has
no room for it. -/
def ensure (room : Bool) (z : γ → ℕ) (cpu : ℕ) (k : κ) (m : Counters κ γ) : Counters κ γ :=
  match m k with
  | some _ => m
  | none => if room then Function.update m k (some (Function.update 0 cpu z)) else m

/-- Count `d` in the slice of `cpu`, if there is an entry. -/
def bump (width : γ → ℕ) (cpu : ℕ) (k : κ) (d : γ → ℕ) (m : Counters κ γ) : Counters κ γ :=
  match m k with
  | some p => Function.update m k (some (Function.update p cpu (add width (p cpu) d)))
  | none => m

def erase (k : κ) (m : Counters κ γ) : Counters κ γ := Function.update m k none

omit [DecidableEq κ] in
theorem slice_of_none {m : Counters κ γ} {k : κ} (h : m k = none) (cpu : ℕ) :
    slice m k cpu = 0 := by
  simp [slice,h]

omit [DecidableEq κ] in
theorem total_of_none {m : Counters κ γ} {k : κ} (h : m k = none) (n : ℕ) : total n m k = 0 := by
  funext c
  simp [total,slice_of_none h]

omit [DecidableEq κ] in
theorem slice_le_total {n cpu : ℕ} (hcpu : cpu < n) (m : Counters κ γ) (k : κ) (c : γ) :
    slice m k cpu c ≤ total n m k c :=
  Finset.single_le_sum (f:=fun cpu => slice m k cpu c) (fun _ _ => Nat.zero_le _)
    (Finset.mem_range.mpr hcpu)

omit [DecidableEq κ] in
/-- The reader gets the exact sum, cut to the width of the cell. -/
theorem read_apply (width : γ → ℕ) (n : ℕ) (m : Counters κ γ) (k : κ) (c : γ) :
    read width n m k c = total n m k c % 2^width c := by
  cases hk : m k with
  | none =>
    have hgather : ∀ l : List ℕ, l.foldl (gather width m k) 0 = 0 := by
      intro l
      induction l with
      | nil => rfl
      | cons cpu l ih => simpa [gather,hk] using ih
    rw [read,hgather,total_of_none hk]
    simp
  | some p =>
    induction n with
    | zero => simp [read,total]
    | succ n ih =>
      have hstep : read width (n+1) m k = add width (read width n m k) (p n) := by
        simp [read,List.range_succ,gather,hk]
      have htotal : total (n+1) m k c = total n m k c+p n c := by
        simp [total,Finset.sum_range_succ,slice,hk]
      rw [hstep,htotal,add,ih,Nat.mod_add_mod]

omit [DecidableEq κ] in
theorem read_eq_total {width : γ → ℕ} {n : ℕ} {m : Counters κ γ} {k : κ}
    (h : ∀ c, total n m k c < 2^width c) : read width n m k = total n m k := by
  funext c
  rw [read_apply,Nat.mod_eq_of_lt (h c)]

omit [DecidableEq κ] in
theorem read_of_none {width : γ → ℕ} {m : Counters κ γ} {k : κ} (h : m k = none) (n : ℕ) :
    read width n m k = 0 := by
  funext c
  rw [read_apply,total_of_none h]
  simp

theorem total_erase_self (n : ℕ) (k : κ) (m : Counters κ γ) : total n (erase k m) k = 0 :=
  total_of_none (by simp [erase]) n

omit [DecidableEq κ] in
theorem total_congr {n : ℕ} {m m' : Counters κ γ} {k : κ} (h : m' k = m k) :
    total n m' k = total n m k := by
  funext c
  simp only [total,slice,h]

/-- Counting once: the entry is there from then on, unless the map is full. -/
def account (width : γ → ℕ) (room : Bool) (z : γ → ℕ) (cpu : ℕ) (k : κ) (d : γ → ℕ)
    (m : Counters κ γ) : Counters κ γ :=
  bump width cpu k d (ensure room z cpu k m)

/-- What a new entry brings along. -/
def fresh (z : γ → ℕ) (k : κ) (m : Counters κ γ) : γ → ℕ :=
  match m k with
  | some _ => 0
  | none => z

/-- The exact sum after counting once. -/
def after (n : ℕ) (z : γ → ℕ) (k : κ) (d : γ → ℕ) (m : Counters κ γ) : γ → ℕ :=
  fun c => total n m k c+fresh z k m c+d c

theorem account_of_ne (width : γ → ℕ) (room : Bool) (z : γ → ℕ) (cpu : ℕ) {k k' : κ}
    (hk : k' ≠ k) (d : γ → ℕ) (m : Counters κ γ) :
    account width room z cpu k d m k' = m k' := by
  cases hm : m k with
  | some p => simp [account,ensure,bump,hm,hk]
  | none => cases room <;> simp [account,ensure,bump,hm,hk]

/-- What counting does to one slice. -/
theorem slice_account (width : γ → ℕ) (room : Bool) (z : γ → ℕ) (cpu : ℕ) (k : κ) (d : γ → ℕ)
    (m : Counters κ γ) (cpu' : ℕ) :
    slice (account width room z cpu k d m) k cpu' = slice m k cpu' ∨
      (cpu' = cpu ∧ slice (account width room z cpu k d m) k cpu' =
        add width (slice m k cpu+fresh z k m) d) := by
  by_cases hcpu : cpu' = cpu
  · subst hcpu
    cases hk : m k with
    | some p => exact Or.inr ⟨rfl,by simp [slice,account,ensure,bump,fresh,hk]⟩
    | none =>
      cases room with
      | false => exact Or.inl (by simp [slice,account,ensure,bump,hk])
      | true => exact Or.inr ⟨rfl,by simp [slice,account,ensure,bump,fresh,hk]⟩
  · refine Or.inl ?_
    cases hk : m k with
    | some p => simp [slice,account,ensure,bump,hk,hcpu]
    | none => cases room <;> simp [slice,account,ensure,bump,hk,hcpu]

theorem total_le_account {width : γ → ℕ} {n : ℕ} {z : γ → ℕ} {k : κ} {d : γ → ℕ}
    {m : Counters κ γ} (hfit : ∀ c, after n z k d m c < 2^width c) (room : Bool) (cpu : ℕ) :
    total n m k ≤ total n (account width room z cpu k d m) k := by
  intro c
  refine Finset.sum_le_sum fun cpu' hmem => ?_
  rcases slice_account width room z cpu k d m cpu' with h | ⟨rfl,h⟩
  · rw [h]
  · have hslice := slice_le_total (Finset.mem_range.mp hmem) m k c
    have hc := hfit c
    have hlt : slice m k cpu' c+fresh z k m c+d c < 2^width c := by
      unfold after at hc
      omega
    rw [h,add,Pi.add_apply,Nat.mod_eq_of_lt hlt,Nat.add_assoc]
    exact Nat.le_add_right _ _

theorem account_le_after (width : γ → ℕ) (n : ℕ) (z : γ → ℕ) (k : κ) (d : γ → ℕ)
    (m : Counters κ γ) (room : Bool) (cpu : ℕ) :
    total n (account width room z cpu k d m) k ≤ after n z k d m := by
  intro c
  have hslice : ∀ cpu', slice (account width room z cpu k d m) k cpu' c ≤
      slice m k cpu' c+if cpu' = cpu then fresh z k m c+d c else 0 := by
    intro cpu'
    rcases slice_account width room z cpu k d m cpu' with h | ⟨rfl,h⟩
    · rw [h]
      exact Nat.le_add_right _ _
    · rw [h,if_pos rfl,add,Pi.add_apply,← Nat.add_assoc]
      exact Nat.mod_le _ _
  calc total n (account width room z cpu k d m) k c
      ≤ ∑ cpu' ∈ Finset.range n, (slice m k cpu' c+
          if cpu' = cpu then fresh z k m c+d c else 0) :=
        Finset.sum_le_sum fun cpu' _ => hslice cpu'
    _ = total n m k c+∑ cpu' ∈ Finset.range n,
          (if cpu' = cpu then fresh z k m c+d c else 0) := Finset.sum_add_distrib
    _ ≤ after n z k d m c := by
        rw [Finset.sum_ite_eq',after,Nat.add_assoc]
        split
        · exact Nat.le_refl _
        · exact Nat.add_le_add_left (Nat.zero_le _) _

end CellCounters
