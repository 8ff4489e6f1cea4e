import ETraceDiag.CellCounters

/-!
# Counters as a ledger

Every amount that is counted is a charge: to a key, on a processor. Where new entries start from
zeros and find room, the cells hold what the charges come to.
-/

namespace CellLedger

open CellCounters

variable {κ γ : Type*}

structure Charge (κ γ : Type*) where
  key : κ
  cpu : ℕ
  amount : γ → ℕ

section Charges

variable [DecidableEq κ]

/-- The charges to a key on a processor. -/
def chargesOf (cs : List (Charge κ γ)) (k : κ) (cpu : ℕ) : List (Charge κ γ) :=
  cs.filter fun x => x.key = k ∧ x.cpu = cpu

/-- What they come to. -/
def charged (cs : List (Charge κ γ)) (k : κ) (cpu : ℕ) (c : γ) : ℕ :=
  ((chargesOf cs k cpu).map fun x => x.amount c).sum

theorem mem_of_mem_chargesOf {cs : List (Charge κ γ)} {k : κ} {cpu : ℕ} {x : Charge κ γ}
    (h : x ∈ chargesOf cs k cpu) : x ∈ cs := List.mem_of_mem_filter h

theorem chargesOf_concat (cs : List (Charge κ γ)) (x : Charge κ γ) (k : κ) (cpu : ℕ) :
    chargesOf (cs++[x]) k cpu =
      chargesOf cs k cpu++if x.key = k ∧ x.cpu = cpu then [x] else [] := by
  rw [chargesOf,List.filter_append]
  congr 1
  by_cases h : x.key = k ∧ x.cpu = cpu <;> simp [h]

theorem charged_concat (cs : List (Charge κ γ)) (x : Charge κ γ) (k : κ) (cpu : ℕ) (c : γ) :
    charged (cs++[x]) k cpu c =
      charged cs k cpu c+if x.key = k ∧ x.cpu = cpu then x.amount c else 0 := by
  rw [charged,chargesOf_concat,List.map_append,List.sum_append]
  congr 1
  split <;> simp

end Charges

/-- Counting goes on from what is there, or from zeros where there is nothing yet. -/
def Clean (room : Bool) (z : γ → ℕ) (k : κ) (m : Counters κ γ) : Prop :=
  m k = none → room = true ∧ z = 0

/-- The cells hold what the charges come to. -/
def Records [DecidableEq κ] (width : γ → ℕ) (m : Counters κ γ) (cs : List (Charge κ γ)) : Prop :=
  ∀ k cpu c, slice m k cpu c = charged cs k cpu c % 2^width c

variable [DecidableEq κ]

/-- An entry of zeros counts as no entry. -/
theorem slice_ensure {room : Bool} {z : γ → ℕ} {k : κ} {m : Counters κ γ}
    (h : m k = none → z = 0) (cpu : ℕ) (k' : κ) (cpu' : ℕ) :
    slice (ensure room z cpu k m) k' cpu' = slice m k' cpu' := by
  cases hm : m k with
  | some p => simp [slice,ensure,hm]
  | none =>
    obtain rfl := h hm
    by_cases hk : k' = k
    · cases room <;> simp [slice,ensure,hm,hk]
    · cases room <;> simp [slice,ensure,hm,hk]

theorem slice_account_of_clean {room : Bool} {z : γ → ℕ} {k : κ} {m : Counters κ γ}
    (h : Clean room z k m) (width : γ → ℕ) (cpu : ℕ) (d : γ → ℕ) (k' : κ) (cpu' : ℕ) :
    slice (account width room z cpu k d m) k' cpu' =
      if k = k' ∧ cpu = cpu' then add width (slice m k cpu) d else slice m k' cpu' := by
  by_cases hk : k' = k
  · subst hk
    cases hm : m k' with
    | some p =>
      by_cases hcpu : cpu' = cpu
      · simp [slice,account,ensure,bump,hm,hcpu]
      · simp [slice,account,ensure,bump,hm,hcpu,Ne.symm hcpu]
    | none =>
      obtain ⟨rfl,rfl⟩ := h hm
      by_cases hcpu : cpu' = cpu
      · simp [slice,account,ensure,bump,hm,hcpu]
      · simp [slice,account,ensure,bump,hm,hcpu,Ne.symm hcpu]
  · rw [if_neg fun hkk => hk hkk.1.symm]
    simp only [slice,account_of_ne width room z cpu hk]

/-- Counting without an overflow takes nothing away. -/
theorem slice_le_account {room : Bool} {z : γ → ℕ} {k : κ} {m : Counters κ γ}
    (h : m k = none → z = 0) {width : γ → ℕ} {cpu : ℕ} {d : γ → ℕ}
    (hfits : ∀ c, slice m k cpu c+d c < 2^width c) (k' : κ) (cpu' : ℕ) (c : γ) :
    slice m k' cpu' c ≤ slice (account width room z cpu k d m) k' cpu' c := by
  by_cases hfull : m k = none ∧ room = false
  · obtain ⟨hm,rfl⟩ := hfull
    simp [account,ensure,bump,hm]
  · have hclean : Clean room z k m :=
      fun hm => ⟨Bool.eq_true_of_not_eq_false fun hroom => hfull ⟨hm,hroom⟩,h hm⟩
    rw [slice_account_of_clean hclean]
    split
    · next heq =>
      obtain ⟨rfl,rfl⟩ := heq
      rw [add,Nat.mod_eq_of_lt (hfits c)]
      exact Nat.le_add_right _ _
    · exact Nat.le_refl _

theorem records_nil (width : γ → ℕ) : Records width (fun _ : κ => none) [] := by
  intro k cpu c
  simp [slice,charged,chargesOf]

/-- Counting once adds one charge. -/
theorem Records.account {width : γ → ℕ} {m : Counters κ γ} {cs : List (Charge κ γ)}
    (h : Records width m cs) {room : Bool} {z : γ → ℕ} {k : κ} (hclean : Clean room z k m)
    (cpu : ℕ) (d : γ → ℕ) :
    Records width (account width room z cpu k d m) (cs++[⟨k,cpu,d⟩]) := by
  intro k' cpu' c
  rw [slice_account_of_clean hclean,charged_concat]
  split
  · next heq =>
    obtain ⟨rfl,rfl⟩ := heq
    rw [add,h,Nat.mod_add_mod]
  · rw [h,Nat.add_zero]

theorem charged_filter_ne (cs : List (Charge κ γ)) (k k' : κ) (cpu : ℕ) (c : γ) :
    charged (cs.filter fun x => x.key ≠ k) k' cpu c = if k' = k then 0 else charged cs k' cpu c := by
  simp only [charged,chargesOf,List.filter_filter]
  split
  · next hk =>
    rw [List.filter_eq_nil_iff.mpr]
    · rfl
    · simp +contextual [hk]
  · next hk =>
    congr 3
    funext x
    by_cases hx : x.key = k' <;> simp [hx,hk]

/-- A key that starts anew takes its charges along. -/
theorem Records.erase {width : γ → ℕ} {m : Counters κ γ} {cs : List (Charge κ γ)}
    (h : Records width m cs) (k : κ) :
    Records width (erase k m) (cs.filter fun x => x.key ≠ k) := by
  intro k' cpu c
  rw [charged_filter_ne]
  split
  · next hk => simp [slice,CellCounters.erase,hk]
  · next hk =>
    rw [← h k' cpu c]
    simp [slice,CellCounters.erase,hk]

/-- A cell that has room for the next charge has not overflowed behind it. -/
theorem Records.lt_concat {width : γ → ℕ} {m : Counters κ γ} {cs : List (Charge κ γ)}
    (h : Records width m cs) {c : γ} (hlt : ∀ k cpu, charged cs k cpu c < 2^width c)
    {x : Charge κ γ} (hx : slice m x.key x.cpu c+x.amount c < 2^width c) (k : κ) (cpu : ℕ) :
    charged (cs++[x]) k cpu c < 2^width c := by
  rw [charged_concat]
  split
  · next heq =>
    obtain ⟨rfl,rfl⟩ := heq
    rwa [h,Nat.mod_eq_of_lt (hlt x.key x.cpu)] at hx
  · exact hlt k cpu

/-! ## Several processors together -/

/-- The exact sum over some processors. -/
def cells (C : Finset ℕ) (m : Counters κ γ) (k : κ) (c : γ) : ℕ := ∑ cpu ∈ C, slice m k cpu c

/-- The charges to a key on some processors. -/
def chargesIn (cs : List (Charge κ γ)) (k : κ) (C : Finset ℕ) : List (Charge κ γ) :=
  cs.filter fun x => x.key = k ∧ x.cpu ∈ C

theorem mem_of_mem_chargesIn {cs : List (Charge κ γ)} {k : κ} {C : Finset ℕ} {x : Charge κ γ}
    (h : x ∈ chargesIn cs k C) : x ∈ cs := List.mem_of_mem_filter h

theorem sum_charged (cs : List (Charge κ γ)) (k : κ) (C : Finset ℕ) (c : γ) :
    ∑ cpu ∈ C, charged cs k cpu c = ((chargesIn cs k C).map fun x => x.amount c).sum := by
  induction cs using List.reverseRecOn with
  | nil => simp [charged,chargesOf,chargesIn]
  | append_singleton cs x ih =>
    simp only [charged_concat,Finset.sum_add_distrib,ih]
    rw [chargesIn,chargesIn,List.filter_append,List.map_append,List.sum_append]
    congr 1
    by_cases hk : x.key = k
    · by_cases hcpu : x.cpu ∈ C
      · simp [hk,hcpu]
      · simp [hk,hcpu]
    · simp [hk]

/-- In the width of the cell, the sum over the processors is what was charged on them. -/
theorem Records.cells_mod {width : γ → ℕ} {m : Counters κ γ} {cs : List (Charge κ γ)}
    (h : Records width m cs) (C : Finset ℕ) (k : κ) (c : γ) :
    cells C m k c % 2^width c =
      ((chargesIn cs k C).map fun x => x.amount c).sum % 2^width c := by
  rw [← sum_charged,cells,Finset.sum_nat_mod]
  conv_rhs => rw [Finset.sum_nat_mod]
  simp only [h k _ c,Nat.mod_mod]

theorem Records.cells_eq {width : γ → ℕ} {m : Counters κ γ} {cs : List (Charge κ γ)}
    (h : Records width m cs) {k : κ} {c : γ} (hlt : ∀ cpu, charged cs k cpu c < 2^width c)
    (C : Finset ℕ) : cells C m k c = ((chargesIn cs k C).map fun x => x.amount c).sum := by
  rw [← sum_charged,cells]
  exact Finset.sum_congr rfl fun cpu _ => (h k cpu c).trans (Nat.mod_eq_of_lt (hlt cpu))

/-- The charges to all keys. -/
theorem sum_keys {cs : List (Charge κ γ)} {K : Finset κ} (hK : ∀ x ∈ cs, x.key ∈ K)
    (C : Finset ℕ) (c : γ) : ∑ k ∈ K, ((chargesIn cs k C).map fun x => x.amount c).sum =
      ((cs.filter fun x => x.cpu ∈ C).map fun x => x.amount c).sum := by
  induction cs with
  | nil => simp [chargesIn]
  | cons x cs ih =>
    obtain ⟨hx,hcs⟩ := List.forall_mem_cons.mp hK
    have hcons : ∀ k, ((chargesIn (x::cs) k C).map fun x => x.amount c).sum =
        (if x.key = k then if x.cpu ∈ C then x.amount c else 0 else 0)+
          ((chargesIn cs k C).map fun x => x.amount c).sum := by
      intro k
      by_cases hk : x.key = k <;> by_cases hcpu : x.cpu ∈ C <;> simp [chargesIn,hk,hcpu]
    rw [Finset.sum_congr rfl fun k _ => hcons k,Finset.sum_add_distrib,ih hcs,Finset.sum_ite_eq,
      if_pos hx]
    by_cases hcpu : x.cpu ∈ C <;> simp [hcpu]

/-! ## Histograms -/

section Bins

variable {n : ℕ} (bin : Fin n → γ)

omit [DecidableEq κ] in
theorem sum_one_bin {n b : ℕ} (h : b < n) : ∑ i : Fin n, (if (i : ℕ) = b then 1 else 0) = 1 := by
  rw [Fintype.sum_eq_single ⟨b,h⟩ fun i hi => if_neg fun hib => hi (Fin.ext hib),if_pos rfl]

/-- A charge that goes to one bin. -/
def Binned (x : Charge κ γ) : Prop := ∑ i, x.amount (bin i) = 1

omit [DecidableEq κ] in
/-- The bins together count the charges. -/
theorem sum_bins {cs : List (Charge κ γ)} (h : ∀ x ∈ cs, Binned bin x) :
    ∑ i, (cs.map fun x => x.amount (bin i)).sum = cs.length := by
  induction cs with
  | nil => simp
  | cons x cs ih =>
    obtain ⟨hx,hcs⟩ := List.forall_mem_cons.mp h
    simp only [List.map_cons,List.sum_cons,Finset.sum_add_distrib,ih hcs,List.length_cons]
    rw [show ∑ i, x.amount (bin i) = 1 from hx,Nat.add_comm]

theorem Records.sum_bins_eq {width : γ → ℕ} {m : Counters κ γ} {cs : List (Charge κ γ)}
    (h : Records width m cs) (hbinned : ∀ x ∈ cs, Binned bin x) {k : κ}
    (hlt : ∀ i cpu, charged cs k cpu (bin i) < 2^width (bin i)) (C : Finset ℕ) :
    ∑ i, cells C m k (bin i) = (chargesIn cs k C).length := by
  rw [← sum_bins bin fun x hx => hbinned x (mem_of_mem_chargesIn hx)]
  exact Finset.sum_congr rfl fun i _ => h.cells_eq (hlt i) C

/-- A cell that counts every charge does not overflow before a bin does. -/
theorem charged_lt_of_bins {width : γ → ℕ} {cs : List (Charge κ γ)} {count : γ}
    (hbinned : ∀ x ∈ cs, Binned bin x) (hcount : ∀ x ∈ cs, x.amount count = 1)
    (hwidth : ∑ i, 2^width (bin i) < 2^width count) {k : κ} {cpu : ℕ}
    (hlt : ∀ i, charged cs k cpu (bin i) < 2^width (bin i)) :
    charged cs k cpu count < 2^width count := by
  have hone : charged cs k cpu count = (chargesOf cs k cpu).length := by
    rw [charged,List.map_congr_left fun x hx => hcount x (mem_of_mem_chargesOf hx)]
    simp
  calc charged cs k cpu count
      = ∑ i, charged cs k cpu (bin i) := by
        rw [hone,← sum_bins bin fun x hx => hbinned x (mem_of_mem_chargesOf hx)]
        rfl
    _ ≤ ∑ i, 2^width (bin i) := Finset.sum_le_sum fun i _ => (hlt i).le
    _ < 2^width count := hwidth

theorem Records.count_eq {width : γ → ℕ} {m : Counters κ γ} {cs : List (Charge κ γ)} {count : γ}
    (h : Records width m cs) (hbinned : ∀ x ∈ cs, Binned bin x)
    (hcount : ∀ x ∈ cs, x.amount count = 1) (hwidth : ∑ i, 2^width (bin i) < 2^width count)
    {k : κ} (hlt : ∀ i cpu, charged cs k cpu (bin i) < 2^width (bin i)) (C : Finset ℕ) :
    cells C m k count = (chargesIn cs k C).length := by
  rw [h.cells_eq fun cpu => charged_lt_of_bins bin hbinned hcount hwidth fun i => hlt i cpu,
    List.map_congr_left fun x hx => hcount x (mem_of_mem_chargesIn hx)]
  simp

end Bins

end CellLedger
