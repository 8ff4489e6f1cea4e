import Mathlib.Data.Int.Notation
import Mathlib.Data.List.Basic
import Mathlib.Data.List.Dedup
import Mathlib.Data.String.Basic
import Mathlib.Order.Defs.LinearOrder

/-!
# Tables with a time column

Events are put into buckets by column and second; a table has a row for every second that
occurs, in order, and a cell for every column. The buckets are dictionaries that keep the order
of insertion.
-/

namespace TimeTable

variable {α ν κ : Type}

/-! ## Dictionaries -/

/-- `d[k] = f(d.get(k,init))`. -/
def upsert [DecidableEq κ] (k : κ) (init : ν) (f : ν → ν) : List (κ × ν) → List (κ × ν)
  | [] => [(k,f init)]
  | e::d => if e.1 = k then (k,f e.2)::d else e::upsert k init f d

theorem mem_keys_upsert [DecidableEq κ] (k : κ) (init : ν) (f : ν → ν) (d : List (κ × ν))
    (k' : κ) : k' ∈ (upsert k init f d).map Prod.fst ↔ k' = k ∨ k' ∈ d.map Prod.fst := by
  induction d with
  | nil => simp [upsert]
  | cons e d ih =>
    rw [upsert]
    split
    · next he => simp [he]
    · simp only [List.map_cons,List.mem_cons,ih,or_left_comm]

theorem mem_keys_foldl_upsert {ε : Type} [DecidableEq κ] (key : ε → κ) (init : ε → ν)
    (f : ε → ν → ν) (k : κ) (es : List ε) : ∀ d : List (κ × ν),
    k ∈ (es.foldl (fun d e => upsert (key e) (init e) (f e) d) d).map Prod.fst ↔
      k ∈ es.map key ∨ k ∈ d.map Prod.fst := by
  induction es with
  | nil => intro d; simp
  | cons e es ih =>
    intro d
    rw [List.foldl_cons,ih,mem_keys_upsert,List.map_cons,List.mem_cons,or_left_comm,or_assoc]

theorem nodup_keys_upsert [DecidableEq κ] (k : κ) (init : ν) (f : ν → ν) {d : List (κ × ν)}
    (h : (d.map Prod.fst).Nodup) : ((upsert k init f d).map Prod.fst).Nodup := by
  induction d with
  | nil => simp [upsert]
  | cons e d ih =>
    obtain ⟨hnot,hd⟩ := List.nodup_cons.mp h
    rw [upsert]
    split
    · next he =>
      rw [← he]
      exact List.nodup_cons.mpr ⟨hnot,hd⟩
    · next he =>
      refine List.nodup_cons.mpr ⟨?_,ih hd⟩
      rw [mem_keys_upsert]
      rintro (heq | hmem)
      · exact he heq
      · exact hnot hmem

theorem nodup_keys_foldl_upsert {ε : Type} [DecidableEq κ] (key : ε → κ) (init : ε → ν)
    (f : ε → ν → ν) (es : List ε) {d : List (κ × ν)} (h : (d.map Prod.fst).Nodup) :
    ((es.foldl (fun d e => upsert (key e) (init e) (f e) d) d).map Prod.fst).Nodup := by
  induction es generalizing d with
  | nil => exact h
  | cons e es ih => exact ih (nodup_keys_upsert _ _ _ h)

theorem lookup_upsert [DecidableEq κ] (k : κ) (init : ν) (f : ν → ν) (d : List (κ × ν)) (k' : κ) :
    (upsert k init f d).lookup k' =
      if k' = k then some (f ((d.lookup k).getD init)) else d.lookup k' := by
  induction d with
  | nil => by_cases hk : k' = k <;> simp [upsert,hk]
  | cons e d ih =>
    obtain ⟨x,v⟩ := e
    rw [upsert]
    split
    · next hx =>
      obtain rfl : x = k := hx
      by_cases hk : k' = x
      · subst hk
        simp
      · simp only [List.lookup_cons,beq_false_of_ne hk,if_neg hk]
    · next hx =>
      by_cases hk' : k' = x
      · subst hk'
        rw [List.lookup_cons_self,List.lookup_cons_self,if_neg hx]
      · simp only [List.lookup_cons,beq_false_of_ne hk',beq_false_of_ne (Ne.symm hx)]
        exact ih

/-- Under each key that occurs is the fold of what has it. -/
theorem lookup_foldl_upsert [DecidableEq κ] {ε : Type} (key : ε → κ) (init : ν) (f : ε → ν → ν)
    (k : κ) (es : List ε) : ∀ d : List (κ × ν),
    (es.foldl (fun d e => upsert (key e) init (f e) d) d).lookup k =
      if k ∈ es.map key then
        some ((es.filter fun e => key e = k).foldl (fun v e => f e v) ((d.lookup k).getD init))
      else d.lookup k := by
  induction es with
  | nil => intro d; rfl
  | cons e es ih =>
    intro d
    rw [List.foldl_cons,ih,lookup_upsert,List.filter_cons]
    simp only [List.map_cons,List.mem_cons]
    by_cases hk : k = key e
    · subst hk
      simp only [if_true,Option.getD_some,decide_true,List.foldl_cons,true_or]
      split
      · rfl
      · next hnot =>
        have hnil : (es.filter fun e' => key e' = key e) = [] :=
          List.filter_eq_nil_iff.mpr fun e' he' h =>
            hnot (List.mem_map.mpr ⟨e',he',of_decide_eq_true h⟩)
        rw [hnil,List.foldl_nil]
    · simp only [hk,Ne.symm hk,if_false,decide_false,Bool.false_eq_true,false_or]

/-- The same where the first element under a key says what is started with. -/
theorem lookup_foldl_upsert_init [DecidableEq κ] {ε : Type} (key : ε → κ) (init : ε → ν)
    (f : ε → ν → ν) (k : κ) (es : List ε) : ∀ d : List (κ × ν),
    (es.foldl (fun d e => upsert (key e) (init e) (f e) d) d).lookup k =
      (es.filter fun e => key e = k).foldl (fun v e => some (f e (v.getD (init e))))
        (d.lookup k) := by
  induction es with
  | nil => intro d; rfl
  | cons e es ih =>
    intro d
    rw [List.foldl_cons,ih,lookup_upsert,List.filter_cons]
    by_cases hk : k = key e
    · simp only [hk,if_true,decide_true,List.foldl_cons]
    · simp only [hk,Ne.symm hk,if_false,decide_false,Bool.false_eq_true]

theorem lookup_of_mem [DecidableEq κ] {d : List (κ × ν)} (h : (d.map Prod.fst).Nodup) {k : κ}
    {v : ν} (hmem : (k,v) ∈ d) : d.lookup k = some v := by
  induction d with
  | nil => cases hmem
  | cons e d ih =>
    obtain ⟨x,w⟩ := e
    obtain ⟨hnot,hd⟩ := List.nodup_cons.mp h
    rcases List.mem_cons.mp hmem with heq | hrest
    · obtain ⟨rfl,rfl⟩ := Prod.mk.inj heq
      exact List.lookup_cons_self
    · have hne : k ≠ x := fun heq => hnot (heq ▸ List.mem_map.mpr ⟨(k,v),hrest,rfl⟩)
      simp only [List.lookup_cons,beq_false_of_ne hne]
      exact ih hd hrest

/-- `sorted(set(xs))`. -/
def sortedSet [DecidableEq κ] [LE κ] [DecidableLE κ] (xs : List κ) : List κ :=
  xs.dedup.mergeSort fun a b => a ≤ b

theorem mem_sortedSet [DecidableEq κ] [LE κ] [DecidableLE κ] {xs : List κ} {x : κ} :
    x ∈ sortedSet xs ↔ x ∈ xs := by
  rw [sortedSet,(List.mergeSort_perm _ _).mem_iff,List.mem_dedup]

theorem sortedSet_pairwise [LinearOrder κ] (xs : List κ) : (sortedSet xs).Pairwise (· < ·) := by
  have hle : (sortedSet xs).Pairwise fun a b => decide (a ≤ b) = true := by
    refine List.pairwise_mergeSort (fun a b c hab hbc => ?_) (fun a b => ?_) _
    · simp only [decide_eq_true_eq] at hab hbc ⊢
      exact le_trans hab hbc
    · simpa using le_total a b
  have hne : (sortedSet xs).Pairwise (· ≠ ·) :=
    (List.mergeSort_perm _ _).nodup_iff.mpr (List.nodup_dedup xs)
  exact (hle.and hne).imp fun h => lt_of_le_of_ne (of_decide_eq_true h.1) h.2

theorem sortedSet_congr [LinearOrder κ] {xs ys : List κ} (h : ∀ x, x ∈ xs ↔ x ∈ ys) :
    sortedSet xs = sortedSet ys := by
  have hx := sortedSet_pairwise xs
  have hy := sortedSet_pairwise ys
  have hperm : (sortedSet xs).Perm (sortedSet ys) := by
    rw [List.perm_ext_iff_of_nodup (hx.imp fun h => h.ne) (hy.imp fun h => h.ne)]
    intro x
    rw [mem_sortedSet,mem_sortedSet,h]
  exact hperm.eq_of_pairwise (fun a b _ _ hab hba => absurd hba hab.asymm) hx hy

theorem sortedSet_eq [LinearOrder κ] {xs : List κ} (ys : List κ) (h : xs.dedup = ys)
    (hys : ys.Pairwise (· < ·)) : sortedSet xs = ys := by
  rw [sortedSet,h]
  exact List.mergeSort_of_pairwise (hys.imp fun hlt => decide_eq_true (le_of_lt hlt))

/-! ## Frames -/

/-- The time column is missing when it has been dropped. -/
structure Frame (α : Type) where
  time : Option (List ℤ) := some []
  cols : List (String × List α) := []

/-- A column of the buckets, with a default where a second is missing. -/
def column (ordered : List ℤ) (cell : ν → α) (default : α) (d : List (ℤ × ν)) : List α :=
  ordered.map fun t => ((d.lookup t).map cell).getD default

def Frame.length (f : Frame α) : ℕ :=
  match f.time with
  | some ts => ts.length
  | none => (f.cols.head?.map fun c => c.2.length).getD 0

def varies [DecidableEq κ] : List κ → Bool
  | [] => false
  | x::xs => xs.any (· ≠ x)

/-- `_drop_constant`: the time column goes like any other. -/
def Frame.dropConstant [DecidableEq α] (f : Frame α) : Frame α :=
  if f.length = 0 then f
  else { time := f.time.filter varies, cols := f.cols.filter fun c => varies c.2 }

/-- A frame that lost its time column is replaced by the empty one. -/
def Frame.timed (f : Frame α) : Frame α := if f.time.isNone then {} else f

/-- `df[p(df["time"])]`. -/
def Frame.restrict (p : ℤ → Bool) (f : Frame α) : Frame α :=
  { time := f.time.map fun ts => ts.filter p
    cols := f.cols.map fun c =>
      (c.1,(((f.time.getD []).zip c.2).filter fun cell => p cell.1).map Prod.snd) }

/-- Without the last two rows. -/
def Frame.dropLastTwo (f : Frame α) : Frame α :=
  { time := f.time.map fun ts => ts.take (ts.length-2)
    cols := f.cols.map fun c => (c.1,c.2.take (c.2.length-2)) }

/-- The frame has a row of the second and the column. -/
def Frame.HasCell (f : Frame α) (sec : ℤ) (col : String) : Prop :=
  (∃ ts, f.time = some ts ∧ sec ∈ ts) ∧ col ∈ f.cols.map Prod.fst

theorem hasCell_restrict (p : ℤ → Bool) (f : Frame α) (sec : ℤ) (col : String) :
    (f.restrict p).HasCell sec col ↔ f.HasCell sec col ∧ p sec = true := by
  obtain ⟨time,cols⟩ := f
  have hcols : ((Frame.restrict p ⟨time,cols⟩).cols.map Prod.fst) = cols.map Prod.fst := by
    simp [Frame.restrict]
  rw [Frame.HasCell,Frame.HasCell,hcols]
  cases time with
  | none => simp [Frame.restrict]
  | some ts =>
    simp only [Frame.restrict,Option.map_some,Option.some.injEq,exists_eq_left',List.mem_filter]
    exact and_right_comm

theorem Frame.HasCell.of_dropConstant [DecidableEq α] {f : Frame α} {sec : ℤ} {col : String}
    (h : f.dropConstant.timed.HasCell sec col) : f.HasCell sec col := by
  obtain ⟨⟨ts,hts,hsec⟩,hcol⟩ := h
  unfold Frame.timed at hts hcol
  split at hts
  · cases hts
    cases hsec
  · next hsome =>
    rw [if_neg hsome] at hcol
    unfold Frame.dropConstant at hts hcol
    split at hts
    · next hempty =>
      rw [if_pos hempty] at hcol
      exact ⟨⟨ts,hts,hsec⟩,hcol⟩
    · next hempty =>
      rw [if_neg hempty] at hcol
      refine ⟨⟨ts,(Option.filter_eq_some_iff.mp hts).1,hsec⟩,?_⟩
      obtain ⟨c,hc,hname⟩ := List.mem_map.mp hcol
      exact List.mem_map.mpr ⟨c,(List.mem_filter.mp hc).1,hname⟩

end TimeTable
