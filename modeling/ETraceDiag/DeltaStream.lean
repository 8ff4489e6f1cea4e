import Mathlib.Data.List.Nodup
import Mathlib.Logic.Function.Basic

/-!
# Gauges and counters

A stream of readings of named sources. A gauge passes its reading through; a counter gives the
change since its last reading, and nothing at its first sight. The last readings are kept under
a text or another key of the source.
-/

namespace DeltaStream

variable {κ σ ν : Type*} [DecidableEq σ] (key : κ → σ) (counter : κ → Bool) (d : ν → ν → ν)

/-- The last readings after a reading of `k`, and its value. -/
def observe (prev : σ → Option ν) (k : κ) (raw : ν) : (σ → Option ν) × Option ν :=
  if counter k then (Function.update prev (key k) (some raw),(prev (key k)).map (d raw))
  else (prev,some raw)

/-- The last readings after a list of readings. -/
def last : (σ → Option ν) → List (κ × ν) → σ → Option ν
  | prev, [] => prev
  | prev, (k,raw)::rs => last (observe key counter d prev k raw).1 rs

/-- The values that a list of readings gives. -/
def values : (σ → Option ν) → List (κ × ν) → List (κ × ν)
  | _, [] => []
  | prev, (k,raw)::rs =>
    ((observe key counter d prev k raw).2.map fun v => (k,v)).toList++
      values (observe key counter d prev k raw).1 rs

/-- The changes along the readings of one counter, whose last reading was `p`. -/
def changes (d : ν → ν → ν) : Option ν → List ν → List ν
  | _, [] => []
  | p, raw::raws => (p.map (d raw)).toList++changes d (some raw) raws

/-- What a list of readings or of values has of one source. -/
def ofSource [DecidableEq κ] (k : κ) (rs : List (κ × ν)) : List ν :=
  (rs.filter (·.1 = k)).map Prod.snd

/-- What holds from each reading to the next holds of the pairs of them. -/
theorem rel_of_mem_zip_tail {α : Type} {R : α → α → Prop} {l : List α} (h : l.IsChain R) :
    ∀ pair ∈ l.zip l.tail, R pair.1 pair.2 := by
  induction l with
  | nil => simp
  | cons a l ih =>
    cases l with
    | nil => simp
    | cons b l =>
      simp only [List.isChain_cons_cons] at h
      simpa using ⟨h.1,fun x y hxy => ih h.2 (x,y) hxy⟩

/-- A counter that has been read before gives a change for every reading. -/
theorem changes_ne_nil {d : ν → ν → ν} {p : Option ν} {raws : List ν} (hp : p ≠ none)
    (hraws : raws ≠ []) : changes d p raws ≠ [] := by
  obtain ⟨x,rfl⟩ := Option.ne_none_iff_exists'.mp hp
  cases raws with
  | nil => exact absurd rfl hraws
  | cons raw raws => exact List.cons_ne_nil _ _

/-- The next reading of `k` is its first and gives no value. -/
def unseen (prev : σ → Option ν) (k : κ) : Bool := counter k && (prev (key k)).isNone

variable {key counter d}

theorem observe_unseen {prev : σ → Option ν} {k : κ} (h : unseen key counter prev k = true)
    (raw : ν) :
    observe key counter d prev k raw = (Function.update prev (key k) (some raw),none) := by
  rw [unseen,Bool.and_eq_true,Option.isNone_iff_eq_none] at h
  rw [observe,if_pos h.1,h.2,Option.map_none]

theorem observe_seen {prev : σ → Option ν} {k : κ} (h : unseen key counter prev k = false)
    (raw : ν) : ∃ v, (observe key counter d prev k raw).2 = some v := by
  cases hc : counter k with
  | false => exact ⟨raw,by rw [observe,if_neg (by rw [hc]; decide)]⟩
  | true =>
    rw [unseen,hc,Bool.true_and,Option.isNone_eq_false_iff,Option.isSome_iff_exists] at h
    obtain ⟨old,hold⟩ := h
    exact ⟨d raw old,by rw [observe,if_pos hc,hold,Option.map_some]⟩

theorem observe_fst (prev : σ → Option ν) (k : κ) (raw : ν) :
    (observe key counter d prev k raw).1 =
      if counter k then Function.update prev (key k) (some raw) else prev := by
  rw [observe]
  split <;> rfl

/-- After a reading of its source there is no first sight left. -/
theorem unseen_observe_self (prev : σ → Option ν) (k : κ) (raw : ν) :
    unseen key counter (observe key counter d prev k raw).1 k = false := by
  cases hc : counter k with
  | false => rw [unseen,hc,Bool.false_and]
  | true =>
    rw [observe_fst,if_pos hc,unseen,Function.update_self,Option.isNone_some,Bool.and_false]

theorem unseen_observe_of_ne {prev : σ → Option ν} {k j : κ} (h : key j ≠ key k) (raw : ν) :
    unseen key counter (observe key counter d prev k raw).1 j =
      unseen key counter prev j := by
  rw [observe_fst]
  split
  · rw [unseen,unseen,Function.update_of_ne h]
  · rfl

/-- What has been seen stays seen. -/
theorem unseen_last {k : κ} (rs : List (κ × ν)) : ∀ {prev : σ → Option ν},
    unseen key counter prev k = false →
      unseen key counter (last key counter d prev rs) k = false := by
  induction rs with
  | nil => exact fun h => h
  | cons r rs ih =>
    intro prev h
    refine ih ?_
    by_cases hk : key k = key r.1
    · rw [observe_fst]
      split
      · rw [unseen,hk,Function.update_self,Option.isNone_some,Bool.and_false]
      · exact h
    · rwa [unseen_observe_of_ne hk]

/-- A source that has been read has been seen. -/
theorem unseen_last_of_mem {k : κ} (rs : List (κ × ν)) : ∀ {prev : σ → Option ν},
    k ∈ rs.map Prod.fst → unseen key counter (last key counter d prev rs) k = false := by
  induction rs with
  | nil => intro prev h; cases h
  | cons r rs ih =>
    intro prev h
    rcases List.mem_cons.mp h with rfl | h
    · exact unseen_last rs (unseen_observe_self prev r.1 r.2)
    · exact ih h

variable [DecidableEq κ]

/-- Every reading but a first sight gives one value. -/
theorem count_values (hkey : Function.Injective key) (k : κ) (rs : List (κ × ν)) :
    ∀ prev : σ → Option ν, ((values key counter d prev rs).map Prod.fst).count k =
      (rs.map Prod.fst).count k-(if unseen key counter prev k then 1 else 0) := by
  induction rs with
  | nil => intro prev; simp [values]
  | cons r rs ih =>
    intro prev
    obtain ⟨j,raw⟩ := r
    rw [values,List.map_append,List.count_append,ih,List.map_cons,List.count_cons]
    by_cases hjk : j = k
    · subst hjk
      rw [unseen_observe_self,if_neg (by decide),if_pos (beq_self_eq_true j)]
      cases hseen : unseen key counter prev j with
      | true =>
        rw [observe_unseen hseen]
        simp
      | false =>
        obtain ⟨v,hv⟩ := observe_seen (d:=d) hseen raw
        rw [hv]
        simp [Nat.add_comm]
    · have hne : key k ≠ key j := fun h => hjk (hkey h).symm
      have hnone : (((observe key counter d prev j raw).2.map fun v => (j,v)).toList.map
          Prod.fst).count k = 0 := by
        cases (observe key counter d prev j raw).2 <;> simp [hjk]
      have hbeq : ¬ (j == k) = true := by simpa using hjk
      rw [unseen_observe_of_ne hne,hnone,if_neg hbeq,Nat.zero_add,Nat.add_zero]

/-- No source gives two values exactly when each is read once, or twice at its first sight. -/
theorem nodup_values_iff (hkey : Function.Injective key) (prev : σ → Option ν)
    (rs : List (κ × ν)) : ((values key counter d prev rs).map Prod.fst).Nodup ↔
      ∀ k, (rs.map Prod.fst).count k ≤ 1+(if unseen key counter prev k then 1 else 0) := by
  rw [List.nodup_iff_count_le_one]
  refine forall_congr' fun k => ?_
  rw [count_values hkey]
  omega

/-- There are no values exactly when each source is read at most at its first sight. -/
theorem values_eq_nil_iff (hkey : Function.Injective key) (prev : σ → Option ν)
    (rs : List (κ × ν)) : values key counter d prev rs = [] ↔
      ∀ k, (rs.map Prod.fst).count k ≤ if unseen key counter prev k then 1 else 0 := by
  rw [← List.map_eq_nil_iff (f:=Prod.fst),List.eq_nil_iff_forall_not_mem]
  refine forall_congr' fun k => ?_
  rw [← List.count_eq_zero,count_values hkey,Nat.sub_eq_zero_iff_le]

theorem mem_values (hkey : Function.Injective key) {k : κ} {rs : List (κ × ν)}
    {prev : σ → Option ν} (hseen : unseen key counter prev k = false) :
    k ∈ (values key counter d prev rs).map Prod.fst ↔ k ∈ rs.map Prod.fst := by
  rw [← List.count_pos_iff,← List.count_pos_iff,count_values hkey,hseen,if_neg (by decide),
    Nat.sub_zero]

theorem mem_of_mem_values (hkey : Function.Injective key) {k : κ} {rs : List (κ × ν)}
    {prev : σ → Option ν} (h : k ∈ (values key counter d prev rs).map Prod.fst) :
    k ∈ rs.map Prod.fst := by
  rw [← List.count_pos_iff] at h ⊢
  rw [count_values hkey] at h
  exact Nat.lt_of_lt_of_le h (Nat.sub_le _ _)

theorem ofSource_cons_self (k : κ) (raw : ν) (rs : List (κ × ν)) :
    ofSource k ((k,raw)::rs) = raw::ofSource k rs := by
  rw [ofSource,List.filter_cons_of_pos (by simp),List.map_cons,ofSource]

theorem ofSource_cons_of_ne {j k : κ} (h : j ≠ k) (raw : ν) (rs : List (κ × ν)) :
    ofSource k ((j,raw)::rs) = ofSource k rs := by
  rw [ofSource,List.filter_cons_of_neg (by simpa using h),ofSource]

theorem ofSource_append (k : κ) (rs ss : List (κ × ν)) :
    ofSource k (rs++ss) = ofSource k rs++ofSource k ss := by
  rw [ofSource,List.filter_append,List.map_append,ofSource,ofSource]

theorem ofSource_eq_nil_iff {k : κ} {rs : List (κ × ν)} :
    ofSource k rs = [] ↔ k ∉ rs.map Prod.fst := by
  rw [ofSource,List.map_eq_nil_iff,List.filter_eq_nil_iff,List.mem_map]
  constructor
  · rintro h ⟨r,hr,rfl⟩
    exact h r hr (by simp)
  · intro h r hr hk
    exact h ⟨r,hr,by simpa using hk⟩

/-- The last reading of a counter is kept until there is another one. -/
theorem last_key (hkey : Function.Injective key) {k : κ} (hk : counter k = true)
    (rs : List (κ × ν)) : ∀ prev : σ → Option ν,
      last key counter d prev rs (key k) = (ofSource k rs).getLast?.or (prev (key k)) := by
  induction rs with
  | nil => exact fun prev => rfl
  | cons r rs ih =>
    intro prev
    obtain ⟨j,raw⟩ := r
    rw [last,ih,observe_fst]
    by_cases hj : j = k
    · subst hj
      rw [if_pos hk,Function.update_self,ofSource_cons_self,List.getLast?_cons]
      cases (ofSource j rs).getLast? <;> rfl
    · have hne : key k ≠ key j := fun h => hj (hkey h).symm
      rw [ofSource_cons_of_ne hj]
      split
      · rw [Function.update_of_ne hne]
      · rfl

/-- The values of a counter are the changes along its readings, whatever is read in between. -/
theorem ofSource_values (hkey : Function.Injective key) {k : κ} (hk : counter k = true)
    (rs : List (κ × ν)) : ∀ prev : σ → Option ν,
      ofSource k (values key counter d prev rs) = changes d (prev (key k)) (ofSource k rs) := by
  induction rs with
  | nil => exact fun prev => rfl
  | cons r rs ih =>
    intro prev
    obtain ⟨j,raw⟩ := r
    rw [values,ofSource_append,ih,observe_fst]
    by_cases hj : j = k
    · subst hj
      rw [if_pos hk,Function.update_self,ofSource_cons_self,changes,observe,if_pos hk]
      cases prev (key j) with
      | none => rfl
      | some p => simp [ofSource]
    · have hne : key k ≠ key j := fun h => hj (hkey h).symm
      have hhead : ofSource k ((observe key counter d prev j raw).2.map fun v => (j,v)).toList =
          [] := by
        cases (observe key counter d prev j raw).2 <;> simp [ofSource,hj]
      rw [hhead,List.nil_append,ofSource_cons_of_ne hj]
      split
      · rw [Function.update_of_ne hne]
      · rfl

theorem changes_append (d : ν → ν → ν) (raws raws' : List ν) : ∀ p : Option ν,
    changes d p (raws++raws') = changes d p raws++changes d (raws.getLast?.or p) raws' := by
  induction raws with
  | nil => exact fun p => rfl
  | cons raw raws ih =>
    intro p
    rw [List.cons_append,changes,ih,changes,List.append_assoc,List.getLast?_cons]
    cases raws.getLast? <;> rfl

end DeltaStream
