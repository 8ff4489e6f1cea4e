import Mathlib.Logic.Function.Basic
import Mathlib.Data.List.Basic

/-!
# A ring whose slots are stored field by field

Any number of writers number their items 0,1,2,... The writer of item `i` stores the odd stamp
`2*i+1` into its slot, then the fields one after the other, then the even stamp `2*i`. The
writers may be interleaved in any way.
-/

namespace SeqLock

variable {κ : Type*} {β : κ → Type*}

structure Slot (β : κ → Type*) where
  seq : ℕ
  val : ∀ f, β f

/-- What a writer has done: nothing yet, or all stores but those of the fields in `rest` and of
the even stamp. -/
inductive Stage (κ : Type*)
  | reserved
  | storing (rest : List κ)

/-- The slots, the items numbered so far and the writers at work. -/
structure Ring (β : κ → Type*) where
  slots : ℕ → Slot β
  items : List (∀ f, β f)
  stage : ℕ → Option (Stage κ)

def Ring.head (r : Ring β) : ℕ := r.items.length

/-- All slots hold the same value under stamp 0; nothing has been numbered. -/
def Ring.init (v : ∀ f, β f) : Ring β := ⟨fun _ => ⟨0,v⟩,[],fun _ => none⟩

def Ring.reserve (v : ∀ f, β f) (r : Ring β) : Ring β :=
  { r with
    items := r.items++[v]
    stage := Function.update r.stage r.head (some .reserved) }

/-- The next store of the writer of item `i`. -/
def Ring.store [DecidableEq κ] (fields : List κ) (ix : ℕ → ℕ) (i : ℕ) (r : Ring β) : Ring β :=
  let slot := r.slots (ix i)
  match r.stage i,r.items[i]? with
  | some .reserved,some _ =>
    { r with
      slots := Function.update r.slots (ix i) ⟨2*i+1,slot.val⟩
      stage := Function.update r.stage i (some (.storing fields)) }
  | some (.storing (f::rest)),some v =>
    { r with
      slots := Function.update r.slots (ix i) ⟨slot.seq,Function.update slot.val f (v f)⟩
      stage := Function.update r.stage i (some (.storing rest)) }
  | some (.storing []),some _ =>
    { r with
      slots := Function.update r.slots (ix i) ⟨2*i,slot.val⟩
      stage := Function.update r.stage i none }
  | _,_ => r

/-- The writer of item `i` has made its last store. -/
def Ring.Committed (r : Ring β) (i : ℕ) (v : ∀ f, β f) : Prop :=
  r.items[i]? = some v ∧ r.stage i = none

/-- Under an even stamp there is the initial value, with none of the slot's items begun, or the
committed item with that stamp. -/
def Ring.Sound (v₀ : ∀ f, β f) (ix : ℕ → ℕ) (r : Ring β) : Prop :=
  ∀ n, (r.slots n).seq % 2 = 0 →
    (r.slots n = ⟨0,v₀⟩ ∧ ∀ i, i < r.head → ix i = n → r.stage i = some .reserved) ∨
      ∃ i v, ix i = n ∧ r.Committed i v ∧ r.slots n = ⟨2*i,v⟩

/-- The next store of item `i` is not mixed up with another writer's: no field is stored under
an even stamp, and the even stamp only over the item's own fields. -/
def Ring.Exclusive (ix : ℕ → ℕ) (i : ℕ) (r : Ring β) : Prop :=
  match r.stage i,r.items[i]? with
  | some (.storing (_::_)),some _ => (r.slots (ix i)).seq % 2 = 1
  | some (.storing []),some v => (r.slots (ix i)).val = v
  | _,_ => True

/-- The store changes no field of `rest` in the slot. -/
def Ring.Spares (ix : ℕ → ℕ) (i : ℕ) (rest : List κ) (r : Ring β) : Prop :=
  match r.stage i,r.items[i]? with
  | some (.storing (f::_)),some v => f ∈ rest → (r.slots (ix i)).val f = v f
  | _,_ => True

variable {ix : ℕ → ℕ} {r : Ring β} {i j : ℕ} {v : ∀ f, β f}

theorem lt_of_item (h : r.items[i]? = some v) : i < r.head :=
  (List.getElem?_eq_some_iff.mp h).1

theorem Ring.Committed.reserve (h : r.Committed i v) (w : ∀ f, β f) :
    (r.reserve w).Committed i v := by
  have hlt := lt_of_item h.1
  refine ⟨?_,?_⟩
  · rw [Ring.reserve,List.getElem?_append_left hlt]
    exact h.1
  · exact (Function.update_of_ne (Nat.ne_of_lt hlt) _ _).trans h.2

theorem sound_init (v₀ : ∀ f, β f) (ix : ℕ → ℕ) : (Ring.init v₀).Sound v₀ ix :=
  fun _ _ => Or.inl ⟨rfl,fun _ hi => absurd hi (Nat.not_lt_zero _)⟩

theorem Ring.Sound.reserve {v₀ : ∀ f, β f} (h : r.Sound v₀ ix) (w : ∀ f, β f) :
    (r.reserve w).Sound v₀ ix := by
  intro n hn
  rcases h n hn with ⟨hslot,hfresh⟩ | ⟨i,v,hi,hcommitted,hslot⟩
  · refine Or.inl ⟨hslot,fun i hi hin => ?_⟩
    by_cases hhead : i = r.head
    · rw [hhead]
      exact Function.update_self _ _ _
    · have hlt : i < r.head+1 := by simpa [Ring.reserve,Ring.head] using hi
      exact (Function.update_of_ne hhead _ _).trans (hfresh i (by omega) hin)
  · exact Or.inr ⟨i,v,hi,hcommitted.reserve w,hslot⟩

/-- What a reader finds under the even stamp of item `i` is the item. -/
theorem Ring.Sound.committed {v₀ : ∀ f, β f} (h : r.Sound v₀ ix)
    (hseq : (r.slots (ix i)).seq = 2*i) (hzero : i = 0 → ∃ v, r.Committed 0 v) :
    ∃ v, r.Committed i v ∧ (r.slots (ix i)).val = v := by
  rcases h (ix i) (by omega) with ⟨hslot,hfresh⟩ | ⟨j,v,_,hcommitted,hslot⟩
  · rw [hslot] at hseq
    have hstamp : 0 = 2*i := hseq
    have hi : i = 0 := by omega
    obtain ⟨v,hv,hnone⟩ := hzero hi
    subst hi
    rw [hfresh 0 (lt_of_item hv) rfl] at hnone
    cases hnone
  · rw [hslot] at hseq ⊢
    have hstamp : 2*j = 2*i := hseq
    have hji : j = i := by omega
    exact ⟨v,hji ▸ hcommitted,rfl⟩

/-! ### The stores of a writer -/

variable [DecidableEq κ] {fields : List κ}

/-- A store does nothing, or it is one of the three kinds. -/
theorem store_cases (fields : List κ) (ix : ℕ → ℕ) (i : ℕ) (r : Ring β) :
    r.store fields ix i = r ∨
    (r.stage i = some .reserved ∧ r.store fields ix i = { r with
      slots := Function.update r.slots (ix i) ⟨2*i+1,(r.slots (ix i)).val⟩
      stage := Function.update r.stage i (some (.storing fields)) }) ∨
    (∃ f rest v, r.stage i = some (.storing (f::rest)) ∧ r.items[i]? = some v ∧
      r.store fields ix i = { r with
        slots := Function.update r.slots (ix i)
          ⟨(r.slots (ix i)).seq,Function.update (r.slots (ix i)).val f (v f)⟩
        stage := Function.update r.stage i (some (.storing rest)) }) ∨
    ∃ v, r.stage i = some (.storing []) ∧ r.items[i]? = some v ∧ r.store fields ix i = { r with
      slots := Function.update r.slots (ix i) ⟨2*i,(r.slots (ix i)).val⟩
      stage := Function.update r.stage i none } := by
  cases hv : r.items[i]? with
  | none => exact Or.inl (by simp [Ring.store,hv])
  | some v =>
    cases hs : r.stage i with
    | none => exact Or.inl (by simp [Ring.store,hs])
    | some stage =>
      cases stage with
      | reserved => exact Or.inr (Or.inl ⟨rfl,by simp [Ring.store,hs,hv]⟩)
      | storing rest =>
        cases rest with
        | nil => exact Or.inr (Or.inr (Or.inr ⟨v,rfl,rfl,by simp [Ring.store,hs,hv]⟩))
        | cons f rest =>
          exact Or.inr (Or.inr (Or.inl ⟨f,rest,v,rfl,rfl,by simp [Ring.store,hs,hv]⟩))

theorem items_store : (r.store fields ix i).items = r.items := by
  rcases store_cases fields ix i r with h | ⟨_,h⟩ | ⟨_,_,_,_,_,h⟩ | ⟨_,_,_,h⟩ <;> rw [h]

theorem stage_store_of_ne (h : j ≠ i) : (r.store fields ix i).stage j = r.stage j := by
  rcases store_cases fields ix i r with hr | ⟨_,hr⟩ | ⟨_,_,_,_,_,hr⟩ | ⟨_,_,_,hr⟩
  · rw [hr]
  all_goals
    rw [hr]
    exact Function.update_of_ne h _ _

theorem slots_store_of_ne {n : ℕ} (h : n ≠ ix i) :
    (r.store fields ix i).slots n = r.slots n := by
  rcases store_cases fields ix i r with hr | ⟨_,hr⟩ | ⟨_,_,_,_,_,hr⟩ | ⟨_,_,_,hr⟩
  · rw [hr]
  all_goals
    rw [hr]
    exact Function.update_of_ne h _ _

theorem store_of_committed (h : r.stage i = none) : r.store fields ix i = r := by
  simp [Ring.store,h]

theorem Ring.Committed.store (h : r.Committed j v) (i : ℕ) :
    (r.store fields ix i).Committed j v := by
  by_cases hij : j = i
  · subst hij
    rw [store_of_committed h.2]
    exact h
  · exact ⟨by rw [items_store]; exact h.1,(stage_store_of_ne hij).trans h.2⟩

/-- A store that spares the fields of `rest` leaves them as they are. -/
theorem val_store {rest : List κ} (h : r.Spares ix i rest) {f : κ} (hf : f ∈ rest) (n : ℕ) :
    ((r.store fields ix i).slots n).val f = (r.slots n).val f := by
  by_cases hn : n = ix i
  · subst hn
    rcases store_cases fields ix i r with hr | ⟨_,hr⟩ | ⟨g,left,v,hs,hv,hr⟩ | ⟨_,_,_,hr⟩
    · rw [hr]
    · simp only [hr,Function.update_self]
    · simp only [hr,Function.update_self]
      by_cases hfg : f = g
      · subst hfg
        simp only [Ring.Spares,hs,hv] at h
        rw [Function.update_self]
        exact (h hf).symm
      · rw [Function.update_of_ne hfg]
    · simp only [hr,Function.update_self]
  · rw [slots_store_of_ne hn]

theorem Ring.Sound.store {v₀ : ∀ f, β f} (h : r.Sound v₀ ix) (hex : r.Exclusive ix i) :
    (r.store fields ix i).Sound v₀ ix := by
  intro n hn
  by_cases hni : n = ix i
  · subst hni
    rcases store_cases fields ix i r with hr | ⟨_,hr⟩ | ⟨f,rest,v,hs,hv,hr⟩ | ⟨v,hs,hv,hr⟩
    · rw [hr] at hn ⊢
      exact h _ hn
    · simp only [hr,Function.update_self] at hn
      omega
    · simp only [hr,Function.update_self] at hn
      simp only [Ring.Exclusive,hs,hv] at hex
      omega
    · simp only [Ring.Exclusive,hs,hv] at hex
      refine Or.inr ⟨i,v,rfl,⟨by rw [items_store]; exact hv,?_⟩,?_⟩
      · rw [hr]
        exact Function.update_self _ _ _
      · rw [hr,← hex]
        exact Function.update_self _ _ _
  · rw [slots_store_of_ne hni] at hn ⊢
    rcases h n hn with ⟨hslot,hfresh⟩ | ⟨j,v,hj,hcommitted,hslot⟩
    · refine Or.inl ⟨hslot,fun j hj hjn => ?_⟩
      have hne : j ≠ i := fun heq => hni (by rw [← hjn,heq])
      rw [stage_store_of_ne hne]
      rw [Ring.head,items_store] at hj
      exact hfresh j hj hjn
    · exact Or.inr ⟨j,v,hj,hcommitted.store i,hslot⟩

end SeqLock
