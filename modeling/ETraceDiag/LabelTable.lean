import Mathlib.Data.Fintype.EquivFin
import Mathlib.Data.Fintype.Order
import Mathlib.Order.WellFounded
import ETraceDiag.TimeTable

/-!
# Tables with row labels

The rows of a table carry labels, and a cell is found by column and label. Taking rows away keeps
the labels of the rows that stay; two tables are put side by side by label.
-/

namespace LabelTable

open TimeTable

variable {α β : Type}

/-- The time column, when there is one, is not among the others. -/
structure Table (α : Type) where
  index : List ℕ := []
  time : Option (ℕ → ℤ) := none
  cols : List (String × (ℕ → α)) := []

def Table.columns (t : Table α) : List String := t.cols.map Prod.fst

def Table.isEmpty (t : Table α) : Bool := t.index.isEmpty || (t.cols.isEmpty && t.time.isNone)

/-- The second of a row. -/
def Table.sec (t : Table α) (r : ℕ) : ℤ := (t.time.map fun f => f r).getD 0

/-- The cells of a column in the order of the rows. -/
def Table.values (t : Table α) (f : ℕ → α) : List α := t.index.map f

/-- Rows are labelled by their positions. -/
def ofFrame (default : α) (f : Frame α) : Table α where
  index := List.range f.length
  time := f.time.map fun ts r => ts.getD r 0
  cols := f.cols.map fun c => (c.1,fun r => c.2.getD r default)

/-! ## Increasing lists -/

theorem getElem?_lt_iff [LinearOrder β] {xs : List β} (hxs : xs.Pairwise (· < ·)) {i j : ℕ}
    {a b : β} (ha : xs[i]? = some a) (hb : xs[j]? = some b) : a < b ↔ i < j := by
  obtain ⟨hi,rfl⟩ := List.getElem?_eq_some_iff.mp ha
  obtain ⟨hj,rfl⟩ := List.getElem?_eq_some_iff.mp hb
  have hmono := List.pairwise_iff_getElem.mp hxs
  constructor
  · intro hlt
    by_contra hge
    rcases Nat.lt_or_eq_of_le (Nat.le_of_not_lt hge) with hji | rfl
    · exact lt_asymm hlt (hmono j i hj hi hji)
    · exact lt_irrefl _ hlt
  · exact hmono i j hi hj

theorem getElem?_inj [LinearOrder β] {xs : List β} (hxs : xs.Pairwise (· < ·)) {i j : ℕ} {a : β}
    (hi : xs[i]? = some a) (hj : xs[j]? = some a) : i = j := by
  rcases Nat.lt_trichotomy i j with hlt | heq | hgt
  · exact absurd ((getElem?_lt_iff hxs hi hj).mpr hlt) (lt_irrefl a)
  · exact heq
  · exact absurd ((getElem?_lt_iff hxs hj hi).mpr hgt) (lt_irrefl a)

/-- When at some positions one list has what the other has at one of these positions, both have
the same there: the positions are mapped to themselves in order, and there are finitely many. -/
theorem getElem?_eq_of_closed [LinearOrder β] {xs ys : List β} (hxs : xs.Pairwise (· < ·))
    (hys : ys.Pairwise (· < ·)) {p : ℕ → Prop}
    (h : ∀ r, p r → ∃ q, p q ∧ ∃ a, xs[r]? = some a ∧ ys[q]? = some a) {r : ℕ} (hr : p r) :
    ∃ a, xs[r]? = some a ∧ ys[r]? = some a := by
  choose! q hq hsame using h
  have hlt : ∀ r, p r → r < xs.length := fun r hr => by
    obtain ⟨a,ha,-⟩ := hsame r hr
    exact (List.getElem?_eq_some_iff.mp ha).1
  have hfinite : Finite {r // p r} :=
    Finite.of_injective (fun r : {r // p r} => (⟨r.1,hlt r.1 r.2⟩ : Fin xs.length))
      fun a b hab => Subtype.ext (Fin.mk.inj hab)
  have hmono : StrictMono fun r : {r // p r} => (⟨q r.1,hq r.1 r.2⟩ : {r // p r}) := by
    intro a b hab
    obtain ⟨x,hxa,hya⟩ := hsame a.1 a.2
    obtain ⟨y,hxb,hyb⟩ := hsame b.1 b.2
    exact (getElem?_lt_iff hys hya hyb).mp ((getElem?_lt_iff hxs hxa hxb).mpr hab)
  have hfix : q r = r :=
    Nat.le_antisymm (hmono.apply_le (x:=⟨r,hr⟩)) (hmono.le_apply (x:=⟨r,hr⟩))
  obtain ⟨a,hx,hy⟩ := hsame r hr
  exact ⟨a,hx,hfix ▸ hy⟩

/-! ## Rows -/

/-- `xs[::k]`. -/
def everyNth (k : ℕ) (xs : List β) : List β :=
  (List.range xs.length).filterMap fun i => xs[i*k]?

theorem getElem?_filterMap_range {f : ℕ → Option β}
    (hf : ∀ i j, i ≤ j → (f j).isSome = true → (f i).isSome = true) (n i : ℕ) :
    ((List.range n).filterMap f)[i]? = if i < n then f i else none := by
  induction n generalizing f i with
  | zero => simp
  | succ n ih =>
    rw [List.range_succ_eq_map,List.filterMap_cons,List.filterMap_map]
    cases hzero : f 0 with
    | none =>
      have hnone : ∀ j, f j = none := by
        intro j
        by_contra hj
        have hsome := hf 0 j (Nat.zero_le j) (Option.isSome_iff_ne_none.mpr hj)
        rw [hzero] at hsome
        cases hsome
      simp [hnone]
    | some b =>
      cases i with
      | zero => simp [hzero]
      | succ i =>
        have htail := ih (f:=f∘Nat.succ) (fun j k hjk => hf _ _ (Nat.succ_le_succ hjk)) i
        rw [List.getElem?_cons_succ,htail]
        simp

theorem getElem?_everyNth {k : ℕ} (hk : 0 < k) (xs : List β) (i : ℕ) :
    (everyNth k xs)[i]? = xs[i*k]? := by
  have hlt : ∀ j, (xs[j*k]?).isSome = true ↔ j*k < xs.length := fun j => by simp
  rw [everyNth,getElem?_filterMap_range fun i j hij hj => ?_]
  · split
    · rfl
    · next hi =>
      have hle := Nat.le_mul_of_pos_right i hk
      exact (List.getElem?_eq_none_iff.mpr (by omega)).symm
  · rw [hlt] at hj ⊢
    exact Nat.lt_of_le_of_lt (Nat.mul_le_mul_right k hij) hj

/-- Every `k`-th row of a numbered table, twice. -/
theorem mem_everyNth_twice {k : ℕ} (hk : 0 < k) (n r : ℕ) :
    r ∈ everyNth k (everyNth k (List.range n)) ↔ r < n ∧ k*k ∣ r := by
  have hrow : ∀ i, (everyNth k (everyNth k (List.range n)))[i]? = some r ↔
      i*k*k < n ∧ i*k*k = r := by
    intro i
    rw [getElem?_everyNth hk,getElem?_everyNth hk,List.getElem?_eq_some_iff]
    simp
  rw [List.mem_iff_getElem?]
  simp only [hrow]
  constructor
  · rintro ⟨i,hlt,rfl⟩
    exact ⟨hlt,i,by rw [Nat.mul_assoc,Nat.mul_comm]⟩
  · rintro ⟨hlt,i,rfl⟩
    have heq : i*k*k = k*k*i := by rw [Nat.mul_assoc,Nat.mul_comm]
    exact ⟨i,heq.symm ▸ hlt,heq⟩

def Table.stride (k : ℕ) (t : Table α) : Table α := { t with index := everyNth k t.index }

/-- `df[p(df["time"])]`; without a time column there is nothing to select from. -/
def Table.restrict (p : ℤ → Bool) (t : Table α) : Table α :=
  { t with index := t.index.filter fun r => (t.time.map fun f => p (f r)).getD false }

@[simp] theorem mem_index_restrict {p : ℤ → Bool} {t : Table α} {f : ℕ → ℤ}
    (h : t.time = some f) {r : ℕ} : r ∈ (t.restrict p).index ↔ r ∈ t.index ∧ p (t.sec r) = true := by
  rw [Table.restrict,List.mem_filter,Table.sec,h]
  rfl

/-! ## Columns -/

def Table.dropTime (t : Table α) : Table α := { t with time := none }

/-- A cell is different from the first one. -/
def varies (ne : β → β → Bool) (xs : List β) : Bool :=
  (xs.head?.map fun x => xs.any fun y => ne y x).getD false

/-- The time column goes like any other. -/
def Table.dropConstant (ne : α → α → Bool) (t : Table α) : Table α :=
  if t.isEmpty then t
  else
    { t with
      time := t.time.filter fun f => varies (· != ·) (t.index.map f)
      cols := t.cols.filter fun c => varies ne (t.values c.2) }

@[simp] theorem index_dropConstant (ne : α → α → Bool) (t : Table α) :
    (t.dropConstant ne).index = t.index := by
  unfold Table.dropConstant
  split <;> rfl

/-- Seconds that are not all the same stay. -/
theorem time_dropConstant {ne : α → α → Bool} {t : Table α} {f : ℕ → ℤ} (h : t.time = some f)
    (hvaries : t.index = [] ∨ varies (· != ·) (t.index.map f) = true) :
    (t.dropConstant ne).time = some f := by
  unfold Table.dropConstant
  split
  · exact h
  · next hempty =>
    have hsome := hvaries.resolve_left fun hnil => hempty (by rw [Table.isEmpty,hnil]; rfl)
    dsimp only
    rw [h,Option.filter_some,if_pos hsome]

theorem mem_of_mem_dropConstant {ne : α → α → Bool} {t : Table α} {c : String × (ℕ → α)}
    (h : c ∈ (t.dropConstant ne).cols) : c ∈ t.cols := by
  unfold Table.dropConstant at h
  split at h
  · exact h
  · exact (List.mem_filter.mp h).1

def Table.mapCells (f : String → α → β) (t : Table α) : Table β where
  index := t.index
  time := t.time
  cols := t.cols.map fun c => (c.1,fun r => f c.1 (c.2 r))

theorem mem_mapCells {f : String → α → β} {t : Table α} {c : String × (ℕ → β)} :
    c ∈ (t.mapCells f).cols ↔ ∃ g, (c.1,g) ∈ t.cols ∧ c.2 = fun r => f c.1 (g r) := by
  rw [Table.mapCells,List.mem_map]
  constructor
  · rintro ⟨d,hd,rfl⟩
    exact ⟨d.2,hd,rfl⟩
  · rintro ⟨g,hg,heq⟩
    exact ⟨_,hg,Prod.ext rfl heq.symm⟩

/-- `df[names]`. -/
def Table.select (names : List String) (t : Table α) : Table α where
  index := t.index
  cols := names.filterMap fun name => (t.cols.lookup name).map fun f => (name,f)

theorem mem_of_mem_select {names : List String} {t : Table α} {c : String × (ℕ → α)}
    (h : c ∈ (t.select names).cols) : c.1 ∈ names ∧ c ∈ t.cols := by
  obtain ⟨name,hname,hc⟩ := List.mem_filterMap.mp h
  obtain ⟨f,hf,rfl⟩ := Option.map_eq_some_iff.mp hc
  obtain ⟨l₁,l₂,hl,-⟩ := List.lookup_eq_some_iff.mp hf
  exact ⟨hname,hl ▸ List.mem_append_right _ (List.mem_cons_self ..)⟩

theorem columns_select {names : List String} {t : Table α} (h : ∀ c ∈ names, c ∈ t.columns) :
    (t.select names).columns = names := by
  rw [Table.columns,Table.select]
  induction names with
  | nil => rfl
  | cons name names ih =>
    obtain ⟨c,hc,hname⟩ := List.mem_map.mp (h name (List.mem_cons_self ..))
    have hsome : (t.cols.lookup name).isSome = true :=
      List.lookup_isSome_iff.mpr ⟨c,hc,by simp [hname]⟩
    obtain ⟨f,hf⟩ := Option.isSome_iff_exists.mp hsome
    rw [List.filterMap_cons_some (by rw [hf]; rfl),List.map_cons,
      ih fun c hc => h c (List.mem_cons_of_mem _ hc)]

/-- Two tables with the same columns, each once. -/
structure Sides (α : Type) where
  normal : Table α
  anomal : Table α
  columns_eq : anomal.columns = normal.columns
  nodup : normal.columns.Nodup

def Sides.columns (t : Sides α) : List String := t.normal.columns

/-- The two tables, of some of the columns. -/
def Sides.select (t : Sides α) (names : List String) (hsub : names ⊆ t.columns)
    (hnodup : names.Nodup) : Sides α where
  normal := t.normal.select names
  anomal := t.anomal.select names
  columns_eq := by
    rw [columns_select hsub,columns_select fun c hc => t.columns_eq ▸ hsub hc]
  nodup := by rwa [columns_select hsub]

/-- The columns that both have, in the order of the first. -/
def matchColumns (s t : Table α) : Table α × Table α :=
  let common := s.columns.filter (· ∈ t.columns)
  (s.select common,t.select common)

theorem columns_matchColumns (s t : Table α) :
    (matchColumns s t).1.columns = s.columns.filter (· ∈ t.columns) ∧
      (matchColumns s t).2.columns = s.columns.filter (· ∈ t.columns) :=
  ⟨columns_select fun _ hc => (List.mem_filter.mp hc).1,
    columns_select fun _ hc => of_decide_eq_true (List.mem_filter.mp hc).2⟩

def firstOfEach : List (String × β) → List (String × β)
  | [] => []
  | c::cs => c::(firstOfEach cs).filter fun c' => c'.1 ≠ c.1

theorem firstOfEach_sublist (cs : List (String × β)) : (firstOfEach cs).Sublist cs := by
  induction cs with
  | nil => exact List.Sublist.slnil
  | cons c cs ih => exact List.Sublist.cons_cons _ (List.filter_sublist.trans ih)

/-- `df.loc[:,~df.columns.duplicated()]`. -/
def Table.dropDuplicated (t : Table α) : Table α := { t with cols := firstOfEach t.cols }

/-- Nothing stands where a table has no such row. -/
def Table.cells (t : Table α) (f : ℕ → α) (r : ℕ) : Option α :=
  if r ∈ t.index then some (f r) else none

/-- `pd.concat([s,t],axis=1)` of tables without time columns. -/
def Table.beside (s t : Table α) : Table (Option α) where
  index := s.index++t.index.filter (· ∉ s.index)
  cols := s.cols.map (fun c => (c.1,s.cells c.2))++t.cols.map fun c => (c.1,t.cells c.2)

theorem mem_index_beside {s t : Table α} {r : ℕ} :
    r ∈ (s.beside t).index ↔ r ∈ s.index ∨ r ∈ t.index := by
  rw [Table.beside,List.mem_append,List.mem_filter,decide_eq_true_iff]
  tauto

/-- A column that the first table does not have is one of the second. -/
theorem mem_beside {s t : Table α} {c : String × (ℕ → Option α)} (h : c ∈ (s.beside t).cols)
    (hc : c.1 ∉ s.columns) : ∃ f, (c.1,f) ∈ t.cols ∧ c.2 = t.cells f := by
  rcases List.mem_append.mp h with hs | ht
  · obtain ⟨d,hd,rfl⟩ := List.mem_map.mp hs
    exact absurd (List.mem_map_of_mem hd) hc
  · obtain ⟨d,hd,rfl⟩ := List.mem_map.mp ht
    exact ⟨d.2,hd,rfl⟩

end LabelTable
