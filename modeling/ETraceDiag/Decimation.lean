import ETraceDiag.Dictionaries
import ETraceDiag.TimeTable
import Mathlib.Data.Rat.Floor
import Mathlib.Data.Set.Image
import Mathlib.Order.Bounds.Basic
import Mathlib.Order.Interval.Set.UnorderedInterval
import Mathlib.Tactic.Linarith

/-!
# Decimation of a series

`_drawSeries` of `chart.js`: the finite samples in the view are put into buckets, one for each
column of pixels, and of a bucket its lowest, highest or last sample is drawn. A path is the list
of its vertices.
-/

namespace ETraceDiag
namespace Decimation

open TimeTable

inductive Kind
  | line | area | step

inductive Scale
  | left | right

/-- What is not finite is `none`. -/
structure Series where
  kind : Kind
  scale : Scale
  x : List ℚ
  y : List (Option ℚ)

/-- The arguments of `_drawSeries` beside the series, with the padding of `_geom`. -/
structure Plot where
  padL : ℤ
  padT : ℚ
  w : ℤ
  h : ℚ
  lo : ℚ
  hi : ℚ
  px : ℚ → ℚ
  yPix : ℚ → Scale → ℚ

structure Bucket where
  mn : ℚ
  mx : ℚ
  n : ℕ
  last : ℚ × ℚ

structure Vertex where
  x : ℚ
  y : ℚ
deriving DecidableEq

/-- The paths: the stroke, the outline that is filled below an area, and the dot of a single
column. -/
structure Drawing where
  stroke : List Vertex := []
  fill : List Vertex := []
  dot : Option Vertex := none

/-! ## The code -/

def Plot.column (p : Plot) (x : ℚ) : ℤ := max p.padL (min (p.padL+p.w-1) ⌊p.px x⌋)

/-- The samples that are not skipped. -/
def shown (p : Plot) (s : Series) : List (ℚ × ℚ) :=
  (s.x.zip s.y).filterMap fun xy =>
    if xy.1 < p.lo ∨ p.hi < xy.1 then none else xy.2.map fun y => (xy.1,y)

def Bucket.add (q : ℚ × ℚ) (b : Bucket) : Bucket where
  mn := if q.2 < b.mn then q.2 else b.mn
  mx := if b.mx < q.2 then q.2 else b.mx
  n := b.n+1
  last := q

/-- What the first sample of a column is added to. -/
def Bucket.empty (q : ℚ × ℚ) : Bucket := ⟨q.2,q.2,0,q⟩

def buckets (p : Plot) (s : Series) : List (ℤ × Bucket) :=
  (shown p s).foldl (fun d q => upsert (p.column q.1) (Bucket.empty q) (Bucket.add q) d) []

/-- The buckets from left to right. -/
def columns (p : Plot) (s : Series) : List (ℤ × Bucket) :=
  (buckets p s).mergeSort fun a b => a.1 ≤ b.1

/-- The vertices of a column of a line. -/
def lineColumn (height : ℚ → ℚ) (b : ℤ) (e : Bucket) : List Vertex :=
  if 2 < e.n then [⟨b+1/2,height e.mn⟩,⟨b+1/2,height e.mx⟩]
  else [⟨b+1/2,height e.last.2⟩]

def lineTo (height : ℚ → ℚ) (bx : List (ℤ × Bucket)) : List Vertex :=
  bx.flatMap fun c => lineColumn height c.1 c.2

/-- `e.n > 2 ? e.mn : e.last[1]`. -/
def Bucket.low (e : Bucket) : ℚ := if 2 < e.n then e.mn else e.last.2

/-- The vertices of a column of steps, after a column at `prevY`. -/
def stepColumn (prevY : Option ℚ) (b : ℤ) (yy : ℚ) : List Vertex :=
  (prevY.map fun y => ⟨b+1/2,y⟩).toList++[⟨b+1/2,yy⟩]

def stepTo (height : ℚ → ℚ) : Option ℚ → List (ℤ × Bucket) → List Vertex
  | _,[] => []
  | prevY,(b,e)::bx =>
    stepColumn prevY b (height e.low)++stepTo height (some (height e.low)) bx

def drawSeries (p : Plot) (s : Series) : Drawing :=
  let height := fun v => p.yPix v s.scale
  match columns p s with
  | [] => {}
  | (b,e)::bx =>
    match s.kind with
    | .area =>
      let last := ((b,e)::bx).getLast (List.cons_ne_nil _ _)
      { stroke := ⟨b,height e.mn⟩::lineTo height ((b,e)::bx)
        fill := ⟨b,height e.mn⟩::(((b,e)::bx).map fun c => ⟨c.1+1/2,height c.2.low⟩)++
          [⟨last.1+1/2,p.padT+p.h⟩,⟨b,p.padT+p.h⟩] }
    | .step => { stroke := stepTo height none ((b,e)::bx) }
    | .line =>
      { stroke := lineTo height ((b,e)::bx)
        dot := if bx = [] then some ⟨b+1/2,height e.last.2⟩ else none }

/-! ## The samples of a column -/

/-- The finite samples of a column in the view, as they come. -/
def values (p : Plot) (s : Series) (b : ℤ) : List ℚ :=
  ((shown p s).filter fun q => p.column q.1 = b).map Prod.snd

/-- What a bucket says of samples. -/
structure Bucket.Of (ys : List ℚ) (e : Bucket) : Prop where
  least : IsLeast {y | y ∈ ys} e.mn
  greatest : IsGreatest {y | y ∈ ys} e.mx
  count : e.n = ys.length
  last : ys.getLast? = some e.last.2

theorem of_add_empty (q : ℚ × ℚ) : Bucket.Of [q.2] (Bucket.add q (Bucket.empty q)) := by
  constructor <;> simp [Bucket.add,Bucket.empty,IsLeast,IsGreatest,lowerBounds,upperBounds]

theorem Bucket.Of.add {ys : List ℚ} {e : Bucket} (h : e.Of ys) (q : ℚ × ℚ) :
    (e.add q).Of (ys++[q.2]) := by
  obtain ⟨⟨hmn,hlow⟩,⟨hmx,hhigh⟩,hcount,-⟩ := h
  refine ⟨⟨?_,?_⟩,⟨?_,?_⟩,?_,?_⟩
  · rw [Bucket.add]
    dsimp only
    split
    · exact List.mem_append_right _ List.mem_cons_self
    · exact List.mem_append_left _ hmn
  · intro y hy
    rw [Bucket.add]
    rcases List.mem_append.mp hy with hy | hy
    · have hle := hlow hy
      dsimp only
      split <;> linarith
    · obtain rfl := List.mem_singleton.mp hy
      dsimp only
      split <;> linarith
  · rw [Bucket.add]
    dsimp only
    split
    · exact List.mem_append_right _ List.mem_cons_self
    · exact List.mem_append_left _ hmx
  · intro y hy
    rw [Bucket.add]
    rcases List.mem_append.mp hy with hy | hy
    · have hle := hhigh hy
      dsimp only
      split <;> linarith
    · obtain rfl := List.mem_singleton.mp hy
      dsimp only
      split <;> linarith
  · rw [List.length_append,← hcount]
    rfl
  · rw [List.getLast?_concat]
    rfl

theorem bucket_of (qs : List (ℚ × ℚ)) :
    match qs.foldl (fun v q => some (Bucket.add q (v.getD (Bucket.empty q)))) none with
    | none => qs = []
    | some e => e.Of (qs.map Prod.snd) := by
  induction qs using List.reverseRecOn with
  | nil => rfl
  | append_singleton qs q ih =>
    rw [List.foldl_append,List.map_append]
    split at ih
    · next heq =>
      subst ih
      exact of_add_empty q
    · next e heq =>
      rw [heq]
      exact ih.add q

theorem lookup_buckets (p : Plot) (s : Series) (b : ℤ) :
    match (buckets p s).lookup b with
    | none => values p s b = []
    | some e => e.Of (values p s b) := by
  have hof := bucket_of ((shown p s).filter fun q => p.column q.1 = b)
  rw [buckets,lookup_foldl_upsert_init (fun q : ℚ × ℚ => p.column q.1) Bucket.empty Bucket.add,
    List.lookup_nil,values]
  split at hof
  · rw [hof]
    rfl
  · exact hof

theorem nodup_buckets (p : Plot) (s : Series) : ((buckets p s).map Prod.fst).Nodup :=
  nodup_keys_foldl_upsert (fun q : ℚ × ℚ => p.column q.1) Bucket.empty Bucket.add _ List.nodup_nil

theorem of_mem_columns {p : Plot} {s : Series} {b : ℤ} {e : Bucket} (h : (b,e) ∈ columns p s) :
    e.Of (values p s b) := by
  have hof := lookup_buckets p s b
  rwa [lookup_of_mem (nodup_buckets p s) (List.mem_mergeSort.mp h)] at hof

theorem exists_mem_columns {p : Plot} {s : Series} {b : ℤ} (h : values p s b ≠ []) :
    ∃ e, (b,e) ∈ columns p s := by
  have hof := lookup_buckets p s b
  split at hof
  · exact absurd hof h
  · next e heq => exact ⟨e,List.mem_mergeSort.mpr (Dictionaries.mem_of_lookup heq)⟩

theorem values_ne_nil {p : Plot} {s : Series} {b : ℤ} {e : Bucket} (h : (b,e) ∈ columns p s) :
    values p s b ≠ [] := fun hnil => by
  have hlast := (of_mem_columns h).last
  rw [hnil] at hlast
  cases hlast

theorem columns_pairwise (p : Plot) (s : Series) :
    (columns p s).Pairwise fun a b => a.1 < b.1 := by
  have hle : (columns p s).Pairwise fun a b => decide (a.1 ≤ b.1) = true := by
    refine List.pairwise_mergeSort (fun a b c hab hbc => ?_) (fun a b => ?_) _
    · simp only [decide_eq_true_eq] at hab hbc ⊢
      exact le_trans hab hbc
    · simpa using le_total a.1 b.1
  have hnodup : ((columns p s).map Prod.fst).Nodup :=
    ((List.mergeSort_perm _ _).map Prod.fst).nodup_iff.mpr (nodup_buckets p s)
  have hne := List.pairwise_map.mp hnodup
  exact (hle.and hne).imp fun h => lt_of_le_of_ne (of_decide_eq_true h.1) h.2

/-! ## Paths -/

/-- The column of pixels that a vertex is in. -/
def Vertex.column (v : Vertex) : ℤ := ⌊v.x⌋

@[simp] theorem column_middle (b : ℤ) (y : ℚ) : Vertex.column ⟨b+1/2,y⟩ = b := by
  have hhalf : ⌊(1/2 : ℚ)⌋ = 0 := Int.floor_eq_zero_iff.mpr ⟨by norm_num,by norm_num⟩
  rw [Vertex.column,Int.floor_intCast_add,hhalf,add_zero]

@[simp] theorem column_edge (b : ℤ) (y : ℚ) : Vertex.column ⟨b,y⟩ = b := Int.floor_intCast b

/-- A path goes through a height in a column: at a vertex of the column, or between two that follow
each other there. -/
def Passes : List Vertex → ℤ → ℚ → Prop
  | [],_,_ => False
  | v::vs,b,y => v.column = b ∧ v.y = y ∨
    (∃ v' ∈ vs.head?, v.column = b ∧ v'.column = b ∧ y ∈ Set.uIcc v.y v'.y) ∨ Passes vs b y

theorem not_passes {vs : List Vertex} {b : ℤ} (h : ∀ v ∈ vs, v.column ≠ b) (y : ℚ) :
    ¬ Passes vs b y := by
  induction vs with
  | nil => exact id
  | cons v vs ih =>
    obtain ⟨hv,hvs⟩ := List.forall_mem_cons.mp h
    rintro (⟨hcol,-⟩ | ⟨_,-,hcol,-⟩ | hlater)
    · exact hv hcol
    · exact hv hcol
    · exact ih hvs hlater

/-- Between vertices of different columns there is nothing that counts. -/
theorem passes_append {vs vs' : List Vertex} (h : ∀ v ∈ vs, ∀ v' ∈ vs', v.column ≠ v'.column)
    (b : ℤ) (y : ℚ) : Passes (vs++vs') b y ↔ Passes vs b y ∨ Passes vs' b y := by
  induction vs with
  | nil => simp [Passes]
  | cons v vs ih =>
    obtain ⟨hv,hvs⟩ := List.forall_mem_cons.mp h
    rw [List.cons_append,Passes,Passes,ih hvs]
    cases vs with
    | cons w vs => simp only [List.cons_append,List.head?_cons,or_assoc]
    | nil =>
      have hcross : ¬ ∃ v' ∈ vs'.head?, v.column = b ∧ v'.column = b ∧ y ∈ Set.uIcc v.y v'.y := by
        rintro ⟨v',hv',hcol,hcol',-⟩
        exact hv v' (List.mem_of_mem_head? hv') (hcol.trans hcol'.symm)
      rw [List.nil_append,or_iff_right hcross]
      simp [Passes]

theorem passes_single (v : Vertex) (b : ℤ) (y : ℚ) :
    Passes [v] b y ↔ v.column = b ∧ v.y = y := by simp [Passes]

/-- From one vertex up or down to another. -/
theorem passes_pair {v v' : Vertex} {b : ℤ} (hv : v.column = b) (hv' : v'.column = b) (y : ℚ) :
    Passes [v,v'] b y ↔ y ∈ Set.uIcc v.y v'.y := by
  have hends : v.y = y ∨ v'.y = y → y ∈ Set.uIcc v.y v'.y := by
    rintro (rfl | rfl)
    · exact Set.left_mem_uIcc
    · exact Set.right_mem_uIcc
  simp only [Passes,hv,hv',true_and,List.head?_cons,List.head?_nil,Option.mem_some_iff,
    exists_eq_left',Option.not_mem_none,false_and,exists_false,or_false]
  tauto

/-! ## What is drawn of a column -/

/-- The lowest or the highest of the samples. -/
def Extreme (ys : List ℚ) (m : ℚ) : Prop := IsLeast {y | y ∈ ys} m ∨ IsGreatest {y | y ∈ ys} m

theorem Extreme.mem {ys : List ℚ} {m : ℚ} (h : Extreme ys m) : m ∈ ys := h.elim And.left And.left

theorem Bucket.Of.extreme_iff {ys : List ℚ} {e : Bucket} (h : e.Of ys) (m : ℚ) :
    Extreme ys m ↔ m = e.mn ∨ m = e.mx := by
  refine or_congr ⟨fun hm => hm.unique h.least,?_⟩ ⟨fun hm => hm.unique h.greatest,?_⟩
  · rintro rfl
    exact h.least
  · rintro rfl
    exact h.greatest

/-- Of two samples each is an extreme. -/
theorem extreme_pair (y y' : ℚ) : Extreme [y,y'] y ∧ Extreme [y,y'] y' := by
  simp only [Extreme,IsLeast,IsGreatest,lowerBounds,upperBounds]
  rcases le_total y y' with h | h <;> simp [h]

/-- Two samples are at one height. -/
def Level (height : ℚ → ℚ) (ys : List ℚ) : Prop := ∀ y y', ys = [y,y'] → height y = height y'

section Columns

variable {height : ℚ → ℚ} {b : ℤ} {e : Bucket} {ys : List ℚ} {bx : List (ℤ × Bucket)}

theorem lineColumn_column {v : Vertex} (h : v ∈ lineColumn height b e) : v.column = b := by
  unfold lineColumn at h
  split at h
  · rcases List.mem_pair.mp h with rfl | rfl
    · exact column_middle ..
    · exact column_middle ..
  · obtain rfl := List.mem_singleton.mp h
    exact column_middle ..

theorem passes_lineColumn (y : ℚ) : Passes (lineColumn height b e) b y ↔
    if 2 < e.n then y ∈ Set.uIcc (height e.mn) (height e.mx) else height e.last.2 = y := by
  unfold lineColumn
  split
  · exact passes_pair (column_middle ..) (column_middle ..) y
  · rw [passes_single,column_middle]
    exact and_iff_right rfl

/-- With fewer than three samples only the last is drawn. -/
theorem lineColumn_keeps_iff (h : e.Of ys) :
    (∀ m, Extreme ys m → Passes (lineColumn height b e) b (height m)) ↔ Level height ys := by
  simp only [passes_lineColumn]
  constructor
  · rintro hall y y' rfl
    have hfew : ¬ 2 < e.n := by
      rw [h.count]
      exact lt_irrefl 2
    have hlast : e.last.2 = y' := (Option.some.inj h.last).symm
    have hy := hall y (extreme_pair y y').1
    rw [if_neg hfew,hlast] at hy
    exact hy.symm
  · intro hlevel m hm
    split
    · rcases (h.extreme_iff m).mp hm with rfl | rfl
      · exact Set.left_mem_uIcc
      · exact Set.right_mem_uIcc
    · next hfew =>
      rw [h.count] at hfew
      have hlast := h.last
      match ys,hm.mem,hlast,hlevel,hfew with
      | [y],hmem,hlast,_,_ =>
        have hy : y = e.last.2 := Option.some.inj hlast
        rw [List.mem_singleton.mp hmem,hy]
      | [y,y'],hmem,hlast,hlevel,_ =>
        have hy' : y' = e.last.2 := Option.some.inj hlast
        rw [← hy']
        rcases List.mem_pair.mp hmem with rfl | rfl
        · exact (hlevel m y' rfl).symm
        · rfl
      | _::_::_::ys,_,_,_,hfew => exact absurd (by simp) hfew

theorem lineTo_column {v : Vertex} (h : v ∈ lineTo height bx) : ∃ c ∈ bx, v.column = c.1 := by
  obtain ⟨c,hc,hv⟩ := List.mem_flatMap.mp h
  exact ⟨c,hc,lineColumn_column hv⟩

theorem passes_lineTo (h : bx.Pairwise fun a b => a.1 < b.1) (y : ℚ) :
    Passes (lineTo height bx) b y ↔ ∃ e, (b,e) ∈ bx ∧ Passes (lineColumn height b e) b y := by
  induction bx with
  | nil => simp [lineTo,Passes]
  | cons c bx ih =>
    obtain ⟨c,e⟩ := c
    obtain ⟨hlt,hbx⟩ := List.pairwise_cons.mp h
    have happart : ∀ v ∈ lineColumn height c e, ∀ v' ∈ lineTo height bx,
        v.column ≠ v'.column := by
      intro v hv v' hv' heq
      obtain ⟨c',hc',hcol⟩ := lineTo_column hv'
      rw [lineColumn_column hv,hcol] at heq
      exact (hlt c' hc').ne heq
    have hcons : lineTo height ((c,e)::bx) = lineColumn height c e++lineTo height bx := rfl
    have hfirst : Passes (lineColumn height c e) b y ↔
        b = c ∧ Passes (lineColumn height b e) b y := by
      constructor
      · intro hpass
        by_contra hne
        refine not_passes (fun v hv hcol => ?_) y hpass
        obtain rfl : b = c := (lineColumn_column hv ▸ hcol).symm
        exact hne ⟨rfl,hpass⟩
      · rintro ⟨rfl,hpass⟩
        exact hpass
    rw [hcons,passes_append happart,ih hbx,hfirst]
    simp only [List.mem_cons,Prod.mk.injEq]
    constructor
    · rintro (⟨hb,hpass⟩ | ⟨e',he',hpass⟩)
      · exact ⟨e,.inl ⟨hb,rfl⟩,hpass⟩
      · exact ⟨e',.inr he',hpass⟩
    · rintro ⟨e',⟨hb,rfl⟩ | he',hpass⟩
      · exact .inl ⟨hb,hpass⟩
      · exact .inr ⟨e',he',hpass⟩

theorem head?_lineTo : (lineTo height ((b,e)::bx)).head? = some ⟨b+1/2,height e.low⟩ := by
  rw [lineTo,List.flatMap_cons,lineColumn,Bucket.low]
  split <;> rfl

/-- The outline of an area begins at the lowest sample of its first column. -/
theorem passes_area (c : ℤ) (y : ℚ) :
    Passes (⟨b,height e.mn⟩::lineTo height ((b,e)::bx)) c y ↔
      c = b ∧ y ∈ Set.uIcc (height e.mn) (height e.low) ∨
        Passes (lineTo height ((b,e)::bx)) c y := by
  have hstart : height e.mn = y → y ∈ Set.uIcc (height e.mn) (height e.low) := by
    rintro rfl
    exact Set.left_mem_uIcc
  rw [Passes,head?_lineTo]
  simp only [Option.mem_some_iff,exists_eq_left',column_middle,column_edge]
  rw [eq_comm (a:=c) (b:=b)]
  tauto

/-- In its first column an area also goes from the lowest sample to the one that is drawn. -/
theorem areaColumn_keeps_iff (h : e.Of ys) :
    (∀ m, Extreme ys m → height m ∈ Set.uIcc (height e.mn) (height e.low) ∨
      Passes (lineColumn height b e) b (height m)) ↔
        ∀ y y', ys = [y,y'] → y ≤ y' ∨ height y = height y' := by
  have hpair : ∀ y y', ys = [y,y'] → e.low = y' ∧ ∀ z, Passes (lineColumn height b e) b z ↔
      height y' = z := by
    rintro y y' rfl
    have hfew : ¬ 2 < e.n := by
      rw [h.count]
      exact lt_irrefl 2
    have hlast : e.last.2 = y' := (Option.some.inj h.last).symm
    refine ⟨by rw [Bucket.low,if_neg hfew,hlast],fun z => ?_⟩
    rw [passes_lineColumn,if_neg hfew,hlast]
  constructor
  · intro hall y y' hys
    obtain ⟨hlow,hpass⟩ := hpair y y' hys
    by_contra! hne
    subst hys
    have hmn : e.mn = y' := h.least.unique (by
      refine ⟨by simp,?_⟩
      rintro z (_ | ⟨_,_ | ⟨_,_ | _⟩⟩)
      · exact hne.1.le
      · exact le_rfl)
    rcases hall y (extreme_pair y y').1 with hin | hin
    · rw [hmn,hlow,Set.uIcc_self] at hin
      exact hne.2 hin
    · exact hne.2 ((hpass _).mp hin).symm
  · intro hpairs m hm
    by_cases hlevel : Level height ys
    · exact .inr ((lineColumn_keeps_iff h).mpr hlevel m hm)
    · simp only [Level,not_forall] at hlevel
      obtain ⟨y,y',rfl,hne⟩ := hlevel
      obtain ⟨hlow,-⟩ := hpair y y' rfl
      have hle := (hpairs y y' rfl).resolve_right hne
      have hmn : e.mn = y := h.least.unique (by
        refine ⟨by simp,?_⟩
        rintro z (_ | ⟨_,_ | ⟨_,_ | _⟩⟩)
        · exact le_rfl
        · exact hle)
      rw [hmn,hlow]
      rcases List.mem_pair.mp hm.mem with rfl | rfl
      · exact .inl Set.left_mem_uIcc
      · exact .inl Set.right_mem_uIcc

theorem stepColumn_column {prevY : Option ℚ} {yy : ℚ} {v : Vertex}
    (h : v ∈ stepColumn prevY b yy) : v.column = b := by
  rcases List.mem_append.mp h with h | h
  · obtain ⟨y,-,rfl⟩ := Option.map_eq_some_iff.mp (Option.mem_toList.mp h)
    exact column_middle ..
  · obtain rfl := List.mem_singleton.mp h
    exact column_middle ..

theorem passes_stepColumn (prevY : Option ℚ) (yy : ℚ) (c : ℤ) (y : ℚ) :
    Passes (stepColumn prevY b yy) c y ↔ b = c ∧ y ∈ Set.uIcc (prevY.getD yy) yy := by
  by_cases hb : b = c
  · subst hb
    rw [and_iff_right rfl]
    cases prevY with
    | none =>
      rw [Option.getD_none,Set.uIcc_self,Set.mem_singleton_iff,eq_comm]
      exact (passes_single ..).trans (and_iff_right (column_middle ..))
    | some z => exact passes_pair (column_middle ..) (column_middle ..) y
  · exact iff_of_false (not_passes (fun v hv => stepColumn_column hv ▸ hb) y) fun h => hb h.1

theorem stepTo_column {v : Vertex} : ∀ {prevY}, v ∈ stepTo height prevY bx →
    ∃ c ∈ bx, v.column = c.1 := by
  induction bx with
  | nil => intro _ h; cases h
  | cons c bx ih =>
    intro prevY h
    rcases List.mem_append.mp h with h | h
    · exact ⟨c,List.mem_cons_self,stepColumn_column h⟩
    · obtain ⟨c',hc',hcol⟩ := ih h
      exact ⟨c',List.mem_cons_of_mem c hc',hcol⟩

/-- The height before a column: that of the last one, or `prevY`. -/
theorem before_cons (c : ℤ × Bucket) (pre : List (ℤ × Bucket)) (prevY : Option ℚ) :
    (((c::pre).getLast?.map fun c => height c.2.low).or prevY) =
      (pre.getLast?.map fun c => height c.2.low).or (some (height c.2.low)) := by
  cases pre using List.reverseRecOn with
  | nil => rfl
  | append_singleton pre d =>
    rw [← List.cons_append,List.getLast?_concat,List.getLast?_concat]
    rfl

/-- A step goes through all that is between the height before and its own. -/
theorem passes_stepTo (h : bx.Pairwise fun a b => a.1 < b.1) (y : ℚ) : ∀ prevY,
    Passes (stepTo height prevY bx) b y ↔ ∃ pre e post, bx = pre++(b,e)::post ∧
      y ∈ Set.uIcc (((pre.getLast?.map fun c => height c.2.low).or prevY).getD (height e.low))
        (height e.low) := by
  induction bx with
  | nil => simp [stepTo,Passes]
  | cons c bx ih =>
    obtain ⟨c,e⟩ := c
    intro prevY
    obtain ⟨hlt,hbx⟩ := List.pairwise_cons.mp h
    have hapart : ∀ v ∈ stepColumn prevY c (height e.low),
        ∀ v' ∈ stepTo height (some (height e.low)) bx, v.column ≠ v'.column := by
      intro v hv v' hv' heq
      obtain ⟨c',hc',hcol⟩ := stepTo_column hv'
      rw [stepColumn_column hv,hcol] at heq
      exact (hlt c' hc').ne heq
    rw [stepTo,passes_append hapart,passes_stepColumn,ih hbx]
    constructor
    · rintro (⟨rfl,hy⟩ | ⟨pre,e',post,rfl,hy⟩)
      · exact ⟨[],e,bx,rfl,hy⟩
      · refine ⟨(c,e)::pre,e',post,rfl,?_⟩
        rwa [before_cons]
    · rintro ⟨pre,e',post,heq,hy⟩
      cases pre with
      | nil =>
        obtain ⟨hce,rfl⟩ := List.cons.inj heq
        obtain ⟨rfl,rfl⟩ := Prod.mk.inj hce
        exact .inl ⟨rfl,hy⟩
      | cons d pre =>
        obtain ⟨rfl,rfl⟩ := List.cons.inj heq
        rw [before_cons] at hy
        exact .inr ⟨pre,e',post,rfl,hy⟩

end Columns

/-! ## Spikes -/

section Spikes

variable {p : Plot} {s : Series} {b : ℤ} {e : Bucket}

theorem columns_unique {e' : Bucket} (h : (b,e) ∈ columns p s) (h' : (b,e') ∈ columns p s) :
    e = e' := by
  have hnodup := nodup_buckets p s
  have heq := lookup_of_mem hnodup (List.mem_mergeSort.mp h)
  rw [lookup_of_mem hnodup (List.mem_mergeSort.mp h')] at heq
  exact (Option.some.inj heq).symm

/-- A law of the columns that holds where there are no samples. -/
theorem forall_columns {P : ℤ → List ℚ → Prop} (hnil : ∀ b, P b []) :
    (∀ b, P b (values p s b)) ↔ ∀ b e, (b,e) ∈ columns p s → P b (values p s b) := by
  refine ⟨fun h b e _ => h b,fun h b => ?_⟩
  by_cases hb : values p s b = []
  · rw [hb]
    exact hnil b
  · obtain ⟨e,he⟩ := exists_mem_columns hb
    exact h b e he

theorem not_extreme_nil (m : ℚ) : ¬ Extreme [] m := fun h => List.not_mem_nil h.mem

/-- What is promised: the path of a column goes through its extremes, and a column without samples
has no vertex. -/
structure KeepsSpikes (p : Plot) (s : Series) : Prop where
  extremes : ∀ b m, Extreme (values p s b) m →
    Passes (drawSeries p s).stroke b (p.yPix m s.scale)
  noStray : ∀ v ∈ (drawSeries p s).stroke++(drawSeries p s).fill++(drawSeries p s).dot.toList,
    values p s v.column ≠ []

/-- No sample is further left. -/
def First (p : Plot) (s : Series) (b : ℤ) : Prop := ∀ c, values p s c ≠ [] → b ≤ c

/-- The next column with samples to the left. -/
def Precedes (p : Plot) (s : Series) (a b : ℤ) : Prop :=
  values p s a ≠ [] ∧ a < b ∧ ∀ c, a < c → c < b → values p s c = []

/-- The sample that a step is drawn at: the lowest of three or more, otherwise the last. -/
def Stands (ys : List ℚ) (y : ℚ) : Prop :=
  if 2 < ys.length then IsLeast {z | z ∈ ys} y else ys.getLast? = some y

/-- Two samples of a column are at one height; in its first column an area may also rise. The other
extreme of a step lies between the column before and its own. -/
def Spread (p : Plot) (s : Series) : Prop :=
  let height := fun v => p.yPix v s.scale
  match s.kind with
  | .line => ∀ b, Level height (values p s b)
  | .area => ∀ b y y', values p s b = [y,y'] →
    height y = height y' ∨ First p s b ∧ y ≤ y'
  | .step => ∀ b m own, Extreme (values p s b) m → Stands (values p s b) own →
    height m = height own ∨ ∃ a before, Precedes p s a b ∧ Stands (values p s a) before ∧
      height m ∈ Set.uIcc (height before) (height own)

theorem Bucket.Of.stands_iff {ys : List ℚ} (h : e.Of ys) (y : ℚ) : Stands ys y ↔ y = e.low := by
  rw [Stands,Bucket.low,h.count]
  split
  · constructor
    · exact fun hy => hy.unique h.least
    · rintro rfl
      exact h.least
  · rw [h.last,Option.some.injEq,eq_comm]

theorem passes_line (he : (b,e) ∈ columns p s) (height : ℚ → ℚ) (y : ℚ) :
    Passes (lineTo height (columns p s)) b y ↔ Passes (lineColumn height b e) b y := by
  rw [passes_lineTo (columns_pairwise p s)]
  constructor
  · rintro ⟨e',he',hpass⟩
    rwa [columns_unique he he']
  · exact fun hpass => ⟨e,he,hpass⟩

theorem line_keeps_iff (height : ℚ → ℚ) :
    (∀ b m, Extreme (values p s b) m → Passes (lineTo height (columns p s)) b (height m)) ↔
      ∀ b, Level height (values p s b) := by
  rw [forall_columns (P:=fun b ys => ∀ m, Extreme ys m →
      Passes (lineTo height (columns p s)) b (height m)) fun b m h => absurd h (not_extreme_nil m),
    forall_columns (P:=fun _ ys => Level height ys) fun b y y' h => absurd h (by simp)]
  refine forall₃_congr fun b e he => ?_
  simp only [passes_line he]
  exact lineColumn_keeps_iff (of_mem_columns he)

theorem area_keeps_iff (height : ℚ → ℚ) {b₀ : ℤ} {e₀ : Bucket} {bx : List (ℤ × Bucket)}
    (hcols : columns p s = (b₀,e₀)::bx) :
    (∀ b m, Extreme (values p s b) m →
      Passes (⟨b₀,height e₀.mn⟩::lineTo height (columns p s)) b (height m)) ↔
        ∀ b y y', values p s b = [y,y'] → height y = height y' ∨ First p s b ∧ y ≤ y' := by
  have hmem₀ : (b₀,e₀) ∈ columns p s := hcols ▸ List.mem_cons_self
  have hfirst : First p s b₀ := by
    intro c hc
    obtain ⟨e,he⟩ := exists_mem_columns hc
    have hpairs := columns_pairwise p s
    rw [hcols] at he hpairs
    rcases List.mem_cons.mp he with heq | he
    · exact (Prod.mk.inj heq).1.ge
    · exact ((List.pairwise_cons.mp hpairs).1 _ he).le
  rw [forall_columns (P:=fun b ys => ∀ m, Extreme ys m → Passes (⟨b₀,height e₀.mn⟩::
      lineTo height (columns p s)) b (height m)) fun b m h => absurd h (not_extreme_nil m),
    forall_columns (P:=fun b ys => ∀ y y', ys = [y,y'] → height y = height y' ∨
      First p s b ∧ y ≤ y') fun b y y' h => absurd h (by simp)]
  refine forall₃_congr fun b e he => ?_
  have hof := of_mem_columns he
  have hpass : ∀ y, Passes (⟨b₀,height e₀.mn⟩::lineTo height (columns p s)) b y ↔
      b = b₀ ∧ y ∈ Set.uIcc (height e₀.mn) (height e₀.low) ∨
        Passes (lineColumn height b e) b y := by
    intro y
    rw [← passes_line he,hcols]
    exact passes_area b y
  simp only [hpass]
  by_cases hb : b = b₀
  · subst hb
    obtain rfl := columns_unique he hmem₀
    simp only [true_and,hfirst]
    rw [areaColumn_keeps_iff hof]
    exact forall₃_congr fun y y' _ => or_comm
  · have hnot : ¬ First p s b := fun h =>
      hb (le_antisymm (h b₀ (values_ne_nil hmem₀)) (hfirst b (values_ne_nil he)))
    simp only [hb,hnot,false_and,false_or,or_false]
    exact lineColumn_keeps_iff hof

/-- The columns before one end with the next to the left. -/
theorem precedes_iff {pre post : List (ℤ × Bucket)} (hcols : columns p s = pre++(b,e)::post)
    (a : ℤ) : Precedes p s a b ↔ ∃ e', pre.getLast? = some (a,e') := by
  have hpairs := columns_pairwise p s
  rw [hcols] at hpairs
  obtain ⟨hpre,hpost,hcross⟩ := List.pairwise_append.mp hpairs
  have hafter := (List.pairwise_cons.mp hpost).1
  have hmem : ∀ c, values p s c ≠ [] → c < b → ∃ e', (c,e') ∈ pre := by
    intro c hc hlt
    obtain ⟨e',he'⟩ := exists_mem_columns hc
    rw [hcols] at he'
    rcases List.mem_append.mp he' with he' | he'
    · exact ⟨e',he'⟩
    · rcases List.mem_cons.mp he' with heq | he'
      · exact absurd (Prod.mk.inj heq).1 hlt.ne
      · exact absurd (hafter _ he') hlt.asymm
  have hvalues : ∀ c e', (c,e') ∈ pre → values p s c ≠ [] := fun c e' he' =>
    values_ne_nil (hcols ▸ List.mem_append_left _ he')
  cases pre using List.reverseRecOn with
  | nil =>
    refine iff_of_false ?_ (by simp)
    rintro ⟨ha,hlt,-⟩
    obtain ⟨e',he'⟩ := hmem a ha hlt
    exact List.not_mem_nil he'
  | append_singleton pre d =>
    obtain ⟨c,e₁⟩ := d
    have hc : (c,e₁) ∈ pre++[(c,e₁)] := List.mem_append_right _ List.mem_cons_self
    have hcb : c < b := hcross _ hc _ List.mem_cons_self
    have hle : ∀ c' e', (c',e') ∈ pre++[(c,e₁)] → c' ≤ c := by
      intro c' e' he'
      rcases List.mem_append.mp he' with he' | he'
      · exact ((List.pairwise_append.mp hpre).2.2 _ he' _ List.mem_cons_self).le
      · exact (Prod.mk.inj (List.mem_singleton.mp he')).1.le
    rw [List.getLast?_concat]
    constructor
    · rintro ⟨ha,hlt,hbetween⟩
      obtain ⟨e',he'⟩ := hmem a ha hlt
      have hac : a = c := by
        refine le_antisymm (hle a e' he') (not_lt.mp fun hlt' => ?_)
        exact hvalues c e₁ hc (hbetween c hlt' hcb)
      exact ⟨e₁,by rw [hac]⟩
    · rintro ⟨e',heq⟩
      obtain ⟨rfl,rfl⟩ := Prod.mk.inj (Option.some.inj heq)
      refine ⟨hvalues c e₁ hc,hcb,fun c' hlt hlt' => ?_⟩
      by_contra hne
      obtain ⟨e',he'⟩ := hmem c' hne hlt'
      exact absurd (hle c' e' he') (not_le.mpr hlt)

theorem step_keeps_iff (height : ℚ → ℚ) :
    (∀ b m, Extreme (values p s b) m → Passes (stepTo height none (columns p s)) b (height m)) ↔
      ∀ b m own, Extreme (values p s b) m → Stands (values p s b) own →
        height m = height own ∨ ∃ a before, Precedes p s a b ∧ Stands (values p s a) before ∧
          height m ∈ Set.uIcc (height before) (height own) := by
  have hcolumn : ∀ b m, Extreme (values p s b) m → ∃ pre e post,
      columns p s = pre++(b,e)::post ∧ (b,e) ∈ columns p s := by
    intro b m hm
    obtain ⟨e,he⟩ := exists_mem_columns (List.ne_nil_of_mem hm.mem)
    obtain ⟨pre,post,hcols⟩ := List.append_of_mem he
    exact ⟨pre,e,post,hcols,he⟩
  refine forall₂_congr fun b m => ?_
  constructor
  · intro hpass own hm hown
    obtain ⟨pre,e,post,hcols,hy⟩ := (passes_stepTo (columns_pairwise p s) _ none).mp (hpass hm)
    have he : (b,e) ∈ columns p s := hcols ▸ List.mem_append_right _ List.mem_cons_self
    obtain rfl := ((of_mem_columns he).stands_iff own).mp hown
    cases hlast : pre.getLast? with
    | none =>
      rw [hlast] at hy
      exact .inl (by simpa using hy)
    | some d =>
      obtain ⟨a,e'⟩ := d
      have ha : (a,e') ∈ columns p s :=
        hcols ▸ List.mem_append_left _ (List.mem_of_getLast? hlast)
      rw [hlast] at hy
      exact .inr ⟨a,e'.low,(precedes_iff hcols a).mpr ⟨e',hlast⟩,
        ((of_mem_columns ha).stands_iff _).mpr rfl,hy⟩
  · intro hspread hm
    obtain ⟨pre,e,post,hcols,he⟩ := hcolumn b m hm
    refine (passes_stepTo (columns_pairwise p s) _ none).mpr ⟨pre,e,post,hcols,?_⟩
    rcases hspread e.low hm (((of_mem_columns he).stands_iff _).mpr rfl) with heq | hbefore
    · rw [heq]
      exact Set.right_mem_uIcc
    · obtain ⟨a,before,hprec,hstands,hin⟩ := hbefore
      obtain ⟨e',hlast⟩ := (precedes_iff hcols a).mp hprec
      have ha : (a,e') ∈ columns p s :=
        hcols ▸ List.mem_append_left _ (List.mem_of_getLast? hlast)
      obtain rfl := ((of_mem_columns ha).stands_iff before).mp hstands
      rwa [hlast]

theorem noStray (p : Plot) (s : Series) : ∀ v ∈ (drawSeries p s).stroke++
    (drawSeries p s).fill++(drawSeries p s).dot.toList, values p s v.column ≠ [] := by
  have hcolumn : ∀ v : Vertex, (∃ c ∈ columns p s, v.column = c.1) → values p s v.column ≠ [] := by
    rintro v ⟨⟨b,e⟩,hc,hv⟩
    rw [hv]
    exact values_ne_nil hc
  intro v hv
  refine hcolumn v ?_
  unfold drawSeries at hv
  split at hv
  · exact absurd hv (by simp)
  · next b e bx hcols =>
    have hhead : (b,e) ∈ columns p s := hcols ▸ List.mem_cons_self
    have hmiddle : ∀ c ∈ columns p s, ∀ y, v = ⟨c.1+1/2,y⟩ → ∃ c ∈ columns p s, v.column = c.1 := by
      rintro c hc y rfl
      exact ⟨c,hc,column_middle ..⟩
    have hedge : ∀ y, v = ⟨b,y⟩ → ∃ c ∈ columns p s, v.column = c.1 := by
      rintro y rfl
      exact ⟨_,hhead,column_edge ..⟩
    split at hv
    · rcases List.mem_append.mp hv with hv | hv
      · rcases List.mem_append.mp hv with hv | hv
        · rcases List.mem_cons.mp hv with hv | hv
          · exact hedge _ hv
          · rw [hcols]
            exact lineTo_column hv
        · rcases List.mem_cons.mp hv with hv | hv
          · exact hedge _ hv
          · rcases List.mem_append.mp hv with hv | hv
            · obtain ⟨c,hc,hv⟩ := List.mem_map.mp hv
              exact hmiddle c (hcols ▸ hc) _ hv.symm
            · rcases List.mem_pair.mp hv with hv | hv
              · have hlast := List.getLast_mem (List.cons_ne_nil (b,e) bx)
                exact hmiddle _ (hcols.symm ▸ hlast) _ hv
              · exact hedge _ hv
      · exact absurd hv (by simp)
    · rw [Option.toList_none,List.append_nil,List.append_nil] at hv
      have hv : v ∈ stepTo (fun v => p.yPix v s.scale) none (columns p s) := hcols.symm ▸ hv
      exact stepTo_column hv
    · rw [List.append_nil] at hv
      rcases List.mem_append.mp hv with hv | hv
      · rw [hcols]
        exact lineTo_column hv
      · split at hv
        · obtain rfl := List.mem_singleton.mp hv
          exact hmiddle _ hhead _ rfl
        · exact absurd hv (by simp)

theorem drawSeries_keeps_iff (p : Plot) (s : Series) : KeepsSpikes p s ↔ Spread p s := by
  have hextremes : KeepsSpikes p s ↔ ∀ b m, Extreme (values p s b) m →
      Passes (drawSeries p s).stroke b (p.yPix m s.scale) :=
    ⟨KeepsSpikes.extremes,fun h => ⟨h,noStray p s⟩⟩
  rw [hextremes,Spread]
  cases hcols : columns p s with
  | nil =>
    have hnil : ∀ b, values p s b = [] := by
      intro b
      by_contra hne
      obtain ⟨e,he⟩ := exists_mem_columns hne
      rw [hcols] at he
      exact List.not_mem_nil he
    simp only [hnil,not_extreme_nil,false_imp_iff,implies_true,true_iff]
    split <;> simp [Level]
  | cons c bx =>
    obtain ⟨b₀,e₀⟩ := c
    cases hkind : s.kind with
    | line =>
      have hstroke : (drawSeries p s).stroke =
          lineTo (fun v => p.yPix v s.scale) (columns p s) := by
        simp only [drawSeries,hcols,hkind]
      rw [hstroke]
      exact line_keeps_iff _
    | area =>
      have hstroke : (drawSeries p s).stroke = ⟨b₀,p.yPix e₀.mn s.scale⟩::
          lineTo (fun v => p.yPix v s.scale) (columns p s) := by
        simp only [drawSeries,hcols,hkind]
      rw [hstroke]
      exact area_keeps_iff (fun v => p.yPix v s.scale) hcols
    | step =>
      have hstroke : (drawSeries p s).stroke =
          stepTo (fun v => p.yPix v s.scale) none (columns p s) := by
        simp only [drawSeries,hcols,hkind]
      rw [hstroke]
      exact step_keeps_iff _

end Spikes

/-- A view of ten seconds, ten pixels wide. -/
def tenSeconds : Plot where
  padL := 0
  padT := 0
  w := 10
  h := 100
  lo := 0
  hi := 10
  px := id
  yPix := fun v _ => 100-v

/-- A spike that falls again within its column. -/
def spike : Series := ⟨.line,.left,[1,5/4],[some 90,some 10]⟩

theorem spike_lost : ¬ ∀ p s, KeepsSpikes p s := by
  intro hall
  have hvalues : values tenSeconds spike 1 = [90,10] := by decide +kernel
  have hstroke : (drawSeries tenSeconds spike).stroke = [⟨1+1/2,90⟩] := by decide +kernel
  have hpass := (hall tenSeconds spike).extremes 1 90 (hvalues ▸ (extreme_pair 90 10).1)
  rw [hstroke,passes_single] at hpass
  norm_num [tenSeconds] at hpass

end Decimation
end ETraceDiag
