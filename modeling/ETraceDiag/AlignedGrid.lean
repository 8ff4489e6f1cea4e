import ETraceDiag.DataWindow

/-!
# Aligned windows

`align_window` of `data/window.py` puts the points of an entity into a grid of times and metrics,
with a mask that says which cells are observed, and `real_mid_stream_gap` looks for a hole in it.
-/

namespace ETraceDiag
namespace AlignedGrid

open DataWindow TimeTable

/-- Floats, of which one is not a number. -/
class NanFloat (F : Type) where
  nan : F
  isNan : F → Bool
  isNan_nan : isNan nan = true

/-- A number, or none. -/
instance : NanFloat (Option ℚ) where
  nan := none
  isNan := Option.isNone
  isNan_nan := rfl

variable {F : Type}

/-! ## align_window -/

structure AlignedSeries (F : Type) where
  entityId : String
  tsNs : List ℤ
  metrics : List String
  values : List (List F)
  observedMask : List (List Bool)
  values_length : values.length = tsNs.length
  observedMask_length : observedMask.length = tsNs.length

/-- `range(start,stop,step)` for a positive step. -/
def pyRange (start stop step : ℤ) : List ℤ :=
  (List.range ((stop-start+step-1)/step).toNat).map fun k : ℕ => start+step*k

def entityPoints (frame : TelemetryFrame F) (entityId : String) (startNs endNs : ℤ) :
    List (TelemetryPoint F) :=
  frame.points.filter fun p => p.entityId = entityId ∧ startNs ≤ p.tsNs ∧ p.tsNs < endNs

/-- Where the cell of a point starts. -/
def cellTs (grid : ℤ) (p : TelemetryPoint F) : ℤ := p.tsNs-p.tsNs%grid

/-- The key of a cell. -/
structure CellKey where
  tsNs : ℤ
  metricId : String
  deriving DecidableEq

/-- `keys`: the value that a cell got last, and whether it is observed. -/
def cellValues (grid t0 t1 : ℤ) (metricList : List String) (pts : List (TelemetryPoint F)) :
    List (CellKey × F × Bool) :=
  pts.foldl (fun keys p =>
    match p.value with
    | none => keys
    | some v =>
      if cellTs grid p < t0 ∨ t1 < cellTs grid p then keys
      else if p.metricId ∉ metricList then keys
      else
        let cell : F × Bool := (v,p.quality = .observed)
        upsert ⟨cellTs grid p,p.metricId⟩ cell (fun _ => cell) keys) []

/-- A row of the grid. Of a metric that is listed twice only the last column is filled. -/
def alignRow [NanFloat F] (keys : List (CellKey × F × Bool)) (metricList : List String)
    (t : ℤ) : List (F × Bool) :=
  metricList.zipIdx.map fun m =>
    if m.1 ∈ metricList.drop (m.2+1) then (NanFloat.nan,false)
    else (keys.lookup ⟨t,m.1⟩).getD (NanFloat.nan,false)

def alignWindow [NanFloat F] (frame : TelemetryFrame F) (entityId : String)
    (startNs endNs sampleIntervalNs : ℤ) (metrics : Option (List String) := none) :
    AlignedSeries F :=
  let entityPts := entityPoints frame entityId startNs endNs
  let metricList := metrics.getD (sortedSet (entityPts.map TelemetryPoint.metricId))
  let grid := max 1 sampleIntervalNs
  let t0 := startNs-startNs%grid
  let t1 := if startNs < endNs then endNs-1 else startNs
  let tsNs := pyRange t0 (t1+1) grid
  let keys := cellValues grid t0 t1 metricList entityPts
  let rows := tsNs.map (alignRow keys metricList)
  { entityId := entityId
    tsNs := tsNs
    metrics := metricList
    values := rows.map (List.map Prod.fst)
    observedMask := rows.map (List.map Prod.snd)
    values_length := by rw [List.length_map,List.length_map]
    observedMask_length := by rw [List.length_map,List.length_map] }

/-! ## The grid -/

theorem mem_pyRange {start stop step t : ℤ} (hstep : 0 < step) :
    t ∈ pyRange start stop step ↔ start ≤ t ∧ t < stop ∧ step ∣ t-start := by
  have hcount (k : ℕ) : k < ((stop-start+step-1)/step).toNat ↔ start+step*k < stop := by
    have hle := Int.le_ediv_iff_mul_le (a:=(k : ℤ)+1) (b:=stop-start+step-1) hstep
    rw [Int.add_mul,Int.one_mul,Int.mul_comm] at hle
    omega
  rw [pyRange,List.mem_map]
  constructor
  · rintro ⟨k,hk,rfl⟩
    have hnonneg : 0 ≤ step*(k : ℤ) := Int.mul_nonneg (le_of_lt hstep) (Int.natCast_nonneg k)
    rw [List.mem_range,hcount] at hk
    exact ⟨by omega,hk,k,by omega⟩
  · rintro ⟨hlo,hhi,q,hq⟩
    have hq0 : 0 ≤ q := by
      by_contra hneg
      have hlt := Int.mul_neg_of_pos_of_neg hstep (Int.not_le.mp hneg)
      omega
    lift q to ℕ using hq0
    refine ⟨q,?_,by omega⟩
    rw [List.mem_range,hcount]
    omega

theorem nodup_pyRange {start stop step : ℤ} (hstep : 0 < step) :
    (pyRange start stop step).Nodup := by
  refine List.Nodup.map (fun k l h => ?_) List.nodup_range
  have hmul : step*k = step*l := Int.add_left_cancel h
  exact Int.ofNat_inj.mp (Int.eq_of_mul_eq_mul_left (ne_of_gt hstep) hmul)

/-- A point is in the cell at a multiple of the width exactly when its time is. -/
theorem cellTs_eq_iff {grid t : ℤ} (hgrid : 0 < grid) (ht : grid ∣ t) (p : TelemetryPoint F) :
    cellTs grid p = t ↔ t ≤ p.tsNs ∧ p.tsNs < t+grid := by
  obtain ⟨q,rfl⟩ := ht
  have hdiv := Int.emod_add_mul_ediv (p.tsNs : ℤ) grid
  have hcell : cellTs grid p = grid*((p.tsNs : ℤ)/grid) := by
    rw [cellTs]
    omega
  rw [hcell,Int.mul_eq_mul_left_iff (ne_of_gt hgrid),Int.ediv_eq_iff_of_pos hgrid,Int.mul_comm]

/-- The points with a value in a cell. -/
def cellPoints (grid : ℤ) (pts : List (TelemetryPoint F)) (t : ℤ) (m : String) :
    List (TelemetryPoint F) :=
  pts.filter fun p => p.value.isSome ∧ cellTs grid p = t ∧ p.metricId = m

/-- What a point leaves in its cell. -/
def TelemetryPoint.cell? (p : TelemetryPoint F) : Option (F × Bool) :=
  p.value.map fun v => (v,decide (p.quality = .observed))

/-- The last point with a value in a cell decides what is in it. -/
theorem lookup_cellValues {grid t0 t1 : ℤ} {metricList : List String}
    {pts : List (TelemetryPoint F)}
    (h : ∀ p ∈ pts, t0 ≤ cellTs grid p ∧ cellTs grid p ≤ t1 ∧ p.metricId ∈ metricList)
    (t : ℤ) (m : String) :
    (cellValues grid t0 t1 metricList pts).lookup ⟨t,m⟩ =
      (cellPoints grid pts t m).getLast?.bind TelemetryPoint.cell? := by
  induction pts using List.reverseRecOn with
  | nil => rfl
  | append_singleton pts p ih =>
    obtain ⟨hlo,hhi,hm⟩ := h p (List.mem_append_right _ (List.mem_singleton_self p))
    have hpts := ih fun q hq => h q (List.mem_append_left _ hq)
    rw [cellValues,List.foldl_append,← cellValues,List.foldl_cons,List.foldl_nil]
    rw [cellPoints,List.filter_append,← cellPoints]
    cases hv : p.value with
    | none => simpa [hv] using hpts
    | some v =>
      simp only [not_lt.mpr hlo,not_lt.mpr hhi,or_self,if_false,hm,not_true_eq_false]
      rw [lookup_upsert]
      by_cases hcell : cellTs grid p = t ∧ p.metricId = m
      · obtain ⟨rfl,rfl⟩ := hcell
        simp [hv,TelemetryPoint.cell?]
      · have hne : ¬ CellKey.mk t m = ⟨cellTs grid p,p.metricId⟩ := fun heq =>
          hcell ⟨(congrArg CellKey.tsNs heq).symm,(congrArg CellKey.metricId heq).symm⟩
        rw [if_neg hne,hpts]
        simp [hcell]

/-- On metrics that are told apart a row has a cell for each. -/
theorem alignRow_of_nodup [NanFloat F] (keys : List (CellKey × F × Bool))
    {metricList : List String} (h : metricList.Nodup) (t : ℤ) :
    alignRow keys metricList t =
      metricList.map fun m => (keys.lookup ⟨t,m⟩).getD (NanFloat.nan,false) := by
  have hfst := congrArg (List.map fun m => (keys.lookup ⟨t,m⟩).getD (NanFloat.nan,false))
    (List.zipIdx_map_fst 0 metricList)
  rw [List.map_map] at hfst
  rw [alignRow,← hfst]
  refine List.map_congr_left fun m hm => if_neg fun hlater => ?_
  have hat := List.mem_zipIdx_iff_getElem?.mp hm
  obtain ⟨i,hi⟩ := List.mem_iff_getElem?.mp hlater
  rw [List.getElem?_drop] at hi
  obtain ⟨hlt,hget⟩ := List.getElem?_eq_some_iff.mp hat
  have heq := (List.getElem?_inj hlt h).mp (hat.trans hi.symm)
  omega

/-! ## What the grid says -/

/-- The cells of a grid, each with its value and its mark. -/
def AlignedSeries.cells (a : AlignedSeries F) : List (CellKey × F × Bool) :=
  (a.tsNs.zip (a.values.zip a.observedMask)).flatMap fun row =>
    (a.metrics.zip (row.2.1.zip row.2.2)).map fun c => (⟨row.1,c.1⟩,c.2)

def InCell (t span : ℤ) (m : String) (p : TelemetryPoint F) : Prop :=
  p.metricId = m ∧ t ≤ p.tsNs ∧ p.tsNs < t+span

instance (t span : ℤ) (m : String) (p : TelemetryPoint F) : Decidable (InCell t span m p) :=
  inferInstanceAs (Decidable (_ ∧ _))

/-- The points of a cell that are observed and have a value. -/
def observedIn (pts : List (TelemetryPoint F)) (t span : ℤ) (m : String) :
    List (TelemetryPoint F) :=
  pts.filter fun p => (p.quality = .observed ∧ p.value.isSome) ∧ InCell t span m p

/-- A cell is marked exactly when a point is observed in it, its value is then that of the last
such point, and there is none otherwise. -/
structure ExactCell [NanFloat F] (pts : List (TelemetryPoint F)) (t span : ℤ) (m : String)
    (cell : F × Bool) : Prop where
  marked : cell.2 = true ↔ observedIn pts t span m ≠ []
  value : ∀ p ∈ (observedIn pts t span m).getLast?, p.value = some cell.1
  none : observedIn pts t span m = [] → NanFloat.isNan cell.1 = true

/-- What the last point with a value leaves in a cell. -/
def leftIn [NanFloat F] (grid : ℤ) (pts : List (TelemetryPoint F)) (t : ℤ) (m : String) :
    F × Bool :=
  ((cellPoints grid pts t m).getLast?.bind TelemetryPoint.cell?).getD (NanFloat.nan,false)

/-- The last point with a value in a cell is observed, or it is not a number and nothing in the
cell is observed. -/
def LastStands [NanFloat F] (grid : ℤ) (pts : List (TelemetryPoint F)) (t : ℤ) (m : String) :
    Prop :=
  ∀ p ∈ (cellPoints grid pts t m).getLast?, p.quality = .observed ∨
    (∀ v ∈ p.value, NanFloat.isNan v = true) ∧
      ∀ q ∈ cellPoints grid pts t m, q.quality ≠ .observed

/-- An observed point that is the last one is the newest observed one. -/
theorem exactCell_of_observed [NanFloat F] {grid span t : ℤ} {m : String}
    {pts init : List (TelemetryPoint F)} {p : TelemetryPoint F} {v : F}
    (h : observedIn pts t span m =
      (cellPoints grid pts t m).filter fun p => p.quality = .observed)
    (hinit : cellPoints grid pts t m = init++[p]) (hv : p.value = some v)
    (hp : p.quality = .observed) :
    ExactCell pts t span m (v,decide (p.quality = .observed)) := by
  have hobs : (observedIn pts t span m).getLast? = some p := by
    rw [h,hinit,List.filter_append,List.filter_cons_of_pos (by simpa using hp)]
    simp
  have hne : observedIn pts t span m ≠ [] := by
    intro hnil
    rw [hnil] at hobs
    cases hobs
  refine ⟨by simp [hp,hne],?_,fun hnil => absurd hnil hne⟩
  intro q hq
  rw [hobs] at hq
  rw [← Option.some.inj hq,hv]

/-- An unobserved value must not hide anything, and must not look like a value. -/
theorem exactCell_iff_of_unobserved [NanFloat F] {grid span t : ℤ} {m : String}
    {pts : List (TelemetryPoint F)} {p : TelemetryPoint F} (v : F)
    (h : observedIn pts t span m =
      (cellPoints grid pts t m).filter fun p => p.quality = .observed)
    (hp : p.quality ≠ .observed) :
    ExactCell pts t span m (v,decide (p.quality = .observed)) ↔
      NanFloat.isNan v = true ∧ ∀ q ∈ cellPoints grid pts t m, q.quality ≠ .observed := by
  have hnone : observedIn pts t span m = [] ↔
      ∀ q ∈ cellPoints grid pts t m, q.quality ≠ .observed := by
    rw [h,List.filter_eq_nil_iff]
    simp
  constructor
  · rintro ⟨hmarked,-,hnan⟩
    have hnil : observedIn pts t span m = [] := by
      by_contra hne
      have hm := hmarked.mpr hne
      simp [hp] at hm
    exact ⟨hnan hnil,hnone.mp hnil⟩
  · rintro ⟨hnan,hq⟩
    have hnil := hnone.mpr hq
    exact ⟨by simp [hp,hnil],by simp [hnil],fun _ => hnan⟩

theorem exactCell_iff [NanFloat F] {grid span t : ℤ} {m : String} {pts : List (TelemetryPoint F)}
    (h : observedIn pts t span m =
      (cellPoints grid pts t m).filter fun p => p.quality = .observed) :
    ExactCell pts t span m (leftIn grid pts t m) ↔ LastStands grid pts t m := by
  rcases hlast : (cellPoints grid pts t m).getLast? with _ | p
  · have hnil := List.getLast?_eq_none_iff.mp hlast
    rw [hnil,List.filter_nil] at h
    have hleft : leftIn grid pts t m = (NanFloat.nan,false) := by rw [leftIn,hlast]; rfl
    rw [hleft,LastStands,hlast]
    exact iff_of_true ⟨by simp [h],by simp [h],fun _ => NanFloat.isNan_nan⟩ (by simp)
  · obtain ⟨init,hinit⟩ := List.getLast?_eq_some_iff.mp hlast
    have hmem : p ∈ cellPoints grid pts t m := List.mem_of_getLast? hlast
    obtain ⟨v,hv⟩ := Option.isSome_iff_exists.mp (of_decide_eq_true (List.mem_filter.mp hmem).2).1
    have hleft : leftIn grid pts t m = (v,decide (p.quality = .observed)) := by
      rw [leftIn,hlast,Option.bind_some,TelemetryPoint.cell?,hv]
      rfl
    rw [hleft,LastStands,hlast]
    by_cases hp : p.quality = .observed
    · exact iff_of_true (exactCell_of_observed h hinit hv hp) (by simp [hp])
    · rw [exactCell_iff_of_unobserved v h hp]
      constructor
      · rintro ⟨hnan,hq⟩ q ⟨⟩
        refine .inr ⟨?_,hq⟩
        rw [hv]
        rintro w ⟨⟩
        exact hnan
      · intro hstands
        obtain ⟨hnan,hq⟩ := (hstands p rfl).resolve_left hp
        exact ⟨hnan v hv,hq⟩

section Window

variable (frame : TelemetryFrame F) (entityId : String) (startNs endNs sampleIntervalNs : ℤ)

/-- The starts of the rows. -/
def rowStarts : List ℤ :=
  pyRange (startNs-startNs%max 1 sampleIntervalNs)
    ((if startNs < endNs then endNs-1 else startNs)+1) (max 1 sampleIntervalNs)

/-- The metrics of the columns. -/
def columnMetrics : List String :=
  sortedSet ((entityPoints frame entityId startNs endNs).map TelemetryPoint.metricId)

theorem nodup_columnMetrics : (columnMetrics frame entityId startNs endNs).Nodup :=
  (sortedSet_pairwise _).imp fun h => ne_of_lt h

/-- The cell of every point of the window is in the grid. -/
theorem cellTs_mem {p : TelemetryPoint F} (hp : p ∈ entityPoints frame entityId startNs endNs) :
    startNs-startNs%max 1 sampleIntervalNs ≤ cellTs (max 1 sampleIntervalNs) p ∧
      cellTs (max 1 sampleIntervalNs) p ≤ (if startNs < endNs then endNs-1 else startNs) ∧
      p.metricId ∈ columnMetrics frame entityId startNs endNs := by
  have hgrid : 0 < max 1 sampleIntervalNs := lt_max_of_lt_left Int.one_pos
  have hin := of_decide_eq_true (List.mem_filter.mp hp).2
  have hle : startNs-startNs%max 1 sampleIntervalNs ≤ cellTs (max 1 sampleIntervalNs) p := by
    have hmono := Int.mul_le_mul_of_nonneg_left
      (Int.ediv_le_ediv hgrid hin.2.1) (le_of_lt hgrid)
    have hs := Int.emod_add_mul_ediv startNs (max 1 sampleIntervalNs)
    have hp := Int.emod_add_mul_ediv (p.tsNs : ℤ) (max 1 sampleIntervalNs)
    rw [cellTs]
    omega
  refine ⟨hle,?_,mem_sortedSet.mpr (List.mem_map_of_mem hp)⟩
  have hmod := Int.emod_nonneg (p.tsNs : ℤ) (ne_of_gt hgrid)
  rw [if_pos (hin.2.1.trans_lt hin.2.2),cellTs]
  omega

theorem zip_map_self {α β : Type*} (f : α → β) (xs : List α) :
    xs.zip (xs.map f) = xs.map fun x => (x,f x) := by
  have h := List.zip_map' (f:=id) (g:=f) (l:=xs)
  rwa [List.map_id] at h

variable [NanFloat F]

theorem alignRow_columns (t : ℤ) : alignRow (cellValues (max 1 sampleIntervalNs)
    (startNs-startNs%max 1 sampleIntervalNs) (if startNs < endNs then endNs-1 else startNs)
    (columnMetrics frame entityId startNs endNs) (entityPoints frame entityId startNs endNs))
    (columnMetrics frame entityId startNs endNs) t =
      (columnMetrics frame entityId startNs endNs).map
        (leftIn (max 1 sampleIntervalNs) (entityPoints frame entityId startNs endNs) t) := by
  rw [alignRow_of_nodup _ (nodup_columnMetrics ..)]
  refine List.map_congr_left fun m _ => ?_
  rw [leftIn,lookup_cellValues fun p hp => cellTs_mem frame entityId _ _ _ hp]

theorem cells_alignWindow :
    (alignWindow frame entityId startNs endNs sampleIntervalNs).cells =
      (rowStarts startNs endNs sampleIntervalNs).flatMap fun t =>
        (columnMetrics frame entityId startNs endNs).map fun m =>
          (⟨t,m⟩,leftIn (max 1 sampleIntervalNs)
            (entityPoints frame entityId startNs endNs) t m) := by
  rw [AlignedSeries.cells,alignWindow]
  simp only [Option.getD_none,List.map_map,List.zip_map']
  change ((rowStarts startNs endNs sampleIntervalNs).zip
    ((rowStarts startNs endNs sampleIntervalNs).map _)).flatMap _ = _
  rw [zip_map_self,List.flatMap_map]
  refine List.flatMap_congr fun t _ => ?_
  have hrow := alignRow_columns frame entityId startNs endNs sampleIntervalNs t
  rw [columnMetrics] at hrow
  simp only [Function.comp_apply,hrow,List.zip_map',List.map_map,zip_map_self]
  rfl

theorem mem_cells {c : CellKey × F × Bool} :
    c ∈ (alignWindow frame entityId startNs endNs sampleIntervalNs).cells ↔
      (c.1.tsNs ∈ rowStarts startNs endNs sampleIntervalNs ∧
        c.1.metricId ∈ columnMetrics frame entityId startNs endNs) ∧
      c.2 = leftIn (max 1 sampleIntervalNs) (entityPoints frame entityId startNs endNs)
        c.1.tsNs c.1.metricId := by
  obtain ⟨⟨t,m⟩,cell⟩ := c
  rw [cells_alignWindow]
  simp only [List.mem_flatMap,List.mem_map,Prod.mk.injEq,CellKey.mk.injEq]
  constructor
  · rintro ⟨t,ht,m,hm,⟨rfl,rfl⟩,rfl⟩
    exact ⟨⟨ht,hm⟩,rfl⟩
  · rintro ⟨⟨ht,hm⟩,rfl⟩
    exact ⟨t,ht,m,hm,⟨rfl,rfl⟩,rfl⟩

theorem nodup_cells :
    ((alignWindow frame entityId startNs endNs sampleIntervalNs).cells.map Prod.fst).Nodup := by
  rw [cells_alignWindow,List.map_flatMap,List.nodup_flatMap]
  constructor
  · intro t _
    rw [List.map_map]
    exact (nodup_columnMetrics ..).map fun m m' h => congrArg CellKey.metricId h
  · refine (nodup_pyRange (lt_max_of_lt_left Int.one_pos)).imp fun {t t'} hne => ?_
    intro key hkey hkey'
    simp only [List.map_map,List.mem_map,Function.comp_apply] at hkey hkey'
    obtain ⟨m,-,rfl⟩ := hkey
    obtain ⟨m',-,heq⟩ := hkey'
    exact hne (congrArg CellKey.tsNs heq).symm

/-- A cell is marked observed exactly when an observed point with a value falls into it, it has
then the value of the last such point and no value otherwise, and every observed point of the
window falls into exactly one cell. -/
structure AlignmentExact : Prop where
  cells : ∀ c ∈ (alignWindow frame entityId startNs endNs sampleIntervalNs).cells,
    ExactCell (entityPoints frame entityId startNs endNs) c.1.tsNs sampleIntervalNs c.1.metricId
      c.2
  distinct : ((alignWindow frame entityId startNs endNs sampleIntervalNs).cells.map Prod.fst).Nodup
  lands : ∀ p ∈ entityPoints frame entityId startNs endNs, p.quality = .observed →
    ∃! key, key ∈ (alignWindow frame entityId startNs endNs sampleIntervalNs).cells.map Prod.fst ∧
      InCell key.tsNs sampleIntervalNs key.metricId p

/-- There is an interval, or nothing to put into it. -/
def IntervalFits : Prop :=
  0 < sampleIntervalNs ∨
    ∀ p ∈ entityPoints frame entityId startNs endNs, p.quality ≠ .observed

variable {frame entityId startNs endNs sampleIntervalNs}

theorem rowStarts_dvd {t : ℤ} (ht : t ∈ rowStarts startNs endNs sampleIntervalNs) :
    max 1 sampleIntervalNs ∣ t := by
  have hgrid : 0 < max 1 sampleIntervalNs := lt_max_of_lt_left Int.one_pos
  have hdvd := ((mem_pyRange hgrid).mp ht).2.2
  exact (Int.dvd_iff_dvd_of_dvd_sub hdvd).mpr (Int.dvd_self_sub_emod)

omit [NanFloat F] in
theorem inCell_iff (h : IntervalFits frame entityId startNs endNs sampleIntervalNs) {t : ℤ}
    (ht : max 1 sampleIntervalNs ∣ t) {m : String} {p : TelemetryPoint F}
    (hp : p ∈ entityPoints frame entityId startNs endNs) (hobs : p.quality = .observed) :
    InCell t sampleIntervalNs m p ↔
      cellTs (max 1 sampleIntervalNs) p = t ∧ p.metricId = m := by
  have hpos : 0 < sampleIntervalNs := h.resolve_right fun hno => hno p hp hobs
  rw [max_eq_right hpos] at ht ⊢
  rw [cellTs_eq_iff hpos ht,InCell]
  exact and_comm

omit [NanFloat F] in
theorem observedIn_eq (h : IntervalFits frame entityId startNs endNs sampleIntervalNs) {t : ℤ}
    (ht : max 1 sampleIntervalNs ∣ t) (m : String) :
    observedIn (entityPoints frame entityId startNs endNs) t sampleIntervalNs m =
      (cellPoints (max 1 sampleIntervalNs) (entityPoints frame entityId startNs endNs) t m).filter
        fun p => p.quality = .observed := by
  rw [observedIn,cellPoints,List.filter_filter]
  refine List.filter_congr fun p hp => ?_
  rw [← Bool.decide_and,decide_eq_decide]
  by_cases hobs : p.quality = .observed
  · rw [inCell_iff h ht hp hobs]
    tauto
  · simp [hobs]

theorem leftIn_mem_cells {t : ℤ} {m : String}
    (ht : t ∈ rowStarts startNs endNs sampleIntervalNs)
    (hm : m ∈ columnMetrics frame entityId startNs endNs) :
    (⟨t,m⟩,leftIn (max 1 sampleIntervalNs) (entityPoints frame entityId startNs endNs) t m) ∈
      (alignWindow frame entityId startNs endNs sampleIntervalNs).cells :=
  (mem_cells ..).mpr ⟨⟨ht,hm⟩,rfl⟩

/-- A key is in the grid when its row and its column are. -/
theorem mem_keys {key : CellKey} :
    key ∈ (alignWindow frame entityId startNs endNs sampleIntervalNs).cells.map Prod.fst ↔
      key.tsNs ∈ rowStarts startNs endNs sampleIntervalNs ∧
        key.metricId ∈ columnMetrics frame entityId startNs endNs := by
  rw [List.mem_map]
  constructor
  · rintro ⟨c,hc,rfl⟩
    exact ((mem_cells ..).mp hc).1
  · exact fun h => ⟨_,leftIn_mem_cells h.1 h.2,rfl⟩

omit [NanFloat F] in
/-- The row of the cell of a point is one of the grid. -/
theorem cellTs_mem_rowStarts {p : TelemetryPoint F}
    (hp : p ∈ entityPoints frame entityId startNs endNs) :
    cellTs (max 1 sampleIntervalNs) p ∈ rowStarts startNs endNs sampleIntervalNs := by
  have hgrid : 0 < max 1 sampleIntervalNs := lt_max_of_lt_left Int.one_pos
  obtain ⟨hlo,hhi,-⟩ := cellTs_mem frame entityId startNs endNs sampleIntervalNs hp
  refine (mem_pyRange hgrid).mpr ⟨hlo,Int.lt_add_one_of_le hhi,?_⟩
  exact Int.dvd_sub Int.dvd_self_sub_emod Int.dvd_self_sub_emod

theorem lands_iff : (∀ p ∈ entityPoints frame entityId startNs endNs, p.quality = .observed →
    ∃! key, key ∈ (alignWindow frame entityId startNs endNs sampleIntervalNs).cells.map Prod.fst ∧
      InCell key.tsNs sampleIntervalNs key.metricId p) ↔
    IntervalFits frame entityId startNs endNs sampleIntervalNs := by
  constructor
  · intro h
    by_contra hno
    rw [IntervalFits,not_or] at hno
    obtain ⟨hpos,hex⟩ := hno
    simp only [not_forall,not_not] at hex
    obtain ⟨p,hp,hobs⟩ := hex
    obtain ⟨key,⟨-,-,hlo,hhi⟩,-⟩ := h p hp hobs
    omega
  · intro h p hp hobs
    have hin := fun {t : ℤ} (ht : max 1 sampleIntervalNs ∣ t) (m : String) =>
      inCell_iff (m:=m) h ht hp hobs
    have hrow : cellTs (max 1 sampleIntervalNs) p ∈ rowStarts startNs endNs sampleIntervalNs :=
      cellTs_mem_rowStarts hp
    refine ⟨⟨cellTs (max 1 sampleIntervalNs) p,p.metricId⟩,⟨mem_keys.mpr ⟨hrow,?_⟩,?_⟩,?_⟩
    · exact mem_sortedSet.mpr (List.mem_map_of_mem hp)
    · exact (hin (rowStarts_dvd hrow) _).mpr ⟨rfl,rfl⟩
    · rintro ⟨t,m⟩ ⟨hkey,hcell⟩
      obtain ⟨rfl,rfl⟩ := (hin (rowStarts_dvd (mem_keys.mp hkey).1) m).mp hcell
      rfl

/-- Alignment is exact when the last point with a value in each cell stands, and there is an
interval, or no observed point. -/
theorem alignment_exact_iff :
    AlignmentExact frame entityId startNs endNs sampleIntervalNs ↔
      IntervalFits frame entityId startNs endNs sampleIntervalNs ∧
        ∀ t m, LastStands (max 1 sampleIntervalNs) (entityPoints frame entityId startNs endNs)
          t m := by
  constructor
  · rintro ⟨hcells,-,hlands⟩
    have hfits := lands_iff.mp hlands
    refine ⟨hfits,?_⟩
    intro t m p hp
    have hmem := List.mem_filter.mp (List.mem_of_getLast? hp)
    obtain ⟨-,rfl,rfl⟩ := of_decide_eq_true hmem.2
    have hrow : cellTs (max 1 sampleIntervalNs) p ∈ rowStarts startNs endNs sampleIntervalNs :=
      cellTs_mem_rowStarts hmem.1
    have hcell := hcells _
      (leftIn_mem_cells hrow (mem_sortedSet.mpr (List.mem_map_of_mem hmem.1)))
    exact (exactCell_iff (observedIn_eq hfits (rowStarts_dvd hrow) _)).mp hcell p hp
  · rintro ⟨hfits,hstands⟩
    refine ⟨?_,nodup_cells ..,lands_iff.mpr hfits⟩
    rintro ⟨⟨t,m⟩,cell⟩ hc
    obtain ⟨⟨hrow,-⟩,hcell⟩ := (mem_cells ..).mp hc
    change cell = _ at hcell
    rw [hcell]
    exact (exactCell_iff (observedIn_eq hfits (rowStarts_dvd hrow) m)).mpr (hstands t m)

end Window

def cpuPoint (tsNs : ℕ) (value : ℚ) (quality : CausalInput.Quality) :
    TelemetryPoint (Option ℚ) where
  tsNs := tsNs
  entityId := "host"
  metricId := "cpu_user"
  value := some (some value)
  quality := quality

/-- An observed value, and a stale one soon after it. -/
def staleAfter : TelemetryFrame (Option ℚ) where
  points := [cpuPoint 0 1 .observed,cpuPoint 1 2 .stale]
  ordered := by decide
  unique := by decide

/-- The stale value takes the cell, and the observed one is lost. -/
theorem staleAfter_not_exact : ¬ AlignmentExact staleAfter "host" 0 10 10 := by
  intro h
  have hmem : ((⟨0,"cpu_user"⟩,some 2,false) : CellKey × Option ℚ × Bool) ∈
      (alignWindow staleAfter "host" 0 10 10).cells := by decide +kernel
  have hmarked := (h.cells _ hmem).marked
  exact absurd (hmarked.mpr (by decide +kernel)) (by decide)


/-! ## real_mid_stream_gap -/

/-- The rows in which some cell is observed. -/
def AlignedSeries.rowObserved (a : AlignedSeries F) : List Bool :=
  a.observedMask.map fun row => row.any id

def realMidStreamGap (a : AlignedSeries F) : Bool :=
  if a.tsNs.length < 2 then false
  else
    match a.rowObserved.findIdx? (fun o => !o) with
    | none => false
    | some firstMissing =>
      (a.rowObserved.take firstMissing).any id && (a.rowObserved.drop (firstMissing+1)).any id

/-- A row without an observed cell between two that have one. -/
def MidStreamGap (rows : List Bool) : Prop :=
  ∃ i j k : ℕ, i < j ∧ j < k ∧ rows[i]? = some true ∧ rows[j]? = some false ∧ rows[k]? = some true

theorem cons_sublist_iff {α : Type*} {x : α} {ys xs : List α} :
    (x::ys).Sublist xs ↔ ∃ i : ℕ, xs[i]? = some x ∧ ys.Sublist (xs.drop (i+1)) := by
  induction xs with
  | nil => simp
  | cons z xs ih =>
    have hhead : (∃ r, x::ys = z::r ∧ r.Sublist xs) ↔ z = x ∧ ys.Sublist xs := by
      simp only [List.cons.injEq,eq_comm (a:=z)]
      exact ⟨fun ⟨r,⟨hx,hr⟩,h⟩ => ⟨hx,hr ▸ h⟩,fun ⟨hx,h⟩ => ⟨ys,⟨hx,rfl⟩,h⟩⟩
    conv_rhs => rw [← Nat.or_exists_add_one]
    rw [List.sublist_cons_iff,ih,hhead,or_comm]
    simp

theorem midStreamGap_iff_sublist (rows : List Bool) :
    MidStreamGap rows ↔ [true,false,true].Sublist rows := by
  simp only [cons_sublist_iff,List.nil_sublist,and_true,List.getElem?_drop]
  constructor
  · rintro ⟨i,j,k,hij,hjk,hi,hj,hk⟩
    refine ⟨i,hi,j-(i+1),?_,k-(j+1),?_⟩
    · rwa [Nat.add_sub_cancel' hij]
    · have hindex : i+1+(j-(i+1)+1+(k-(j+1))) = k := by omega
      rwa [hindex]
  · rintro ⟨i,hi,j,hj,k,hk⟩
    exact ⟨i,_,_,by omega,by omega,hi,hj,hk⟩

/-- A missing row with an observed one behind it: the first missing one will do. -/
theorem missing_observed_sublist_iff (rows : List Bool) : [false,true].Sublist rows ↔
    ∃ first ∈ rows.findIdx? (fun o => !o), (rows.drop (first+1)).any id = true := by
  rw [cons_sublist_iff]
  constructor
  · rintro ⟨i,hi,hobserved⟩
    obtain ⟨hlt,hget⟩ := List.getElem?_eq_some_iff.mp hi
    cases hfirst : rows.findIdx? (fun o => !o) with
    | none =>
      have hall := List.findIdx?_eq_none_iff.mp hfirst false (hget ▸ List.getElem_mem hlt)
      cases hall
    | some first =>
      obtain ⟨_,_,hbefore⟩ := List.findIdx?_eq_some_iff_getElem.mp hfirst
      have hle : first ≤ i := by
        by_contra hlt'
        exact hbefore i (Nat.not_le.mp hlt') (by rw [hget]; rfl)
      refine ⟨first,rfl,List.any_eq_true.mpr ⟨true,?_,rfl⟩⟩
      have hsub : (rows.drop (i+1)).Sublist (rows.drop (first+1)) :=
        List.drop_sublist_drop_left rows (Nat.succ_le_succ hle)
      exact hsub.subset (List.singleton_sublist.mp hobserved)
  · rintro ⟨first,hfirst,hany⟩
    obtain ⟨hlt,hmissing,-⟩ := List.findIdx?_eq_some_iff_getElem.mp hfirst
    obtain ⟨o,ho,htrue⟩ := List.any_eq_true.mp hany
    obtain rfl : o = true := htrue
    refine ⟨first,?_,List.singleton_sublist.mpr ho⟩
    rw [List.getElem?_eq_getElem hlt]
    simpa using hmissing

/-- The code looks at the first row that is missing: a gap counts if the first row is observed. -/
theorem realMidStreamGap_iff (a : AlignedSeries F) :
    realMidStreamGap a = true ↔ a.rowObserved.head? = some true ∧ MidStreamGap a.rowObserved := by
  have hlength : a.rowObserved.length = a.tsNs.length := by
    rw [AlignedSeries.rowObserved,List.length_map,a.observedMask_length]
  rw [midStreamGap_iff_sublist,realMidStreamGap,← hlength]
  split
  · next hshort =>
    refine iff_of_false Bool.false_ne_true fun h => ?_
    have hlong := h.2.length_le
    simp only [List.length_cons,List.length_nil] at hlong
    omega
  · generalize a.rowObserved = rows
    cases rows with
    | nil => simp
    | cons o rows =>
      cases o with
      | false => simp [List.findIdx?_cons]
      | true =>
        rw [List.cons_sublist_cons,missing_observed_sublist_iff]
        cases hfirst : rows.findIdx? (fun o => !o) <;> simp [List.findIdx?_cons,hfirst]

/-- Behind the rows that are missing at the start, no observed row follows a missing one. -/
def Unbroken (rows : List Bool) : Prop :=
  (rows.dropWhile fun o => !o).Pairwise fun x y => y = true → x = true

theorem midStreamGap_iff_not_unbroken (rows : List Bool) :
    MidStreamGap rows ↔ ¬ Unbroken rows := by
  rw [midStreamGap_iff_sublist]
  induction rows with
  | nil => simp [Unbroken]
  | cons o rows ih =>
    cases o with
    | false =>
      rw [Unbroken,List.dropWhile_cons_of_pos rfl,← Unbroken,← ih]
      simp [List.sublist_cons_iff]
    | true =>
      rw [Unbroken,List.dropWhile_cons_of_neg (by simp),List.cons_sublist_cons,List.pairwise_cons,
        List.pairwise_iff_forall_sublist]
      constructor
      · rintro hsub ⟨-,hpairs⟩
        cases hpairs hsub rfl
      · intro hno
        by_contra hsub
        refine hno ⟨fun _ _ _ => rfl,?_⟩
        rintro (_ | _) y hpair rfl
        · exact absurd hpair hsub
        · rfl

/-- The test is right when the first row is observed, or nothing is missing once rows are. -/
theorem realMidStreamGap_correct_iff (a : AlignedSeries F) :
    (realMidStreamGap a = true ↔ MidStreamGap a.rowObserved) ↔
      a.rowObserved.head? ≠ some false ∨ Unbroken a.rowObserved := by
  rw [realMidStreamGap_iff]
  have hhead : a.rowObserved.head? ≠ some false → MidStreamGap a.rowObserved →
      a.rowObserved.head? = some true := by
    rintro hne ⟨i,-,-,-,-,hi,-,-⟩
    cases hrows : a.rowObserved with
    | nil => rw [hrows] at hi; cases hi
    | cons o rows => rw [hrows] at hne; cases o <;> simp_all
  constructor
  · intro h
    by_contra hno
    rw [not_or,not_not] at hno
    have hgap := (midStreamGap_iff_not_unbroken _).mpr hno.2
    have hfirst := (h.mpr hgap).1
    rw [hno.1] at hfirst
    cases hfirst
  · rintro (hne | hunbroken)
    · exact ⟨And.right,fun hgap => ⟨hhead hne hgap,hgap⟩⟩
    · have hno := fun hgap => (midStreamGap_iff_not_unbroken _).mp hgap hunbroken
      exact iff_of_false (fun h => hno h.2) hno

/-- Four rows, of which the first and the third have no observed cell. -/
def missingFirst : AlignedSeries (Option ℚ) where
  entityId := "host"
  tsNs := [0,10,20,30]
  metrics := ["cpu_user"]
  values := [[none],[some 1],[none],[some 1]]
  observedMask := [[false],[true],[false],[true]]
  values_length := rfl
  observedMask_length := rfl

/-- Its gap is not seen. -/
theorem missingFirst_not_correct :
    ¬ (realMidStreamGap missingFirst = true ↔ MidStreamGap missingFirst.rowObserved) := by
  intro h
  have hgap : MidStreamGap missingFirst.rowObserved :=
    ⟨1,2,3,by decide,by decide,by decide,by decide,by decide⟩
  exact absurd (h.mpr hgap) (by decide)

end AlignedGrid
end ETraceDiag
