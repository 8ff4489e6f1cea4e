import Mathlib.Data.List.Sort
import ETraceDiag.CausalInput
import ETraceDiag.LabelTable

/-!
# The causal engine

`ToraiRCA`: the tables of the input, the severity of their columns, the services and their
clusters, and the refinement inside each cluster. How services are clustered and what the
refinement makes of its two tables is left open.
-/

namespace ETraceDiag
namespace Torai

open CausalInput TimeTable LabelTable

inductive Variant
  | faithful | fast

section Tally

variable {F : Type} [Zero F] [One F] [Add F]

/-- Counting by ones. -/
def tally : ℕ → F
  | 0 => 0
  | n+1 => tally n+1

end Tally

/-- What is needed of `float`, `numpy` and the scaler. Counts are neither NaN nor, from one on,
zero, in megabytes or not. -/
class Numpy (F : Type) [Zero F] [One F] [Add F] where
  lt : F → F → Bool
  differs : F → F → Bool
  div : F → F → F
  toMb : F → F
  mean : List F → F
  var : List F → F
  argsort : List F → List ℕ
  maxZ : Variant → List F → List F → F
  tally_succ (n : ℕ) : (tally (n+1) : F) ≠ 0
  differs_tally (n : ℕ) : differs (tally n) (tally n) = false
  toMb_zero : toMb 0 = 0
  toMb_tally (n : ℕ) : toMb (tally (n+1)) ≠ 0

structure ToraiConfig where
  resampleS : ℕ := 15
  maxCols : ℕ := 64
  variant : Variant := .fast
  resample_pos : 0 < resampleS := by decide

section Tables

variable {F : Type}

/-! ## The metric table -/

def pointSec (p : TelemetryPoint F) : ℤ := (p.tsNs/1000000000 : ℕ)

def pointColumn (p : TelemetryPoint F) : String := p.entityId++"_"++p.metricId

/-- The points that make up the table. -/
def observed (frame : TelemetryFrame F) : List (TelemetryPoint F) :=
  frame.points.filter (·.quality = .observed)

variable [Zero F]

def frameToMetric (frame : TelemetryFrame F) : Frame F :=
  let pts := observed frame
  let cols := pts.foldl (fun d p =>
    upsert (pointColumn p) [] (upsert (pointSec p) p.value fun _ => p.value) d) []
  let ordered := sortedSet (pts.map pointSec)
  { time := some ordered, cols := cols.map fun c => (c.1,TimeTable.column ordered id 0 c.2) }

variable [One F] [Add F] [Numpy F]

/-! ## Preparing tables -/

def convertMemMb (name : String) (x : F) : F :=
  if "_mem".toList.isSuffixOf name.toList then Numpy.toMb x else x

def preprocess (t : Table F) : Table F :=
  ((t.dropTime.mapCells convertMemMb).dropConstant Numpy.differs).dropConstant Numpy.differs

theorem index_preprocess (t : Table F) : (preprocess t).index = t.index := by
  rw [preprocess,index_dropConstant,index_dropConstant]
  rfl

theorem mem_preprocess {t : Table F} {c : String × (ℕ → F)} (h : c ∈ (preprocess t).cols) :
    ∃ g, (c.1,g) ∈ t.cols ∧ c.2 = fun r => convertMemMb c.1 (g r) :=
  (mem_mapCells (t:=t.dropTime)).mp (mem_of_mem_dropConstant (mem_of_mem_dropConstant h))

theorem mem_columns_preprocess {t : Table F} {c : String} (h : c ∈ (preprocess t).columns) :
    c ∈ t.columns := by
  obtain ⟨d,hd,rfl⟩ := List.mem_map.mp h
  obtain ⟨g,hg,-⟩ := mem_preprocess hd
  exact List.mem_map.mpr ⟨(d.1,g),hg,rfl⟩

def injectS (injectNs : ℕ) : ℤ := (injectNs/1000000000 : ℕ)

/-- The two sides of the inject second. -/
def before (injectNs : ℕ) (sec : ℤ) : Bool := sec < injectS injectNs

def after (injectNs : ℕ) (sec : ℤ) : Bool := injectS injectNs ≤ sec

def metricParts (injectNs : ℕ) (metric : Table F) : Table F × Table F :=
  matchColumns (preprocess (metric.restrict (before injectNs)))
    (preprocess (metric.restrict (after injectNs)))

theorem index_metricParts (injectNs : ℕ) (metric : Table F) :
    (metricParts injectNs metric).1.index = (metric.restrict (before injectNs)).index ∧
      (metricParts injectNs metric).2.index = (metric.restrict (after injectNs)).index :=
  ⟨index_preprocess _,index_preprocess _⟩

theorem columns_metricParts (injectNs : ℕ) (metric : Table F) :
    (metricParts injectNs metric).2.columns = (metricParts injectNs metric).1.columns := by
  rw [metricParts,(columns_matchColumns _ _).1,(columns_matchColumns _ _).2]

theorem mem_columns_metricParts {injectNs : ℕ} {metric : Table F} {c : String}
    (h : c ∈ (metricParts injectNs metric).1.columns) : c ∈ metric.columns := by
  rw [metricParts,(columns_matchColumns _ _).1] at h
  exact mem_columns_preprocess (t:=metric.restrict (before injectNs)) (List.mem_filter.mp h).1

/-- NaN and nothing become zero. -/
def fillna : Option F → F
  | none => 0
  | some x => if Numpy.differs x x then 0 else x

def joined (metric log : Table F) : Table F :=
  preprocess ((metric.beside log).dropDuplicated.mapCells fun _ => fillna)

theorem mem_index_joined {metric log : Table F} {r : ℕ} :
    r ∈ (joined metric log).index ↔ r ∈ metric.index ∨ r ∈ log.index := by
  rw [joined,index_preprocess]
  exact mem_index_beside

theorem mem_columns_joined {metric log : Table F} {c : String}
    (h : c ∈ (joined metric log).columns) : c ∈ metric.columns ∨ c ∈ log.columns := by
  obtain ⟨d,hd,rfl⟩ := List.mem_map.mp (mem_columns_preprocess h)
  obtain ⟨g,hg,-⟩ := mem_mapCells.mp hd
  rcases List.mem_append.mp ((firstOfEach_sublist _).subset hg) with hmetric | hlog
  · obtain ⟨e,he,heq⟩ := List.mem_map.mp hmetric
    exact Or.inl (List.mem_map.mpr ⟨e,he,(Prod.ext_iff.mp heq).1⟩)
  · obtain ⟨e,he,heq⟩ := List.mem_map.mp hlog
    exact Or.inr (List.mem_map.mpr ⟨e,he,(Prod.ext_iff.mp heq).1⟩)

/-- A column without a metric of its name holds log counts, in the rows of the log table. -/
theorem mem_joined {metric log : Table F} {c : String × (ℕ → F)}
    (h : c ∈ (joined metric log).cols) (hc : c.1 ∉ metric.columns) :
    ∃ f, (c.1,f) ∈ log.cols ∧ c.2 = fun r => convertMemMb c.1 (fillna (log.cells f r)) := by
  obtain ⟨g,hg,heq⟩ := mem_preprocess h
  obtain ⟨k,hk,hgk⟩ := mem_mapCells.mp hg
  obtain ⟨f,hf,hkf⟩ := mem_beside ((firstOfEach_sublist _).subset hk) hc
  refine ⟨f,hf,heq.trans ?_⟩
  dsimp only at hgk hkf
  rw [hgk,hkf]

/-! ## The tables of a cluster -/

def startsWithAny (services : List String) (name : String) : Bool :=
  services.any fun s => s.toList.isPrefixOf name.toList

def ofServices (services : List String) (t : Table F) : Table F :=
  { t with cols := t.cols.filter fun c => startsWithAny services c.1 }

omit [Zero F] [One F] [Add F] [Numpy F] in
theorem ofServices_congr {services services' : List String}
    (h : ∀ s, s ∈ services ↔ s ∈ services') (t : Table F) :
    ofServices services t = ofServices services' t := by
  have hstarts : startsWithAny services = startsWithAny services' := by
    funext name
    rw [Bool.eq_iff_iff,startsWithAny,startsWithAny,List.any_eq_true,List.any_eq_true]
    exact exists_congr fun s => and_congr_left fun _ => h s
  rw [ofServices,ofServices,hstarts]

/-- The columns of the largest variance. -/
def widest (maxCols : ℕ) (n a : Table F) : List String :=
  let var := n.columns.map fun name =>
    Numpy.var ((((n.cols.lookup name).map n.values).getD [])++
      (((a.cols.lookup name).map a.values).getD []))
  ((Numpy.argsort var).take maxCols).filterMap fun i => n.columns[i]?

def logSide (p : ℤ → Bool) (logts : Table F) : Table F :=
  ((logts.dropConstant Numpy.differs).restrict p).dropTime

/-- Metrics and logs side by side, before and after the inject second. -/
def rcdSides (cfg : ToraiConfig) (injectNs : ℕ) (metric logts : Table F) : Table F × Table F :=
  let m := metricParts injectNs (metric.stride cfg.resampleS)
  (joined m.1 (logSide (before injectNs) logts),joined m.2 (logSide (after injectNs) logts))

theorem mem_columns_logSide {p : ℤ → Bool} {logts : Table F} {c : String}
    (h : c ∈ (logSide p logts).columns) : c ∈ logts.columns := by
  obtain ⟨d,hd,rfl⟩ := List.mem_map.mp h
  exact List.mem_map_of_mem (mem_of_mem_dropConstant hd)

/-- What `_rcd_multimodal` hands to `run_multi_phase`, unless a table is empty. -/
def rcdTables (cfg : ToraiConfig) (injectNs : ℕ) (metric logts : Table F) :
    Option (Table F × Table F) :=
  let sides := rcdSides cfg injectNs metric logts
  let t := matchColumns sides.1 sides.2
  if t.1.isEmpty || t.2.isEmpty then none
  else if cfg.maxCols < t.1.cols.length then
    let keep := widest cfg.maxCols t.1 t.2
    some (t.1.select keep,t.2.select keep)
  else some t

/-- Rows stay, columns are chosen, the same in both tables. -/
theorem rcdTables_eq_some {cfg : ToraiConfig} {injectNs : ℕ} {metric logts : Table F}
    {t : Table F × Table F} (h : rcdTables cfg injectNs metric logts = some t) :
    t.1.index = (rcdSides cfg injectNs metric logts).1.index ∧
    t.2.index = (rcdSides cfg injectNs metric logts).2.index ∧
    (∀ c ∈ t.1.cols, c ∈ (rcdSides cfg injectNs metric logts).1.cols) ∧
    (∀ c ∈ t.2.cols, c ∈ (rcdSides cfg injectNs metric logts).2.cols) ∧
    t.1.columns = t.2.columns := by
  unfold rcdTables at h
  generalize rcdSides cfg injectNs metric logts = sides at h ⊢
  have hcolumns := columns_matchColumns sides.1 sides.2
  have hsub : (∀ c ∈ (matchColumns sides.1 sides.2).1.cols, c ∈ sides.1.cols) ∧
      ∀ c ∈ (matchColumns sides.1 sides.2).2.cols, c ∈ sides.2.cols :=
    ⟨fun c hc => (mem_of_mem_select hc).2,fun c hc => (mem_of_mem_select hc).2⟩
  dsimp only at h
  split at h
  · cases h
  · split at h
    · obtain rfl := Option.some.inj h
      have hkeep : ∀ c ∈ widest cfg.maxCols (matchColumns sides.1 sides.2).1
          (matchColumns sides.1 sides.2).2, c ∈ (matchColumns sides.1 sides.2).1.columns := by
        intro c hc
        obtain ⟨i,-,hi⟩ := List.mem_filterMap.mp hc
        exact List.mem_of_getElem? hi
      refine ⟨rfl,rfl,fun c hc => hsub.1 c (mem_of_mem_select hc).2,
        fun c hc => hsub.2 c (mem_of_mem_select hc).2,?_⟩
      rw [columns_select hkeep,columns_select]
      rw [hcolumns.2,← hcolumns.1]
      exact hkeep
    · obtain rfl := Option.some.inj h
      exact ⟨rfl,rfl,hsub.1,hsub.2,hcolumns.1.trans hcolumns.2.symm⟩

theorem mem_columns_rcdTables {cfg : ToraiConfig} {injectNs : ℕ} {metric logts : Table F}
    {t : Table F × Table F} (h : rcdTables cfg injectNs metric logts = some t) {c : String}
    (hc : c ∈ t.1.columns) : c ∈ metric.columns ∨ c ∈ logts.columns := by
  obtain ⟨d,hd,rfl⟩ := List.mem_map.mp hc
  have hside : d.1 ∈ (joined (metricParts injectNs (metric.stride cfg.resampleS)).1
      (logSide (before injectNs) logts)).columns :=
    List.mem_map_of_mem ((rcdTables_eq_some h).2.2.1 d hd)
  rcases mem_columns_joined hside with hmetric | hlog
  · have hstride : d.1 ∈ (metric.stride cfg.resampleS).columns := mem_columns_metricParts hmetric
    exact Or.inl hstride
  · exact Or.inr (mem_columns_logSide hlog)

def sampledMetric (cfg : ToraiConfig) (frame : TelemetryFrame F) : Table F :=
  (ofFrame 0 (frameToMetric frame)).stride cfg.resampleS

variable [DecidableEq F]

/-- A log table of a single second is dropped. -/
def logTable (logs : List LogEvent) : Table F :=
  ofFrame 0 (logsToTable logs : Frame F).dropConstant.timed

/-- The tables that are handed on for a cluster. -/
def clusterTables (cfg : ToraiConfig) (injectNs : ℕ) (inputs : CausalInputs F)
    (services : List String) : Option (Table F × Table F) :=
  rcdTables cfg injectNs (ofServices services (sampledMetric cfg inputs.frame))
    (ofServices services (logTable inputs.logs))

end Tables

section Ranking

variable {F : Type} [Zero F] [One F] [Add F] [Numpy F]

/-! ## Severity -/

/-- `sort(key=..,reverse=True)`. -/
def sortDesc {ι : Type} (xs : List (ι × F)) : List (ι × F) :=
  xs.insertionSort fun x y => Numpy.lt x.2 y.2 = false

/-- `sum(..) or 1.0`. -/
def total {ι : Type} (xs : List (ι × F)) : F :=
  let sum := xs.foldl (fun acc x => acc+x.2) 0
  if Numpy.differs sum 0 then sum else 1

def shares {ι : Type} (sum : F) (xs : List (ι × F)) : List (ι × F) :=
  xs.map fun x => (x.1,Numpy.div x.2 sum)

def severityScores [PyValue.Python F] (variant : Variant) (normal anomal : Table F) :
    List (String × F) :=
  if normal.isEmpty || anomal.isEmpty then []
  else
    let result := match variant with
      | .faithful => normal.cols.filterMap fun c => (anomal.cols.lookup c.1).bind fun f =>
        let nv := (normal.values c.2).filter PyValue.Python.finite
        let av := (anomal.values f).filter PyValue.Python.finite
        if nv.isEmpty || av.isEmpty then none else some (c.1,Numpy.maxZ variant nv av)
      | .fast => normal.cols.zipWith (fun c d =>
        (c.1,Numpy.maxZ variant (normal.values c.2) (anomal.values d.2))) anomal.cols
    let sorted := sortDesc result
    shares (total sorted) sorted

/-! ## From columns to services -/

/-- `col.split("_")[0]`. -/
def firstPart (col : String) : String := String.ofList (col.toList.takeWhile (· ≠ '_'))

def fine2coarseAddup (fineRanks : List (String × F)) : List (String × F) :=
  sortDesc (fineRanks.foldl (fun d r => upsert (firstPart r.1) 0 (·+r.2) d) [])

def fine2coarseHighest (fineRanks : List (String × F)) : List (String × F) :=
  let best := fineRanks.foldl (fun d r =>
    upsert (firstPart r.1) r.2 (fun s => if Numpy.lt s r.2 then r.2 else s) d) []
  shares (total best) (sortDesc best)

def renameFrontend (items : List (String × F)) : List (String × F) :=
  items.map fun i => (if i.1 = "frontendservice" then "frontend" else i.1,i.2)

inductive Modality
  | metric | log | traceLat | traceErr
  deriving DecidableEq

def Modality.all : List Modality := [.metric,.log,.traceLat,.traceErr]

abbrev Ranks (F : Type) := Modality → List (String × F)

def coarse (fine : Ranks F) : Ranks F
  | .log => renameFrontend (fine2coarseHighest (fine .log))
  | m => renameFrontend (fine2coarseAddup (fine m))

/-! ## The matrix of the services -/

/-- The index of the matrix: the one all modalities have, or the sorted union. A modality that
lists a service twice cannot be put into it. -/
def serviceList (ranks : Ranks F) : Option (List String) :=
  let names := fun m => (ranks m).map Prod.fst
  if ∀ m ∈ Modality.all, (names m).Nodup then
    if ∀ m ∈ Modality.all, names m = names .metric then some (names .metric)
    else some ((Modality.all.flatMap names).dedup.insertionSort (· ≤ ·))
  else none

def severity (ranks : Ranks F) (service : String) (m : Modality) : F :=
  fillna ((ranks m).lookup service)

/-! ## Clusters -/

/-- What `labels == cl` selects. -/
def members {γ : Type} (labels : List ℕ) (xs : List γ) (cl : ℕ) : List γ :=
  ((labels.zip xs).filter fun x => x.1 = cl).map Prod.snd

def clusterRank (labels : List ℕ) (meanScores : List F) : List (ℕ × F) :=
  sortDesc ((labels.dedup.insertionSort (· ≤ ·)).map fun cl =>
    (cl,Numpy.mean (members labels meanScores cl)))

/-- What the refinement lists, each service once. -/
def internalOrder (tmpRanks : List String) : List String :=
  (tmpRanks.map firstPart).foldl (fun acc s => if s ∈ acc then acc else acc++[s]) []

/-- The order inside a cluster: that of the refinement when it lists as many services. -/
def clusterOrder (refined : List String) (services : List (String × F)) : List String :=
  if services.length = 1 then services.map Prod.fst
  else
    let internal := internalOrder refined
    if internal.length = services.length then internal else (sortDesc services).map Prod.fst

end Ranking

section Analysis

variable {F : Type} [Zero F] [One F] [Add F] [Numpy F] [PyValue.Python F] [DecidableEq F]

/-! ## analyze_tables -/

def untimed (f : Frame F) : Table F := (ofFrame 0 f).dropTime

def partsSeverity (cfg : ToraiConfig) (parts : Parts F) : List (String × F) :=
  severityScores cfg.variant (untimed parts.normal) (untimed parts.anomal)

def fineRanks (cfg : ToraiConfig) (injectNs : ℕ) (inputs : CausalInputs F) : Ranks F :=
  let traces := traceParts injectNs (tracesToTables inputs.traces)
  fun
  | .metric =>
    let parts := metricParts injectNs (sampledMetric cfg inputs.frame)
    severityScores cfg.variant parts.1 parts.2
  | .log => partsSeverity cfg (logParts injectNs (logsToTable inputs.logs))
  | .traceLat => (traces.map fun t => partsSeverity cfg t.2).getD []
  | .traceErr => (traces.map fun t => partsSeverity cfg t.1).getD []

structure Result (F : Type) where
  serviceRanks : List String := []
  clusterLabels : List ℕ := []
  clusterScores : List (ℕ × F) := []
  severityMatrix : List (String × (Modality → F)) := []
  indicatorRanks : List (String × List (String × F)) := []
  limitations : List String

/-- The clustering labels the rows of the matrix; the refinement lists columns of the first of
its two tables. -/
structure External (F : Type) where
  cluster : List (List F) → List ℕ
  refine : Table F → Table F → List String
  cluster_length : ∀ x, (cluster x).length = x.length
  refine_columns : ∀ n a, ∀ c ∈ refine n a, c ∈ n.columns

variable (ext : External F) (cfg : ToraiConfig) (injectNs : ℕ) (inputs : CausalInputs F)

/-- `_rcd_multimodal` for a cluster. -/
def rcdMultimodal (services : List String) : List String :=
  match clusterTables cfg injectNs inputs services with
  | none => []
  | some t => ext.refine t.1 t.2

def matrix (ranks : Ranks F) (services : List String) : List (List F) :=
  services.map fun s => [.metric,.log,.traceLat,.traceErr].map (severity ranks s)

def limitations : List String :=
  let logts := (logsToTable inputs.logs : Frame F).dropConstant.timed
  (if (traceParts (F:=F) injectNs (tracesToTables inputs.traces)).isNone then
    ["traces absent (blind spot)"] else [])++
  if logts.length = 0 ∨ logts.cols = [] then ["logs absent (blind spot)"] else []

def analyzeTables : Option (Result F) :=
  let fine := fineRanks cfg injectNs inputs
  let ranks := coarse fine
  (serviceList ranks).map fun services =>
    if services = [] then
      { limitations := ["no evaluable service (all metrics constant)"] }
    else
      let x := matrix ranks services
      let labels := ext.cluster x
      let meanScores := x.map Numpy.mean
      let clusters := clusterRank labels meanScores
      let order := clusters.flatMap fun cl =>
        let ofCluster := members labels services cl.1
        clusterOrder (rcdMultimodal ext cfg injectNs inputs ofCluster)
          (ofCluster.zip (members labels meanScores cl.1))
      let allFine := fine .metric++fine .log++fine .traceErr++fine .traceLat
      { serviceRanks := order.map (·++"_A")
        clusterLabels := labels
        clusterScores := clusters
        severityMatrix := services.map fun s => (s,severity ranks s)
        indicatorRanks := services.map fun s =>
          (s,sortDesc (allFine.filter fun i => firstPart i.1 = s))
        limitations := limitations injectNs inputs }

/-! ## analyze -/

structure RootCauseCandidate (F : Type) where
  entityId : String
  rank : ℕ
  score : F
  direction : Direction := .mixed
  severity : Option (Modality → F)
  evidenceIndicators : List String
  clusterId : ℤ := -1

structure SymptomCluster (F : Type) where
  clusterId : ℕ
  members : List String
  clusterScore : F

structure CausalReport (F : Type) where
  incidentId : String
  anomalousMetrics : List String
  candidates : List (RootCauseCandidate F)
  clusters : List (SymptomCluster F)
  limitations : List String

/-- `svc_a[:-2] if svc_a.endswith("_A") else svc_a`. -/
def stripSuffix (s : String) : String :=
  if "_A".toList.isSuffixOf s.toList then String.ofList s.toList.dropLast.dropLast else s

def direction (indicators : List (String × F)) : Direction :=
  match indicators with
  | [] => .mixed
  | i::_ => if Numpy.lt 0 i.2 then .up else .down

def candidate (result : Result F) (rank : ℕ) (serviceA : String) : RootCauseCandidate F :=
  let service := stripSuffix serviceA
  let indicators := (result.indicatorRanks.lookup service).getD []
  { entityId := service
    rank := rank
    score := Numpy.div 1 (tally rank)
    direction := direction indicators
    severity := result.severityMatrix.lookup service
    evidenceIndicators := (indicators.take 5).map Prod.fst }

def Variant.name : Variant → String
  | .faithful => "faithful"
  | .fast => "fast"

/-- The report on an incident; nothing when an exception is raised. -/
def analyze (incident : IncidentWindow F) : Option (CausalReport F) :=
  (analyzeTables ext cfg incident.startTsNs inputs).map fun result =>
    let serviceNames := result.severityMatrix.map Prod.fst
    { incidentId := incident.incidentId
      anomalousMetrics := incident.metricScores.map Prod.fst
      candidates := result.serviceRanks.mapIdx fun i s => candidate result (i+1) s
      clusters := result.clusterScores.map fun cl =>
        { clusterId := cl.1
          members := members result.clusterLabels serviceNames cl.1
          clusterScore := cl.2 }
      limitations := ["variant: "++cfg.variant.name]++result.limitations++
        if serviceNames.length = 1 then ["single-service fallback: RCD refinement skipped"]
        else [] }

end Analysis

end Torai
end ETraceDiag
