import ETraceDiag.Severity

/-!
# Directions of candidates

A candidate of the report goes up or down by its top indicator. The sign of a deviation is lost in
the severity, and what is read back is whether there is a deviation at all.
-/

namespace ETraceDiag
namespace Torai

open CausalInput LabelTable TimeTable PyValue MaxStack

/-! ## The two sides of a modality -/

section Names

variable {F : Type}

def names (f : Frame F) : List String := f.cols.map Prod.fst

theorem names_restrict (p : ℤ → Bool) (f : Frame F) : names (f.restrict p) = names f :=
  List.map_map

theorem names_dropLastTwo (f : Frame F) : names f.dropLastTwo = names f := List.map_map

theorem names_timed_sublist [DecidableEq F] (f : Frame F) :
    (names f.dropConstant.timed).Sublist (names f) := by
  rw [Frame.timed]
  split
  · exact List.nil_sublist _
  · rw [Frame.dropConstant]
    split
    · exact List.Sublist.refl _
    · exact List.filter_sublist.map _

theorem names_split (injectNs : ℕ) (f : Frame F) :
    names (split injectNs f).normal = names f ∧ names (split injectNs f).anomal = names f :=
  ⟨names_restrict _ f,names_restrict _ f⟩

theorem columns_untimed [Zero F] (f : Frame F) : (untimed f).columns = names f := List.map_map

/-- Two frames with the same names. -/
def frameSides [Zero F] (normal anomal : Frame F) (hsame : names anomal = names normal)
    (hnodup : (names normal).Nodup) : Sides F where
  normal := untimed normal
  anomal := untimed anomal
  columns_eq := by rw [columns_untimed,columns_untimed,hsame]
  nodup := by rwa [columns_untimed]

variable [Zero F] [One F] [Add F]

theorem nodup_logsToTable (logs : List LogEvent) : (names (logsToTable logs : Frame F)).Nodup := by
  rw [logsToTable,names,List.map_map]
  exact nodup_keys_foldl_upsert LogEvent.column (fun _ => []) (fun l => upsert l.sec 0 (·+1)) logs
    List.nodup_nil

theorem nodup_tracesToTables [Python F] (traces : List TraceSpan) :
    (names (tracesToTables traces : Frame F × Frame F).1).Nodup ∧
      (names (tracesToTables traces : Frame F × Frame F).2).Nodup := by
  have happend : ∀ (suffix : String) {svcs : List String}, svcs.Nodup →
      (svcs.map (·++suffix)).Nodup := fun suffix svcs h =>
    h.map fun a b hab => (String.append_left_inj suffix).mp hab
  rw [tracesToTables,names,names,List.map_map,List.map_map]
  exact ⟨happend "_errors" ((sortedSet_pairwise _).imp fun h => h.ne),
    happend "_latency" ((sortedSet_pairwise _).imp fun h => h.ne)⟩

omit [One F] [Add F] in
theorem columns_frameToMetric (frame : TelemetryFrame F) :
    (ofFrame 0 (frameToMetric frame)).columns.Nodup := by
  rw [Table.columns,ofFrame,List.map_map,frameToMetric,List.map_map]
  exact nodup_keys_foldl_upsert pointColumn (fun _ => [])
    (fun p => upsert (pointSec p) p.value fun _ => p.value) (observed frame) List.nodup_nil

/-- Preparing a table drops columns only. -/
theorem columns_preprocess_sublist [Numpy F] (t : Table F) :
    (preprocess t).columns.Sublist t.columns := by
  have hdrop : ∀ u : Table F, (u.dropConstant Numpy.differs).columns.Sublist u.columns := by
    intro u
    rw [Table.dropConstant]
    split
    · exact List.Sublist.refl _
    · exact List.filter_sublist.map _
  have hcells : (t.dropTime.mapCells convertMemMb).columns = t.columns := List.map_map
  exact ((hdrop _).trans (hdrop _)).trans (hcells ▸ List.Sublist.refl _)

def metricSides [Numpy F] (injectNs : ℕ) (metric : Table F) (h : metric.columns.Nodup) :
    Sides F where
  normal := (metricParts injectNs metric).1
  anomal := (metricParts injectNs metric).2
  columns_eq := columns_metricParts injectNs metric
  nodup := by
    rw [metricParts,(columns_matchColumns _ _).1]
    exact (h.sublist (columns_preprocess_sublist (metric.restrict (before injectNs)))).filter _

end Names

section Modalities

variable {F : Type} [Zero F] [One F] [Add F] [Numpy F] [Python F] [DecidableEq F]

def partsTables (parts : Parts F) : Table F × Table F :=
  (untimed parts.normal,untimed parts.anomal)

/-- The tables that the columns of a modality are scored in, unless there are none. -/
def tables (cfg : ToraiConfig) (injectNs : ℕ) (inputs : CausalInputs F) :
    Modality → Option (Table F × Table F)
  | .metric => some (metricParts injectNs (sampledMetric cfg inputs.frame))
  | .log => some (partsTables (logParts injectNs (logsToTable inputs.logs)))
  | .traceLat => (traceParts injectNs (tracesToTables inputs.traces)).map fun t => partsTables t.2
  | .traceErr => (traceParts injectNs (tracesToTables inputs.traces)).map fun t => partsTables t.1

theorem fineRanks_eq (cfg : ToraiConfig) (injectNs : ℕ) (inputs : CausalInputs F) (m : Modality) :
    fineRanks cfg injectNs inputs m = ((tables cfg injectNs inputs m).map fun t =>
      severityScores cfg.variant t.1 t.2).getD [] := by
  cases m with
  | metric => rfl
  | log => rfl
  | traceLat =>
    rw [tables,Option.map_map]
    rfl
  | traceErr =>
    rw [tables,Option.map_map]
    rfl

omit [DecidableEq F] [One F] [Add F] [Numpy F] [Python F] in
theorem exists_sides_of_parts {parts : Parts F} (hsame : names parts.anomal = names parts.normal)
    (hnodup : (names parts.normal).Nodup) :
    ∃ s : Sides F, partsTables parts = (s.normal,s.anomal) :=
  ⟨frameSides parts.normal parts.anomal hsame hnodup,rfl⟩

/-- The tables of a modality have the same columns, each once. -/
theorem exists_sides {cfg : ToraiConfig} {injectNs : ℕ} {inputs : CausalInputs F} {m : Modality}
    {t : Table F × Table F} (h : tables cfg injectNs inputs m = some t) :
    ∃ s : Sides F, t = (s.normal,s.anomal) := by
  have htimed : ∀ {f : Frame F}, (names f).Nodup → (names f.dropConstant.timed).Nodup :=
    fun h => h.sublist (names_timed_sublist _)
  cases m with
  | metric =>
    obtain rfl := Option.some.inj h
    have hnodup : (sampledMetric cfg inputs.frame).columns.Nodup :=
      columns_frameToMetric inputs.frame
    exact ⟨metricSides injectNs (sampledMetric cfg inputs.frame) hnodup,rfl⟩
  | log =>
    obtain rfl := Option.some.inj h
    refine exists_sides_of_parts ((names_split _ _).2.trans (names_split _ _).1.symm) ?_
    rw [logParts,(names_split _ _).1]
    exact htimed (nodup_logsToTable inputs.logs)
  | traceLat =>
    obtain ⟨parts,hparts,rfl⟩ := Option.map_eq_some_iff.mp h
    rw [traceParts] at hparts
    split at hparts
    · cases hparts
    · obtain rfl := Option.some.inj hparts
      refine exists_sides_of_parts ((names_split _ _).2.trans (names_split _ _).1.symm) ?_
      rw [(names_split _ _).1]
      exact htimed (nodup_tracesToTables inputs.traces).2
  | traceErr =>
    obtain ⟨parts,hparts,rfl⟩ := Option.map_eq_some_iff.mp h
    rw [traceParts] at hparts
    split at hparts
    · cases hparts
    · obtain rfl := Option.some.inj hparts
      have hnormal : ∀ f : Frame F,
          names (if 2 < f.length then f.dropLastTwo else f) = names f := by
        intro f
        split
        · exact names_dropLastTwo f
        · rfl
      refine exists_sides_of_parts ?_ ?_
      · exact (names_split _ _).2.trans ((hnormal _).trans (names_split _ _).1).symm
      · dsimp only
        rw [hnormal,(names_split _ _).1]
        exact htimed (nodup_tracesToTables inputs.traces).1

end Modalities

/-! ## What determines a severity -/

section Direction

variable {K : Type} [Field K] [LinearOrder K] [IsStrictOrderedRing K] [Numpy K] [Python K]
  [ExactNumpy K] [DecidableEq K]

/-- The first of the anomalous values that are furthest from the normal mean. -/
def determining (normal anomal : List K) : Option K :=
  anomal[argmax ((zScores ExactNumpy.root .fast normal anomal).map fun z => |z|)]?

/-- The column of an indicator has a certain mean, and a certain value determines its severity. -/
def Determines (cfg : ToraiConfig) (injectNs : ℕ) (inputs : CausalInputs K)
    (indicator : String × K) (mean value : K) : Prop :=
  ∃ (m : Modality) (t : Sides K), tables cfg injectNs inputs m = some (t.normal,t.anomal) ∧
    indicator ∈ severityScores cfg.variant t.normal t.anomal ∧
    ∃ f g, (indicator.1,f) ∈ t.normal.cols ∧ (indicator.1,g) ∈ t.anomal.cols ∧
      mean = meanOf (t.normal.values f) ∧
      determining (t.normal.values f) (t.anomal.values g) = some value

omit [DecidableEq K] in
theorem severityScores_sides (variant : Variant) (t : Sides K) :
    severityScores variant t.normal t.anomal = severityFast t.normal t.anomal := by
  rw [severityScores_eq]
  cases variant with
  | faithful => rw [severityFaithful_eq,severityFast_eq]
  | fast => rfl

omit [DecidableEq K] in
/-- The severity of an indicator is a share of what its column gets. -/
theorem exists_column {variant : Variant} {t : Sides K} {indicator : String × K}
    (h : indicator ∈ severityScores variant t.normal t.anomal) :
    t.normal.isEmpty = false ∧ t.anomal.isEmpty = false ∧ ∃ f g,
      (indicator.1,f) ∈ t.normal.cols ∧ (indicator.1,g) ∈ t.anomal.cols ∧
      indicator.2 = maxAbs (zScores ExactNumpy.root .fast (t.normal.values f) (t.anomal.values g))/
        total (sortDesc (rawScores t)) := by
  rw [severityScores_sides,severityFast_eq] at h
  split at h
  · cases h
  · next hempty =>
    rw [Bool.or_eq_true,not_or,Bool.not_eq_true,Bool.not_eq_true] at hempty
    obtain ⟨x,hx,rfl⟩ := mem_shares.mp h
    obtain ⟨c,d,hzip,rfl⟩ := mem_rawScores.mp ((sortDesc_perm _).mem_iff.mp hx)
    obtain ⟨i,hi⟩ := List.mem_iff_getElem?.mp hzip
    obtain ⟨hc,hd⟩ := List.getElem?_zip_eq_some.mp hi
    have hname : d.1 = c.1 := by
      have hcolumn := congrArg (·[i]?) t.columns_eq
      simp only [Table.columns,List.getElem?_map,hc,hd,Option.map_some] at hcolumn
      exact Option.some.inj hcolumn
    exact ⟨hempty.1,hempty.2,c.2,d.2,List.mem_of_getElem? hc,
      hname ▸ List.mem_of_getElem? hd,rfl⟩

/-- Where a value is away from the mean, the severity of its column is positive. -/
theorem severity_pos {cfg : ToraiConfig} {injectNs : ℕ} {inputs : CausalInputs K}
    {indicator : String × K} {mean value : K}
    (h : Determines cfg injectNs inputs indicator mean value) (hne : value ≠ mean) :
    0 < indicator.2 := by
  obtain ⟨m,t,-,hscore,f,g,hf,hg,rfl,hvalue⟩ := h
  obtain ⟨-,-,f',g',hf',hg',hshare⟩ := exists_column hscore
  have hanomal : t.anomal.columns.Nodup := t.columns_eq ▸ t.nodup
  obtain rfl : f' = f := Option.some.inj
    ((lookup_of_mem t.nodup hf').symm.trans (lookup_of_mem t.nodup hf))
  obtain rfl : g' = g := Option.some.inj
    ((lookup_of_mem hanomal hg').symm.trans (lookup_of_mem hanomal hg))
  have hmem : (value-meanOf (t.normal.values f'))/scale ExactNumpy.root .fast (t.normal.values f') ∈
      zScores ExactNumpy.root .fast (t.normal.values f') (t.anomal.values g') :=
    List.mem_map_of_mem (List.mem_of_getElem? hvalue)
  have hscale := scale_pos ExactNumpy.root_nonneg (t.normal.values f')
  have hz : 0 < |(value-meanOf (t.normal.values f'))/
      scale ExactNumpy.root .fast (t.normal.values f')| :=
    abs_pos.mpr (div_ne_zero (sub_ne_zero.mpr hne) hscale.ne')
  rw [hshare]
  exact div_pos (hz.trans_le (abs_le_maxAbs hmem)) (total_pos (rawScores_nonneg t))

/-- Every scored column has a value that determines its severity. -/
theorem exists_determines {cfg : ToraiConfig} {injectNs : ℕ} {inputs : CausalInputs K}
    {m : Modality} {indicator : String × K} (h : indicator ∈ fineRanks cfg injectNs inputs m) :
    ∃ mean value, Determines cfg injectNs inputs indicator mean value := by
  rw [fineRanks_eq] at h
  cases htables : tables cfg injectNs inputs m with
  | none =>
    rw [htables] at h
    cases h
  | some u =>
    rw [htables] at h
    obtain ⟨t,rfl⟩ := exists_sides htables
    obtain ⟨-,hanomal,f,g,hf,hg,-⟩ := exists_column h
    have hvalues : t.anomal.values g ≠ [] := by
      rw [Table.isEmpty,Bool.or_eq_false_iff,List.isEmpty_eq_false_iff] at hanomal
      exact fun hnil => hanomal.1 (List.map_eq_nil_iff.mp hnil)
    have hlt : argmax ((zScores ExactNumpy.root .fast (t.normal.values f)
        (t.anomal.values g)).map fun z => |z|) < (t.anomal.values g).length := by
      have hzs : ((zScores ExactNumpy.root .fast (t.normal.values f)
          (t.anomal.values g)).map fun z => |z|) ≠ [] := by
        simpa [zScores] using hvalues
      have hlen := argmax_lt hzs
      rwa [List.length_map,zScores,List.length_map] at hlen
    exact ⟨_,_,m,t,htables,h,f,g,hf,hg,rfl,List.getElem?_eq_getElem hlt⟩

/-! ## What the report says -/

/-- The indicator that the direction of a service is read off. -/
def topIndicator (ext : External K) (cfg : ToraiConfig) (injectNs : ℕ) (inputs : CausalInputs K)
    (service : String) : Option (String × K) :=
  (analyzeTables ext cfg injectNs inputs).bind fun result =>
    ((result.indicatorRanks.lookup service).getD []).head?

/-- The mean of the column of the top indicator, and the value that determines its severity. -/
def TopValue (ext : External K) (cfg : ToraiConfig) (injectNs : ℕ) (inputs : CausalInputs K)
    (service : String) (mean value : K) : Prop :=
  ∃ indicator, topIndicator ext cfg injectNs inputs service = some indicator ∧
    Determines cfg injectNs inputs indicator mean value

variable {ext : External K} {cfg : ToraiConfig} {injectNs : ℕ} {inputs : CausalInputs K}

omit [LinearOrder K] [IsStrictOrderedRing K] [ExactNumpy K] in
theorem topIndicator_mem {service : String} {indicator : String × K}
    (h : topIndicator ext cfg injectNs inputs service = some indicator) :
    ∃ m, indicator ∈ fineRanks cfg injectNs inputs m := by
  obtain ⟨result,hresult,hhead⟩ := Option.bind_eq_some_iff.mp h
  obtain ⟨services,-,rfl⟩ := Option.map_eq_some_iff.mp hresult
  have hmem := List.mem_of_mem_head? hhead
  split at hmem
  · cases hmem
  · cases hlookup : (services.map fun s => (s,sortDesc
        ((fineRanks cfg injectNs inputs .metric++fineRanks cfg injectNs inputs .log++
          fineRanks cfg injectNs inputs .traceErr++fineRanks cfg injectNs inputs .traceLat).filter
            fun i => firstPart i.1 = s))).lookup service with
    | none =>
      dsimp only at hmem
      rw [hlookup] at hmem
      cases hmem
    | some inds =>
      dsimp only at hmem
      rw [hlookup] at hmem
      obtain ⟨l₁,l₂,hl,-⟩ := List.lookup_eq_some_iff.mp hlookup
      have hentry : (service,inds) ∈ services.map fun s => (s,sortDesc
          ((fineRanks cfg injectNs inputs .metric++fineRanks cfg injectNs inputs .log++
            fineRanks cfg injectNs inputs .traceErr++fineRanks cfg injectNs inputs .traceLat).filter
              fun i => firstPart i.1 = s)) := by
        rw [hl]
        exact List.mem_append_right _ List.mem_cons_self
      obtain ⟨s,-,heq⟩ := List.mem_map.mp hentry
      obtain ⟨rfl,rfl⟩ := Prod.mk.inj heq
      obtain ⟨hall,-⟩ := List.mem_filter.mp ((sortDesc_perm _).mem_iff.mp hmem)
      simp only [List.mem_append] at hall
      rcases hall with ((h | h) | h) | h <;> exact ⟨_,h⟩

/-- The direction of a candidate is read off the size of a severity. -/
theorem direction_eq {incident : IncidentWindow K} {report : CausalReport K}
    (hreport : analyze ext cfg inputs incident = some report) {c : RootCauseCandidate K}
    (hc : c ∈ report.candidates) {indicator : String × K}
    (htop : topIndicator ext cfg incident.startTsNs inputs c.entityId = some indicator) :
    c.direction = if 0 < indicator.2 then .up else .down := by
  obtain ⟨result,hresult,rfl⟩ := Option.map_eq_some_iff.mp hreport
  obtain ⟨i,hi,rfl⟩ := List.mem_mapIdx.mp hc
  obtain ⟨result',hresult',hhead⟩ := Option.bind_eq_some_iff.mp htop
  obtain rfl := Option.some.inj (hresult.symm.trans hresult')
  rw [candidate] at hhead ⊢
  dsimp only at hhead ⊢
  generalize (result.indicatorRanks.lookup (stripSuffix result.serviceRanks[i])).getD [] = inds
    at hhead ⊢
  cases inds with
  | nil => cases hhead
  | cons ind inds =>
    obtain rfl := Option.some.inj hhead
    rw [direction,ExactNumpy.lt_eq]
    simp only [decide_eq_true_eq]

end Direction

/-- A metric that collapses in the third second. -/
def collapsing : CausalInputs ℚ where
  frame := ⟨everySecond ["web"] [5,7,3,1],by decide,by decide⟩
  logs := []
  traces := []
  incident := none

theorem frameToMetric_collapsing : frameToMetric collapsing.frame =
    { time := some [0,1,2,3], cols := [("web_cpu",[5,7,3,1])] } := by
  rw [frameToMetric,sortedSet_eq [0,1,2,3] (by decide) (by decide)]
  exact congrArg (Frame.mk (some [0,1,2,3])) (by with_unfolding_all decide)

theorem fineRanks_collapsing : fineRanks everyRow 2000000000 collapsing = fun m =>
    if m = .metric then [("web_cpu",1)] else [] := by
  funext m
  cases m with
  | metric =>
    rw [fineRanks,sampledMetric,frameToMetric_collapsing]
    with_unfolding_all decide
  | log => with_unfolding_all decide
  | traceLat => with_unfolding_all decide
  | traceErr => with_unfolding_all decide

theorem analyzeTables_collapsing :
    (analyzeTables oneCluster everyRow 2000000000 collapsing).map
      (fun r => (r.serviceRanks,r.indicatorRanks)) =
        some (["web_A"],[("web",[("web_cpu",1)])]) := by
  rw [analyzeTables,fineRanks_collapsing]
  with_unfolding_all decide

/-- The columns of the metric tables, with their values. -/
theorem columns_collapsing :
    (metricParts 2000000000 (sampledMetric everyRow collapsing.frame)).1.cols.map
        (fun c => (c.1,(metricParts 2000000000 (sampledMetric everyRow collapsing.frame)).1.values
          c.2)) = [("web_cpu",[5,7])] ∧
      (metricParts 2000000000 (sampledMetric everyRow collapsing.frame)).2.cols.map
        (fun c => (c.1,(metricParts 2000000000 (sampledMetric everyRow collapsing.frame)).2.values
          c.2)) = [("web_cpu",[3,1])] := by
  rw [sampledMetric,frameToMetric_collapsing]
  with_unfolding_all decide

theorem topIndicator_collapsing :
    topIndicator oneCluster everyRow 2000000000 collapsing "web" = some ("web_cpu",1) := by
  obtain ⟨result,hresult,heq⟩ := Option.map_eq_some_iff.mp analyzeTables_collapsing
  rw [topIndicator,hresult,Option.bind_some,(Prod.mk.inj heq).2]
  rfl

theorem topValue_collapsing : TopValue oneCluster everyRow 2000000000 collapsing "web" 6 1 := by
  have htables : tables everyRow 2000000000 collapsing .metric =
      some (metricParts 2000000000 (sampledMetric everyRow collapsing.frame)) := rfl
  obtain ⟨t,ht⟩ := exists_sides htables
  have hscore : ("web_cpu",(1 : ℚ)) ∈ severityScores everyRow.variant t.normal t.anomal := by
    have hmetric : ("web_cpu",(1 : ℚ)) ∈ fineRanks everyRow 2000000000 collapsing .metric := by
      rw [fineRanks_collapsing]
      exact List.mem_singleton_self _
    rw [fineRanks_eq,htables,ht] at hmetric
    exact hmetric
  obtain ⟨-,-,f,g,hf,hg,-⟩ := exists_column hscore
  obtain ⟨hnormal,hanomal⟩ := columns_collapsing
  rw [ht] at hnormal hanomal
  have hvalues : t.normal.values f = [5,7] := by
    have hmem := List.mem_map_of_mem (f:=fun c => (c.1,t.normal.values c.2)) hf
    rw [hnormal,List.mem_singleton] at hmem
    exact (Prod.mk.inj hmem).2
  have hvalues' : t.anomal.values g = [3,1] := by
    have hmem := List.mem_map_of_mem (f:=fun c => (c.1,t.anomal.values c.2)) hg
    rw [hanomal,List.mem_singleton] at hmem
    exact (Prod.mk.inj hmem).2
  refine ⟨("web_cpu",1),topIndicator_collapsing,.metric,t,ht ▸ htables,hscore,f,g,hf,hg,?_,?_⟩
  · rw [hvalues]
    with_unfolding_all decide
  · rw [hvalues,hvalues']
    with_unfolding_all decide

end Torai
end ETraceDiag
