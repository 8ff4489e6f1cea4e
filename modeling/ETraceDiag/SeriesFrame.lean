import ETraceDiag.CausalInput

/-!
# The series of a bundle as a telemetry frame

When the rows that `BuildEvidence` puts into `series` are told apart by entity, metric and time,
and what `evidence_to_inputs` makes of them.
-/

namespace ETraceDiag
namespace SeriesFrame

open JsonValue PyValue SqlTable GroupFold EvidenceStore CausalInput

variable {F : Type}

/-- What a row of the series is about. -/
def rowId (row : JsonValue F) :
    Option (JsonValue F) × Option (JsonValue F) × Option (JsonValue F) :=
  (get? "entity" row,get? "metric" row,get? "ts_ns" row)

/-- The frame of a body, as `evidence_to_inputs` builds it. -/
def evidenceFrame [Python F] (body : JsonValue F) : Except Raise (TelemetryFrame F) := do
  let series ← pyIter (pyOr (← pyGet "series" (.arr []) body) (.arr []))
  let points ← (series.filter isDict).mapM pointOrSkip
  telemetryFrame ((points.filterMap id).mergeSort fun p q => p.tsNs ≤ q.tsNs)

theorem evidenceToInputs_frame [Python F] [OfScientific F] {body : JsonValue F}
    {inputs : CausalInputs F} (h : evidenceToInputs body = .ok inputs) :
    evidenceFrame body = .ok inputs.frame := by
  unfold evidenceToInputs at h
  obtain ⟨got,hgot,h⟩ := bind_eq_ok h
  obtain ⟨series,hseries,h⟩ := bind_eq_ok h
  obtain ⟨points,hpoints,h⟩ := bind_eq_ok h
  obtain ⟨_,-,h⟩ := bind_eq_ok h
  obtain ⟨_,-,h⟩ := bind_eq_ok h
  obtain ⟨_,-,h⟩ := bind_eq_ok h
  obtain ⟨_,-,h⟩ := bind_eq_ok h
  obtain ⟨_,-,h⟩ := bind_eq_ok h
  obtain ⟨_,-,h⟩ := bind_eq_ok h
  obtain ⟨_,-,h⟩ := bind_eq_ok h
  obtain ⟨_,-,h⟩ := bind_eq_ok h
  obtain ⟨frame,hframe,h⟩ := bind_eq_ok h
  rw [evidenceFrame,hgot]
  change (pyIter (pyOr got (.arr [])) >>= _) = _
  rw [hseries]
  change ((series.filter isDict).mapM pointOrSkip >>= _) = _
  rw [hpoints,← Except.ok.inj h]
  exact hframe

/-! ## The rows by what they are about -/

/-- An entity, a metric and a time. -/
abbrev Id := String × String × UInt64

def jsonId (i : Id) : Option (JsonValue F) × Option (JsonValue F) × Option (JsonValue F) :=
  (some (.str i.1),some (.str i.2.1),some (u64 i.2.2))

theorem jsonId_injective : Function.Injective (jsonId (F:=F)) := by
  intro a b h
  simp only [jsonId,Prod.mk.injEq,Option.some.injEq,str.injEq,u64_inj] at h
  exact Prod.ext h.1 (Prod.ext h.2.1 h.2.2)

def procEntity (tgid : UInt32) : String := "proc"++toString tgid.toNat

def threadEntity (tid : UInt32) : String := "t"++toString tid.toNat

/-- Every metric for every entity and time. -/
def grid (metrics : List String) (cells : List (String × UInt64)) : List Id :=
  cells.flatMap fun cell => metrics.map fun m => (cell.1,m,cell.2)

def procCells (ps : List SeriesPoint) : List (String × UInt64) :=
  (perTsProc ps).map fun e => (procEntity e.1.2,e.1.1)

def threadCells (ps : List SeriesPoint) : List (String × UInt64) :=
  (rankedTids ps).flatMap fun tid => (ps.filter (·.tid = tid)).map fun p => (threadEntity tid,p.ts)

def hostCells [Double F] (table : List (Row F)) : List (String × UInt64) :=
  table.map fun row => ("host",(key "ts_ns" row).toUInt64)

def procIds (ps : List SeriesPoint) : List Id := grid (Metric.all.map Metric.name) (procCells ps)

def threadIds (ps : List SeriesPoint) : List Id :=
  grid (Metric.thread.map Metric.name) (threadCells ps)

def hostIds [Double F] (table : List (Row F)) : List Id :=
  grid ["kswapd_active","direct_reclaim","nr_reclaimed"] (hostCells table)

/-- The points of an episode, as `BuildEvidence` reads them. -/
def storedPoints [Double F] (db : Db F) (n : Int32) : List SeriesPoint :=
  ((ofOrdinal n db.deepSeries).mergeSort seriesOrder).map seriesPoint

theorem map_rowId_procSeries (ps : List SeriesPoint) :
    (procSeries ps : List (JsonValue F)).map rowId = (procIds ps).map jsonId := by
  simp only [procSeries,procIds,grid,procCells,List.map_flatMap,List.flatMap_map,List.map_map]
  rfl

theorem perTid_getD (ps : List SeriesPoint) (tid : UInt32) :
    ((groupFold compare SeriesPoint.tid (fun l p => l++[p]) [] ps)[tid]?).getD [] =
      ps.filter (·.tid = tid) := by
  rw [groupFold,getElem?_foldl]
  split
  · next hnil => rw [hnil]; rfl
  · rw [foldl_append]
    rfl

theorem map_rowId_threadSeries (ps : List SeriesPoint) :
    (threadSeries ps : List (JsonValue F)).map rowId = (threadIds ps).map jsonId := by
  simp only [threadSeries,threadIds,grid,threadCells,perTid_getD,List.map_flatMap,
    List.flatMap_assoc,List.flatMap_map,List.map_map]
  rfl

theorem map_rowId_hostSeries [Double F] (table : List (Row F)) :
    (table.flatMap hostSeries).map rowId = (hostIds table).map jsonId := by
  simp only [hostIds,grid,hostCells,List.map_flatMap,List.flatMap_map,List.map_map]
  rfl

theorem map_rowId_series [Micros F] (db : Db F) (n : Int32) :
    (buildEvidence db n).series.map rowId =
      (procIds (storedPoints db n)++threadIds (storedPoints db n)++
        hostIds (byTs db.memoryEvents)).map jsonId := by
  rw [List.map_append,List.map_append,← map_rowId_procSeries,← map_rowId_threadSeries,
    ← map_rowId_hostSeries,← List.map_append,← List.map_append]
  rfl

/-! ## Rows told apart -/

theorem nodup_grid {metrics : List String} (hmetrics : metrics.Nodup) (hne : metrics ≠ [])
    (cells : List (String × UInt64)) : (grid metrics cells).Nodup ↔ cells.Nodup := by
  have hinner : ∀ cell ∈ cells,
      (metrics.map fun m => ((cell.1,m,cell.2) : Id)).Nodup := by
    intro cell _
    refine hmetrics.map fun m m' h => ?_
    exact (Prod.mk.inj (Prod.mk.inj h).2).1
  have hpair : ∀ c c' : String × UInt64, List.Disjoint (metrics.map fun m => ((c.1,m,c.2) : Id))
      (metrics.map fun m => (c'.1,m,c'.2)) ↔ c ≠ c' := by
    intro c c'
    constructor
    · rintro h rfl
      obtain ⟨m,hm⟩ := List.exists_mem_of_ne_nil metrics hne
      exact h (List.mem_map_of_mem hm) (List.mem_map_of_mem hm)
    · intro hcc i hi hi'
      obtain ⟨m,_,rfl⟩ := List.mem_map.mp hi
      obtain ⟨m',_,heq⟩ := List.mem_map.mp hi'
      simp only [Prod.mk.injEq] at heq
      exact hcc (Prod.ext heq.1.symm heq.2.2.symm)
  rw [grid,List.nodup_flatMap,and_iff_right hinner]
  constructor
  · exact fun h => h.imp fun {c c'} hd => (hpair c c').mp hd
  · exact fun h => h.imp fun {c c'} hd => (hpair c c').mpr hd

theorem toString_nat_inj {m n : ℕ} (h : (toString m).toList = (toString n).toList) : m = n := by
  have hdigits : Nat.toDigits 10 m = Nat.toDigits 10 n := by
    rw [← Nat.toList_repr,← Nat.toList_repr]
    exact h
  rw [← Nat.ofDigitChars_toDigits (b:=10) (n:=m) (by decide) (by decide),hdigits,
    Nat.ofDigitChars_toDigits (by decide) (by decide)]

theorem procEntity_injective : Function.Injective procEntity := by
  intro a b h
  have hlist := congrArg String.toList h
  simp only [procEntity,String.toList_append,List.append_cancel_left_eq] at hlist
  exact UInt32.toNat_inj.mp (toString_nat_inj hlist)

theorem threadEntity_injective : Function.Injective threadEntity := by
  intro a b h
  have hlist := congrArg String.toList h
  simp only [threadEntity,String.toList_append,List.append_cancel_left_eq] at hlist
  exact UInt32.toNat_inj.mp (toString_nat_inj hlist)

theorem procEntity_head (tgid : UInt32) : (procEntity tgid).toList.head? = some 'p' := by
  simp [procEntity,String.toList_append]

theorem threadEntity_head (tid : UInt32) : (threadEntity tid).toList.head? = some 't' := by
  simp [threadEntity,String.toList_append]

theorem nodup_procCells (ps : List SeriesPoint) : (procCells ps).Nodup := by
  have hkeys : ((perTsProc ps).map Prod.fst).Nodup := nodup_keys_toList _
  have hcells : procCells ps = ((perTsProc ps).map Prod.fst).map fun k => (procEntity k.2,k.1) := by
    rw [procCells,List.map_map]
    rfl
  rw [hcells]
  refine hkeys.map fun k k' h => ?_
  obtain ⟨hentity,hts⟩ := Prod.mk.inj h
  exact Prod.ext hts (procEntity_injective hentity)

theorem nodup_rankedTids (ps : List SeriesPoint) : (rankedTids ps).Nodup := by
  have hkeys := nodup_keys_toList
    (groupFold compare SeriesPoint.tid (fun a p => a+p.activity) (0 : UInt64) ps)
  have hperm := (List.mergeSort_perm (groupFold compare SeriesPoint.tid
    (fun a p => a+p.activity) (0 : UInt64) ps).toList fun a b => b.2 ≤ a.2).map Prod.fst
  exact (hperm.nodup_iff.mpr hkeys).sublist ((List.take_sublist _ _).map _)

/-- Only a busy thread with two rows of one time repeats itself. -/
theorem nodup_threadCells_iff (ps : List SeriesPoint) : (threadCells ps).Nodup ↔
    ∀ tid ∈ rankedTids ps, ((ps.filter (·.tid = tid)).map SeriesPoint.ts).Nodup := by
  have hinner : ∀ tid, ((ps.filter (·.tid = tid)).map fun p => (threadEntity tid,p.ts)).Nodup ↔
      ((ps.filter (·.tid = tid)).map SeriesPoint.ts).Nodup := by
    intro tid
    have hmap : ((ps.filter (·.tid = tid)).map fun p => (threadEntity tid,p.ts)) =
        ((ps.filter (·.tid = tid)).map SeriesPoint.ts).map fun ts => (threadEntity tid,ts) := by
      rw [List.map_map]
      rfl
    rw [hmap]
    exact List.nodup_map_iff fun ts ts' h => (Prod.mk.inj h).2
  rw [threadCells,List.nodup_flatMap]
  constructor
  · exact fun h tid htid => (hinner tid).mp (h.1 tid htid)
  · intro h
    refine ⟨fun tid htid => (hinner tid).mpr (h tid htid),(nodup_rankedTids ps).imp ?_⟩
    intro tid tid' hne cell hcell hcell'
    obtain ⟨p,_,rfl⟩ := List.mem_map.mp hcell
    obtain ⟨p',_,heq⟩ := List.mem_map.mp hcell'
    exact hne (threadEntity_injective (Prod.mk.inj heq).1).symm

theorem nodup_hostCells [Double F] {table : List (Row F)}
    (h : table.Pairwise fun a b => key "ts_ns" a ≠ key "ts_ns" b) : (hostCells table).Nodup := by
  rw [hostCells,List.Nodup,List.pairwise_map]
  refine h.imp fun {a b} hne heq => hne ?_
  have hback := congrArg UInt64.toInt64 (Prod.mk.inj heq).2
  simpa using hback

theorem mem_grid {metrics : List String} {cells : List (String × UInt64)} {i : Id}
    (h : i ∈ grid metrics cells) : ∃ cell ∈ cells, i.1 = cell.1 := by
  obtain ⟨cell,hcell,hi⟩ := List.mem_flatMap.mp h
  obtain ⟨m,_,rfl⟩ := List.mem_map.mp hi
  exact ⟨cell,hcell,rfl⟩

/-- Of the three parts of the series only the threads can repeat a row. -/
theorem nodup_series_iff [Micros F] {db : Db F}
    (hmemory : db.memoryEvents.Pairwise fun a b => key "ts_ns" a ≠ key "ts_ns" b) (n : Int32) :
    ((buildEvidence db n).series.map rowId).Nodup ↔
      ∀ tid ∈ rankedTids (storedPoints db n),
        (((storedPoints db n).filter (·.tid = tid)).map SeriesPoint.ts).Nodup := by
  have hproc : (procIds (storedPoints db n)).Nodup :=
    (nodup_grid (by decide) (by decide) _).mpr (nodup_procCells _)
  have hthread : (threadIds (storedPoints db n)).Nodup ↔ (threadCells (storedPoints db n)).Nodup :=
    nodup_grid (by decide) (by decide) _
  have hhost : (hostIds (byTs db.memoryEvents)).Nodup := by
    refine (nodup_grid (by decide) (by decide) _).mpr (nodup_hostCells ?_)
    exact (List.mergeSort_perm _ _).pairwise_iff (fun {a b} h => h.symm) |>.mpr hmemory
  have hprocHead : ∀ i ∈ procIds (storedPoints db n), i.1.toList.head? = some 'p' := by
    intro i hi
    obtain ⟨cell,hcell,heq⟩ := mem_grid hi
    obtain ⟨e,_,rfl⟩ := List.mem_map.mp hcell
    rw [heq]
    exact procEntity_head _
  have hthreadHead : ∀ i ∈ threadIds (storedPoints db n), i.1.toList.head? = some 't' := by
    intro i hi
    obtain ⟨cell,hcell,heq⟩ := mem_grid hi
    obtain ⟨tid,_,hcell⟩ := List.mem_flatMap.mp hcell
    obtain ⟨p,_,rfl⟩ := List.mem_map.mp hcell
    rw [heq]
    exact threadEntity_head _
  have hhostHead : ∀ i ∈ hostIds (byTs db.memoryEvents), i.1.toList.head? = some 'h' := by
    intro i hi
    obtain ⟨cell,hcell,heq⟩ := mem_grid hi
    obtain ⟨row,_,rfl⟩ := List.mem_map.mp hcell
    rw [heq]
    show ("host" : String).toList.head? = some 'h'
    decide
  rw [map_rowId_series,List.nodup_map_iff jsonId_injective,← nodup_threadCells_iff,← hthread,
    List.nodup_append,List.nodup_append]
  constructor
  · exact fun h => h.1.2.1
  · intro h
    refine ⟨⟨hproc,h,fun i hi j hj heq => ?_⟩,hhost,fun i hi j hj heq => ?_⟩
    · have hhead := (hprocHead i hi).symm.trans (heq ▸ hthreadHead j hj)
      exact absurd hhead (by decide)
    · rcases List.mem_append.mp hi with hi | hi
      · have hhead := (hprocHead i hi).symm.trans (heq ▸ hhostHead j hj)
        exact absurd hhead (by decide)
      · have hhead := (hthreadHead i hi).symm.trans (heq ▸ hhostHead j hj)
        exact absurd hhead (by decide)

/-! ## The frame -/

section Decoder

variable [Python F]

/-- A 64-bit integer has a float. -/
def FloatsWords (F : Type) [Python F] : Prop :=
  ∀ i : ℤ, -2^64 < i → i < 2^64 → ∃ x : F, Python.ofInt i = .ok x

/-- The key of the point that a row becomes. -/
def idKey (i : Id) : String × String × ℕ × Quality := (i.1,i.2.1,i.2.2.toNat,.observed)

theorem idKey_injective : Function.Injective idKey := by
  intro a b h
  simp only [idKey,Prod.mk.injEq] at h
  exact Prod.ext h.1 (Prod.ext h.2.1 (UInt64.toNat_inj.mp h.2.2.1))

theorem pointOrSkip_point (hfloat : FloatsWords F) (entity metric : String) (ts : UInt64) {i : ℤ}
    (hlow : -2^64 < i) (hhigh : i < 2^64) :
    ∃ p : TelemetryPoint F, pointOrSkip (point entity metric ts (.int i)) = .ok (some p) ∧
      p.key = idKey (entity,metric,ts) := by
  obtain ⟨x,hx⟩ := hfloat i hlow hhigh
  have hts : nonneg (ts.toNat : ℤ) = .ok ts.toNat := by
    rw [nonneg,if_pos (Int.natCast_nonneg _),Int.toNat_natCast]
  have hpoint : telemetryPoint (point entity metric ts (.int i)) =
      .ok ⟨ts.toNat,entity,.process,metric,x,.observed⟩ := by
    unfold telemetryPoint
    change (Python.ofInt i >>= fun value : F => nonneg (ts.toNat : ℤ) >>= fun tsNs => _) = _
    rw [hx,hts]
    rfl
  exact ⟨_,by rw [pointOrSkip,hpoint],rfl⟩

omit [Python F] in
/-- The rows of a series hold words. -/
theorem mem_series [Micros F] {db : Db F} {n : Int32} {row : JsonValue F}
    (h : row ∈ (buildEvidence db n).series) : ∃ entity metric ts, ∃ i : ℤ,
      row = point entity metric ts (.int i) ∧ -2^64 < i ∧ i < 2^64 := by
  have hword : ∀ v : UInt64, -2^64 < (v.toNat : ℤ) ∧ (v.toNat : ℤ) < 2^64 := by
    intro v
    have hv := v.toNat_lt
    omega
  rcases List.mem_append.mp h with h | h
  · rcases List.mem_append.mp h with h | h
    · obtain ⟨e,_,h⟩ := List.mem_flatMap.mp h
      obtain ⟨m,_,rfl⟩ := List.mem_map.mp h
      exact ⟨_,_,_,_,rfl,hword _⟩
    · obtain ⟨tid,_,h⟩ := List.mem_flatMap.mp h
      obtain ⟨p,_,h⟩ := List.mem_flatMap.mp h
      obtain ⟨m,_,rfl⟩ := List.mem_map.mp h
      exact ⟨_,_,_,_,rfl,hword _⟩
  · obtain ⟨stored,_,h⟩ := List.mem_flatMap.mp h
    have hint : ∀ v : Int64, -2^64 < v.toInt ∧ v.toInt < 2^64 := by
      intro v
      have hlow := v.le_toInt
      have hhigh := v.toInt_lt
      omega
    rcases List.mem_cons.mp h with rfl | h
    · exact ⟨_,_,_,_,rfl,hint _⟩
    · rcases List.mem_pair.mp h with rfl | rfl
      · exact ⟨_,_,_,_,rfl,hint _⟩
      · exact ⟨_,_,_,_,rfl,hint _⟩

omit [Python F] in
/-- The points have the keys of the rows, one by one. -/
theorem exists_ids {rows : List (JsonValue F)} {points : List (Option (TelemetryPoint F))}
    (h : List.Forall₂ (fun row out => ∃ p i, out = some p ∧ rowId row = jsonId i ∧
      p.key = idKey i) rows points) :
    ∃ ids : List Id, rows.map rowId = ids.map jsonId ∧
      (points.filterMap id).map TelemetryPoint.key = ids.map idKey := by
  induction h with
  | nil => exact ⟨[],rfl,rfl⟩
  | cons hrow _ ih =>
    obtain ⟨p,i,rfl,hid,hkey⟩ := hrow
    obtain ⟨ids,hrows,hpoints⟩ := ih
    refine ⟨i::ids,?_,?_⟩
    · rw [List.map_cons,List.map_cons,hid,hrows]
    · rw [List.filterMap_cons_some (show id (some p) = some p from rfl),List.map_cons,
        List.map_cons,hkey,hpoints]

/-- The frame of a bundle can be built exactly when the series tells no row twice. -/
theorem evidenceFrame_iff [Micros F] (hfloat : FloatsWords F) (ctx : PhaseManager.CausalContext F)
    (db : Db F) (n : Int32) :
    (∃ f, evidenceFrame (wire Python.finite (evidenceBody ctx (buildEvidence db n))) = .ok f) ↔
      ((buildEvidence db n).series.map rowId).Nodup := by
  let rows := (buildEvidence db n).series.map (wire Python.finite)
  have hwired : ∀ row ∈ rows, ∃ entity metric ts, ∃ i : ℤ,
      row = point entity metric ts (.int i) ∧ -2^64 < i ∧ i < 2^64 := by
    intro row hrow
    obtain ⟨stored,hstored,rfl⟩ := List.mem_map.mp hrow
    obtain ⟨entity,metric,ts,i,rfl,hi⟩ := mem_series hstored
    exact ⟨entity,metric,ts,i,rfl,hi⟩
  have hsame : rows.map rowId = (buildEvidence db n).series.map rowId := by
    rw [List.map_map]
    refine List.map_congr_left fun row hrow => ?_
    obtain ⟨entity,metric,ts,i,rfl,_⟩ := mem_series hrow
    rfl
  have hdict : rows.filter isDict = rows := by
    refine List.filter_eq_self.mpr fun row hrow => ?_
    obtain ⟨entity,metric,ts,i,rfl,_⟩ := hwired row hrow
    rfl
  obtain ⟨points,hpoints,hall⟩ := exists_mapM_ok (f:=pointOrSkip)
    (P:=fun row out => ∃ p i, out = some p ∧ rowId row = jsonId i ∧ p.key = idKey i) rows
    fun row hrow => by
      obtain ⟨entity,metric,ts,i,rfl,hlow,hhigh⟩ := hwired row hrow
      obtain ⟨p,hp,hkey⟩ := pointOrSkip_point hfloat entity metric ts hlow hhigh
      exact ⟨some p,hp,p,(entity,metric,ts),rfl,rfl,hkey⟩
  obtain ⟨ids,hrows,hkeys⟩ := exists_ids (hall.imp fun row out h => h.2)
  have hframe : evidenceFrame (wire Python.finite (evidenceBody ctx (buildEvidence db n))) =
      telemetryFrame ((points.filterMap id).mergeSort fun p q => p.tsNs ≤ q.tsNs) := by
    have hbody : evidenceFrame (wire Python.finite (evidenceBody ctx (buildEvidence db n))) =
        (pyIter (pyOr (.arr (wireList Python.finite (buildEvidence db n).series)) (.arr [])) >>=
          fun series => (series.filter isDict).mapM pointOrSkip >>= fun points =>
            telemetryFrame ((points.filterMap id).mergeSort fun p q => p.tsNs ≤ q.tsNs)) := rfl
    rw [hbody,pyOr_arr,wireList_eq_map]
    change ((rows.filter isDict).mapM pointOrSkip >>= _) = _
    rw [hdict,hpoints]
    rfl
  rw [hframe,telemetryFrame_ok_iff,hkeys,← hsame,hrows,List.nodup_map_iff idKey_injective,
    List.nodup_map_iff jsonId_injective]

end Decoder

end SeriesFrame
end ETraceDiag
