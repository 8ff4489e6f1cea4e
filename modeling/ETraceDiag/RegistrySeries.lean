import ETraceDiag.DeltaStream
import ETraceDiag.ViewerStore

/-!
# Whether the store is what the registry says

The registry says for every metric from which table, over which columns and by which expression
its points come. The passes are written by hand, each for its own table.
-/

namespace ETraceDiag
namespace RegistrySeries

open MetricRegistry ViewerExtract ViewerStore
open ColumnExpr (eval_select eval_curOnly)

variable {N : Type}

section Spec

variable [ScriptNumber N]

/-! ## What the registry says -/

/-- A point a row, where there is a value. -/
def gaugeSpec (t0 : N) (m : Metric) (r : Rec Unit N) : List (Point N) :=
  push (.metric m.mid) (xOf t0 r.ts) (m.expr.eval noPrev r.cols noTime)

/-- A point a pair of rows in which no monotone column falls. -/
def counterSpec (t0 : N) (m : Metric) (p r : Rec Unit N) : List (Point N) :=
  if anyFalls (m.mono.getD []) p.cols r.cols then []
  else push (.metric m.mid) (xOf t0 r.ts) (m.expr.eval p.cols r.cols (p.elapsed r))

/-- The entry without a kind has monotone columns and is a counter. -/
def spec (t0 : N) (m : Metric) (rows : List (Rec Unit N)) : List (Point N) :=
  if m.kind = some .gauge ∨ m.kind = some .step then rows.flatMap (gaugeSpec t0 m)
  else (rows.zip rows.tail).flatMap fun pair => counterSpec t0 m pair.1 pair.2

def tableRows (db : Db N) : MetricTable → List (Rec Unit N)
  | .host => rowsOf db.host
  | .anomaly => rowsOf db.anomaly
  | .procOverhead => rowsOf db.procOverhead
  | .memoryEvents => rowsOf db.memoryEvents

/-- The extraction returns, and every registered series is what the registry says. -/
def IsRegistry (db : Db N) : Prop :=
  ∃ t0 store, startOf db = some t0 ∧ extract db = some store ∧
    ∀ m ∈ metrics, series store (.metric m.mid) = spec t0 m (tableRows db m.table)

end Spec

/-! ## Passes over one entity -/

section Pass

variable {K γ : Type} [DecidableEq γ]

/-- A series of a pass is a pass for the series. -/
theorem series_scan (entity : Rec K N → γ) (f : Option (Rec K N) → Rec K N → List (Point N))
    (mid : Mid) (prev : γ → Option (Rec K N)) (rows : List (Rec K N)) :
    series (scan entity f prev rows) mid =
      scan entity (fun p r => series (f p r) mid) prev rows := by
  induction rows generalizing prev with
  | nil => rfl
  | cons r rs ih => simp [scan,series_append,ih]

/-- A pass that does not look at the row before. -/
theorem scan_rows (entity : Rec K N → γ) (g : Rec K N → List (Point N))
    (prev : γ → Option (Rec K N)) (rows : List (Rec K N)) :
    scan entity (fun _ r => g r) prev rows = rows.flatMap g := by
  induction rows generalizing prev with
  | nil => rfl
  | cons r rs ih => simp [scan,ih]

theorem scan_pairs_some (g : Rec K N → Rec K N → List (Point N)) (p : Rec K N)
    (rows : List (Rec K N)) :
    scan (fun _ => ()) (fun p r => p.elim [] (g · r)) (fun _ => some p) rows =
      ((p::rows).zip rows).flatMap fun pair => g pair.1 pair.2 := by
  induction rows generalizing p with
  | nil => rfl
  | cons r rs ih =>
    have hprev : Function.update (fun _ : Unit => some p) () (some r) = fun _ => some r := by
      funext u
      simp
    simp [scan,hprev,ih]

/-- A pass over the pairs of consecutive rows. -/
theorem pass_pairs (g : Rec K N → Rec K N → List (Point N)) (rows : List (Rec K N)) :
    rowPass (fun _ => ()) (fun p r => p.elim [] (g · r)) rows =
      (rows.zip rows.tail).flatMap fun pair => g pair.1 pair.2 := by
  cases rows with
  | nil => rfl
  | cons r rs =>
    have hprev : Function.update (fun _ : Unit => (none : Option (Rec K N))) () (some r) =
        fun _ => some r := by
      funext u
      simp
    simpa [rowPass,scan,hprev] using scan_pairs_some g r rs

end Pass

/-- Among entries of different names the points of one entry are its own. -/
theorem series_flatMap {l : List Metric} (hl : (l.map Metric.mid).Nodup) {m : Metric} (hm : m ∈ l)
    {g : Metric → List (Point N)} (hg : ∀ m', ∀ pt ∈ g m', pt.mid = .metric m'.mid) :
    series (l.flatMap g) (.metric m.mid) = g m := by
  have hown : series (g m) (.metric m.mid) = g m := by simp [series_of_mid (hg m)]
  have hother : ∀ m', m'.mid ≠ m.mid → series (g m') (.metric m.mid) = [] := fun m' hne => by
    simp [series_of_mid (hg m'),hne]
  induction l with
  | nil => cases hm
  | cons a l ih =>
    simp only [List.map_cons,List.nodup_cons] at hl
    rw [List.flatMap_cons,series_append]
    rcases List.mem_cons.1 hm with rfl | hm
    · have hrest : series (l.flatMap g) (.metric m.mid) = [] := by
        refine series_eq_nil fun pt hpt heq => ?_
        obtain ⟨m',hm',hpt⟩ := List.mem_flatMap.1 hpt
        rw [hg m' pt hpt] at heq
        exact hl.1 (Mid.metric.inj heq ▸ List.mem_map_of_mem hm')
      simp [hown,hrest]
    · have hne : a.mid ≠ m.mid := fun heq => hl.1 (heq ▸ List.mem_map_of_mem hm)
      simpa [hother a hne] using ih hl.2 hm

section Series

variable [ScriptNumber N]

/-! ## What a query leaves of a row -/

theorem gaugeSpec_select (t0 : N) {m : Metric} {names : List String} (h : m.expr.cols ⊆ names)
    (r : Rec Unit N) : gaugeSpec t0 m (r.select names) = gaugeSpec t0 m r := by
  have heval : m.expr.eval noPrev (r.select names).cols noTime =
      m.expr.eval noPrev r.cols (noTime : ColumnExpr.Elapsed N) :=
    ColumnExpr.eval_congr _ _ fun _ hc => ⟨rfl,ScriptRow.select_of_mem _ (h hc)⟩
  simp only [gaugeSpec,heval]
  rfl

theorem counterSpec_select (t0 : N) {m : Metric} {names : List String} (h : m.expr.cols ⊆ names)
    (hmono : m.mono.getD [] ⊆ names) (p r : Rec Unit N) :
    counterSpec t0 m (p.select names) (r.select names) = counterSpec t0 m p r := by
  have hfalls : anyFalls (m.mono.getD []) (p.select names).cols (r.select names).cols =
      anyFalls (m.mono.getD []) p.cols r.cols := by
    rw [Bool.eq_iff_iff]
    simp only [anyFalls,List.any_eq_true]
    refine exists_congr fun f => and_congr_right fun hf => ?_
    simp [Rec.select,ScriptRow.select_of_mem _ (hmono hf)]
  have heval := eval_select p.cols r.cols (p.elapsed r) h
  rw [counterSpec,hfalls,counterSpec]
  exact congrArg (fun v => if anyFalls (m.mono.getD []) p.cols r.cols then []
    else push (.metric m.mid) (xOf t0 r.ts) v) heval

/-- An entry on a query's rows is the entry on the rows, when the query asks for its columns. -/
theorem spec_select (t0 : N) {m : Metric} {names : List String} (h : m.expr.cols ⊆ names)
    (hmono : m.mono.getD [] ⊆ names) (rows : List (Rec Unit N)) :
    spec t0 m (rows.map (Rec.select names)) = spec t0 m rows := by
  simp only [spec,← List.map_tail,List.zip_map,List.flatMap_map,Prod.map,gaugeSpec_select t0 h,
    counterSpec_select t0 h hmono]

/-! ## host -/

theorem hostGauge_mid (t0 : N) (prev : Option (Rec Unit N)) (r : Rec Unit N) (m : Metric) :
    ∀ pt ∈ hostGauge t0 prev r m, pt.mid = .metric m.mid := by
  intro pt hpt
  by_cases h : m.table ≠ .host ∨ m.kind = some .counter
  · simp [hostGauge,h] at hpt
  · rw [hostGauge,if_neg h] at hpt
    exact push_mid hpt

theorem hostCounter_mid (t0 : N) (p r : Rec Unit N) (m : Metric) :
    ∀ pt ∈ hostCounter t0 p r m, pt.mid = .metric m.mid := by
  intro pt hpt
  by_cases h : m.table ≠ .host ∨ m.kind ≠ some .counter
  · simp [hostCounter,h] at hpt
  · by_cases hfalls : anyFalls (m.mono.getD []) p.cols r.cols = true
    · simp [hostCounter,h,hfalls] at hpt
    · rw [hostCounter,if_neg h,if_neg hfalls] at hpt
      exact push_mid hpt

theorem series_hostRow (t0 : N) {m : Metric} (hm : m ∈ metrics) (prev : Option (Rec Unit N))
    (r : Rec Unit N) : series (hostRow t0 prev r) (.metric m.mid) =
      hostGauge t0 prev r m++prev.elim [] (hostCounter t0 · r m) := by
  unfold hostRow
  rw [series_append,series_flatMap mids_nodup hm (hostGauge_mid t0 prev r)]
  cases prev with
  | none => rfl
  | some p => simp [series_flatMap mids_nodup hm (hostCounter_mid t0 p r)]

/-- The entries of the host table are read as the registry says, on what the query asks for. -/
theorem series_hostPass (t0 : N) {m : Metric} (hm : m ∈ metrics) (hhost : m.table = .host)
    (rows : List (Rec Unit N)) : series (hostPass t0 rows) (.metric m.mid) =
      spec t0 m (rows.map (Rec.select hostNames)) := by
  have hkind : ∀ m ∈ metrics, m.table = .host → m.kind = some .gauge ∨ m.kind = some .counter := by
    decide
  rw [hostPass,rowPass,series_scan]
  simp only [series_hostRow t0 hm]
  rcases hkind m hm hhost with hgauge | hcounter
  · have hrow : ∀ prev r, hostGauge t0 prev r m++prev.elim [] (hostCounter t0 · r m) =
        gaugeSpec t0 m r := by
      intro prev r
      have heval : m.expr.eval ((prev.map Rec.cols).getD noPrev) r.cols noTime =
          m.expr.eval noPrev r.cols noTime := eval_curOnly (curOnly_of_mem m hm (.inl hgauge))
      cases prev <;> simp [hostGauge,hostCounter,gaugeSpec,hhost,hgauge,← heval]
    simp only [hrow,scan_rows,spec,hgauge,true_or,if_true]
  · have hrow : ∀ prev r, hostGauge t0 prev r m++prev.elim [] (hostCounter t0 · r m) =
        prev.elim [] (counterSpec t0 m · r) := by
      intro prev r
      cases prev <;> simp [hostGauge,hostCounter,counterSpec,hhost,hcounter]
    simp only [hrow,spec,hcounter]
    exact pass_pairs (counterSpec t0 m) _

/-- Entries of other tables get no point from it. -/
theorem series_hostPass_other (t0 : N) {m : Metric} (hm : m ∈ metrics) (hother : m.table ≠ .host)
    (rows : List (Rec Unit N)) : series (hostPass t0 rows) (.metric m.mid) = [] := by
  rw [hostPass,rowPass,series_scan]
  have hrow : ∀ prev r, series (hostRow t0 prev r) (.metric m.mid) = [] := by
    intro prev r
    rw [series_hostRow t0 hm]
    cases prev <;> simp [hostGauge,hostCounter,hother]
  simp [hrow,scan_rows]

/-! ## The full pressure of the cpu -/

def isValue : ScriptValue N → Bool
  | .num x => ScriptNumber.finite x
  | _ => false

theorem push_eq_nil_iff (mid : Mid) (x : N) (v : ScriptValue N) :
    push mid x v = [] ↔ isValue v = false := by
  cases v <;> simp [push,isValue]

theorem isValue_whenValid (p c : ScriptRow N) (t : ColumnExpr.Elapsed N) (value valid : String) :
    isValue ((whenValid value valid).eval p c t) =
      (isValue (c value) && (c valid).truthy) := by
  cases hvalue : c value with
  | num x =>
    by_cases hvalid : (c valid).truthy = true <;>
      simp [whenValid,ColumnExpr.eval,ScriptValue.present,isValue,hvalue,hvalid]
  | _ =>
    by_cases hzero : (ScriptValue.num (ScriptNumber.ofInt 0 : N)).truthy = true <;>
      simp [whenValid,ColumnExpr.eval,ScriptValue.present,isValue,hvalue,hzero]

/-- The entries whose columns the query does not ask for. -/
def fullPressure : List Metric :=
  ["10","60","300"].map fun num => gaugeMetric ("host.psi.cpu.full.avg"++num) .host
    (whenValid ("psi_cpu_f"++num) "psi_cpu_f_valid")

/-- A row with such a pressure. -/
def HasFull (r : Rec Unit N) : Prop :=
  (r.cols "psi_cpu_f_valid").truthy = true ∧
    ∃ num ∈ ["10","60","300"], isValue (r.cols ("psi_cpu_f"++num)) = true

theorem fullPressure_sub : ∀ m ∈ fullPressure, m ∈ metrics ∧ m.table = .host := by decide +kernel

/-- All others are asked for. -/
theorem host_cols : ∀ m ∈ metrics, m.table = .host → m ∉ fullPressure →
    m.expr.cols ⊆ hostNames ∧ m.mono.getD [] ⊆ hostNames := by decide +kernel

/-- The registry wants no point of them exactly when no row has such a pressure. -/
theorem spec_fullPressure (t0 : N) (rows : List (Rec Unit N)) :
    (∀ m ∈ fullPressure, spec t0 m rows = []) ↔ ∀ r ∈ rows, ¬ HasFull r := by
  have hspec : ∀ num, spec t0 (gaugeMetric ("host.psi.cpu.full.avg"++num) .host
      (whenValid ("psi_cpu_f"++num) "psi_cpu_f_valid")) rows = [] ↔ ∀ r ∈ rows,
        ¬ ((r.cols "psi_cpu_f_valid").truthy = true ∧
          isValue (r.cols ("psi_cpu_f"++num)) = true) := by
    intro num
    simp only [spec,gaugeMetric,true_or,if_true,List.flatMap_eq_nil_iff,gaugeSpec,push_eq_nil_iff,
      isValue_whenValid]
    refine forall₂_congr fun r _ => ?_
    cases isValue (r.cols ("psi_cpu_f"++num)) <;> simp
  simp only [fullPressure,List.forall_mem_map,hspec,HasFull]
  grind

/-- The passes give none. -/
theorem spec_fullPressure_select (t0 : N) (rows : List (Rec Unit N)) :
    ∀ m ∈ fullPressure, spec t0 m (rows.map (Rec.select hostNames)) = [] := by
  rw [spec_fullPressure]
  refine List.forall_mem_map.2 fun r _ ⟨_,num,hnum,hvalue⟩ => ?_
  have hnames : ∀ num ∈ ["10","60","300"], "psi_cpu_f"++num ∉ hostNames := by decide +kernel
  simp [Rec.select,ScriptRow.select_of_not_mem _ (hnames num hnum),isValue] at hvalue

/-! ## memory_events -/

/-- What an INTEGER column holds. -/
def IsInteger (v : ScriptValue N) : Prop := v = .null ∨ ∃ i : Int64, v = .num (stamp i)

theorem IsInteger.proper {v : ScriptValue N} (h : IsInteger v) : v.Proper := by
  rcases h with rfl | ⟨i,rfl⟩
  · trivial
  · exact ScriptNumber.isNan_ofInt i.toInt

/-- A rate of the pass is the entry of one column, when the column holds integers. -/
theorem risingRate_eq (t0 : N) {p r : Rec Unit N} (mid col : String) (table : MetricTable)
    (hp : IsInteger (p.cols col)) (hr : IsInteger (r.cols col)) :
    risingRate t0 p r (.metric mid) col = counterSpec t0 (rate mid table col) p r := by
  have hge := ScriptValue.ge_eq hr.proper hp.proper
  by_cases hlt : (r.cols col).lt (p.cols col) = true
  · simp [risingRate,counterSpec,rate,counterMetric,anyFalls,hge,hlt]
  · by_cases hs : ScriptNumber.truthy (p.seconds r) = true
    · simp [risingRate,counterSpec,rate,counterMetric,anyFalls,hge,hlt,perSecond,delta,
        ColumnExpr.eval,ScriptValue.truthy,Rec.elapsed,hs,Rec.diff,Rec.num]
    · have hinf := ScriptNumber.finite_div (p.diff r col) (p.seconds r) (by simpa using hs)
      simp [risingRate,counterSpec,rate,counterMetric,anyFalls,hge,hlt,perSecond,delta,
        ColumnExpr.eval,ScriptValue.truthy,Rec.elapsed,hs,push,hinf]

/-- The rates over the rows of the table. -/
theorem pass_rate (t0 : N) (mid col : String) (table : MetricTable) {rows : List (Rec Unit N)}
    (hrows : ∀ r ∈ rows, IsInteger (r.cols col)) :
    rowPass (fun _ => ()) (fun p r => p.elim [] (risingRate t0 · r (.metric mid) col)) rows =
      spec t0 (rate mid table col) rows := by
  rw [pass_pairs fun p r => risingRate t0 p r (.metric mid) col]
  simp only [spec,rate,counterMetric]
  refine List.flatMap_congr fun pair hpair => ?_
  obtain ⟨hp,hr⟩ := List.of_mem_zip hpair
  exact risingRate_eq t0 mid col table (hrows _ hp) (hrows _ (List.mem_of_mem_tail hr))

theorem risingRate_mid {K : Type} (t0 : N) (p r : Rec K N) (mid : Mid) (col : String) :
    ∀ pt ∈ risingRate t0 p r mid col, pt.mid = mid := fun _ hpt => by
  simpa using (emits_risingRate t0 p r mid col).mem_mids hpt

/-- What a row adds to each of the three series. -/
theorem series_memoryRow (t0 : N) (prev : Option (Rec Unit N)) (r : Rec Unit N) (mid : String) :
    series (memoryRow t0 prev r) (.metric mid) =
      (if "memv.kswapd" = mid then
        push (.metric "memv.kswapd") (xOf t0 r.ts) (r.cols "kswapd_active") else [])++prev.elim [] fun p =>
          (if "memv.direct_reclaim_s" = mid then
            risingRate t0 p r (.metric "memv.direct_reclaim_s") "direct_reclaim" else [])++
          (if "memv.nr_reclaimed_s" = mid then
            risingRate t0 p r (.metric "memv.nr_reclaimed_s") "nr_reclaimed" else []) := by
  cases prev <;> simp [memoryRow,series_append,series_of_mid (fun _ => push_mid),
    series_of_mid (risingRate_mid t0 _ _ _ _)]

/-- A rate of the table. -/
theorem series_memoryPass_rate (t0 : N) {mid col : String} (hcol : col ∈ memoryNames)
    (hrow : ∀ prev r, series (memoryRow t0 prev r) (.metric mid) =
      prev.elim [] (risingRate t0 · r (.metric mid) col)) {rows : List (Rec Unit N)}
    (hrows : ∀ r ∈ rows, IsInteger (r.cols col)) :
    series (memoryPass t0 rows) (.metric mid) = spec t0 (rate mid .memoryEvents col) rows := by
  have hcols : (rate mid .memoryEvents col).expr.cols ⊆ memoryNames := by
    simp [rate,counterMetric,perSecond,delta,ColumnExpr.cols,hcol]
  have hmono : (rate mid .memoryEvents col).mono.getD [] ⊆ memoryNames := by
    simp [rate,counterMetric,hcol]
  have hselect : ∀ r ∈ rows.map (Rec.select memoryNames), IsInteger (r.cols col) :=
    List.forall_mem_map.2 fun r hr => by
      simpa [Rec.select,ScriptRow.select_of_mem _ hcol] using hrows r hr
  rw [memoryPass,rowPass,series_scan,← spec_select t0 hcols hmono]
  simp only [hrow]
  exact pass_rate t0 mid col .memoryEvents hselect

/-- The entries of the table are read as the registry says. -/
theorem series_memoryPass (t0 : N) {rows : List (Rec Unit N)}
    (hrows : ∀ r ∈ rows, ∀ col ∈ memoryNames, IsInteger (r.cols col)) :
    ∀ m ∈ memoryMetrics, series (memoryPass t0 rows) (.metric m.mid) = spec t0 m rows := by
  intro m hm
  simp only [memoryMetrics,List.mem_cons,List.not_mem_nil,or_false] at hm
  rcases hm with rfl | rfl | rfl
  · have hrow : ∀ (prev : Option (Rec Unit N)) r,
        series (memoryRow t0 prev r) (.metric kswapd.mid) = gaugeSpec t0 kswapd r := by
      intro prev r
      rw [series_memoryRow]
      cases prev <;> simp [gaugeSpec,kswapd,ColumnExpr.eval]
    rw [memoryPass,rowPass,series_scan,
      ← spec_select t0 (m:=kswapd) (by decide : _ ⊆ memoryNames) (by decide)]
    simp only [hrow,scan_rows]
    rfl
  · have hcol : "direct_reclaim" ∈ memoryNames := by decide
    refine series_memoryPass_rate t0 hcol (fun prev r => ?_) fun r hr => hrows r hr _ hcol
    rw [series_memoryRow]
    cases prev <;> simp [rate,counterMetric]
  · have hcol : "nr_reclaimed" ∈ memoryNames := by decide
    refine series_memoryPass_rate t0 hcol (fun prev r => ?_) fun r hr => hrows r hr _ hcol
    rw [series_memoryRow]
    cases prev <;> simp [rate,counterMetric]

/-! ## anomaly and proc_overhead -/

/-- Where every first column falls the registry wants no point. -/
theorem spec_anomaly (t0 : N) {m : Metric} (hm : m ∈ metrics) (htable : m.table = .anomaly)
    {rows : List (Rec Unit N)} (hrows : rows.IsChain AllFall) : spec t0 m rows = [] := by
  have hmono : ∀ m ∈ metrics, m.table = .anomaly → m.kind ≠ some .gauge ∧ m.kind ≠ some .step ∧
      ∃ f ∈ anomalyFirst, f ∈ m.mono.getD [] := by decide +kernel
  obtain ⟨hgauge,hstep,f,hfirst,hf⟩ := hmono m hm htable
  simp only [spec,hgauge,hstep,or_self,if_false,List.flatMap_eq_nil_iff]
  intro pair hpair
  have hfalls : anyFalls (m.mono.getD []) pair.1.cols pair.2.cols = true :=
    List.any_eq_true.2 ⟨f,hf,DeltaStream.rel_of_mem_zip_tail hrows pair hpair f hfirst⟩
  simp [counterSpec,hfalls]

def rssMb : Metric := gaugeMetric "ovh.rss_mb" .procOverhead (overKilo "rss_kb")

/-- Every row of the overhead has a size. -/
theorem rows_eq_nil_of_spec (t0 : N) {rows : List (Rec Unit N)}
    (hrows : ∀ r ∈ rows, IsInteger (r.cols "rss_kb")) (h : spec t0 rssMb rows = []) :
    rows = [] := by
  refine List.eq_nil_iff_forall_not_mem.2 fun r hr => ?_
  simp only [spec,rssMb,gaugeMetric,true_or,if_true,List.flatMap_eq_nil_iff,gaugeSpec,
    push_eq_nil_iff] at h
  have hfinite : ScriptNumber.finite (r.cols "rss_kb").toNumber = true := by
    rcases hrows r hr with heq | ⟨i,heq⟩
    · simpa [heq] using
        ScriptNumber.finite_ofInt (N := N) 0 (by decide) (by decide)
    · have hle := i.le_toInt
      have hlt := i.toInt_lt
      simpa [heq,stamp,lit] using ScriptNumber.finite_ofInt (N := N) i.toInt hle hlt
  have hdiv := ScriptNumber.finite_div_ofInt _ 1024 hfinite (by decide)
  simpa [overKilo,ColumnExpr.eval,isValue,hdiv] using h r hr

/-! ## The whole store -/

/-- A session with the schema of the collector, whose columns here are INTEGER. -/
structure Collected (N : Type) [ScriptNumber N] where
  db : Db N
  memory : ∀ r ∈ rowsOf db.memoryEvents, ∀ col ∈ memoryNames, IsInteger (r.cols col)
  overhead : ∀ r ∈ rowsOf db.procOverhead, IsInteger (r.cols "rss_kb")

/-- The extraction comes to its end, and there is nothing of what it does not read. -/
structure Served (db : Db N) : Prop where
  readable : Readable db
  full : ∀ r ∈ rowsOf db.host, ¬ HasFull r
  overhead : rowsOf db.procOverhead = []

theorem source_metric : ∀ m ∈ metrics, source (.metric m.mid) =
    if m.table = .memoryEvents then 9 else 0 := by decide +kernel

/-- What the store has of an entry. -/
theorem series_metric {db : Db N} {t0 : N} {m : Metric} (hm : m ∈ metrics) :
    series (parts t0 db).flatten (.metric m.mid) =
      if m.table = .memoryEvents then
        series (memoryPass t0 (rowsOf db.memoryEvents)) (.metric m.mid)
      else series (hostPass t0 (rowsOf db.host)) (.metric m.mid) := by
  rw [series_store rfl,source_metric m hm]
  split <;> rfl

/-- The store is what the registry says exactly when the session is served. -/
theorem isRegistry_iff (s : Collected N) : IsRegistry s.db ↔ Served s.db := by
  constructor
  · rintro ⟨t0,store,ht0,hstore,hseries⟩
    obtain ⟨hread,t0',ht0',rfl⟩ := (extract_eq_some_iff _ _).1 hstore
    obtain rfl := Option.some.inj (ht0.symm.trans ht0')
    refine ⟨hread,(spec_fullPressure t0 _).1 fun m hm => ?_,?_⟩
    · obtain ⟨hmem,htable⟩ := fullPressure_sub m hm
      have hspec := hseries m hmem
      rw [series_metric hmem] at hspec
      simp only [htable,tableRows] at hspec
      rw [← hspec]
      exact (series_hostPass t0 hmem htable _).trans (spec_fullPressure_select t0 _ m hm)
    · have hmem : rssMb ∈ metrics := by decide +kernel
      have hspec := hseries rssMb hmem
      rw [series_metric hmem] at hspec
      refine rows_eq_nil_of_spec t0 s.overhead ?_
      exact hspec.symm.trans (series_hostPass_other t0 hmem (by decide) _)
  · rintro ⟨hread,hfull,hoverhead⟩
    obtain ⟨t0,ht0⟩ := exists_startOf hread.complete
    refine ⟨t0,_,ht0,(extract_eq_some_iff _ _).2 ⟨hread,t0,ht0,rfl⟩,fun m hm => ?_⟩
    rw [series_metric hm]
    cases htable : m.table with
    | host =>
      simp only [reduceCtorEq,if_false,tableRows]
      rw [series_hostPass t0 hm htable]
      by_cases hpressure : m ∈ fullPressure
      · rw [spec_fullPressure_select t0 _ m hpressure]
        exact ((spec_fullPressure t0 _).2 hfull m hpressure).symm
      · obtain ⟨hcols,hmono⟩ := host_cols m hm htable hpressure
        exact spec_select t0 hcols hmono _
    | anomaly =>
      simp only [reduceCtorEq,if_false,tableRows]
      rw [series_hostPass_other t0 hm (by simp [htable]),spec_anomaly t0 hm htable hread.falls]
    | procOverhead =>
      simp only [reduceCtorEq,if_false,tableRows,hoverhead]
      rw [series_hostPass_other t0 hm (by simp [htable])]
      simp [spec]
    | memoryEvents =>
      have hmemory : ∀ m ∈ metrics, m.table = .memoryEvents → m ∈ memoryMetrics := by decide +kernel
      simp only [if_true,tableRows]
      exact series_memoryPass t0 s.memory m (hmemory m hm htable)

end Series

/-! ## Totals that rise -/

def totalsRow (ts : Int64) (total : ℚ) : Rec Unit (Option ℚ) := ⟨ts,(),fun _ => .num (some total)⟩

/-- Two rows of totals, the second one greater. -/
def risingTotalsDb : Db (Option ℚ) :=
  { emptyDb with anomaly := some ⟨[totalsRow 1000000000 0,totalsRow 2000000000 5],
      by simp [totalsRow]⟩ }

def risingTotals : Collected (Option ℚ) where
  db := risingTotalsDb
  memory := by simp [risingTotalsDb,emptyDb,noRows,rowsOf]
  overhead := by simp [risingTotalsDb,emptyDb,noRows,rowsOf]

/-- The first pair of rows ends the extraction. -/
theorem risingTotals_not_registry : ¬ IsRegistry risingTotals.db := by
  rintro ⟨t0,store,-,hstore,-⟩
  obtain ⟨⟨-,hfalls⟩,-⟩ := (extract_eq_some_iff _ _).1 hstore
  have hpair : AllFall (totalsRow 1000000000 0) (totalsRow 2000000000 5) :=
    (List.isChain_cons_cons.1 hfalls).1
  exact absurd (hpair "on_cpu_ns_total" (by decide)) (by decide)

end RegistrySeries
end ETraceDiag
