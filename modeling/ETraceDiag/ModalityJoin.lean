import Mathlib.Data.List.GetD
import ETraceDiag.RootCauses

/-!
# Metrics and logs in one table

The rows of both tables are labelled by their positions, and the tables of a cluster are put side
by side by label. A row then holds the metrics of one second and the logs of another, unless the
second stands at the same place in both.
-/

namespace ETraceDiag
namespace Torai

open CausalInput TimeTable LabelTable

section Counts

variable {F : Type} [Zero F] [One F] [Add F]

/-! ## Counting logs -/

def metricSeconds (frame : TelemetryFrame F) : List ℤ :=
  sortedSet ((observed frame).map pointSec)

def logSeconds (logs : List LogEvent) : List ℤ := sortedSet (logs.map LogEvent.sec)

def isOf (c : String) (sec : ℤ) (l : LogEvent) : Bool := l.column = c ∧ l.sec = sec

/-- The count of a column and a second in the dictionaries of the table. -/
def bucket (d : List (String × List (ℤ × F))) (c : String) (sec : ℤ) : F :=
  (((d.lookup c).getD []).lookup sec).getD 0

theorem bucket_upsert (d : List (String × List (ℤ × F))) (l : LogEvent) (c : String) (sec : ℤ) :
    bucket (upsert l.column [] (upsert l.sec 0 (·+1)) d) c sec =
      if isOf c sec l then bucket d c sec+1 else bucket d c sec := by
  rw [bucket,lookup_upsert]
  by_cases hc : c = l.column
  · subst hc
    rw [if_pos rfl,Option.getD_some,lookup_upsert]
    by_cases hsec : sec = l.sec
    · subst hsec
      simp [isOf,bucket]
    · rw [if_neg hsec,if_neg]
      · rfl
      · simpa [isOf] using fun h => hsec h.symm
  · rw [if_neg hc,if_neg]
    · rfl
    · simpa [isOf] using fun h => absurd h.symm hc

theorem bucket_foldl (logs : List LogEvent) (c : String) (sec : ℤ) (n : ℕ)
    (d : List (String × List (ℤ × F))) (h : bucket d c sec = tally n) :
    bucket (logs.foldl (fun d l => upsert l.column [] (upsert l.sec 0 (·+1)) d) d) c sec =
      tally (n+logs.countP (isOf c sec)) := by
  induction logs generalizing n d with
  | nil => exact h
  | cons l logs ih =>
    rw [List.foldl_cons,List.countP_cons]
    cases hl : isOf c sec l with
    | true =>
      rw [ih (n+1) _ (by rw [bucket_upsert,if_pos hl,h]; rfl),if_pos rfl]
      congr 1
      omega
    | false =>
      rw [ih n _ (by rw [bucket_upsert,hl,if_neg (by decide),h]),if_neg (by decide)]
      rfl

/-- A cell of the log table counts the events of its column in its second. -/
theorem mem_cols_logsToTable {logs : List LogEvent} {c : String} {xs : List F}
    (h : (c,xs) ∈ (logsToTable logs : Frame F).cols) {r : ℕ} {sec : ℤ}
    (hr : (logSeconds logs)[r]? = some sec) :
    xs.getD r 0 = tally (logs.countP (isOf c sec)) := by
  obtain ⟨d,hd,heq⟩ := List.mem_map.mp h
  obtain ⟨rfl,rfl⟩ := Prod.mk.inj heq
  have hlookup : List.lookup d.1 (logs.foldl (fun d l =>
      upsert l.column [] (upsert l.sec (0 : F) (·+1)) d) []) = some d.2 :=
    lookup_of_mem (nodup_keys_foldl_upsert _ _ _ logs (d:=[]) List.nodup_nil) hd
  have hcell := bucket_foldl logs d.1 sec 0 ([] : List (String × List (ℤ × F))) rfl
  rw [bucket,hlookup,Option.getD_some,Nat.zero_add] at hcell
  have hsec : (sortedSet (logs.map LogEvent.sec))[r]? = some sec := hr
  rw [List.getD_eq_getElem?_getD,TimeTable.column,List.getElem?_map,hsec,Option.map_some,
    Option.getD_some,Option.map_id_fun,id,hcell]

theorem map_getD_range (xs : List ℤ) : (List.range xs.length).map (fun r => xs.getD r 0) = xs :=
  List.ext_getElem (by simp) fun i hi hi' => by simp [hi']

theorem varies_bne (xs : List ℤ) : LabelTable.varies (· != ·) xs = TimeTable.varies xs := by
  cases xs with
  | nil => rfl
  | cons x xs =>
    simp only [LabelTable.varies,TimeTable.varies,List.head?_cons,Option.map_some,Option.getD_some,
      List.any_cons,bne_self_eq_false,Bool.false_or]
    exact congrArg xs.any (funext fun y => by simp [bne,Bool.beq_eq_decide_eq])

/-- A log table with columns has a row for every second of the logs. -/
theorem logTable_of_mem [DecidableEq F] {logs : List LogEvent} {c : String × (ℕ → F)}
    (h : c ∈ (logTable logs : Table F).cols) :
    (logTable logs : Table F).index = List.range (logSeconds logs).length ∧
    (logTable logs : Table F).time = some (fun r => (logSeconds logs).getD r 0) ∧
    (logSeconds logs = [] ∨ TimeTable.varies (logSeconds logs) = true) ∧
    ∃ xs, (c.1,xs) ∈ (logsToTable logs : Frame F).cols ∧ c.2 = fun r => xs.getD r 0 := by
  obtain ⟨d,hd,rfl⟩ := List.mem_map.mp h
  have htime : (logsToTable logs : Frame F).time = some (logSeconds logs) := rfl
  have hlength : (logsToTable logs : Frame F).length = (logSeconds logs).length := rfl
  by_cases hempty : (logSeconds logs).length = 0
  · have hframe : (logsToTable logs : Frame F).dropConstant.timed = logsToTable logs := by
      rw [Frame.dropConstant,hlength,if_pos hempty,Frame.timed,htime,if_neg (by simp)]
    rw [hframe] at hd
    rw [logTable,hframe]
    exact ⟨rfl,rfl,Or.inl (List.length_eq_zero_iff.mp hempty),d.2,hd,rfl⟩
  · cases hvaries : TimeTable.varies (logSeconds logs) with
    | false =>
      have hframe : (logsToTable logs : Frame F).dropConstant.timed = {} := by
        rw [Frame.dropConstant,hlength,if_neg hempty,htime,Option.filter_some,hvaries,Frame.timed]
        rfl
      rw [hframe] at hd
      cases hd
    | true =>
      have hframe : (logsToTable logs : Frame F).dropConstant.timed =
          { time := some (logSeconds logs)
            cols := (logsToTable logs).cols.filter fun c => TimeTable.varies c.2 } := by
        rw [Frame.dropConstant,hlength,if_neg hempty,htime,Option.filter_some,hvaries,Frame.timed]
        rfl
      rw [hframe] at hd
      rw [logTable,hframe]
      exact ⟨rfl,rfl,Or.inr rfl,d.2,(List.mem_filter.mp hd).1,rfl⟩

end Counts

section Sides

variable {F : Type} [Zero F] [One F] [Add F] [Numpy F] [DecidableEq F]

/-! ## The rows of the two modalities -/

theorem mem_logSide {p : ℤ → Bool} {services : List String} {logs : List LogEvent}
    {c : String × (ℕ → F)} (h : c ∈ (logSide p (ofServices services (logTable logs))).cols) :
    (∀ r, r ∈ (logSide p (ofServices services (logTable logs : Table F))).index ↔
      ∃ sec, (logSeconds logs)[r]? = some sec ∧ p sec = true) ∧
    ∀ r sec, (logSeconds logs)[r]? = some sec → c.2 r = tally (logs.countP (isOf c.1 sec)) := by
  have hmem : c ∈ (logTable logs : Table F).cols :=
    (List.mem_filter.mp (mem_of_mem_dropConstant h)).1
  obtain ⟨hindex,htime,hvaries,xs,hxs,hcell⟩ := logTable_of_mem hmem
  refine ⟨fun r => ?_,fun r sec hr => by rw [hcell]; exact mem_cols_logsToTable hxs hr⟩
  have hkept : (ofServices services (logTable logs : Table F)).index = [] ∨
      LabelTable.varies (· != ·) ((ofServices services (logTable logs : Table F)).index.map
        fun r => (logSeconds logs).getD r 0) = true := by
    have hsame : (ofServices services (logTable logs : Table F)).index =
      List.range (logSeconds logs).length := hindex
    rw [hsame,map_getD_range,varies_bne]
    exact hvaries.imp (fun hnil => by rw [hnil]; rfl) id
  have hside : ((ofServices services (logTable logs)).dropConstant (Numpy.differs (F:=F))).time =
      some fun r => (logSeconds logs).getD r 0 := time_dropConstant htime hkept
  have hrow : r ∈ (logSide p (ofServices services (logTable logs : Table F))).index ↔
      r ∈ (logTable logs : Table F).index ∧ p ((logSeconds logs).getD r 0) = true := by
    have hrestrict := mem_index_restrict (p:=p) hside (r:=r)
    rw [index_dropConstant,Table.sec,hside] at hrestrict
    exact hrestrict
  rw [hrow,hindex,List.mem_range]
  constructor
  · rintro ⟨hlt,hp⟩
    rw [List.getD_eq_getElem _ _ hlt] at hp
    exact ⟨_,List.getElem?_eq_getElem hlt,hp⟩
  · rintro ⟨sec,hsec,hp⟩
    obtain ⟨hlt,rfl⟩ := List.getElem?_eq_some_iff.mp hsec
    rw [List.getD_eq_getElem _ _ hlt]
    exact ⟨hlt,hp⟩

omit [DecidableEq F] in
theorem convertMemMb_tally (name : String) (n : ℕ) :
    convertMemMb name (fillna (some (tally n : F))) ≠ 0 ↔ n ≠ 0 := by
  rw [fillna,Numpy.differs_tally,if_neg (by decide),convertMemMb]
  cases n with
  | zero =>
    refine iff_of_false (fun h => h ?_) (fun h => h rfl)
    split
    · exact Numpy.toMb_zero
    · rfl
  | succ n =>
    refine iff_of_true ?_ (Nat.succ_ne_zero n)
    split
    · exact Numpy.toMb_tally n
    · exact Numpy.tally_succ n

omit [DecidableEq F] in
theorem convertMemMb_none (name : String) : convertMemMb name (fillna (none : Option F)) = 0 := by
  rw [fillna,convertMemMb]
  split
  · exact Numpy.toMb_zero
  · rfl

/-- A cell of a log column is not zero where the log table has an event at the row's place. -/
theorem joined_ne_zero_iff {p : ℤ → Bool} {services : List String} {logs : List LogEvent}
    {metric : Table F} {c : String × (ℕ → F)}
    (h : c ∈ (joined metric (logSide p (ofServices services (logTable logs)))).cols)
    (hc : c.1 ∉ metric.columns) (r : ℕ) :
    c.2 r ≠ 0 ↔ ∃ l ∈ logs, l.column = c.1 ∧ (logSeconds logs)[r]? = some l.sec ∧
      p l.sec = true := by
  obtain ⟨f,hf,heq⟩ := mem_joined h hc
  obtain ⟨hindex,hcell⟩ := mem_logSide hf
  rw [heq]
  dsimp only at hcell ⊢
  by_cases hr : r ∈ (logSide p (ofServices services (logTable logs : Table F))).index
  · obtain ⟨sec,hsec,hp⟩ := (hindex r).mp hr
    rw [Table.cells,if_pos hr,hcell r sec hsec,convertMemMb_tally,← Nat.pos_iff_ne_zero,
      List.countP_pos_iff]
    constructor
    · rintro ⟨l,hl,his⟩
      obtain ⟨hcol,hlsec⟩ := of_decide_eq_true his
      exact ⟨l,hl,hcol,hlsec ▸ hsec,hlsec ▸ hp⟩
    · rintro ⟨l,hl,hcol,hlsec,-⟩
      exact ⟨l,hl,decide_eq_true ⟨hcol,Option.some.inj (hlsec.symm.trans hsec)⟩⟩
  · rw [Table.cells,if_neg hr,convertMemMb_none]
    refine iff_of_false (fun h => h rfl) ?_
    rintro ⟨l,-,-,hsec,hp⟩
    exact hr ((hindex r).mpr ⟨l.sec,hsec,hp⟩)

theorem mem_index_of_ne_zero {p : ℤ → Bool} {services : List String} {logs : List LogEvent}
    {metric : Table F} {c : String × (ℕ → F)}
    (h : c ∈ (joined metric (logSide p (ofServices services (logTable logs)))).cols)
    (hc : c.1 ∉ metric.columns) {r : ℕ} (hr : c.2 r ≠ 0) :
    r ∈ (joined metric (logSide p (ofServices services (logTable logs)))).index := by
  obtain ⟨f,hf,-⟩ := mem_joined h hc
  obtain ⟨l,-,-,hsec,hp⟩ := (joined_ne_zero_iff h hc r).mp hr
  exact mem_index_joined.mpr (Or.inr (((mem_logSide hf).1 r).mpr ⟨l.sec,hsec,hp⟩))

omit [One F] [Add F] [Numpy F] [DecidableEq F] in
/-- The rows that are left of the metric table when it has been sampled twice. -/
theorem mem_index_stride {cfg : ToraiConfig} {frame : TelemetryFrame F} {p : ℤ → Bool} {r : ℕ}
    {sec : ℤ} :
    r ∈ (((sampledMetric cfg frame).stride cfg.resampleS).restrict p).index ∧
      ((sampledMetric cfg frame).stride cfg.resampleS).sec r = sec ↔
    (metricSeconds frame)[r]? = some sec ∧ cfg.resampleS*cfg.resampleS ∣ r ∧ p sec = true := by
  have htime : ((sampledMetric cfg frame).stride cfg.resampleS).time =
      some fun r => (metricSeconds frame).getD r 0 := rfl
  have hindex : ((sampledMetric cfg frame).stride cfg.resampleS).index =
      everyNth cfg.resampleS (everyNth cfg.resampleS
        (List.range (metricSeconds frame).length)) := rfl
  have hsecond : ((sampledMetric cfg frame).stride cfg.resampleS).sec r =
      (metricSeconds frame).getD r 0 := rfl
  rw [mem_index_restrict htime,hindex,mem_everyNth_twice cfg.resample_pos,hsecond]
  constructor
  · rintro ⟨⟨⟨hlt,hdvd⟩,hp⟩,rfl⟩
    rw [List.getD_eq_getElem _ _ hlt] at hp ⊢
    exact ⟨List.getElem?_eq_getElem hlt,hdvd,hp⟩
  · rintro ⟨hsec,hdvd,hp⟩
    obtain ⟨hlt,rfl⟩ := List.getElem?_eq_some_iff.mp hsec
    rw [List.getD_eq_getElem _ _ hlt]
    exact ⟨⟨⟨hlt,hdvd⟩,hp⟩,rfl⟩

end Sides

section Join

variable {F : Type} [Zero F] [One F] [Add F] [Numpy F] [PyValue.Python F] [DecidableEq F]

/-! ## One second in a row -/

/-- A group of at least two services that some labelling puts together. -/
def IsCluster (cfg : ToraiConfig) (injectNs : ℕ) (inputs : CausalInputs F)
    (cluster : List String) : Prop :=
  2 ≤ cluster.length ∧ ∃ services labels cl,
    serviceList (coarse (fineRanks cfg injectNs inputs)) = some services ∧
      labels.length = services.length ∧ members labels services cl = cluster

/-- The metric columns that the tables of a cluster are built from. -/
def metricColumns (cfg : ToraiConfig) (injectNs : ℕ) (inputs : CausalInputs F)
    (services : List String) : List String :=
  (metricParts injectNs
    ((ofServices services (sampledMetric cfg inputs.frame)).stride cfg.resampleS)).1.columns

/-- The log columns among those that are handed on. -/
def logColumns (cfg : ToraiConfig) (injectNs : ℕ) (inputs : CausalInputs F)
    (services : List String) : List String :=
  (handedOn cfg injectNs inputs services).filter (· ∉ metricColumns cfg injectNs inputs services)

/-- The rows of a table whose metrics are those of the second. -/
structure Joined (metric : Table F) (logs : List LogEvent) (columns : List String)
    (t : Table F) : Prop where
  only : ∀ c ∈ t.cols, c.1 ∈ columns → ∀ r ∈ t.index, c.2 r ≠ 0 →
    r ∈ metric.index ∧ ∃ l ∈ logs, l.column = c.1 ∧ l.sec = metric.sec r
  kept : ∀ c ∈ t.cols, c.1 ∈ columns → ∀ r ∈ metric.index, ∀ l ∈ logs, l.column = c.1 →
    l.sec = metric.sec r → r ∈ t.index ∧ c.2 r ≠ 0

/-- Both tables of a cluster, against the metric rows before and after the inject second. -/
def JoinedInTime (cfg : ToraiConfig) (injectNs : ℕ) (inputs : CausalInputs F) : Prop :=
  let metric := (sampledMetric cfg inputs.frame).stride cfg.resampleS
  ∀ services, IsCluster cfg injectNs inputs services →
    ∀ t, clusterTables cfg injectNs inputs services = some t →
      Joined (metric.restrict (before injectNs)) inputs.logs
          (logColumns cfg injectNs inputs services) t.1 ∧
        Joined (metric.restrict (after injectNs)) inputs.logs
          (logColumns cfg injectNs inputs services) t.2

/-- The second has the same place among those of the metrics and those of the logs, and the
metric row at this place is sampled both times. -/
def InStep (cfg : ToraiConfig) (inputs : CausalInputs F) (sec : ℤ) : Prop :=
  ∃ r, (metricSeconds inputs.frame)[r]? = some sec ∧ (logSeconds inputs.logs)[r]? = some sec ∧
    cfg.resampleS*cfg.resampleS ∣ r

/-! ## One side -/

omit [PyValue.Python F] in
/-- In step, the log columns of a side have the events of the seconds of its rows. -/
theorem joined_of_inStep {cfg : ToraiConfig} {inputs : CausalInputs F} {p : ℤ → Bool}
    {services columns : List String} {metric t : Table F}
    (hindex : metric.index =
      (((sampledMetric cfg inputs.frame).stride cfg.resampleS).restrict p).index)
    (ht : t.index = (joined metric (logSide p (ofServices services (logTable inputs.logs)))).index)
    (hcols : ∀ c ∈ t.cols,
      c ∈ (joined metric (logSide p (ofServices services (logTable inputs.logs)))).cols)
    (hcolumns : ∀ c ∈ columns, c ∉ metric.columns)
    (h : ∀ l ∈ inputs.logs, l.column ∈ columns → InStep cfg inputs l.sec) :
    Joined (((sampledMetric cfg inputs.frame).stride cfg.resampleS).restrict p) inputs.logs columns
      t := by
  have hsorted := sortedSet_pairwise ((observed inputs.frame).map pointSec)
  have hlogs := sortedSet_pairwise (inputs.logs.map LogEvent.sec)
  constructor
  · intro c hc hcol r hr hne
    obtain ⟨l,hl,hlcol,hlsec,hp⟩ :=
      (joined_ne_zero_iff (hcols c hc) (hcolumns c.1 hcol) r).mp hne
    obtain ⟨r',hmetric,hlog,hdvd⟩ := h l hl (hlcol ▸ hcol)
    obtain rfl := getElem?_inj hlogs hlog hlsec
    obtain ⟨hrow,hsec⟩ := mem_index_stride.mpr ⟨hmetric,hdvd,hp⟩
    exact ⟨hrow,l,hl,hlcol,hsec.symm⟩
  · intro c hc hcol r hr l hl hlcol hlsec
    obtain ⟨hmetric,-,hp⟩ := mem_index_stride.mp ⟨hr,rfl⟩
    obtain ⟨r',hmetric',hlog,-⟩ := h l hl (hlcol ▸ hcol)
    rw [hlsec] at hmetric' hlog
    obtain rfl := getElem?_inj hsorted hmetric' hmetric
    refine ⟨?_,(joined_ne_zero_iff (hcols c hc) (hcolumns c.1 hcol) _).mpr
      ⟨l,hl,hlcol,hlsec ▸ hlog,hlsec ▸ hp⟩⟩
    rw [ht,mem_index_joined,hindex]
    exact Or.inl hr

omit [PyValue.Python F] in
/-- Where a side is joined, an event of a log column is at the place of an event of that column
that happened in the second of the row. -/
theorem Joined.exists_event {cfg : ToraiConfig} {inputs : CausalInputs F} {p : ℤ → Bool}
    {services columns : List String} {metric t : Table F}
    (h : Joined (((sampledMetric cfg inputs.frame).stride cfg.resampleS).restrict p) inputs.logs
      columns t)
    (ht : t.index = (joined metric (logSide p (ofServices services (logTable inputs.logs)))).index)
    (hcols : ∀ c ∈ t.cols,
      c ∈ (joined metric (logSide p (ofServices services (logTable inputs.logs)))).cols)
    (hcolumns : ∀ c ∈ columns, c ∉ metric.columns) {l : LogEvent} (hl : l ∈ inputs.logs)
    (hcol : l.column ∈ columns) (htable : l.column ∈ t.columns) (hp : p l.sec = true) {r : ℕ}
    (hr : (logSeconds inputs.logs)[r]? = some l.sec) :
    cfg.resampleS*cfg.resampleS ∣ r ∧ ∃ l' ∈ inputs.logs, l'.column = l.column ∧
      (metricSeconds inputs.frame)[r]? = some l'.sec := by
  obtain ⟨c,hc,hname⟩ := List.mem_map.mp htable
  have hcol' : c.1 ∈ columns := hname ▸ hcol
  have hne : c.2 r ≠ 0 :=
    (joined_ne_zero_iff (hcols c hc) (hcolumns c.1 hcol') r).mpr ⟨l,hl,hname.symm,hr,hp⟩
  have hindex : r ∈ t.index := by
    rw [ht]
    exact mem_index_of_ne_zero (hcols c hc) (hcolumns c.1 hcol') hne
  obtain ⟨hrow,l',hl',hlcol,hlsec⟩ := h.only c hc hcol' r hindex hne
  obtain ⟨hmetric,hdvd,-⟩ := mem_index_stride.mp ⟨hrow,hlsec.symm⟩
  exact ⟨hdvd,l',hl',hlcol.trans hname,hmetric⟩

/-! ## Both sides -/

omit [Zero F] [One F] [Add F] [Numpy F] [PyValue.Python F] [DecidableEq F] in
/-- When every event of a column is at a sampled place where the metrics have the second of an
event of that column, its events are in step. -/
theorem inStep_of_events {cfg : ToraiConfig} {inputs : CausalInputs F} {column : String}
    (h : ∀ l ∈ inputs.logs, l.column = column → ∀ r,
      (logSeconds inputs.logs)[r]? = some l.sec → cfg.resampleS*cfg.resampleS ∣ r ∧
        ∃ m ∈ inputs.logs, m.column = column ∧ (metricSeconds inputs.frame)[r]? = some m.sec)
    {l : LogEvent} (hl : l ∈ inputs.logs) (hcol : l.column = column) :
    InStep cfg inputs l.sec := by
  have hplace : ∀ m ∈ inputs.logs, ∃ q, (logSeconds inputs.logs)[q]? = some m.sec :=
    fun m hm => List.mem_iff_getElem?.mp (mem_sortedSet.mpr (List.mem_map_of_mem hm))
  -- the places of the column's events are closed under going to the event of the row's second
  have hclosed : ∀ r : ℕ, (∃ m ∈ inputs.logs, m.column = column ∧
      (logSeconds inputs.logs)[r]? = some m.sec) → ∃ q : ℕ, (∃ m ∈ inputs.logs,
        m.column = column ∧ (logSeconds inputs.logs)[q]? = some m.sec) ∧
      ∃ sec, (metricSeconds inputs.frame)[r]? = some sec ∧
        (logSeconds inputs.logs)[q]? = some sec := by
    rintro r ⟨m,hm,hmcol,hr⟩
    obtain ⟨-,m',hm',hmcol',hmetric⟩ := h m hm hmcol r hr
    obtain ⟨q,hq⟩ := hplace m' hm'
    exact ⟨q,⟨m',hm',hmcol',hq⟩,m'.sec,hmetric,hq⟩
  obtain ⟨r,hr⟩ := hplace l hl
  obtain ⟨sec,hmetric,hlog⟩ := getElem?_eq_of_closed (sortedSet_pairwise _)
    (sortedSet_pairwise _) hclosed ⟨l,hl,hcol,hr⟩
  obtain rfl := Option.some.inj (hlog.symm.trans hr)
  exact ⟨r,hmetric,hr,(h l hl hcol r hr).1⟩

omit [PyValue.Python F] in
/-- For one cluster: its tables are joined in time when the events of its log columns are in
step. -/
theorem joined_iff_inStep {cfg : ToraiConfig} {injectNs : ℕ} {inputs : CausalInputs F}
    {services : List String} {t : Table F × Table F}
    (ht : clusterTables cfg injectNs inputs services = some t) :
    (Joined (((sampledMetric cfg inputs.frame).stride cfg.resampleS).restrict (before injectNs))
        inputs.logs (logColumns cfg injectNs inputs services) t.1 ∧
      Joined (((sampledMetric cfg inputs.frame).stride cfg.resampleS).restrict (after injectNs))
        inputs.logs (logColumns cfg injectNs inputs services) t.2) ↔
    ∀ l ∈ inputs.logs, l.column ∈ logColumns cfg injectNs inputs services →
      InStep cfg inputs l.sec := by
  obtain ⟨hindex₁,hindex₂,hcols₁,hcols₂,hsame⟩ := rcdTables_eq_some ht
  have hparts := index_metricParts injectNs
    ((ofServices services (sampledMetric cfg inputs.frame)).stride cfg.resampleS)
  have hcolumns₁ : ∀ c ∈ logColumns cfg injectNs inputs services,
      c ∉ metricColumns cfg injectNs inputs services :=
    fun c hc => of_decide_eq_true (List.mem_filter.mp hc).2
  have hcolumns₂ : ∀ c ∈ logColumns cfg injectNs inputs services,
      c ∉ (metricParts injectNs
        ((ofServices services (sampledMetric cfg inputs.frame)).stride cfg.resampleS)).2.columns := by
    rw [columns_metricParts]
    exact hcolumns₁
  constructor
  · rintro ⟨hnormal,hanomal⟩ l hl hcol
    have htable : l.column ∈ t.1.columns := by
      have hgiven := (List.mem_filter.mp hcol).1
      rw [handedOn,ht] at hgiven
      exact hgiven
    have hevent : ∀ l' ∈ inputs.logs, l'.column = l.column → ∀ r,
        (logSeconds inputs.logs)[r]? = some l'.sec → cfg.resampleS*cfg.resampleS ∣ r ∧
          ∃ m ∈ inputs.logs, m.column = l.column ∧
            (metricSeconds inputs.frame)[r]? = some m.sec := by
      intro l' hl' heq r hr
      rw [← heq] at hcol htable ⊢
      cases hside : before injectNs l'.sec with
      | true =>
        exact hnormal.exists_event hindex₁ hcols₁ hcolumns₁ hl' hcol htable hside hr
      | false =>
        have hafter : after injectNs l'.sec = true := by
          simpa [before,after] using hside
        exact hanomal.exists_event hindex₂ hcols₂ hcolumns₂ hl' hcol (hsame ▸ htable) hafter hr
    exact inStep_of_events hevent hl rfl
  · intro h
    exact ⟨joined_of_inStep hparts.1 hindex₁ hcols₁ hcolumns₁ h,
      joined_of_inStep hparts.2 hindex₂ hcols₂ hcolumns₂ h⟩

omit [PyValue.Python F] in
/-- Without tables there are no log columns either. -/
theorem clusterTables_joined_iff (cfg : ToraiConfig) (injectNs : ℕ) (inputs : CausalInputs F)
    (services : List String) :
    (∀ t, clusterTables cfg injectNs inputs services = some t →
      Joined (((sampledMetric cfg inputs.frame).stride cfg.resampleS).restrict (before injectNs))
          inputs.logs (logColumns cfg injectNs inputs services) t.1 ∧
        Joined (((sampledMetric cfg inputs.frame).stride cfg.resampleS).restrict (after injectNs))
          inputs.logs (logColumns cfg injectNs inputs services) t.2) ↔
    ∀ l ∈ inputs.logs, l.column ∈ logColumns cfg injectNs inputs services →
      InStep cfg inputs l.sec := by
  constructor
  · intro h l hl hcol
    cases ht : clusterTables cfg injectNs inputs services with
    | none =>
      have hgiven := (List.mem_filter.mp hcol).1
      rw [handedOn,ht] at hgiven
      cases hgiven
    | some t => exact (joined_iff_inStep ht).mp (h t ht) l hl hcol
  · exact fun h t ht => (joined_iff_inStep ht).mpr h

/-- The modalities are joined in time exactly when the events of the log columns that are handed
on are in step. -/
theorem joinedInTime_iff (cfg : ToraiConfig) (injectNs : ℕ) (inputs : CausalInputs F) :
    JoinedInTime cfg injectNs inputs ↔ ∀ services, IsCluster cfg injectNs inputs services →
      ∀ l ∈ inputs.logs, l.column ∈ logColumns cfg injectNs inputs services →
        InStep cfg inputs l.sec :=
  forall_congr' fun services => imp_congr_right fun _ =>
    clusterTables_joined_iff cfg injectNs inputs services

omit [One F] [Add F] [Numpy F] [PyValue.Python F] [DecidableEq F] [Zero F] in
theorem members_self (services : List String) :
    members (services.map fun _ => 0) services 0 = services := by
  induction services with
  | nil => rfl
  | cons s services ih =>
    simp only [members,List.map_cons,List.zip_cons_cons,List.filter_cons] at ih ⊢
    rw [if_pos (by decide),List.map_cons,ih]

/-- All services can be one cluster. -/
theorem isCluster_services {cfg : ToraiConfig} {injectNs : ℕ} {inputs : CausalInputs F}
    {services : List String}
    (h : serviceList (coarse (fineRanks cfg injectNs inputs)) = some services)
    (hmany : 2 ≤ services.length) : IsCluster cfg injectNs inputs services :=
  ⟨hmany,services,_,0,h,List.length_map ..,members_self services⟩

omit [PyValue.Python F] in
theorem logColumns_congr {services services' : List String}
    (h : ∀ s, s ∈ services ↔ s ∈ services') (cfg : ToraiConfig) (injectNs : ℕ)
    (inputs : CausalInputs F) :
    logColumns cfg injectNs inputs services = logColumns cfg injectNs inputs services' := by
  rw [logColumns,logColumns,handedOn,handedOn,metricColumns,metricColumns,clusterTables,
    clusterTables,ofServices_congr h,ofServices_congr h]

end Join

/-! ## Logs in some of the seconds -/

def oomAt (entity : String) (sec : ℕ) : LogEvent := ⟨sec*1000000000,entity,"oom"⟩

/-- Eight seconds of metrics, and an event in each of four of them. -/
def fewLogs : CausalInputs ℚ where
  frame := ⟨everySecond ["proc7","proc8"] [1,3,1,3,5,9,5,9],by decide,by decide⟩
  logs := [oomAt "proc7" 1,oomAt "proc8" 3,oomAt "proc7" 5,oomAt "proc8" 6]
  traces := []
  incident := none

theorem frameToMetric_fewLogs : frameToMetric fewLogs.frame =
    { time := some [0,1,2,3,4,5,6,7]
      cols := [("proc7_cpu",[1,3,1,3,5,9,5,9]),("proc8_cpu",[1,3,1,3,5,9,5,9])] } := by
  rw [frameToMetric,sortedSet_eq [0,1,2,3,4,5,6,7] (by decide) (by decide)]
  exact congrArg (Frame.mk (some [0,1,2,3,4,5,6,7])) (by decide +kernel)

theorem logsToTable_fewLogs : (logsToTable fewLogs.logs : Frame ℚ) =
    { time := some [1,3,5,6], cols := [("proc7_oom",[1,0,1,0]),("proc8_oom",[0,1,0,1])] } := by
  rw [logsToTable,sortedSet_eq [1,3,5,6] (by decide) (by decide)]
  exact congrArg (Frame.mk (some [1,3,5,6])) (by decide +kernel)

theorem mem_logColumns_fewLogs :
    "proc7_oom" ∈ logColumns everyRow 4000000000 fewLogs ["proc7","proc8"] := by
  rw [logColumns,handedOn,metricColumns,clusterTables,sampledMetric,frameToMetric_fewLogs,logTable,
    logsToTable_fewLogs]
  decide +kernel

theorem isEntity_fewLogs {e : String} (h : IsEntity fewLogs e) : e = "proc7" ∨ e = "proc8" := by
  rcases h with ⟨p,hp,rfl⟩ | ⟨l,hl,rfl⟩ | ⟨sp,hsp,-⟩
  · revert p
    decide
  · revert l
    decide
  · cases hsp

/-- The row of second zero has the event of second one. -/
theorem fewLogs_not_joined : ¬ ∀ (cfg : ToraiConfig) (injectNs : ℕ) (inputs : CausalInputs ℚ),
    JoinedInTime cfg injectNs inputs := by
  intro h
  have hapart : Apart (fineRanks everyRow 4000000000 fewLogs) :=
    apart_of_entities fun e he => by rcases isEntity_fewLogs he with rfl | rfl <;> decide
  obtain ⟨services,hservices,hnodup,hmem⟩ := serviceList_coarse hapart
  have hentity : ∀ s ∈ services, s = "proc7" ∨ s = "proc8" := by
    intro s hs
    obtain ⟨m,r,hr,hname⟩ := (hmem s).mp hs
    obtain ⟨e,howns⟩ := exists_owner everyRow 4000000000 fewLogs hr
    rw [← hname,howns.serviceName_eq]
    rcases isEntity_fewLogs howns.isEntity with rfl | rfl <;> decide
  have hranked : (∃ r ∈ fineRanks everyRow 4000000000 fewLogs .metric, r.1 = "proc7_cpu") ∧
      ∃ r ∈ fineRanks everyRow 4000000000 fewLogs .metric, r.1 = "proc8_cpu" := by
    rw [fineRanks,sampledMetric,frameToMetric_fewLogs]
    decide +kernel
  obtain ⟨⟨r,hr,hname⟩,⟨r',hr',hname'⟩⟩ := hranked
  have hboth : ∀ s, s ∈ services ↔ s ∈ ["proc7","proc8"] := by
    refine fun s => ⟨fun hs => by simpa using hentity s hs,fun hs => ?_⟩
    rcases List.mem_pair.mp hs with rfl | rfl
    · exact (hmem _).mpr ⟨.metric,r,hr,by rw [hname]; decide⟩
    · exact (hmem _).mpr ⟨.metric,r',hr',by rw [hname']; decide⟩
  have hmany : 2 ≤ services.length :=
    (List.subperm_of_subset (by decide) fun s hs => (hboth s).mpr hs).length_le
  have hcluster := isCluster_services hservices hmany
  have hcolumn := mem_logColumns_fewLogs
  rw [← logColumns_congr hboth] at hcolumn
  obtain ⟨i,hmetric,hlog,-⟩ := (clusterTables_joined_iff _ _ _ _).mp
    (h everyRow 4000000000 fewLogs services hcluster) (oomAt "proc7" 1) (List.mem_cons_self ..)
    hcolumn
  have hseconds : metricSeconds fewLogs.frame = [0,1,2,3,4,5,6,7] :=
    sortedSet_eq _ (by decide) (by decide)
  have hlogSeconds : logSeconds fewLogs.logs = [1,3,5,6] := sortedSet_eq _ (by decide) (by decide)
  have hsec : (oomAt "proc7" 1).sec = 1 := by decide
  rw [hseconds,hsec] at hmetric
  rw [hlogSeconds,hsec] at hlog
  obtain rfl : i = 0 := getElem?_inj (by decide) hlog rfl
  exact absurd hmetric (by decide)

end Torai
end ETraceDiag
