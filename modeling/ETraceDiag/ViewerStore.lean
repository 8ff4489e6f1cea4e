import ETraceDiag.ViewerExtract
import Mathlib.Data.List.Chain
import Mathlib.Data.List.Nodup

/-!
# The store as the passes fill it

What one row adds lies at its place on the time axis and goes to series of its entity, to each at
most once. The passes fill different series, so that a series of the store is a series of one
pass.
-/

namespace ETraceDiag
namespace ViewerStore

open MetricRegistry ViewerExtract

variable {N : Type}

/-! ## The points of a row -/

/-- The points lie at `x`, in these series, in each at most once. -/
structure Emits (pts : List (Point N)) (x : N) (mids : List Mid) : Prop where
  sub : (pts.map Point.mid).Sublist mids
  place : ∀ pt ∈ pts, pt.x = x

namespace Emits

theorem nil (x : N) (mids : List Mid) : Emits [] x mids := ⟨by simp,by simp⟩

theorem append {a b : List (Point N)} {x : N} {l k : List Mid} (ha : Emits a x l)
    (hb : Emits b x k) : Emits (a++b) x (l++k) where
  sub := by simpa using ha.sub.append hb.sub
  place pt hpt := (List.mem_append.1 hpt).elim (ha.place pt) (hb.place pt)

theorem ite {c : Prop} [Decidable c] {a : List (Point N)} {x : N} {ms : List Mid}
    (ha : Emits a x ms) : Emits (if c then a else []) x ms := by
  split
  · exact ha
  · exact nil x ms

theorem flatMap {α : Type} {f : α → List (Point N)} {g : α → List Mid} {x : N} (l : List α)
    (h : ∀ a ∈ l, Emits (f a) x (g a)) : Emits (l.flatMap f) x (l.flatMap g) := by
  induction l with
  | nil => exact nil x []
  | cons a l ih =>
    simpa using (h a (by simp)).append (ih fun b hb => h b (by simp [hb]))

theorem mem_mids {pts : List (Point N)} {x : N} {ms : List Mid} (h : Emits pts x ms)
    {pt : Point N} (hpt : pt ∈ pts) : pt.mid ∈ ms := h.sub.subset (List.mem_map_of_mem hpt)

/-- A series gets one point at most, so that any order holds in it. -/
theorem series_pairwise {pts : List (Point N)} {x : N} {ms : List Mid} (h : Emits pts x ms)
    (hms : ms.Nodup) (mid : Mid) (R : Point N → Point N → Prop) :
    (series pts mid).Pairwise R := by
  have hnodup : pts.Pairwise fun a b => a.mid ≠ b.mid := List.pairwise_map.1 (h.sub.nodup hms)
  refine (hnodup.filter (·.mid = mid)).imp_of_mem fun {a b} ha hb hne => (hne ?_).elim
  simp only [series,List.mem_filter,decide_eq_true_eq] at ha hb
  exact ha.2.trans hb.2.symm

variable [ScriptNumber N]

theorem push (mid : Mid) (x : N) (v : ScriptValue N) : Emits (push mid x v) x [mid] := by
  cases v with
  | undefined => exact nil x [mid]
  | null => exact nil x [mid]
  | num y =>
    by_cases hy : ScriptNumber.finite y = true
    · exact ⟨by simp [ViewerExtract.push,hy],by simp [ViewerExtract.push,hy]⟩
    · simpa [ViewerExtract.push,hy] using nil x [mid]

end Emits

theorem push_mid [ScriptNumber N] {mid : Mid} {x : N} {v : ScriptValue N} {pt : Point N}
    (h : pt ∈ push mid x v) : pt.mid = mid := by simpa using (Emits.push mid x v).mem_mids h

/-! ## The series of a pass -/

/-- The rows of a pass go to the series of their entities. -/
structure RowEmits [ScriptNumber N] {K γ : Type} (t0 : N) (entity : Rec K N → γ)
    (f : Option (Rec K N) → Rec K N → List (Point N)) (mids : γ → List Mid) : Prop where
  emits : ∀ prev r, Emits (f prev r) (xOf t0 r.ts) (mids (entity r))
  nodup : ∀ e, (mids e).Nodup
  apart : ∀ e e' mid, mid ∈ mids e → mid ∈ mids e' → e = e'

/-- The number of the pass that fills a series. -/
def source : Mid → ℕ
  | .metric mid => if mid ∈ memoryMetrics.map Metric.mid then 9 else 0
  | .core _ => 1
  | .disk _ _ => 2
  | .proc _ _ => 3
  | .iface _ _ => 4
  | .tcp _ => 5
  | .softnet _ _ => 6
  | .gpu _ _ => 7
  | .cgroup _ => 8

def gaugeMids (m : Metric) : List Mid :=
  if m.table ≠ .host ∨ m.kind = some .counter then [] else [.metric m.mid]

def counterMids (m : Metric) : List Mid :=
  if m.table ≠ .host ∨ m.kind ≠ some .counter then [] else [.metric m.mid]

def hostMids : Unit → List Mid :=
  fun _ => metrics.flatMap gaugeMids++metrics.flatMap counterMids

def coreMids (cpuIdx : Int64) : List Mid := [.core cpuIdx]

def diskMids (k : DiskKey) : List Mid :=
  ["read_mbs","write_mbs","util_pct","read_await_ms","write_await_ms"].map (.disk k.name)

def ifaceMids (name : String) : List Mid :=
  ["rx_mbps","tx_mbps","rx_pps","tx_pps","rx_err_s","tx_err_s","rx_drop_s","tx_drop_s"].map
    (.iface name)

def stackMids : Unit → List Mid :=
  fun _ => (stackMono.map (·++"_s")++["curr_estab","sock_mem_kb"]).map .tcp

def softnetMids (cpuIdx : Int64) : List Mid :=
  ["backlog_len","processed_s","dropped_s","time_squeeze_s","net_rx_softirq_s",
    "net_tx_softirq_s"].map (.softnet cpuIdx)

def gpuMids (uuid : String) : List Mid :=
  ["util_pct","mem_used_mb","mem_pct","temp_c","power_w","enc_pct","dec_pct","pcie_rx_mbps",
    "pcie_tx_mbps"].map (.gpu uuid)

def cgroupMids : Unit → List Mid :=
  fun _ => ["cpu_usage_pct","cpu_throttled_pct","mem_events_oom_s","mem_current_mb",
    "cpu_psi_s10"].map .cgroup

def memoryMids : Unit → List Mid := fun _ => memoryMetrics.map fun m => .metric m.mid

section Rows

variable [ScriptNumber N] (t0 : N)

theorem emits_risingRate {K : Type} (p r : Rec K N) (mid : Mid) (col : String) :
    Emits (risingRate t0 p r mid col) (xOf t0 r.ts) [mid] := .ite (.push mid _ _)

/-- The series of an entity are named by the entity and by a last part. -/
theorem RowEmits.ofNamed {K γ : Type} {entity : Rec K N → γ}
    {f : Option (Rec K N) → Rec K N → List (Point N)} {names : List String} {c : γ → String → Mid}
    (hnames : names.Nodup) (hc : ∀ e e' a b, c e a = c e' b → e = e' ∧ a = b)
    (hemits : ∀ prev r, Emits (f prev r) (xOf t0 r.ts) (names.map (c (entity r)))) :
    RowEmits t0 entity f fun e => names.map (c e) where
  emits := hemits
  nodup e := hnames.map fun a b h => (hc e e a b h).2
  apart e e' mid he he' := by
    simp only [List.mem_map] at he he'
    obtain ⟨a,-,ha⟩ := he
    obtain ⟨b,-,hb⟩ := he'
    exact (hc e e' a b (ha.trans hb.symm)).1

theorem host_emits : RowEmits t0 (fun _ => ()) (hostRow t0) hostMids where
  emits prev r := by
    apply Emits.append
    · refine Emits.flatMap metrics fun m _ => ?_
      by_cases h : m.table ≠ .host ∨ m.kind = some .counter
      · simpa [hostGauge,h] using Emits.nil _ _
      · simpa [hostGauge,gaugeMids,h] using Emits.push _ _ _
    · cases prev with
      | none => exact Emits.nil _ _
      | some p =>
        refine Emits.flatMap metrics fun m _ => ?_
        by_cases h : m.table ≠ .host ∨ m.kind ≠ some .counter
        · simpa [hostCounter,h] using Emits.nil _ _
        · by_cases hfalls : anyFalls (m.mono.getD []) p.cols r.cols = true
          · simpa [hostCounter,h,hfalls] using Emits.nil _ _
          · simpa [hostCounter,counterMids,h,hfalls] using Emits.push _ _ _
  nodup | () => by decide +kernel
  apart _ _ _ _ _ := rfl

theorem core_emits : RowEmits t0 Rec.key (coreRow t0) coreMids where
  emits prev r := by
    cases prev with
    | none => exact .nil _ _
    | some p => exact .ite (.push _ _ _)
  nodup _ := by simp [coreMids]
  apart _ _ _ he he' := by simp_all [coreMids]

theorem disk_emits : RowEmits t0 Rec.key (diskRow t0) diskMids := by
  refine .ofNamed t0 (by decide) (by rintro ⟨e⟩ ⟨e'⟩ a b h; simpa using h) fun prev r => ?_
  cases prev with
  | none => exact .nil _ _
  | some p =>
    refine .ite (.append (l := [_]) (.ite (.push _ _ _)) ?_)
    refine .append (l := [_]) (.ite (.push _ _ _)) (.append (l := [_]) (.ite (.push _ _ _)) ?_)
    exact .append (l := [_]) (.ite (.push _ _ _)) (.ite (.push _ _ _))

theorem iface_emits : RowEmits t0 (fun r => r.key.name) (ifaceRow t0) ifaceMids := by
  refine .ofNamed t0 (by decide) (fun e e' a b h => by simpa using h) fun prev r => ?_
  cases prev with
  | none => exact .nil _ _
  | some p =>
    refine .ite (.append (l := [_]) (.ite (.push _ _ _)) ?_)
    refine .append (l := [_]) (.ite (.push _ _ _)) (.append (l := [_]) (.ite (.push _ _ _)) ?_)
    refine .append (l := [_]) (.ite (.push _ _ _)) ?_
    exact .flatMap _ (g := fun e : String × String => [.iface r.key.name e.1])
      fun e _ => emits_risingRate t0 p r _ e.2

theorem stack_emits : RowEmits t0 (fun _ => ()) (stackRow t0) stackMids where
  emits prev r := by
    cases prev with
    | none => exact .nil _ _
    | some p =>
      refine .append (l := (stackMono.map (·++"_s")).map .tcp) (.ite ?_)
        (.append (l := [_]) (.push _ _ _) (.push _ _ _))
      exact .flatMap _ (g := fun col => [.tcp (col++"_s")])
        fun col _ => emits_risingRate t0 p r _ col
  nodup | () => by decide +kernel
  apart _ _ _ _ _ := rfl

theorem softnet_emits : RowEmits t0 Rec.key (softnetRow t0) softnetMids := by
  refine .ofNamed t0 (by decide) (fun e e' a b h => by simpa using h) fun prev r => ?_
  refine .append (l := [_]) (.push _ _ _) ?_
  cases prev with
  | none => exact .nil _ _
  | some p =>
    exact .ite (.flatMap _ (g := fun col => [.softnet r.key (col++"_s")])
      fun col _ => emits_risingRate t0 p r _ col)

theorem gpu_emits : RowEmits t0 (fun r => r.key.uuid) (gpuRow t0) gpuMids := by
  refine .ofNamed t0 (by decide) (fun e e' a b h => by simpa using h) fun prev r => ?_
  refine .append (l := [_]) (.push _ _ _) (.append (l := [_]) (.push _ _ _) ?_)
  refine .append (l := [_]) (.ite (.push _ _ _)) (.append (l := [_]) (.push _ _ _) ?_)
  refine .append (l := [_]) (.push _ _ _) (.append (l := [_]) (.push _ _ _) ?_)
  refine .append (l := [_]) (.push _ _ _) (.append (l := [_]) (.push _ _ _) ?_)
  exact .push _ _ _

theorem cgroup_emits : RowEmits t0 (fun _ => ()) (cgroupRow t0) cgroupMids where
  emits prev r := by
    refine .append (l := ["cpu_usage_pct","cpu_throttled_pct","mem_events_oom_s"].map .cgroup) ?_
      (.append (l := [_]) (.push _ _ _) (.ite (.push _ _ _)))
    cases prev with
    | none => exact .nil _ _
    | some p =>
      refine .ite (.append (l := [_]) (.ite (.push _ _ _)) ?_)
      exact .append (l := [_]) (.ite (.push _ _ _)) (emits_risingRate t0 p r _ _)
  nodup | () => by decide
  apart _ _ _ _ _ := rfl

theorem memory_emits : RowEmits t0 (fun _ => ()) (memoryRow t0) memoryMids where
  emits prev r := by
    refine .append (l := [_]) (.push _ _ _) ?_
    cases prev with
    | none => exact .nil _ _
    | some p =>
      exact .append (l := [_]) (emits_risingRate t0 p r _ _) (emits_risingRate t0 p r _ _)
  nodup | () => by decide
  apart _ _ _ _ _ := rfl

end Rows

section Scan

variable {K γ : Type} [DecidableEq γ] {entity : Rec K N → γ}
  {f : Option (Rec K N) → Rec K N → List (Point N)}

/-- What holds of the points of any row holds of the points of a pass. -/
theorem scan_all {P : Point N → Prop} (h : ∀ prev r, ∀ pt ∈ f prev r, P pt)
    (prev : γ → Option (Rec K N)) (rows : List (Rec K N)) :
    ∀ pt ∈ scan entity f prev rows, P pt := by
  induction rows generalizing prev with
  | nil => simp [scan]
  | cons r rs ih =>
    simp only [scan,List.mem_append,or_imp,forall_and]
    exact ⟨h _ r,ih _⟩

theorem pass_source [ScriptNumber N] {t0 : N} {mids : γ → List Mid} {k : ℕ}
    (h : RowEmits t0 entity f mids) (hmids : ∀ e, ∀ mid ∈ mids e, source mid = k)
    (rows : List (Rec K N)) :
    ∀ pt ∈ rowPass entity f rows, source pt.mid = k :=
  scan_all (fun prev r _ hpt => hmids _ _ ((h.emits prev r).mem_mids hpt)) _ rows

end Scan

/-! ## The passes side by side -/

/-- Each pass fills series of its own. -/
def Numbered : ℕ → List (List (Point N)) → Prop
  | _,[] => True
  | k,pts::parts => (∀ pt ∈ pts, source pt.mid = k) ∧ Numbered (k+1) parts

theorem series_append (a b : List (Point N)) (mid : Mid) :
    series (a++b) mid = series a mid++series b mid := by simp [series]

theorem series_eq_nil {pts : List (Point N)} {mid : Mid} (h : ∀ pt ∈ pts, pt.mid ≠ mid) :
    series pts mid = [] := by simpa [series] using h

/-- Points of one series. -/
theorem series_of_mid {pts : List (Point N)} {m : Mid} (h : ∀ pt ∈ pts, pt.mid = m) (mid : Mid) :
    series pts mid = if m = mid then pts else [] := by
  by_cases hmid : m = mid
  · rw [if_pos hmid]
    exact List.filter_eq_self.2 fun pt hpt => by simpa [h pt hpt]
  · rw [if_neg hmid]
    exact series_eq_nil fun pt hpt => by simpa [h pt hpt]

theorem Numbered.le {k : ℕ} {parts : List (List (Point N))} (h : Numbered k parts) :
    ∀ pt ∈ parts.flatten, k ≤ source pt.mid := by
  induction parts generalizing k with
  | nil => simp
  | cons pts parts ih =>
    simp only [List.flatten_cons,List.mem_append,or_imp,forall_and]
    exact ⟨fun pt hpt => (h.1 pt hpt).ge,fun pt hpt => by have := ih h.2 pt hpt; omega⟩

/-- A series of the store is a series of the pass that fills it. -/
theorem Numbered.series_flatten {k : ℕ} {parts : List (List (Point N))} (h : Numbered k parts)
    {i : ℕ} {mid : Mid} (hi : source mid = k+i) :
    series parts.flatten mid = series (parts.getD i []) mid := by
  induction parts generalizing k i with
  | nil => simp
  | cons pts parts ih =>
    rw [List.flatten_cons,series_append]
    cases i with
    | zero =>
      have hrest : series parts.flatten mid = [] := by
        refine series_eq_nil fun pt hpt heq => ?_
        have hle := h.2.le pt hpt
        simp only [heq,hi] at hle
        omega
      simp [hrest]
    | succ i =>
      have hfirst : series pts mid = [] := by
        refine series_eq_nil fun pt hpt heq => ?_
        have hk := h.1 pt hpt
        simp only [heq,hi] at hk
        omega
      simpa [hfirst] using ih h.2 (by omega)

theorem pushSeries_mid (mid : Mid) (pairs : List (N × N)) :
    ∀ pt ∈ pushSeries mid pairs, pt.mid = mid := List.forall_mem_map.2 fun _ _ => rfl

section Session

variable [ScriptNumber N]

/-- The rows of a table, none when it is missing. -/
def rowsOf {K : Type} {keyLt : K → K → Prop} (t : Option (Table K N keyLt)) : List (Rec K N) :=
  (t.map Table.rows).getD []

def parts (t0 : N) (db : Db N) : List (List (Point N)) :=
  [hostPass t0 (rowsOf db.host),corePass t0 (rowsOf db.hostCpu),diskPass t0 (rowsOf db.hostDisk),
    procPass t0 (rowsOf db.hostProc),ifacePass t0 (rowsOf db.netIface),
    stackPass t0 (rowsOf db.netStack),softnetPass t0 (rowsOf db.netSoftnet),
    gpuPass t0 (rowsOf db.gpuDevice),cgroupPass t0 (rowsOf db.cgroup),
    memoryPass t0 (rowsOf db.memoryEvents)]

theorem procPass_source (t0 : N) (rows : List (Rec ProcKey N)) :
    ∀ pt ∈ procPass t0 rows, source pt.mid = 3 := by
  intro pt hpt
  obtain ⟨raw,-,hraw⟩ := List.mem_flatMap.1 hpt
  rcases List.mem_append.1 hraw with h | h
  · simp [pushSeries_mid _ _ pt h,source]
  · simp [pushSeries_mid _ _ pt h,source]

theorem parts_numbered (t0 : N) (db : Db N) : Numbered 0 (parts t0 db) := by
  have hhost : ∀ mid ∈ hostMids (), source mid = 0 := by decide +kernel
  have hmemory : ∀ mid ∈ memoryMids (), source mid = 9 := by decide +kernel
  refine ⟨pass_source (host_emits t0) (fun _ => hhost) _,?_⟩
  refine ⟨pass_source (core_emits t0) (by simp [coreMids,source]) _,?_⟩
  refine ⟨pass_source (disk_emits t0) (by simp [diskMids,source]) _,procPass_source t0 _,?_⟩
  refine ⟨pass_source (iface_emits t0) (by simp [ifaceMids,source]) _,?_⟩
  refine ⟨pass_source (stack_emits t0) (fun _ => List.forall_mem_map.2 fun _ _ => rfl) _,?_⟩
  refine ⟨pass_source (softnet_emits t0) (by simp [softnetMids,source]) _,?_⟩
  refine ⟨pass_source (gpu_emits t0) (by simp [gpuMids,source]) _,?_⟩
  refine ⟨pass_source (cgroup_emits t0) (by simp [cgroupMids,source]) _,?_⟩
  exact ⟨pass_source (memory_emits t0) (fun _ => hmemory) _,trivial⟩

/-! ## When there is a store -/

/-- Every table that a query names is there. -/
def complete (db : Db N) : Bool :=
  db.host.isSome && db.hostCpu.isSome && db.hostDisk.isSome && db.hostProc.isSome &&
    db.anomaly.isSome && (db.anomalyTid && db.targetsLog) && db.netIface.isSome &&
    db.netStack.isSome && db.netSoftnet.isSome && db.gpuDevice.isSome && db.cgroup.isSome &&
    db.memoryEvents.isSome && (db.oomEvents && db.deepEpisodes)

/-- The first column of each of the six metrics falls. -/
def AllFall (p r : Rec Unit N) : Prop := ∀ f ∈ anomalyFirst, (r.cols f).lt (p.cols f) = true

/-- What the extraction needs to come to its end. -/
structure Readable (db : Db N) : Prop where
  complete : complete db = true
  falls : (rowsOf db.anomaly).IsChain AllFall

theorem anomalyPair_eq_some (p r : Rec Unit N) : anomalyPair p r = some () ↔ AllFall p r := by
  simp [anomalyPair,AllFall]

theorem anomalyPass_some (p : Rec Unit N) (rows : List (Rec Unit N)) :
    anomalyPass (some p) rows = some () ↔ (p::rows).IsChain AllFall := by
  induction rows generalizing p with
  | nil => simp [anomalyPass]
  | cons r rs ih =>
    simp only [anomalyPass,Option.bind_eq_bind,Option.bind_eq_some_iff,ih,List.isChain_cons_cons,
      ← anomalyPair_eq_some]
    exact ⟨fun ⟨(),h⟩ => h,fun h => ⟨(),h⟩⟩

theorem anomalyPass_none (rows : List (Rec Unit N)) :
    anomalyPass none rows = some () ↔ rows.IsChain AllFall := by
  cases rows with
  | nil => simp [anomalyPass]
  | cons r rs => simpa [anomalyPass] using anomalyPass_some r rs

theorem allFall_select (p r : Rec Unit N) :
    AllFall (p.select anomalyNames) (r.select anomalyNames) ↔ AllFall p r := by
  have hnames : ∀ f ∈ anomalyFirst, f ∈ anomalyNames := by decide
  refine forall₂_congr fun f hf => ?_
  simp [Rec.select,ScriptRow.select_of_mem _ (hnames f hf)]

/-- The pass over the anomaly table ends when every pair of rows falls. -/
theorem anomalyPass_select (rows : List (Rec Unit N)) :
    anomalyPass none (rows.map (Rec.select anomalyNames)) = some () ↔ rows.IsChain AllFall := by
  simp only [anomalyPass_none,List.isChain_map,allFall_select]

theorem present_eq_some (b : Bool) : present b = some () ↔ b = true := by
  cases b <;> simp [present]

theorem extract_eq_some_iff (db : Db N) (store : List (Point N)) :
    extract db = some store ↔
      Readable db ∧ ∃ t0, startOf db = some t0 ∧ store = (parts t0 db).flatten := by
  constructor
  · intro h
    rw [extract] at h
    obtain ⟨t0,ht0,h⟩ := Option.bind_eq_some_iff.1 h
    obtain ⟨host,hhost,h⟩ := Option.bind_eq_some_iff.1 h
    obtain ⟨hostCpu,hcpu,h⟩ := Option.bind_eq_some_iff.1 h
    obtain ⟨hostDisk,hdisk,h⟩ := Option.bind_eq_some_iff.1 h
    obtain ⟨hostProc,hproc,h⟩ := Option.bind_eq_some_iff.1 h
    obtain ⟨anomaly,hanomaly,h⟩ := Option.bind_eq_some_iff.1 h
    obtain ⟨⟨⟩,hpass,h⟩ := Option.bind_eq_some_iff.1 h
    obtain ⟨⟨⟩,htid,h⟩ := Option.bind_eq_some_iff.1 h
    obtain ⟨netIface,hiface,h⟩ := Option.bind_eq_some_iff.1 h
    obtain ⟨netStack,hstack,h⟩ := Option.bind_eq_some_iff.1 h
    obtain ⟨netSoftnet,hsoftnet,h⟩ := Option.bind_eq_some_iff.1 h
    obtain ⟨gpuDevice,hgpu,h⟩ := Option.bind_eq_some_iff.1 h
    obtain ⟨cgroup,hcgroup,h⟩ := Option.bind_eq_some_iff.1 h
    obtain ⟨memoryEvents,hmemory,h⟩ := Option.bind_eq_some_iff.1 h
    obtain ⟨⟨⟩,hoom,h⟩ := Option.bind_eq_some_iff.1 h
    obtain rfl := Option.some.inj h
    rw [present_eq_some] at htid hoom
    have hfalls := (anomalyPass_select anomaly.rows).1 hpass
    refine ⟨⟨?_,by simpa [rowsOf,hanomaly] using hfalls⟩,t0,ht0,?_⟩
    · simp [complete,hhost,hcpu,hdisk,hproc,hanomaly,htid,hiface,hstack,hsoftnet,hgpu,hcgroup,
        hmemory,hoom]
    · simp [parts,rowsOf,hhost,hcpu,hdisk,hproc,hiface,hstack,hsoftnet,hgpu,hcgroup,hmemory]
  · rintro ⟨⟨hcomplete,hfalls⟩,t0,ht0,rfl⟩
    simp only [complete,Bool.and_eq_true,Option.isSome_iff_exists] at hcomplete
    obtain ⟨⟨⟨⟨⟨⟨⟨⟨⟨⟨⟨⟨⟨host,hhost⟩,hostCpu,hcpu⟩,hostDisk,hdisk⟩,hostProc,hproc⟩,anomaly,hanomaly⟩,
      htid⟩,netIface,hiface⟩,netStack,hstack⟩,netSoftnet,hsoftnet⟩,gpuDevice,hgpu⟩,cgroup,hcgroup⟩,
      memoryEvents,hmemory⟩,hoom⟩ := hcomplete
    have hpass := (anomalyPass_select (rowsOf db.anomaly)).2 hfalls
    simp only [rowsOf,hanomaly,Option.map_some,Option.getD_some] at hpass
    simp [extract,ht0,hhost,hcpu,hdisk,hproc,hanomaly,hpass,htid,hiface,hstack,hsoftnet,hgpu,
      hcgroup,hmemory,hoom,present,parts,rowsOf]

/-- The axis has a start when the tables are there. -/
theorem exists_startOf {db : Db N} (h : complete db = true) : ∃ t0, startOf db = some t0 := by
  simp only [complete,Bool.and_eq_true,Option.isSome_iff_exists] at h
  obtain ⟨⟨⟨⟨⟨⟨⟨⟨⟨⟨⟨⟨⟨host,hhost⟩,-⟩,-⟩,-⟩,anomaly,hanomaly⟩,-⟩,-⟩,-⟩,-⟩,-⟩,-⟩,-⟩,-⟩ := h
  cases hfirst : minTs host.rows with
  | some ts => exact ⟨stamp ts,by simp [startOf,hhost,hfirst]⟩
  | none =>
    cases hnext : minTs anomaly.rows with
    | some ts => exact ⟨stamp ts,by simp [startOf,hhost,hfirst,hanomaly,hnext]⟩
    | none => exact ⟨lit 0,by simp [startOf,hhost,hfirst,hanomaly,hnext]⟩

/-- The series of the store are those of the passes. -/
theorem series_store {db : Db N} {store : List (Point N)} {t0 : N}
    (hstore : store = (parts t0 db).flatten) (mid : Mid) :
    series store mid = series ((parts t0 db).getD (source mid) []) mid := by
  rw [hstore]
  exact (parts_numbered t0 db).series_flatten (by simp)

end Session

/-! ## Sessions with few rows -/

def noRows {K : Type} {keyLt : K → K → Prop} : Option (Table K N keyLt) := some ⟨[],.nil⟩

/-- All tables are there, and they are empty. -/
def emptyDb : Db N where
  host := noRows
  hostCpu := noRows
  hostDisk := noRows
  hostProc := noRows
  anomaly := noRows
  netIface := noRows
  netStack := noRows
  netSoftnet := noRows
  gpuDevice := noRows
  cgroup := noRows
  memoryEvents := noRows
  procOverhead := noRows
  anomalyTid := true
  targetsLog := true
  oomEvents := true
  deepEpisodes := true

end ViewerStore
end ETraceDiag
