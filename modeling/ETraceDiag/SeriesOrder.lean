import ETraceDiag.ViewerStore
import Mathlib.Algebra.Order.Field.Basic
import Mathlib.Tactic.Positivity

/-!
# Whether the drawn series are ordered in time

Hover, range and decimation take a series to be strictly increasing in `x`. A pass with one row
of an entity in a tick keeps that. The rows of a process are put together thread by thread, so
that there it depends on the threads.
-/

namespace ETraceDiag
namespace SeriesOrder

open MetricRegistry ViewerExtract ViewerStore

variable {N : Type}

/-! ## The ticks of a table -/

section Ticks

variable {K : Type}

/-- A table has one row in a tick of what its key tells apart. -/
theorem rowsOf_later {γ : Type} {keyLt : K → K → Prop} (g : K → γ)
    (hirr : ∀ a b, g a = g b → ¬ keyLt a b) (t : Option (Table K N keyLt)) :
    (rowsOf t).Pairwise fun a b => g a.key = g b.key → a.ts < b.ts := by
  cases t with
  | none => simp [rowsOf]
  | some t =>
    exact t.ordered.imp fun {a b} hab he => hab.resolve_right fun hsame => hirr _ _ he hsame.2

/-- The ticks of a table do not go back. -/
theorem rowsOf_le {keyLt : K → K → Prop} (t : Option (Table K N keyLt)) :
    (rowsOf t).Pairwise fun a b => a.ts < b.ts ∨ a.ts = b.ts := by
  cases t with
  | none => simp [rowsOf]
  | some t => exact t.ordered.imp fun {a b} hab => hab.imp id And.left

theorem ts_select (names : List String) (rows : List (Rec K N)) :
    (rows.map (Rec.select names)).map Rec.ts = rows.map Rec.ts := by simp [Rec.select]

theorem ts_filter (p : Rec K N → Bool) (rows : List (Rec K N)) :
    (rows.filter p).map Rec.ts ⊆ rows.map Rec.ts :=
  (List.filter_sublist.map Rec.ts).subset

end Ticks

variable [ScriptNumber N]

/-! ## The order -/

/-- Every series increases strictly in `x`. -/
def Ordered (store : List (Point N)) : Prop :=
  ∀ mid, (series store mid).Pairwise fun a b => ScriptNumber.lt a.x b.x = true

/-- The axis tells these ticks apart. -/
def Resolves (t0 : N) (stamps : List Int64) : Prop :=
  ∀ a ∈ stamps, ∀ b ∈ stamps, a < b → ScriptNumber.lt (xOf t0 a) (xOf t0 b) = true

theorem Resolves.mono {t0 : N} {stamps stamps' : List Int64} (h : Resolves t0 stamps)
    (hsub : stamps' ⊆ stamps) : Resolves t0 stamps' :=
  fun a ha b hb => h a (hsub ha) b (hsub hb)

/-- Places in order are ticks in order. -/
theorem Resolves.lt_of_lt {t0 : N} {stamps : List Int64} (h : Resolves t0 stamps) {a b : Int64}
    (ha : a ∈ stamps) (hb : b ∈ stamps)
    (hlt : ScriptNumber.lt (xOf t0 a) (xOf t0 b) = true) : a < b := by
  by_contra hnot
  rcases Int64.le_iff_lt_or_eq.1 (Int64.not_lt.1 hnot) with hba | rfl
  · have hback := h b hb a ha hba
    simp [ScriptNumber.lt_asymm _ _ hlt] at hback
  · simp [ScriptNumber.lt_irrefl] at hlt

/-! ## A pass that goes row by row -/

section Scan

variable {K γ : Type} [DecidableEq γ] {entity : Rec K N → γ}
  {f : Option (Rec K N) → Rec K N → List (Point N)} {t0 : N} {mids : γ → List Mid}

/-- A row comes after the row before it, or it adds nothing. -/
def Later (f : Option (Rec K N) → Rec K N → List (Point N)) (p r : Rec K N) : Prop :=
  p.ts < r.ts ∨ p.ts = r.ts ∧ f (some p) r = []

/-- What is added to the series of an entity comes after the row that was kept of it. -/
theorem scan_after (h : RowEmits t0 entity f mids) {e : γ} {p : Rec K N}
    {prev : γ → Option (Rec K N)} (hprev : prev e = some p) {rows : List (Rec K N)}
    (hrows : rows.Pairwise fun a b => entity a = entity b → Later f a b)
    (hp : ∀ r ∈ rows, entity r = e → Later f p r) :
    ∀ pt ∈ scan entity f prev rows, pt.mid ∈ mids e →
      ∃ r ∈ rows, pt.x = xOf t0 r.ts ∧ p.ts < r.ts := by
  induction rows generalizing p prev with
  | nil => simp [scan]
  | cons r rs ih =>
    intro pt hpt hmid
    obtain ⟨hr,hrs⟩ := List.pairwise_cons.1 hrows
    rcases List.mem_append.1 hpt with hpt | hpt
    · have hentity : entity r = e := h.apart _ _ _ ((h.emits _ r).mem_mids hpt) hmid
      rw [hentity,hprev] at hpt
      rcases hp r (by simp) hentity with hlt | ⟨-,hnone⟩
      · exact ⟨r,by simp,(h.emits _ r).place pt hpt,hlt⟩
      · simp [hnone] at hpt
    · by_cases hentity : entity r = e
      · subst hentity
        obtain ⟨r',hr',hx,hlt⟩ := ih (by simp) hrs (fun b hb he => hr b hb he.symm) pt hpt hmid
        refine ⟨r',by simp [hr'],hx,?_⟩
        rcases hp r (by simp) rfl with hpr | ⟨hpr,-⟩
        · exact Int64.lt_trans hpr hlt
        · exact hpr ▸ hlt
      · obtain ⟨r',hr',hx⟩ := ih (by simp [Function.update_of_ne (Ne.symm hentity),hprev]) hrs
          (fun b hb => hp b (by simp [hb])) pt hpt hmid
        exact ⟨r',by simp [hr'],hx⟩

theorem scan_ordered (h : RowEmits t0 entity f mids) (prev : γ → Option (Rec K N))
    {rows : List (Rec K N)} (hrows : rows.Pairwise fun a b => entity a = entity b → Later f a b)
    (hres : Resolves t0 (rows.map Rec.ts)) : Ordered (scan entity f prev rows) := by
  induction rows generalizing prev with
  | nil => simp [Ordered,scan,series]
  | cons r rs ih =>
    intro mid
    obtain ⟨hr,hrs⟩ := List.pairwise_cons.1 hrows
    rw [scan,series_append,List.pairwise_append]
    refine ⟨(h.emits _ r).series_pairwise (h.nodup _) mid _,
      ih _ hrs (hres.mono (by simp)) mid,fun a ha b hb => ?_⟩
    simp only [series,List.mem_filter,decide_eq_true_eq] at ha hb
    have hmid := (h.emits _ r).mem_mids ha.1
    obtain ⟨r',hr',hx,hlt⟩ := scan_after h (e := entity r) (by simp) hrs
      (fun b hb he => hr b hb he.symm) b hb.1 (hb.2 ▸ ha.2 ▸ hmid)
    rw [(h.emits _ r).place a ha.1,hx]
    exact hres _ (by simp) _ (List.mem_map_of_mem (by simp [hr'])) hlt

theorem pass_ordered (h : RowEmits t0 entity f mids) {rows : List (Rec K N)}
    (hrows : rows.Pairwise fun a b => entity a = entity b → Later f a b)
    (hres : Resolves t0 (rows.map Rec.ts)) : Ordered (rowPass entity f rows) :=
  scan_ordered h _ hrows hres

theorem pass_select_ordered (h : RowEmits t0 entity f mids) {names : List String}
    (hentity : ∀ r, entity (Rec.select names r) = entity r) {rows : List (Rec K N)}
    (hrows : rows.Pairwise fun a b => entity a = entity b → a.ts < b.ts)
    (hres : Resolves t0 (rows.map Rec.ts)) :
    Ordered (rowPass entity f (rows.map (Rec.select names))) := by
  refine pass_ordered h (List.pairwise_map.2 (hrows.imp fun {a b} hab he => ?_))
    (by rwa [ts_select])
  exact .inl (hab (by rwa [hentity,hentity] at he))

end Scan

/-- No time has passed between rows of one tick. -/
theorem truthy_seconds {K : Type} {p r : Rec K N} (h : p.ts = r.ts) :
    ScriptNumber.truthy (p.seconds r) = false := by
  simpa [Rec.seconds,stamp,lit,h] using ScriptNumber.truthy_sub_self_div r.ts.toInt 1000000000

/-- Two interfaces of one name in a tick: the second one adds nothing. -/
theorem ifaceRow_later (t0 : N) {p r : Rec IfaceKey N} (h : p.ts < r.ts ∨ p.ts = r.ts) :
    Later (ifaceRow t0) p r :=
  h.imp id fun hsame => ⟨hsame,by simp [ifaceRow,truthy_seconds hsame]⟩

theorem ifacePass_ordered {t0 : N} {db : Db N}
    (hres : Resolves t0 ((rowsOf db.netIface).map Rec.ts)) :
    Ordered (ifacePass t0 (rowsOf db.netIface)) := by
  have hsub := ts_filter (fun r => !ifaceInvalid r)
    ((rowsOf db.netIface).map (Rec.select ifaceNames))
  rw [ts_select] at hsub
  refine pass_ordered (iface_emits t0) ?_ (hres.mono hsub)
  refine List.Pairwise.filter _ (List.pairwise_map.2 ((rowsOf_le _).imp fun {a b} hab _ => ?_))
  exact ifaceRow_later t0 hab

/-! ## The threads of a process -/

/-- The process that a thread is counted to: that of its first row. -/
def groupOf (rows : List (Rec ProcKey N)) (pid : Int64) : Option Int64 :=
  (rows.find? fun r => r.key.pid = pid).map fun r => r.key.group

/-- Every row of one thread comes before every row of the other. -/
def Before (rows : List (Rec ProcKey N)) (p q : Int64) : Prop :=
  ∀ a ∈ rows, ∀ b ∈ rows, a.key.pid = p → b.key.pid = q → a.ts < b.ts

/-- Two threads of one process do not live at the same time. -/
def OneAfterAnother (rows : List (Rec ProcKey N)) : Prop :=
  ∀ p q, p ≠ q → groupOf rows p = groupOf rows q → Before rows p q ∨ Before rows q p

/-- What is kept of the threads after some of the rows. -/
structure Kept (t0 : N) (rows : List (Rec ProcKey N)) (raws : List (Raw N)) : Prop where
  nodup : (raws.map Raw.pid).Nodup
  threads : ∀ r ∈ rows, r.key.pid ∈ raws.map Raw.pid
  group : ∀ raw ∈ raws, groupOf rows raw.pid = some raw.group
  rss : ∀ raw ∈ raws, raw.rss = (rows.filter fun r => r.key.pid = raw.pid).map (rssPoint t0)
  cpu : ∀ raw ∈ raws, (raw.cpu.map Prod.fst).Sublist (raw.rss.map Prod.fst)
  firsts : raws.Pairwise fun a b => ∃ ra ∈ rows, ∃ rb ∈ rows, ra.key.pid = a.pid ∧
    rb.key.pid = b.pid ∧ ra.ts ≤ rb.ts

omit [ScriptNumber N] in
theorem groupOf_append {rows : List (Rec ProcKey N)} {pid g : Int64} (r : Rec ProcKey N)
    (h : groupOf rows pid = some g) : groupOf (rows++[r]) pid = some g := by
  simp only [groupOf,Option.map_eq_some_iff] at h ⊢
  obtain ⟨a,ha,hg⟩ := h
  exact ⟨a,by simp [List.find?_append,ha],hg⟩

theorem Kept.mem {t0 : N} {rows : List (Rec ProcKey N)} {raws : List (Raw N)}
    (h : Kept t0 rows raws) {raw : Raw N} (hraw : raw ∈ raws) :
    ∃ r ∈ rows, r.key.pid = raw.pid := by
  have hg := h.group raw hraw
  simp only [groupOf,Option.map_eq_some_iff] at hg
  obtain ⟨r,hr,-⟩ := hg
  exact ⟨r,List.mem_of_find?_eq_some hr,by simpa using List.find?_some hr⟩

section Step

variable (t0 : N) (r : Rec ProcKey N)

/-- A row that is added to its own thread only. -/
def see (raw : Raw N) : Raw N := if raw.pid = r.key.pid then raw.add t0 r else raw

@[simp] theorem see_pid (raw : Raw N) : (see t0 r raw).pid = raw.pid := by
  by_cases h : raw.pid = r.key.pid <;> simp [see,h,Raw.add]

@[simp] theorem see_group (raw : Raw N) : (see t0 r raw).group = raw.group := by
  by_cases h : raw.pid = r.key.pid <;> simp [see,h,Raw.add]

theorem see_rss (raw : Raw N) : (see t0 r raw).rss =
    raw.rss++([r].filter fun a => a.key.pid = raw.pid).map (rssPoint t0) := by
  by_cases h : raw.pid = r.key.pid
  · simp [see,h,Raw.add]
  · simp [see,h,Ne.symm h]

theorem see_cpu {raw : Raw N} (h : (raw.cpu.map Prod.fst).Sublist (raw.rss.map Prod.fst)) :
    ((see t0 r raw).cpu.map Prod.fst).Sublist ((see t0 r raw).rss.map Prod.fst) := by
  by_cases hpid : raw.pid = r.key.pid
  · simp only [see,hpid,if_true,Raw.add]
    split
    · simpa [rssPoint] using h
    · simpa using h.trans (List.sublist_append_left _ _)
  · simpa [see,hpid] using h

variable {t0 r} {rows : List (Rec ProcKey N)} {raws : List (Raw N)}

theorem Kept.add (h : Kept t0 rows raws) (hr : r.key.pid ∈ raws.map Raw.pid) :
    Kept t0 (rows++[r]) (raws.map (see t0 r)) := by
  have hpids : (raws.map (see t0 r)).map Raw.pid = raws.map Raw.pid := by simp
  constructor
  · rw [hpids]
    exact h.nodup
  · rw [hpids]
    simp only [List.mem_append,List.mem_singleton,or_imp,forall_and,forall_eq]
    exact ⟨h.threads,hr⟩
  · simpa using fun raw hraw => groupOf_append r (h.group raw hraw)
  · refine List.forall_mem_map.2 fun raw hraw => ?_
    rw [see_rss,h.rss raw hraw,see_pid,List.filter_append,List.map_append]
  · exact List.forall_mem_map.2 fun raw hraw => see_cpu t0 r (h.cpu raw hraw)
  · refine List.pairwise_map.2 (h.firsts.imp fun {a b} ⟨ra,hra,rb,hrb,hab⟩ => ?_)
    exact ⟨ra,by simp [hra],rb,by simp [hrb],by simpa using hab⟩

theorem Kept.start (h : Kept t0 rows raws) (hr : r.key.pid ∉ raws.map Raw.pid)
    (hle : ∀ a ∈ rows, a.ts ≤ r.ts) : Kept t0 (rows++[r]) (raws++[Raw.start t0 r]) := by
  have hnew : ∀ a ∈ rows, a.key.pid ≠ r.key.pid := fun a ha hpid => hr (hpid ▸ h.threads a ha)
  have hfilter : (rows.filter fun a => a.key.pid = r.key.pid) = [] := by simpa using hnew
  have hfind : rows.find? (fun a => a.key.pid = r.key.pid) = none := by simpa using hnew
  constructor
  · simpa [List.nodup_append,Raw.start] using ⟨h.nodup,by simpa using hr⟩
  · simpa [or_imp,forall_and,Raw.start] using fun a ha => .inl (by simpa using h.threads a ha)
  · simp only [List.mem_append,or_imp,forall_and,List.mem_singleton,forall_eq]
    refine ⟨fun raw hraw => groupOf_append r (h.group raw hraw),?_⟩
    change groupOf (rows++[r]) r.key.pid = some r.key.group
    simp [groupOf,List.find?_append,hfind]
  · simp only [List.mem_append,or_imp,forall_and,List.mem_singleton,forall_eq]
    constructor
    · intro raw hraw
      have hne : r.key.pid ≠ raw.pid := fun heq => hr (heq ▸ List.mem_map_of_mem hraw)
      simpa [hne] using h.rss raw hraw
    · change [rssPoint t0 r] = ((rows++[r]).filter fun a => a.key.pid = r.key.pid).map (rssPoint t0)
      rw [List.filter_append,hfilter]
      simp
  · simpa [or_imp,forall_and,Raw.start] using h.cpu
  · refine List.pairwise_append.2 ⟨h.firsts.imp ?_,by simp,fun a ha b hb => ?_⟩
    · exact fun ⟨ra,hra,rb,hrb,hab⟩ => ⟨ra,by simp [hra],rb,by simp [hrb],hab⟩
    · obtain ⟨ra,hra,hpid⟩ := h.mem ha
      obtain rfl := List.mem_singleton.1 hb
      exact ⟨ra,by simp [hra],r,by simp,hpid,rfl,hle ra hra⟩

theorem Kept.step (h : Kept t0 rows raws) (hle : ∀ a ∈ rows, a.ts ≤ r.ts) :
    Kept t0 (rows++[r]) (procStep t0 raws r) := by
  by_cases hr : r.key.pid ∈ raws.map Raw.pid
  · have hany : (raws.any fun raw => raw.pid = r.key.pid) = true := by simpa using hr
    rw [procStep,if_pos hany]
    exact h.add hr
  · have hany : (raws.any fun raw => raw.pid = r.key.pid) = false := by simpa using hr
    simpa [procStep,hany] using h.start hr hle

variable (t0) in
theorem kept_nil : Kept t0 [] [] where
  nodup := by simp
  threads := by simp
  group := by simp
  rss := by simp
  cpu := by simp
  firsts := by simp

/-- What is kept after all rows. -/
theorem kept_foldl (h : Kept t0 rows raws) {rest : List (Rec ProcKey N)}
    (hrows : (rows++rest).Pairwise fun a b => a.ts ≤ b.ts) :
    Kept t0 (rows++rest) (rest.foldl (procStep t0) raws) := by
  induction rest generalizing rows raws with
  | nil => simpa using h
  | cons r rest ih =>
    have hle : ∀ a ∈ rows, a.ts ≤ r.ts := fun a ha => (List.pairwise_append.1 hrows).2.2 a ha r
      (by simp)
    simpa using ih (h.step hle) (by simpa using hrows)

end Step

section Threads

variable {t0 : N} {rows : List (Rec ProcKey N)} {raws : List (Raw N)}

theorem Kept.rss_x (h : Kept t0 rows raws) {raw : Raw N} (hraw : raw ∈ raws) :
    raw.rss.map Prod.fst =
      (rows.filter fun r => r.key.pid = raw.pid).map fun r => xOf t0 r.ts := by
  simp [h.rss raw hraw,rssPoint]

omit [ScriptNumber N] in
theorem pushSeries_x (m : Mid) (pairs : List (N × N)) :
    (pushSeries m pairs).map Point.x = pairs.map Prod.fst := by simp [pushSeries]

omit [ScriptNumber N] in
/-- The places of a thread's points are those of its rows. -/
theorem series_points {raw : Raw N} (h : (raw.cpu.map Prod.fst).Sublist (raw.rss.map Prod.fst))
    (mid : Mid) : ((series raw.points mid).map Point.x).Sublist (raw.rss.map Prod.fst) := by
  rw [Raw.points,series_append,series_of_mid (pushSeries_mid _ _),
    series_of_mid (pushSeries_mid _ _)]
  by_cases hcpu : Mid.proc raw.group "cpu_pct" = mid
  · have hrss : Mid.proc raw.group "rss_mb" ≠ mid := by simp [← hcpu]
    simpa [hcpu,hrss,pushSeries_x] using h
  · by_cases hrss : Mid.proc raw.group "rss_mb" = mid
    · simp [hcpu,hrss,pushSeries_x]
    · simp [hcpu,hrss]

omit [ScriptNumber N] in
theorem mid_of_points {raw : Raw N} {pt : Point N} (h : pt ∈ raw.points) :
    ∃ m, pt.mid = .proc raw.group m := by
  rcases List.mem_append.1 h with h | h
  · exact ⟨_,pushSeries_mid _ _ pt h⟩
  · exact ⟨_,pushSeries_mid _ _ pt h⟩

/-- A point of a series comes from a row of the thread. -/
theorem Kept.row_of_point (h : Kept t0 rows raws) {raw : Raw N} (hraw : raw ∈ raws) {mid : Mid}
    {pt : Point N} (hpt : pt ∈ series raw.points mid) :
    ∃ r ∈ rows, r.key.pid = raw.pid ∧ xOf t0 r.ts = pt.x := by
  have hx := (series_points (h.cpu raw hraw) mid).subset (List.mem_map_of_mem hpt)
  rw [h.rss_x hraw] at hx
  simpa [and_assoc] using hx

/-- Every row of the thread has a point in the series of its size. -/
theorem Kept.point_of_row (h : Kept t0 rows raws) {raw : Raw N} (hraw : raw ∈ raws)
    {r : Rec ProcKey N} (hr : r ∈ rows) (hpid : r.key.pid = raw.pid) :
    ∃ pt ∈ series raw.points (.proc raw.group "rss_mb"), pt.x = xOf t0 r.ts := by
  have hx : xOf t0 r.ts ∈ raw.rss.map Prod.fst := by
    rw [h.rss_x hraw]
    exact List.mem_map_of_mem (f := fun r : Rec ProcKey N => xOf t0 r.ts) (by simp [hr,hpid])
  rw [← pushSeries_x (.proc raw.group "rss_mb")] at hx
  obtain ⟨pt,hpt,hptx⟩ := List.mem_map.1 hx
  refine ⟨pt,?_,hptx⟩
  simp [series,Raw.points,hpt,pushSeries_mid _ _ pt hpt]

/-- One thread's points are in order. -/
theorem Kept.points_ordered (h : Kept t0 rows raws)
    (hrows : rows.Pairwise fun a b => a.key.pid = b.key.pid → a.ts < b.ts)
    (hres : Resolves t0 (rows.map Rec.ts)) {raw : Raw N} (hraw : raw ∈ raws) :
    Ordered raw.points := by
  intro mid
  have hx : (raw.rss.map Prod.fst).Pairwise fun x y => ScriptNumber.lt x y = true := by
    rw [h.rss_x hraw,List.pairwise_map]
    refine (hrows.filter _).imp_of_mem fun {a b} ha hb hab => ?_
    simp only [List.mem_filter,decide_eq_true_eq] at ha hb
    exact hres _ (List.mem_map_of_mem ha.1) _ (List.mem_map_of_mem hb.1)
      (hab (ha.2.trans hb.2.symm))
  exact List.pairwise_map.1 (hx.sublist (series_points (h.cpu raw hraw) mid))

/-- Two threads that are counted to this process, one after the other. -/
def Apart (rows : List (Rec ProcKey N)) (g : Int64) (a b : Raw N) : Prop :=
  a.group = g → b.group = g → Before rows a.pid b.pid ∨ Before rows b.pid a.pid

omit [ScriptNumber N] in
theorem apart_symm (rows : List (Rec ProcKey N)) (g : Int64) : Std.Symm (Apart rows g) :=
  ⟨fun _ _ hab hb ha => (hab ha hb).symm⟩

omit [ScriptNumber N] in
theorem series_flatMap_points (raws : List (Raw N)) (mid : Mid) :
    series (raws.flatMap Raw.points) mid = raws.flatMap fun raw => series raw.points mid :=
  List.filter_flatMap

omit [ScriptNumber N] in
/-- Points of one series are of threads of one process. -/
theorem group_eq_of_points {a b : Raw N} {mid : Mid} {x y : Point N}
    (hx : x ∈ series a.points mid) (hy : y ∈ series b.points mid) : a.group = b.group := by
  simp only [series,List.mem_filter,decide_eq_true_eq] at hx hy
  obtain ⟨m,hm⟩ := mid_of_points hx.1
  obtain ⟨m',hm'⟩ := mid_of_points hy.1
  have hxy : x.mid = y.mid := hx.2.trans hy.2.symm
  rw [hm,hm'] at hxy
  simpa using (Mid.proc.inj hxy).1

theorem Kept.oneAfterAnother (h : Kept t0 rows raws) (hres : Resolves t0 (rows.map Rec.ts))
    (hord : Ordered (raws.flatMap Raw.points)) : OneAfterAnother rows := by
  simp only [Ordered,series_flatMap_points,List.pairwise_flatMap] at hord
  intro p q hpq hgroup
  -- without rows there is nothing to compare
  by_cases hp : p ∈ raws.map Raw.pid
  swap
  · exact .inl fun a ha b hb hap => (hp (hap ▸ h.threads a ha)).elim
  by_cases hq : q ∈ raws.map Raw.pid
  swap
  · exact .inl fun a ha b hb hap hbq => (hq (hbq ▸ h.threads b hb)).elim
  obtain ⟨rp,hrp,rfl⟩ := List.mem_map.1 hp
  obtain ⟨rq,hrq,rfl⟩ := List.mem_map.1 hq
  rw [h.group rp hrp,h.group rq hrq,Option.some.injEq] at hgroup
  have hpairs : raws.Pairwise (Apart rows rp.group) := by
    refine (hord (.proc rp.group "rss_mb")).2.imp_of_mem fun {a b} ha hb hab hga hgb => ?_
    refine .inl fun ra hra rb hrb hpa hpb => ?_
    obtain ⟨x,hx,hxa⟩ := h.point_of_row ha hra hpa
    obtain ⟨y,hy,hyb⟩ := h.point_of_row hb hrb hpb
    have hlt := hab x (hga ▸ hx) y (hgb ▸ hy)
    rw [hxa,hyb] at hlt
    exact hres.lt_of_lt (List.mem_map_of_mem hra) (List.mem_map_of_mem hrb) hlt
  have hsymm := apart_symm rows rp.group
  exact hpairs.forall hrp hrq (fun heq => hpq (heq ▸ rfl)) rfl hgroup.symm

theorem Kept.ordered (h : Kept t0 rows raws)
    (hrows : rows.Pairwise fun a b => a.key.pid = b.key.pid → a.ts < b.ts)
    (hres : Resolves t0 (rows.map Rec.ts)) (hone : OneAfterAnother rows) :
    Ordered (raws.flatMap Raw.points) := by
  have hpids : raws.Pairwise fun a b => a.pid ≠ b.pid := List.pairwise_map.1 h.nodup
  intro mid
  rw [series_flatMap_points,List.pairwise_flatMap]
  refine ⟨fun raw hraw => h.points_ordered hrows hres hraw mid,?_⟩
  refine (h.firsts.and hpids).imp_of_mem fun {a b} ha hb ⟨hfirst,hne⟩ x hx y hy => ?_
  obtain ⟨ra,hra,hpa,hxa⟩ := h.row_of_point ha hx
  obtain ⟨rb,hrb,hpb,hyb⟩ := h.row_of_point hb hy
  have hgroup : groupOf rows a.pid = groupOf rows b.pid := by
    rw [h.group a ha,h.group b hb,group_eq_of_points hx hy]
  -- the thread that is kept first is not the later one
  have hbefore : Before rows a.pid b.pid := by
    refine (hone a.pid b.pid hne hgroup).resolve_right fun hback => ?_
    obtain ⟨fa,hfa,fb,hfb,hfpa,hfpb,hle⟩ := hfirst
    exact Int64.not_lt.2 hle (hback fb hfb fa hfa hfpb hfpa)
  rw [← hxa,← hyb]
  exact hres _ (List.mem_map_of_mem hra) _ (List.mem_map_of_mem hrb)
    (hbefore ra hra rb hrb hpa hpb)

/-- The series of the processes are in order exactly when threads of one process live one after
another. -/
theorem Kept.ordered_iff (h : Kept t0 rows raws)
    (hrows : rows.Pairwise fun a b => a.key.pid = b.key.pid → a.ts < b.ts)
    (hres : Resolves t0 (rows.map Rec.ts)) :
    Ordered (raws.flatMap Raw.points) ↔ OneAfterAnother rows :=
  ⟨h.oneAfterAnother hres,h.ordered hrows hres⟩

end Threads

/-! ## The store of a session -/

omit [ScriptNumber N] in
theorem oneAfterAnother_select (names : List String) (rows : List (Rec ProcKey N)) :
    OneAfterAnother (rows.map (Rec.select names)) ↔ OneAfterAnother rows := by
  have hgroup : ∀ p, groupOf (rows.map (Rec.select names)) p = groupOf rows p := fun p => by
    rw [groupOf,List.find?_map,Option.map_map]
    rfl
  have hbefore : ∀ p q, Before (rows.map (Rec.select names)) p q ↔ Before rows p q := fun p q => by
    simp [Before,Rec.select]
  simp only [OneAfterAnother,hgroup,hbefore]

theorem procPass_ordered_iff {t0 : N} {db : Db N}
    (hres : Resolves t0 ((rowsOf db.hostProc).map Rec.ts)) :
    Ordered (procPass t0 (rowsOf db.hostProc)) ↔ OneAfterAnother (rowsOf db.hostProc) := by
  have hkey := rowsOf_later ProcKey.pid (fun a b he => by simp [he]) db.hostProc
  have htime : (rowsOf db.hostProc).Pairwise fun a b => a.ts ≤ b.ts :=
    (rowsOf_le _).imp Int64.le_iff_lt_or_eq.2
  have hkept := kept_foldl (kept_nil t0) (List.pairwise_map.2 (htime.imp fun {a b} hab => hab)
    : (([] : List (Rec ProcKey N))++(rowsOf db.hostProc).map (Rec.select procNames)).Pairwise _)
  rw [← oneAfterAnother_select procNames]
  exact hkept.ordered_iff (List.pairwise_map.2 hkey) (by rwa [List.nil_append,ts_select])

/-- The ticks of the tables that fill the store. -/
def ticks (db : Db N) : List (List Int64) :=
  [(rowsOf db.host).map Rec.ts,(rowsOf db.hostCpu).map Rec.ts,(rowsOf db.hostDisk).map Rec.ts,
    (rowsOf db.hostProc).map Rec.ts,(rowsOf db.netIface).map Rec.ts,
    (rowsOf db.netStack).map Rec.ts,(rowsOf db.netSoftnet).map Rec.ts,
    (rowsOf db.gpuDevice).map Rec.ts,(rowsOf db.cgroup).map Rec.ts,
    (rowsOf db.memoryEvents).map Rec.ts]

/-- A session that a collector writes. The ticks of a table are nanoseconds of a clock that starts
with the machine, far enough apart for doubles. -/
structure Session (N : Type) [ScriptNumber N] where
  db : Db N
  resolved : ∀ t0, startOf db = some t0 → ∀ stamps ∈ ticks db, Resolves t0 stamps

theorem pass_filter_ordered {K γ : Type} [DecidableEq γ] {entity : Rec K N → γ}
    {f : Option (Rec K N) → Rec K N → List (Point N)} {t0 : N} {mids : γ → List Mid}
    (h : RowEmits t0 entity f mids) {names : List String}
    (hentity : ∀ r, entity (Rec.select names r) = entity r) (p : Rec K N → Bool)
    {rows : List (Rec K N)} (hrows : rows.Pairwise fun a b => entity a = entity b → a.ts < b.ts)
    (hres : Resolves t0 (rows.map Rec.ts)) :
    Ordered (rowPass entity f ((rows.filter p).map (Rec.select names))) :=
  pass_select_ordered h hentity (hrows.filter p) (hres.mono (ts_filter p rows))

/-- The parts of the store are in order when that of the processes is. -/
theorem parts_ordered {t0 : N} {db : Db N} (hres : ∀ stamps ∈ ticks db, Resolves t0 stamps)
    (hproc : OneAfterAnother (rowsOf db.hostProc)) : ∀ part ∈ parts t0 db, Ordered part := by
  have htime : ∀ {K : Type} (t : Option (Table K N timeOnly)),
      (rowsOf t).Pairwise fun a b => () = () → a.ts < b.ts :=
    fun t => rowsOf_later (fun _ => ()) (by simp [timeOnly]) t
  have hcpus := rowsOf_later id (fun a b he => by simp_all) db.hostCpu
  have hdisks := rowsOf_later id (fun a b he => by simp_all) db.hostDisk
  have hsofts := rowsOf_later id (fun a b he => by simp_all) db.netSoftnet
  have hgpus := rowsOf_later GpuKey.uuid (fun a b he => by simp [he]) db.gpuDevice
  simp only [ticks,List.forall_mem_cons] at hres
  obtain ⟨hhost,hcpu,hdisk,hpids,hiface,hstack,hsoftnet,hgpu,hcgroup,hmemory,-⟩ := hres
  simp only [parts,List.forall_mem_cons]
  refine ⟨?_,?_,?_,?_,?_,?_,?_,?_,?_,?_,by simp⟩
  · exact pass_select_ordered (host_emits t0) (fun _ => rfl) (htime _) hhost
  · exact pass_select_ordered (core_emits t0) (fun _ => rfl) hcpus hcpu
  · exact pass_select_ordered (disk_emits t0) (fun _ => rfl) hdisks hdisk
  · exact (procPass_ordered_iff hpids).2 hproc
  · exact ifacePass_ordered hiface
  · exact pass_ordered (stack_emits t0) ((htime _).imp fun hab he => .inl (hab he)) hstack
  · exact pass_select_ordered (softnet_emits t0) (fun _ => rfl) hsofts hsoftnet
  · exact pass_filter_ordered (gpu_emits t0) (fun _ => rfl) _ hgpus hgpu
  · exact pass_filter_ordered (cgroup_emits t0) (fun _ => rfl) _ (htime _) hcgroup
  · exact pass_select_ordered (memory_emits t0) (fun _ => rfl) (htime _) hmemory

theorem store_ordered_iff {t0 : N} {db : Db N} (hres : ∀ stamps ∈ ticks db, Resolves t0 stamps) :
    Ordered (parts t0 db).flatten ↔ OneAfterAnother (rowsOf db.hostProc) := by
  constructor
  · intro hord
    refine (procPass_ordered_iff (hres _ (by simp [ticks]))).1 fun mid => ?_
    by_cases hmid : source mid = 3
    · have hseries := hord mid
      rwa [series_store rfl,hmid] at hseries
    · have hnone : series (procPass t0 (rowsOf db.hostProc)) mid = [] := by
        refine series_eq_nil fun pt hpt heq => hmid ?_
        rw [← heq]
        exact procPass_source t0 _ pt hpt
      simp [hnone]
  · intro hproc mid
    rw [series_store rfl,List.getD_eq_getElem?_getD]
    cases hpart : (parts t0 db)[source mid]? with
    | none => simp [series]
    | some part => exact parts_ordered hres hproc part (List.mem_of_getElem? hpart) mid

/-- The series that are drawn are in order exactly when nothing is drawn, because the extraction
ends in an exception, or when threads of one process live one after another. -/
theorem drawnSeries_ordered_iff (s : Session N) :
    (∀ store, extract s.db = some store → Ordered store) ↔
      (Readable s.db → OneAfterAnother (rowsOf s.db.hostProc)) := by
  constructor
  · intro hord hread
    obtain ⟨t0,ht0⟩ := exists_startOf hread.complete
    have hstore := hord _ ((extract_eq_some_iff _ _).2 ⟨hread,t0,ht0,rfl⟩)
    exact (store_ordered_iff (s.resolved t0 ht0)).1 hstore
  · intro hone store hstore
    obtain ⟨hread,t0,ht0,rfl⟩ := (extract_eq_some_iff _ _).1 hstore
    exact (store_ordered_iff (s.resolved t0 ht0)).2 (hone hread)

/-! ## Two threads of one process -/

theorem exact_xOf (q : ℚ) (ts : Int64) : xOf (some q) ts = some ((ts.toInt-q)/1000000000) := by
  change Exact.div (some (ts.toInt-q)) (some ((1000000000 : ℤ) : ℚ)) = _
  simp [Exact.div,Exact.lift]

/-- Exact numbers tell all ticks apart. -/
theorem exact_resolves (q : ℚ) (stamps : List Int64) : Resolves (some q) stamps := by
  intro a _ b _ hab
  rw [exact_xOf,exact_xOf]
  have hlt : (a.toInt : ℚ) < b.toInt := by exact_mod_cast Int64.lt_iff_toInt_lt.1 hab
  change decide ((a.toInt-q)/1000000000 < (b.toInt-q)/1000000000) = true
  exact decide_eq_true (by gcongr)

def threadRow (ts pid : Int64) : Rec ProcKey (Option ℚ) := ⟨ts,⟨pid,7⟩,fun _ => .num (some 0)⟩

/-- A session of two ticks with the threads 7 and 8 of process 7. -/
def twoThreadsDb : Db (Option ℚ) :=
  { emptyDb with
    host := some ⟨[⟨1000000000,(),fun _ => .num (some 0)⟩,⟨2000000000,(),fun _ => .num (some 0)⟩],
      by simp⟩
    hostProc := some ⟨[threadRow 1000000000 7,threadRow 1000000000 8,threadRow 2000000000 7,
      threadRow 2000000000 8],by simp [threadRow]⟩
    anomaly := some ⟨[⟨1000000000,(),fun _ => .num (some 0)⟩],by simp⟩ }

def twoThreads : Session (Option ℚ) where
  db := twoThreadsDb
  resolved t0 ht0 stamps _ := by
    obtain rfl : stamp 1000000000 = t0 := Option.some.inj ht0
    exact exact_resolves _ stamps

/-- The series of process 7 goes back to the first tick. -/
theorem twoThreads_not_ordered :
    ¬ ∀ store, extract twoThreads.db = some store → Ordered store := by
  intro hord
  have hread : Readable twoThreads.db := ⟨rfl,.singleton _⟩
  have hstore := hord _ ((extract_eq_some_iff _ _).2 ⟨hread,_,rfl,rfl⟩)
  have hone := (store_ordered_iff (twoThreads.resolved _ rfl)).1 hstore
  have hrow : ∀ ts pid, ts = 1000000000 ∨ ts = 2000000000 → pid = 7 ∨ pid = 8 →
      threadRow ts pid ∈ rowsOf twoThreads.db.hostProc := by
    rintro ts pid (rfl | rfl) (rfl | rfl) <;> simp [twoThreads,twoThreadsDb,rowsOf]
  rcases hone 7 8 (by decide) rfl with hbefore | hbefore
  · have hlt := hbefore _ (hrow 2000000000 7 (by simp) (by simp)) _
      (hrow 1000000000 8 (by simp) (by simp))
    exact absurd (hlt rfl rfl) (by decide)
  · have hlt := hbefore _ (hrow 2000000000 8 (by simp) (by simp)) _
      (hrow 1000000000 7 (by simp) (by simp))
    exact absurd (hlt rfl rfl) (by decide)

end SeriesOrder
end ETraceDiag
