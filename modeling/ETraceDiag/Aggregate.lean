import ETraceDiag.DeltaStream
import ETraceDiag.TimeTable
import Mathlib.Algebra.BigOperators.Group.List.Basic
import Mathlib.Algebra.Group.Pi.Basic
import Mathlib.Algebra.Order.Ring.Int
import Mathlib.Algebra.Order.Ring.Rat
import Mathlib.Data.Int.CharZero
import Mathlib.Data.List.Sort
import Mathlib.Tactic.Abel

/-!
# Lines of threads and processes

`V.aggregate` of `parse.js`: a line for each thread, or for each process with the counters of its
threads added up tick by tick. Ticks are exact numbers of seconds, counters whole numbers.
-/

namespace ETraceDiag
namespace Aggregate

open TimeTable

/-- The columns that are kept of `anomaly_tid`. -/
inductive Col
  | onCpuNs
  | nrSwVol
  | nrSwInvol
  | ioOps
  | ioBytes
  | pfMinor
  | pfMajor
  | lockWaits
  | lockLatNs
  deriving DecidableEq,Repr

/-- `Object.keys(first.raw)`. -/
def cols : List Col :=
  [.onCpuNs,.nrSwVol,.nrSwInvol,.ioOps,.ioBytes,.pfMinor,.pfMajor,.lockWaits,.lockLatNs]

theorem mem_cols (c : Col) : c ∈ cols := by cases c <;> decide

abbrev Counters := Col → ℤ

/-- A row of a thread: an element of `x` and the elements of `raw` that are pushed with it. -/
structure Sample where
  x : ℚ
  raw : Counters

/-- An entry of `tidRaw`; its rows come in the order of time. -/
structure TidSeries where
  tid : ℤ
  comm : String
  tgid : ℤ
  samples : List Sample
  ordered : samples.Pairwise fun a b => a.x < b.x

/-- `{s,ts}`. -/
structure Elapsed where
  s : ℚ
  ts : ℚ

/-- What is drawn of the increases of the counters, or null. -/
abbrev MetricExpr := Counters → Elapsed → Option ℚ

structure Line where
  id : ℤ
  comm : Option String
  points : List (ℚ × ℚ)

inductive Mode
  | tid (sel : List ℤ)
  | pid (sel : List ℤ)
  | top (sel : List ℕ)

/-! ## The code -/

/-- A counter that decreases breaks the line. -/
def deltas (a b : Counters) : Option Counters :=
  if cols.any fun c => b c-a c < 0 then none else some (b-a)

/-- The point that is drawn for a tick. -/
def point (metricExpr : MetricExpr) (prevX x : ℚ) (d : Counters) : Option (ℚ × ℚ) :=
  (metricExpr d ⟨x-prevX,(x-prevX)*10^9⟩).map fun v => (x,v)

/-- The loop over the ticks of a line. -/
def drawLoop (metricExpr : MetricExpr) : Option Sample → List Sample → List (ℚ × ℚ)
  | _,[] => []
  | prev,e::rest =>
    (prev.bind fun p => (deltas p.raw e.raw).bind (point metricExpr p.x e.x)).toList++
      drawLoop metricExpr (some e) rest

/-- `tick`: what the threads of a process have at a time, added up. -/
def tickMap (members : List TidSeries) : List (ℚ × Counters) :=
  members.foldl (fun tick t => t.samples.foldl (fun tick s => upsert s.x 0 (·+s.raw) tick) tick) []

/-- `[...tick.keys()].sort((a,b) => a-b)`. -/
def ticks (members : List TidSeries) : List ℚ :=
  ((tickMap members).map Prod.fst).mergeSort fun a b => a ≤ b

def sumAt (members : List TidSeries) (x : ℚ) : Counters := ((tickMap members).lookup x).getD 0

def members (series : List TidSeries) (pid : ℤ) : List TidSeries :=
  series.filter fun t => t.tgid = pid

def pidLine (metricExpr : MetricExpr) (series : List TidSeries) (pid : ℤ) : Line where
  id := pid
  comm := (members series pid).head?.map TidSeries.comm
  points := drawLoop metricExpr none
    ((ticks (members series pid)).map fun x => ⟨x,sumAt (members series pid) x⟩)

def tidLine (metricExpr : MetricExpr) (t : TidSeries) : Line where
  id := t.tid
  comm := some t.comm
  points := drawLoop metricExpr none t.samples

/-- `rankKey`. -/
def rankKey : Col := if .onCpuNs ∈ cols then .onCpuNs else .ioOps

/-- The increases of the rank counter of a thread. -/
def total (t : TidSeries) : ℤ :=
  ((t.samples.zip t.samples.tail).map fun ab => max 0 (ab.2.raw rankKey-ab.1.raw rankKey)).sum

/-- The threads in the order of their totals, `slice(0,n)`. -/
def busiest (series : List TidSeries) (n : ℕ) : List TidSeries :=
  (series.mergeSort fun a b => total b ≤ total a).take n

/-- `[...new Set(..)]`: an element stays where it is first. -/
def newSet (ids : List ℤ) : List ℤ := ids.reverse.dedup.reverse

/-- `V.aggregate`. -/
def aggregate (series : List TidSeries) (mode : Mode) (metricExpr : MetricExpr) : List Line :=
  if series.isEmpty then [] else
    match mode with
    | .pid sel => sel.map (pidLine metricExpr series)
    | .top sel =>
      (newSet ((busiest series (sel.head?.getD 5)).map TidSeries.tgid)).map
        (pidLine metricExpr series)
    | .tid sel => (series.filter fun t => t.tid ∈ sel).map (tidLine metricExpr)

/-! ## Ticks of a process -/

/-- What a thread has at a time. -/
def TidSeries.at? (t : TidSeries) (x : ℚ) : Option Counters :=
  (t.samples.find? fun s => s.x = x).map Sample.raw

theorem filter_eq_find? {samples : List Sample} (h : samples.Pairwise fun a b => a.x < b.x)
    (x : ℚ) : (samples.filter fun s => s.x = x) = (samples.find? fun s => s.x = x).toList := by
  induction samples with
  | nil => rfl
  | cons s samples ih =>
    obtain ⟨hs,hrest⟩ := List.pairwise_cons.mp h
    by_cases hx : s.x = x
    · have hnone : (samples.filter fun s => s.x = x) = [] := by
        refine List.filter_eq_nil_iff.mpr fun s' hs' heq => ?_
        exact absurd (hx.trans (of_decide_eq_true heq).symm) (hs s' hs').ne
      rw [List.filter_cons_of_pos (by simpa using hx),hnone,List.find?_cons_of_pos (by simpa using hx)]
      rfl
    · rw [List.filter_cons_of_neg (by simpa using hx),List.find?_cons_of_neg (by simpa using hx),
        ih hrest]

/-- The rows of all threads go into the ticks one after the other. -/
theorem tickMap_eq (members : List TidSeries) : tickMap members =
    (members.flatMap TidSeries.samples).foldl (fun tick s => upsert s.x 0 (·+s.raw) tick) [] := by
  rw [tickMap,List.foldl_flatMap]

theorem foldl_add_raw (samples : List Sample) : ∀ e : Counters,
    samples.foldl (fun e s => e+s.raw) e = e+(samples.map Sample.raw).sum := by
  induction samples with
  | nil => exact fun e => (add_zero e).symm
  | cons s samples ih =>
    intro e
    rw [List.foldl_cons,ih,List.map_cons,List.sum_cons,add_assoc]

theorem mem_ticks {members : List TidSeries} {x : ℚ} :
    x ∈ ticks members ↔ ∃ t ∈ members, ∃ s ∈ t.samples, s.x = x := by
  rw [ticks,List.mem_mergeSort,tickMap_eq,mem_keys_foldl_upsert (fun s : Sample => s.x)
    (fun _ => 0) (fun s => (·+s.raw))]
  simp only [List.map_nil,List.not_mem_nil,or_false,List.mem_map,List.mem_flatMap]
  constructor
  · rintro ⟨s,⟨t,ht,hs⟩,hx⟩
    exact ⟨t,ht,s,hs,hx⟩
  · rintro ⟨t,ht,s,hs,hx⟩
    exact ⟨s,⟨t,ht,hs⟩,hx⟩

/-- The keys in order are what is known of the set of them. -/
theorem ticks_eq_sortedSet (members : List TidSeries) :
    ticks members = sortedSet ((tickMap members).map Prod.fst) := by
  have hnodup : ((tickMap members).map Prod.fst).Nodup := by
    rw [tickMap_eq]
    exact nodup_keys_foldl_upsert (fun s : Sample => s.x) (fun _ => 0) (fun s => (·+s.raw)) _
      List.nodup_nil
  rw [sortedSet,hnodup.dedup,ticks]

theorem pairwise_ticks (members : List TidSeries) : (ticks members).Pairwise (· < ·) :=
  ticks_eq_sortedSet members ▸ sortedSet_pairwise _

/-- At a tick of a process stands the sum of what its threads have then. -/
theorem sumAt_eq (members : List TidSeries) (x : ℚ) :
    sumAt members x = (members.map fun t => (t.at? x).getD 0).sum := by
  have hsum : ∀ ts : List TidSeries, (((ts.flatMap TidSeries.samples).filter
      fun s => s.x = x).map Sample.raw).sum = (ts.map fun t => (t.at? x).getD 0).sum := by
    intro ts
    induction ts with
    | nil => rfl
    | cons t ts ih =>
      rw [List.flatMap_cons,List.filter_append,List.map_append,List.sum_append,ih,List.map_cons,
        List.sum_cons,filter_eq_find? t.ordered,TidSeries.at?]
      cases t.samples.find? fun s => s.x = x <;> simp
  rw [sumAt,tickMap_eq,lookup_foldl_upsert (fun s : Sample => s.x) 0 (fun s => (·+s.raw))]
  split
  · rw [Option.getD_some,List.lookup_nil,Option.getD_none,foldl_add_raw,zero_add,hsum]
  · next hnot =>
    have hnil : ((members.flatMap TidSeries.samples).filter fun s => s.x = x) = [] := by
      refine List.filter_eq_nil_iff.mpr fun s hs heq => hnot ?_
      exact List.mem_map.mpr ⟨s,hs,of_decide_eq_true heq⟩
    rw [← hsum,hnil]
    rfl

/-! ## What a tick adds -/

/-- The increases of a thread that is there at both times. -/
def TidSeries.own (t : TidSeries) (p x : ℚ) : Counters :=
  match t.at? p,t.at? x with
  | some a,some b => b-a
  | _,_ => 0

/-- What a thread has at a time at which it is new. -/
def TidSeries.joined (t : TidSeries) (p x : ℚ) : Counters :=
  if (t.at? p).isNone then (t.at? x).getD 0 else 0

/-- What a thread had that is gone. -/
def TidSeries.left (t : TidSeries) (p x : ℚ) : Counters :=
  if (t.at? x).isNone then (t.at? p).getD 0 else 0

theorem TidSeries.change_eq (t : TidSeries) (p x : ℚ) :
    (t.at? x).getD 0-(t.at? p).getD 0 = t.own p x+(t.joined p x-t.left p x) := by
  rw [TidSeries.own,TidSeries.joined,TidSeries.left]
  cases t.at? p <;> cases t.at? x <;> simp

/-- The sum that the loop over the ticks differences: the threads' own increases, and what comes and
goes with threads. -/
theorem sumAt_sub (members : List TidSeries) (p x : ℚ) : sumAt members x-sumAt members p =
    (members.map fun t => t.own p x).sum+
      ((members.map fun t => t.joined p x).sum-(members.map fun t => t.left p x).sum) := by
  rw [sumAt_eq,sumAt_eq]
  induction members with
  | nil => simp
  | cons t ts ih =>
    simp only [List.map_cons,List.sum_cons]
    rw [add_sub_add_comm,ih,t.change_eq p x]
    abel

/-! ## Lines of processes -/

/-- A tick of a process and the one before it. -/
def steps (members : List TidSeries) : List (ℚ × ℚ) := (ticks members).zip (ticks members).tail

theorem lt_of_mem_steps {members : List TidSeries} {px : ℚ × ℚ} (h : px ∈ steps members) :
    px.1 < px.2 :=
  DeltaStream.rel_of_mem_zip_tail (pairwise_ticks members).isChain px h

theorem drawLoop_some (metricExpr : MetricExpr) (f : ℚ → Counters) (xs : List ℚ) : ∀ p : ℚ,
    drawLoop metricExpr (some ⟨p,f p⟩) (xs.map fun x => ⟨x,f x⟩) =
      ((p::xs).zip xs).filterMap fun px =>
        (deltas (f px.1) (f px.2)).bind (point metricExpr px.1 px.2) := by
  induction xs with
  | nil => exact fun p => rfl
  | cons x xs ih =>
    intro p
    rw [List.map_cons,drawLoop,ih,List.zip_cons_cons,List.filterMap_cons,Option.bind_some]
    cases (deltas (f p) (f x)).bind (point metricExpr p x) <;> rfl

/-- The loop draws a point for each tick but the first, or none. -/
theorem points_pidLine (metricExpr : MetricExpr) (series : List TidSeries) (pid : ℤ) :
    (pidLine metricExpr series pid).points = (steps (members series pid)).filterMap fun px =>
      (deltas (sumAt (members series pid) px.1) (sumAt (members series pid) px.2)).bind
        (point metricExpr px.1 px.2) := by
  rw [pidLine,steps]
  cases ticks (members series pid) with
  | nil => rfl
  | cons p xs => exact drawLoop_some metricExpr (sumAt (members series pid)) xs p

/-- The line of the sum of the threads' own increases: no tick is left out. -/
def ownLine (metricExpr : MetricExpr) (members : List TidSeries) : List (ℚ × ℚ) :=
  (steps members).filterMap fun px =>
    point metricExpr px.1 px.2 (members.map fun t => t.own px.1 px.2).sum

/-- Threads of which no counter decreases from a tick of their process to the next while they are
there. -/
structure Recording where
  series : List TidSeries
  rising : ∀ t ∈ series, ∀ px ∈ steps (members series t.tgid), ∀ c, 0 ≤ t.own px.1 px.2 c

/-- A line for each process that is selected, of the work of its threads. -/
def SumsThreadWork (series : List TidSeries) (sel : List ℤ) (metricExpr : MetricExpr) : Prop :=
  (series ≠ [] → (aggregate series (.pid sel) metricExpr).map Line.id = sel) ∧
    ∀ line ∈ aggregate series (.pid sel) metricExpr,
      line.points = ownLine metricExpr (members series line.id)

theorem aggregate_pid {series : List TidSeries} (h : series ≠ []) (sel : List ℤ)
    (metricExpr : MetricExpr) :
    aggregate series (.pid sel) metricExpr = sel.map (pidLine metricExpr series) :=
  if_neg (by simpa using h)

theorem SumsThreadWork.points {series : List TidSeries} {sel : List ℤ} {metricExpr : MetricExpr}
    (h : SumsThreadWork series sel metricExpr) (hne : series ≠ []) {pid : ℤ} (hpid : pid ∈ sel) :
    (pidLine metricExpr series pid).points = ownLine metricExpr (members series pid) := by
  refine h.2 (pidLine metricExpr series pid) ?_
  rw [aggregate_pid hne]
  exact List.mem_map_of_mem hpid

/-- At a tick the threads that are new bring as much as those that are gone had, counter by
counter. -/
def Balanced (members : List TidSeries) (px : ℚ × ℚ) : Prop :=
  (members.map fun t => t.joined px.1 px.2).sum = (members.map fun t => t.left px.1 px.2).sum

theorem deltas_eq_some_iff {a b d : Counters} : deltas a b = some d ↔ d = b-a ∧ ∀ c, 0 ≤ d c := by
  rw [deltas]
  split
  · next hany =>
    refine iff_of_false (by simp) ?_
    rintro ⟨rfl,hpos⟩
    obtain ⟨c,-,hneg⟩ := List.any_eq_true.mp hany
    exact absurd (hpos c) (not_le.mpr (of_decide_eq_true hneg))
  · next hnone =>
    rw [Option.some.injEq,eq_comm]
    refine ⟨fun h => ⟨h,fun c => ?_⟩,fun h => h.1⟩
    by_contra hneg
    refine hnone (List.any_eq_true.mpr ⟨c,mem_cols c,decide_eq_true ?_⟩)
    rw [h] at hneg
    exact not_le.mp hneg

/-- A point for every step means that each step has its own. -/
theorem filterMap_eq_map {α β : Type} {f : α → Option β} {g : α → β} {l : List α}
    (h : l.filterMap f = l.map g) : ∀ a ∈ l, f a = some (g a) := by
  induction l with
  | nil => simp
  | cons a l ih =>
    cases ha : f a with
    | none =>
      have hle := List.length_filterMap_le f l
      rw [List.filterMap_cons_none ha] at h
      rw [h,List.length_map,List.length_cons] at hle
      exact absurd hle (Nat.not_succ_le_self _)
    | some b =>
      rw [List.filterMap_cons_some ha] at h
      obtain ⟨rfl,hrest⟩ := List.cons.inj h
      rintro a' (_ | ⟨_,hmem⟩)
      · exact ha
      · exact ih hrest a' hmem

theorem sum_nonneg {f : TidSeries → Counters} {c : Col} {ts : List TidSeries}
    (h : ∀ t ∈ ts, 0 ≤ f t c) : 0 ≤ (ts.map f).sum c := by
  induction ts with
  | nil => exact le_rfl
  | cons t ts ih =>
    rw [List.map_cons,List.sum_cons]
    exact add_nonneg (h t List.mem_cons_self) (ih fun t' ht' => h t' (List.mem_cons_of_mem t ht'))

/-- The line of a process is that of its threads' work, whatever is drawn of the counters, exactly
when they balance at every tick. -/
theorem points_eq_ownLine_iff (r : Recording) (pid : ℤ) :
    (∀ metricExpr, (pidLine metricExpr r.series pid).points =
      ownLine metricExpr (members r.series pid)) ↔
      ∀ px ∈ steps (members r.series pid), Balanced (members r.series pid) px := by
  constructor
  · intro hlines px hpx
    have hown : ∀ c, (sumAt (members r.series pid) px.2-sumAt (members r.series pid) px.1) c =
        ((members r.series pid).map fun t => t.own px.1 px.2).sum c := by
      intro c
      have hline := hlines fun d _ => some (d c)
      have hmap : ownLine (fun d _ => some (d c)) (members r.series pid) =
          (steps (members r.series pid)).map fun px =>
            (px.2,((((members r.series pid).map fun t => t.own px.1 px.2).sum c : ℤ) : ℚ)) :=
        congrFun List.filterMap_eq_map' _
      rw [points_pidLine,hmap] at hline
      obtain ⟨d,hd,hpoint⟩ := Option.bind_eq_some_iff.mp (filterMap_eq_map hline px hpx)
      rw [← (deltas_eq_some_iff.mp hd).1]
      exact Int.cast_injective (Prod.mk.inj (Option.some.inj hpoint)).2
    have hsub := sumAt_sub (members r.series pid) px.1 px.2
    rw [funext hown,left_eq_add] at hsub
    exact sub_eq_zero.mp hsub
  · intro hbalanced metricExpr
    rw [points_pidLine,ownLine]
    refine List.filterMap_congr fun px hpx => ?_
    have hdeltas : deltas (sumAt (members r.series pid) px.1) (sumAt (members r.series pid) px.2) =
        some ((members r.series pid).map fun t => t.own px.1 px.2).sum := by
      refine deltas_eq_some_iff.mpr ⟨?_,fun c => ?_⟩
      · have hbal := hbalanced px hpx
        rw [sumAt_sub,hbal,sub_self,add_zero]
      · refine sum_nonneg fun t ht => ?_
        obtain ⟨ht,hpid⟩ := List.mem_filter.mp ht
        exact r.rising t ht px (by rwa [of_decide_eq_true hpid]) c
    rw [hdeltas,Option.bind_some]

/-- Where no thread joins or leaves the line is that of the threads' work. -/
theorem balanced_of_present {members : List TidSeries} {px : ℚ × ℚ}
    (h : ∀ t ∈ members, t.at? px.1 ≠ none ∧ t.at? px.2 ≠ none) : Balanced members px := by
  refine congrArg List.sum (List.map_congr_left fun t ht => ?_)
  obtain ⟨a,ha⟩ := Option.ne_none_iff_exists'.mp (h t ht).1
  obtain ⟨b,hb⟩ := Option.ne_none_iff_exists'.mp (h t ht).2
  rw [TidSeries.joined,TidSeries.left,ha,hb]
  rfl

/-- The lines of processes are those of their threads' work, whatever is drawn of the counters,
exactly when at every tick of each process the threads that are new bring as much as those that are
gone had. -/
theorem aggregate_pid_iff (r : Recording) (sel : List ℤ) :
    (∀ metricExpr, SumsThreadWork r.series sel metricExpr) ↔
      ∀ pid ∈ sel, ∀ px ∈ steps (members r.series pid), Balanced (members r.series pid) px := by
  simp only [← points_eq_ownLine_iff]
  by_cases hnil : r.series = []
  · refine iff_of_true (fun metricExpr => ⟨fun hne => absurd hnil hne,?_⟩) fun pid _ metricExpr => ?_
    · rw [aggregate,hnil]
      exact fun line hline => absurd hline List.not_mem_nil
    · have hsteps : steps (members [] pid) = [] := by simp [steps,ticks,tickMap,members]
      rw [hnil,points_pidLine,ownLine,hsteps]
      rfl
  · constructor
    · exact fun hall pid hpid metricExpr => (hall metricExpr).points hnil hpid
    · intro hall metricExpr
      rw [SumsThreadWork,aggregate_pid hnil]
      refine ⟨fun _ => ?_,fun line hline => ?_⟩
      · rw [List.map_map]
        exact List.map_id sel
      · obtain ⟨pid,hpid,rfl⟩ := List.mem_map.mp hline
        exact hall pid hpid metricExpr

/-! ## A thread that joins -/

/-- Counters that do not decrease in the rows of a thread do not between two ticks. -/
theorem own_nonneg {t : TidSeries} (h : t.samples.Pairwise fun a b => ∀ c, a.raw c ≤ b.raw c)
    {p x : ℚ} (hpx : p < x) (c : Col) : 0 ≤ t.own p x c := by
  rw [TidSeries.own]
  cases hp : t.at? p with
  | none => exact le_rfl
  | some a =>
    cases hx : t.at? x with
    | none => exact le_rfl
    | some b =>
      obtain ⟨s,hs,rfl⟩ := Option.map_eq_some_iff.mp hp
      obtain ⟨s',hs',rfl⟩ := Option.map_eq_some_iff.mp hx
      have hsx : s.x = p := by simpa using List.find?_some hs
      have hsx' : s'.x = x := by simpa using List.find?_some hs'
      obtain ⟨i,hi,rfl⟩ := List.getElem_of_mem (List.mem_of_find?_eq_some hs)
      obtain ⟨j,hj,rfl⟩ := List.getElem_of_mem (List.mem_of_find?_eq_some hs')
      have hordered := List.pairwise_iff_getElem.mp t.ordered
      rcases Nat.lt_trichotomy i j with hij | rfl | hji
      · exact sub_nonneg.mpr (List.pairwise_iff_getElem.mp h i j hi hj hij c)
      · exact absurd (hsx.symm.trans hsx') hpx.ne
      · have hlt := hordered j i hj hi hji
        rw [hsx,hsx'] at hlt
        exact absurd hlt hpx.asymm

/-- Threads whose counters never decrease. -/
def Recording.ofMonotone (series : List TidSeries)
    (h : ∀ t ∈ series, t.samples.Pairwise fun a b => ∀ c, a.raw c ≤ b.raw c) : Recording where
  series := series
  rising t ht _ hpx c := own_nonneg (h t ht) (lt_of_mem_steps hpx) c

def onCpu (ns : ℤ) : Counters := fun c => if c = .onCpuNs then ns else 0

theorem onCpu_mono {a b : ℤ} (h : a ≤ b) (c : Col) : onCpu a c ≤ onCpu b c := by
  rw [onCpu,onCpu]
  split
  · exact h
  · exact le_rfl

/-- A thread of process 7 that is there from the first tick on. -/
def steady : TidSeries := ⟨100,"a",7,[⟨0,onCpu 0⟩,⟨1,onCpu 10⟩,⟨2,onCpu 20⟩],by decide⟩

/-- One that is there at the second tick only, and has worked before it is seen. -/
def visitor : TidSeries := ⟨101,"a",7,[⟨1,onCpu 100⟩],by decide⟩

def visited : Recording := .ofMonotone [steady,visitor] (by
  intro t ht
  rcases List.mem_pair.mp ht with rfl | rfl
  · simp [steady,onCpu_mono]
  · exact List.pairwise_singleton _ _)

/-- What a thread has when it joins is drawn as work of the tick. -/
theorem joining_thread_spikes :
    ¬ ∀ metricExpr, SumsThreadWork visited.series [7] metricExpr := by
  intro hall
  have hlines := fun metricExpr => (hall metricExpr).points (List.cons_ne_nil _ _ : _::_ ≠ [])
    (List.mem_singleton_self 7)
  have hkeys : (tickMap (members visited.series 7)).map Prod.fst = [0,1,2] := by decide
  have hticks : ticks (members visited.series 7) = [0,1,2] := by
    rw [ticks,hkeys]
    exact List.mergeSort_of_pairwise (by decide)
  have hstep : ((0,1) : ℚ × ℚ) ∈ steps (members visited.series 7) := by
    rw [steps,hticks]
    exact List.mem_cons_self
  have hbalanced := (points_eq_ownLine_iff visited 7).mp hlines _ hstep
  exact absurd (congrFun hbalanced .onCpuNs) (by decide)

end Aggregate
end ETraceDiag
