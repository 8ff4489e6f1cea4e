import ETraceDiag.Aggregate
import Mathlib.Data.List.Perm.Subperm

/-!
# The busiest processes

Which processes `V.aggregate` draws in the mode for the top: those that have one of the busiest
threads, where a process is as busy as its threads together.
-/

namespace ETraceDiag
namespace Aggregate

/-! ## Sets of ids -/

theorem mem_newSet {ids : List ℤ} {q : ℤ} : q ∈ newSet ids ↔ q ∈ ids := by
  rw [newSet,List.mem_reverse,List.mem_dedup,List.mem_reverse]

theorem nodup_newSet (ids : List ℤ) : (newSet ids).Nodup :=
  List.nodup_reverse.mpr (List.nodup_dedup _)

theorem length_newSet_le (ids : List ℤ) : (newSet ids).length ≤ ids.length := by
  rw [newSet,List.length_reverse,← @List.length_reverse _ ids]
  exact (List.dedup_sublist _).length_le

/-- Nothing is left out exactly when no id is there twice. -/
theorem length_newSet_iff {ids : List ℤ} : (newSet ids).length = ids.length ↔ ids.Nodup := by
  rw [newSet,List.length_reverse,← @List.length_reverse _ ids,← List.nodup_reverse]
  constructor
  · intro h
    rw [← (List.dedup_sublist ids.reverse).eq_of_length h]
    exact List.nodup_dedup _
  · intro h
    rw [h.dedup]

/-! ## The busiest threads -/

/-- The processes that threads belong to. -/
def processes (series : List TidSeries) : List ℤ := newSet (series.map TidSeries.tgid)

/-- The total of a process, summed over its threads. -/
def procTotal (series : List TidSeries) (pid : ℤ) : ℤ := ((members series pid).map total).sum

/-- The threads that are not cut off are at least as busy as the others. -/
theorem busiest_spec (series : List TidSeries) (n : ℕ) : ∃ rest,
    (busiest series n++rest).Perm series ∧
    (busiest series n).length = min n series.length ∧
    ∀ a ∈ busiest series n, ∀ b ∈ rest, total b ≤ total a := by
  have hperm := List.mergeSort_perm series fun a b => decide (total b ≤ total a)
  have hsorted : (series.mergeSort fun a b => decide (total b ≤ total a)).Pairwise
      fun a b => decide (total b ≤ total a) = true := by
    refine List.pairwise_mergeSort (fun a b c hab hbc => ?_) (fun a b => ?_) series
    · simp only [decide_eq_true_eq] at hab hbc ⊢
      exact hbc.trans hab
    · simpa using le_total (total b) (total a)
  refine ⟨(series.mergeSort fun a b => decide (total b ≤ total a)).drop n,?_,?_,?_⟩
  · rw [busiest,List.take_append_drop]
    exact hperm
  · rw [busiest,List.length_take,hperm.length_eq]
  · rw [← List.take_append_drop n (series.mergeSort fun a b => decide (total b ≤ total a))] at hsorted
    exact fun a ha b hb => of_decide_eq_true ((List.pairwise_append.mp hsorted).2.2 a ha b hb)

theorem mem_of_mem_busiest {series : List TidSeries} {n : ℕ} {t : TidSeries}
    (h : t ∈ busiest series n) : t ∈ series := by
  obtain ⟨rest,hperm,-⟩ := busiest_spec series n
  exact hperm.subset (List.mem_append_left rest h)

/-! ## The choice -/

/-- As many processes as are wanted and there, each once, and none left out that has a larger
total. -/
structure TopDrawn (series : List TidSeries) (n : ℕ) (drawn : List ℤ) : Prop where
  nodup : drawn.Nodup
  length : drawn.length = min n (processes series).length
  subset : ∀ p ∈ drawn, p ∈ processes series
  largest : ∀ p ∈ drawn, ∀ q ∈ processes series, q ∉ drawn →
    procTotal series q ≤ procTotal series p

/-- One of the busiest threads is of the process. -/
def HasBusy (series : List TidSeries) (n : ℕ) (q : ℤ) : Prop := ∃ t ∈ busiest series n, t.tgid = q

/-- The busiest threads are of different processes, or every process has one of them; and no process
without one has a larger total than a process with one. -/
structure WellSpread (series : List TidSeries) (n : ℕ) : Prop where
  number : ((busiest series n).map TidSeries.tgid).Nodup ∨ ∀ t ∈ series, HasBusy series n t.tgid
  largest : ∀ p, HasBusy series n p → ∀ t ∈ series, ¬ HasBusy series n t.tgid →
    procTotal series t.tgid ≤ procTotal series p

theorem mem_processes {series : List TidSeries} {q : ℤ} :
    q ∈ processes series ↔ ∃ t ∈ series, t.tgid = q := by
  rw [processes,mem_newSet,List.mem_map]

theorem mem_chosen {series : List TidSeries} {n : ℕ} {q : ℤ} :
    q ∈ newSet ((busiest series n).map TidSeries.tgid) ↔ HasBusy series n q := by
  rw [mem_newSet,List.mem_map,HasBusy]

theorem chosen_subset (series : List TidSeries) (n : ℕ) :
    newSet ((busiest series n).map TidSeries.tgid) ⊆ processes series := by
  intro q hq
  obtain ⟨t,ht,rfl⟩ := mem_chosen.mp hq
  exact mem_processes.mpr ⟨t,mem_of_mem_busiest ht,rfl⟩

/-- The number of processes is right exactly when the busiest threads are of different processes or
of all. -/
theorem length_chosen_iff (series : List TidSeries) (n : ℕ) :
    (newSet ((busiest series n).map TidSeries.tgid)).length = min n (processes series).length ↔
      ((busiest series n).map TidSeries.tgid).Nodup ∨ ∀ t ∈ series, HasBusy series n t.tgid := by
  obtain ⟨rest,hperm,hlength,-⟩ := busiest_spec series n
  have hsub := List.subperm_of_subset (nodup_newSet _) (chosen_subset series n)
  have hle := length_newSet_le ((busiest series n).map TidSeries.tgid)
  rw [List.length_map,hlength] at hle
  have hall : (∀ t ∈ series, HasBusy series n t.tgid) ↔ processes series ⊆
      newSet ((busiest series n).map TidSeries.tgid) := by
    constructor
    · intro h q hq
      obtain ⟨t,ht,rfl⟩ := mem_processes.mp hq
      exact mem_chosen.mpr (h t ht)
    · exact fun h t ht => mem_chosen.mp (h (mem_processes.mpr ⟨t,ht,rfl⟩))
  have hcovers : (∀ t ∈ series, HasBusy series n t.tgid) ↔
      (processes series).length ≤ (newSet ((busiest series n).map TidSeries.tgid)).length := by
    rw [hall]
    constructor
    · exact fun h => (List.subperm_of_subset (nodup_newSet _) h).length_le
    · exact fun h => (hsub.perm_of_length_le h).symm.subset
  have hprocesses := length_newSet_le (series.map TidSeries.tgid)
  rw [List.length_map] at hprocesses
  have hchosen := hsub.length_le
  rw [hcovers,← length_newSet_iff,List.length_map,hlength]
  unfold processes at hchosen ⊢
  omega

theorem ids_aggregate_top (series : List TidSeries) (sel : List ℕ) (metricExpr : MetricExpr) :
    (aggregate series (.top sel) metricExpr).map Line.id =
      newSet ((busiest series (sel.head?.getD 5)).map TidSeries.tgid) := by
  rw [aggregate]
  split
  · next hnil =>
    rw [List.isEmpty_iff.mp hnil,busiest,List.mergeSort_nil,List.take_nil]
    rfl
  · rw [List.map_map]
    exact List.map_id _

theorem topDrawn_chosen_iff (series : List TidSeries) (n : ℕ) :
    TopDrawn series n (newSet ((busiest series n).map TidSeries.tgid)) ↔ WellSpread series n := by
  constructor
  · intro h
    refine ⟨(length_chosen_iff series n).mp h.length,fun p hp t ht hnot => ?_⟩
    exact h.largest p (mem_chosen.mpr hp) t.tgid (mem_processes.mpr ⟨t,ht,rfl⟩) fun hin =>
      hnot (mem_chosen.mp hin)
  · intro h
    refine ⟨nodup_newSet _,(length_chosen_iff series n).mpr h.number,chosen_subset series n,?_⟩
    intro p hp q hq hnot
    obtain ⟨t,ht,rfl⟩ := mem_processes.mp hq
    exact h.largest p (mem_chosen.mp hp) t ht fun hbusy => hnot (mem_chosen.mpr hbusy)

/-- The top mode draws the top processes exactly when the busiest threads are well spread over
them. -/
theorem aggregate_top_iff (series : List TidSeries) (sel : List ℕ) (metricExpr : MetricExpr) :
    TopDrawn series (sel.head?.getD 5) ((aggregate series (.top sel) metricExpr).map Line.id) ↔
      WellSpread series (sel.head?.getD 5) := by
  rw [ids_aggregate_top]
  exact topDrawn_chosen_iff series _

theorem members_of_nodup {series : List TidSeries} (h : (series.map TidSeries.tgid).Nodup)
    {t : TidSeries} (ht : t ∈ series) : members series t.tgid = [t] := by
  induction series with
  | nil => cases ht
  | cons a series ih =>
    obtain ⟨hnot,hrest⟩ := List.nodup_cons.mp h
    rw [members]
    rcases List.mem_cons.mp ht with rfl | ht
    · have hnone : (series.filter fun b => b.tgid = t.tgid) = [] :=
        List.filter_eq_nil_iff.mpr fun b hb heq =>
          hnot (List.mem_map.mpr ⟨b,hb,of_decide_eq_true heq⟩)
      rw [List.filter_cons_of_pos (by simp),hnone]
    · have hne : a.tgid ≠ t.tgid := fun heq => hnot (heq ▸ List.mem_map_of_mem ht)
      rw [List.filter_cons_of_neg (by simpa using hne)]
      exact ih hrest ht

/-- Processes of one thread each are ranked as their threads are. -/
theorem wellSpread_of_nodup {series : List TidSeries} (h : (series.map TidSeries.tgid).Nodup)
    (n : ℕ) : WellSpread series n := by
  obtain ⟨rest,hperm,-,hbusy⟩ := busiest_spec series n
  have hnodup := (hperm.map TidSeries.tgid).nodup_iff.mpr h
  rw [List.map_append] at hnodup
  refine ⟨.inl (List.nodup_append.mp hnodup).1,?_⟩
  rintro p ⟨a,ha,rfl⟩ t ht hnot
  have hrest : t ∈ rest := by
    rcases List.mem_append.mp (hperm.symm.subset ht) with hin | hin
    · exact absurd ⟨t,hin,rfl⟩ hnot
    · exact hin
  rw [procTotal,procTotal,members_of_nodup h ht,members_of_nodup h (mem_of_mem_busiest ha)]
  simpa using hbusy a ha t hrest

/-- Three threads, of which the two busiest are of one process. -/
def threeThreads : List TidSeries :=
  [⟨1,"a",7,[⟨0,onCpu 0⟩,⟨1,onCpu 30⟩],by decide⟩,⟨2,"a",7,[⟨0,onCpu 0⟩,⟨1,onCpu 20⟩],by decide⟩,
   ⟨3,"b",9,[⟨0,onCpu 0⟩,⟨1,onCpu 10⟩],by decide⟩]

/-- One process is drawn where two are wanted. -/
theorem one_process_drawn : ¬ ∀ metricExpr,
    TopDrawn threeThreads 2 ((aggregate threeThreads (.top [2]) metricExpr).map Line.id) := by
  intro h
  have hlength := (h fun _ _ => none).length
  have hbusy : busiest threeThreads 2 = threeThreads.take 2 := by
    rw [busiest,List.mergeSort_of_pairwise (by decide)]
  rw [ids_aggregate_top,List.head?_cons,Option.getD_some,hbusy] at hlength
  exact absurd hlength (by decide)

end Aggregate
end ETraceDiag
