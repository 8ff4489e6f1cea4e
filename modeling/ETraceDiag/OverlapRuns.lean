import Mathlib.Data.List.SplitBy
import Mathlib.Order.Lattice

/-!
# Runs of overlapping intervals

A pass over intervals that joins the next one to the current one when it starts no later than that
ends. Where the intervals end in the order they come in, there is one join for each run of
intervals of which every next one starts before the one before it has ended.
-/

namespace OverlapRuns

variable {α τ : Type*} [LinearOrder τ] (start stop : α → τ) (join : α → α → α)

/-- The pass behind its first interval. -/
def mergeFrom (cur : α) : List α → List α
  | [] => [cur]
  | x::xs => if start x ≤ stop cur then mergeFrom (join cur x) xs else cur::mergeFrom x xs

def merge : List α → List α
  | [] => []
  | x::xs => mergeFrom start stop join x xs

/-- The runs. -/
def runs (xs : List α) : List (List α) := xs.splitBy fun a b => start b ≤ stop a

/-- The join of a run. -/
def JoinOf (run : List α) (y : α) : Prop := ∃ x xs, run = x::xs ∧ xs.foldl join x = y

variable {start stop join}

/-- Of intervals that end in order the join ends with the last one. -/
theorem stop_foldl_join (hstop : ∀ a b, stop (join a b) = max (stop a) (stop b)) {x : α}
    {xs : List α} (h : (x::xs).Pairwise fun a b => stop a ≤ stop b) :
    stop (xs.foldl join x) = stop ((x::xs).getLast (List.cons_ne_nil x xs)) := by
  induction xs generalizing x with
  | nil => rfl
  | cons y xs ih =>
    obtain ⟨hx,hy⟩ := List.pairwise_cons.mp h
    have hxy : stop (join x y) = stop y :=
      (hstop x y).trans (max_eq_right (hx y List.mem_cons_self))
    have hjoin : (join x y::xs).Pairwise fun a b => stop a ≤ stop b := by
      rw [List.pairwise_cons,hxy]
      exact List.pairwise_cons.mp hy
    rw [List.foldl_cons,ih hjoin,List.getLast_cons (List.cons_ne_nil y xs)]
    cases xs with
    | nil => exact hxy
    | cons z xs => rfl

theorem isChain_concat {x z : α} {run : List α}
    (h : (x::run).IsChain fun a b => start b ≤ stop a)
    (hover : start z ≤ stop ((x::run).getLast (List.cons_ne_nil x run))) :
    (x::(run++[z])).IsChain fun a b => start b ≤ stop a := by
  rw [← List.cons_append,List.isChain_append]
  refine ⟨h,List.isChain_singleton z,fun a ha b hb => ?_⟩
  obtain rfl := Option.some.inj hb
  rw [List.getLast?_eq_some_getLast (List.cons_ne_nil x run)] at ha
  rwa [← Option.some.inj ha]

/-- A run ends before an interval that starts behind it. -/
theorem runs_append_of_gap {x z : α} {run xs : List α}
    (h : (x::run).IsChain fun a b => start b ≤ stop a)
    (hgap : ¬ start z ≤ stop ((x::run).getLast (List.cons_ne_nil x run))) :
    runs start stop ((x::run)++z::xs) = (x::run)::runs start stop (z::xs) := by
  rw [runs,List.splitBy_append_cons,List.splitBy_of_isChain (List.cons_ne_nil x run)]
  · rfl
  · simpa using h
  · intro a ha
    rw [List.getLast?_eq_some_getLast (List.cons_ne_nil x run)] at ha
    rw [← Option.some.inj ha]
    exact decide_eq_false hgap

theorem mem_mergeFrom (hstop : ∀ a b, stop (join a b) = max (stop a) (stop b)) (y : α)
    (xs : List α) : ∀ (x : α) (run : List α),
      ((x::run)++xs).Pairwise (fun a b => stop a ≤ stop b) →
      (x::run).IsChain (fun a b => start b ≤ stop a) →
      (y ∈ mergeFrom start stop join (run.foldl join x) xs ↔
        ∃ r ∈ runs start stop ((x::run)++xs), JoinOf join r y) := by
  induction xs with
  | nil =>
    intro x run _ hchain
    have hone : runs start stop (x::run) = [x::run] :=
      List.splitBy_of_isChain (List.cons_ne_nil x run) (by simpa using hchain)
    rw [List.append_nil,hone,mergeFrom,List.mem_singleton]
    constructor
    · rintro rfl
      exact ⟨x::run,List.mem_singleton_self _,x,run,rfl,rfl⟩
    · rintro ⟨r,hr,x',run',rfl,rfl⟩
      obtain ⟨rfl,rfl⟩ := List.cons.inj (List.mem_singleton.mp hr)
      rfl
  | cons z xs ih =>
    intro x run hsorted hchain
    have hlast := stop_foldl_join hstop (hsorted.sublist (List.sublist_append_left (x::run) _))
    rw [mergeFrom,hlast]
    by_cases hover : start z ≤ stop ((x::run).getLast (List.cons_ne_nil x run))
    · have hsnoc : (x::run)++z::xs = (x::(run++[z]))++xs := by simp
      have hmerge := ih x (run++[z]) (hsnoc ▸ hsorted) (isChain_concat hchain hover)
      rw [List.foldl_append,List.foldl_cons,List.foldl_nil] at hmerge
      rw [if_pos hover,hmerge,hsnoc]
    · have hrest := ih z [] (hsorted.sublist (List.sublist_append_right (x::run) _))
        (List.isChain_singleton z)
      rw [List.foldl_nil,List.singleton_append] at hrest
      rw [if_neg hover,List.mem_cons,hrest,runs_append_of_gap hchain hover,
        List.exists_mem_cons_iff]
      refine or_congr_left ⟨fun h => ⟨x,run,rfl,h.symm⟩,?_⟩
      rintro ⟨x',run',heq,rfl⟩
      obtain ⟨rfl,rfl⟩ := List.cons.inj heq
      rfl

/-- What the pass gives are the joins of the runs. -/
theorem mem_merge (hstop : ∀ a b, stop (join a b) = max (stop a) (stop b)) {xs : List α}
    (hsorted : xs.Pairwise fun a b => stop a ≤ stop b) (y : α) :
    y ∈ merge start stop join xs ↔ ∃ r ∈ runs start stop xs, JoinOf join r y := by
  cases xs with
  | nil => simp [merge,runs]
  | cons x xs => exact mem_mergeFrom hstop y xs x [] hsorted (List.isChain_singleton x)

theorem mem_of_mem_runs {xs run : List α} (hrun : run ∈ runs start stop xs) {x : α}
    (hx : x ∈ run) : x ∈ xs := by
  rw [← List.flatten_splitBy (fun a b => decide (start b ≤ stop a)) xs]
  exact List.mem_flatten_of_mem hrun hx

/-- Every interval is in a run. -/
theorem exists_run {xs : List α} {x : α} (hx : x ∈ xs) : ∃ run ∈ runs start stop xs, x ∈ run := by
  rw [← List.flatten_splitBy (fun a b => decide (start b ≤ stop a)) xs] at hx
  exact List.mem_flatten.mp hx

/-- The run starts no later, and ends no earlier, than the interval. -/
def Spans (start stop : α → τ) (run : List α) (x : α) : Prop :=
  (∃ first ∈ run.head?, start first ≤ start x) ∧ ∃ last ∈ run.getLast?, stop x ≤ stop last

theorem pairwise_of_mem_runs {R : α → α → Prop} {xs run : List α} (h : xs.Pairwise R)
    (hrun : run ∈ runs start stop xs) : run.Pairwise R := by
  rw [← List.flatten_splitBy (fun a b => decide (start b ≤ stop a)) xs] at h
  exact (List.pairwise_flatten.mp h).1 run hrun

/-- A run spans its intervals. -/
theorem spans_of_mem {xs run : List α} (hstarts : xs.Pairwise fun a b => start a < start b)
    (hstops : xs.Pairwise fun a b => stop a ≤ stop b) (hrun : run ∈ runs start stop xs) {x : α}
    (hx : x ∈ run) : Spans start stop run x := by
  have hne := List.ne_nil_of_mem hx
  refine ⟨⟨run.head hne,List.head?_eq_some_head hne,?_⟩,run.getLast hne,
    List.getLast?_eq_some_getLast hne,?_⟩
  · have hle := (pairwise_of_mem_runs hstarts hrun).imp fun {a b} h => le_of_lt h
    exact hle.rel_head_of_rel_head_head hx le_rfl
  · exact (pairwise_of_mem_runs hstops hrun).rel_getLast_of_rel_getLast_getLast hx le_rfl

/-- Runs do not overlap: an interval that a run spans is in it. -/
theorem mem_run_of_spans {xs run : List α}
    (hstarts : xs.Pairwise fun a b => start a < start b) (horder : ∀ x ∈ xs, start x ≤ stop x)
    (hrun : run ∈ runs start stop xs) {x : α} (hx : x ∈ xs) (hspans : Spans start stop run x) :
    x ∈ run := by
  obtain ⟨⟨first,hfirst,hlow⟩,last,hlast,hhigh⟩ := hspans
  obtain ⟨before,after,hruns⟩ := List.mem_iff_append.mp hrun
  have hflatten : xs = before.flatten++(run++after.flatten) := by
    rw [← List.flatten_splitBy (fun a b => decide (start b ≤ stop a)) xs,← runs,hruns,
      List.flatten_append,List.flatten_cons]
  rw [hflatten] at hstarts
  rw [hflatten,List.mem_append,List.mem_append] at hx
  obtain ⟨-,hrest,hacross⟩ := List.pairwise_append.mp hstarts
  rcases hx with hx | hx | hx
  · -- what comes before the run starts before it
    have hlt := hacross x hx first (List.mem_append_left _ (List.mem_of_head? hfirst))
    exact absurd hlow (not_le.mpr hlt)
  · exact hx
  · -- what comes behind the run starts when it has ended
    exfalso
    cases after with
    | nil => cases hx
    | cons next after =>
      have hchain := List.isChain_getLast_head_splitBy (fun a b => decide (start b ≤ stop a)) xs
      rw [← runs,hruns,List.isChain_append] at hchain
      obtain ⟨hne,hnext,hgap⟩ := (List.isChain_cons_cons.mp hchain.2.1).1
      rw [List.getLast?_eq_some_getLast hne] at hlast
      rw [Option.some.inj hlast,decide_eq_false_iff_not,not_le] at hgap
      have hafter : ((next::after).flatten).Pairwise fun a b => start a < start b :=
        (List.pairwise_append.mp hrest).2.1
      have hhead : start (next.head hnext) ≤ start x := by
        rw [List.flatten_cons] at hafter hx
        rw [← List.cons_head_tail hnext] at hafter hx
        rcases List.mem_cons.mp hx with rfl | hx
        · exact le_rfl
        · exact ((List.pairwise_cons.mp hafter).1 x hx).le
      have hwithin : start x ≤ stop x := horder x (by
        rw [hflatten]
        exact List.mem_append_right _ (List.mem_append_right _ hx))
      exact absurd (hgap.trans_le (hhead.trans (hwithin.trans hhigh))) (lt_irrefl _)

/-- Runs of intervals that are given by other things. -/
theorem runs_map {β : Type*} (f : β → α) (xs : List β) :
    runs start stop (xs.map f) = (runs (start ∘ f) (stop ∘ f) xs).map (List.map f) := by
  rw [runs,List.splitBy_eq_iff]
  have hparts := (List.splitBy_eq_iff (r:=fun a b => decide (start (f b) ≤ stop (f a)))
    (m:=xs) (l:=runs (start ∘ f) (stop ∘ f) xs)).mp rfl
  obtain ⟨hflatten,hnil,hchains,hbetween⟩ := hparts
  refine ⟨?_,?_,?_,?_⟩
  · rw [← List.map_flatten,← hflatten]
  · simpa using hnil
  · intro m hm
    obtain ⟨run,hrun,rfl⟩ := List.mem_map.mp hm
    rw [List.isChain_map]
    exact hchains run hrun
  · rw [List.isChain_map]
    refine hbetween.imp fun a b ⟨ha,hb,hab⟩ => ⟨by simpa using ha,by simpa using hb,?_⟩
    rwa [List.getLast_map,List.head_map]

end OverlapRuns
