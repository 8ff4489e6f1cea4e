import ETraceDiag.TargetBudget

/-!
# What the order of the hash containers decides

With distinct scores the ranking and the processes do not depend on any order. The threads of
the selected processes do, as soon as two of these processes compete for the places that the
thread budget leaves.
-/

namespace ETraceDiag
namespace TargetSelector

open KernelMaps ProcessTable Transition

/-! ## The rows in another order -/

theorem row?_eq_some_iff {rows : List ProcessRow} (hnd : (rows.map ProcessRow.pid).Nodup)
    {tid : UInt32} {r : ProcessRow} : row? rows tid = some r ↔ r ∈ rows ∧ r.pid = tid := by
  rw [row?]
  constructor
  · intro h
    have hmem := List.mem_of_find?_eq_some h
    have hpid := List.find?_some h
    exact ⟨List.mem_reverse.mp hmem,by simpa using hpid⟩
  · rintro ⟨hmem,hpid⟩
    cases hfind : rows.reverse.find? fun r => r.pid = tid with
    | none =>
      have hnone := List.find?_eq_none.mp hfind r (List.mem_reverse.mpr hmem)
      exact absurd hpid (by simpa using hnone)
    | some r' =>
      have hmem' := List.mem_reverse.mp (List.mem_of_find?_eq_some hfind)
      have hpid' : r'.pid = tid := by simpa using List.find?_some hfind
      rw [List.inj_on_of_nodup_map hnd hmem hmem' (hpid.trans hpid'.symm)]

theorem row?_perm {rows rows' : List ProcessRow} (hnd : (rows.map ProcessRow.pid).Nodup)
    (h : rows'.Perm rows) : row? rows' = row? rows := by
  have hnd' : (rows'.map ProcessRow.pid).Nodup := (h.map _).nodup_iff.mpr hnd
  funext tid
  refine Option.ext fun r => ?_
  rw [row?_eq_some_iff hnd,row?_eq_some_iff hnd',h.mem_iff]

theorem tgidOf_perm {rows rows' : List ProcessRow} (hnd : (rows.map ProcessRow.pid).Nodup)
    (h : rows'.Perm rows) : tgidOf rows' = tgidOf rows := by
  funext tid
  rw [tgidOf,tgidOf,row?_perm hnd h]

theorem snapshot_perm (now : UInt64) (k : Readings) {rows rows' : List ProcessRow}
    (hnd : (rows.map ProcessRow.pid).Nodup) (h : rows'.Perm rows) :
    snapshot now k rows' = snapshot now k rows := by
  rw [snapshot,snapshot,row?_perm hnd h,List.toFinset_eq_of_perm _ _ (h.map _)]

section Selector

variable {F : Type}

theorem State.view?_perm (cfg : Config F) (k : Readings) (now : UInt64) (s : State F)
    {rows rows' : List ProcessRow} (hnd : (rows.map ProcessRow.pid).Nodup)
    (h : rows'.Perm rows) : s.view? cfg k rows' now = s.view? cfg k rows now := by
  have hview : ∀ base cur, view rows' base cur = view rows base cur := fun base cur => by
    rw [view,view,tgidOf_perm hnd h]
  rw [State.view?,State.view?,snapshot_perm now k hnd h]
  split <;> simp only [hview]

/-! ## The ranking -/

theorem ProcAgg.add_right_comm (a b c : ProcAgg) : (a.add b).add c = (a.add c).add b := by
  simp only [ProcAgg.add,UInt64.add_assoc]
  simp only [UInt64.add_comm b.onCpuNs,UInt64.add_comm b.sw,UInt64.add_comm b.ioOps,
    UInt64.add_comm b.ioBytes,UInt64.add_comm b.faults,UInt64.add_comm b.lock]

theorem View.procAgg_eq (v : View) (ar : Arith F) (o o' : Orders) (p : UInt32) :
    v.procAgg ar o' p = v.procAgg ar o p := by
  have hcomm : RightCommutative fun (a : ProcAgg) (tid : UInt32) =>
      a.add (.of ar (v.delta tid)) := ⟨fun a t u => ProcAgg.add_right_comm a _ _⟩
  exact ((o'.cur.perm o.cur v.tids).filter _).foldl_eq _

theorem View.procScore_eq (v : View) (ar : Arith F) (cfg : Config F) (o o' : Orders) :
    v.procScore ar cfg o' = v.procScore ar cfg o := by
  funext p
  rw [View.procScore,View.procScore,View.procAgg_eq]

/-- No two processes and no two rows of the table have the same score. -/
structure Distinct (v : View) (ar : Arith F) (cfg : Config F) (rows : List ProcessRow) :
    Prop where
  procs : ∀ o, Set.InjOn (v.procScore ar cfg o) v.procs
  threads : ((rows.map ProcessRow.pid).map (v.threadScore ar cfg)).Nodup

theorem Distinct.pids {v : View} {ar : Arith F} {cfg : Config F} {rows : List ProcessRow}
    (h : Distinct v ar cfg rows) : (rows.map ProcessRow.pid).Nodup := .of_map _ h.threads

variable [LinearOrder F]

theorem View.ranked_eq {v : View} {ar : Arith F} {cfg : Config F} {rows : List ProcessRow}
    (h : Distinct v ar cfg rows) (o o' : Orders) : v.ranked ar cfg o' = v.ranked ar cfg o := by
  rw [View.ranked,View.ranked,v.procScore_eq ar cfg o o']
  refine HashOrder.sortDesc_eq_of_perm (o'.pacc.perm o.pacc _) fun p hp q hq heq => ?_
  exact h.procs o ((o'.pacc.mem _ _).mp hp) ((o'.pacc.mem _ _).mp hq) heq

theorem View.threads_eq {v : View} {ar : Arith F} {cfg : Config F} {rows : List ProcessRow}
    (h : Distinct v ar cfg rows) (htids : v.tids = (rows.map ProcessRow.pid).toFinset)
    (o o' : Orders) : v.threads ar cfg o' = v.threads ar cfg o := by
  have hinj : ∀ s ∈ v.tids, ∀ t ∈ v.tids,
      v.threadScore ar cfg s = v.threadScore ar cfg t → s = t := by
    intro s hs t ht
    rw [htids,List.mem_toFinset] at hs ht
    exact List.inj_on_of_nodup_map h.threads hs ht
  funext p
  rw [View.threads,View.threads]
  refine HashOrder.sortDesc_eq_of_perm ((o'.threadDelta.perm o.threadDelta _).filter _)
    fun s hs t ht heq => hinj s ?_ t ?_ heq
  · exact (o'.threadDelta.mem _ _).mp (List.mem_of_mem_filter hs)
  · exact (o'.threadDelta.mem _ _).mp (List.mem_of_mem_filter ht)

/-! ## The processes -/

omit [LinearOrder F] in
theorem stayed_eq (cfg : Config F) (o o' : Orders) (now : UInt64) (t : Procs) :
    stayed cfg o' now t = stayed cfg o now t := by
  have hmem : ∀ p, p ∈ leaveList cfg o' now t ↔ p ∈ leaveList cfg o now t := fun p => by
    rw [mem_leaveList,mem_leaveList]
  simp only [stayed,Procs.drop,hmem]

theorem View.processes_eq {v : View} {ar : Arith F} {cfg : Config F} (hcfg : cfg.Sanitized)
    {rows : List ProcessRow} (h : Distinct v ar cfg rows) (o o' : Orders) (now : UInt64)
    (s : State F) : v.processes ar cfg o' now s = v.processes ar cfg o now s := by
  let ranked := v.ranked ar cfg o
  have hjoins : ∀ p, p ∈ joinList cfg o' ranked (scanned cfg v ranked s.pstate) →
      p ∈ ranked := by
    intro p hp
    obtain ⟨hknown,hjoins⟩ := mem_joinList.mp hp
    by_cases hold : p ∈ s.pstate.known
    · rw [scanned_st hold] at hjoins
      exact ProcState.mem_of_scan_joins hcfg hjoins
    · exact View.mem_ranked.mpr ((mem_scanned_known.mp hknown).resolve_left hold)
  have hlist : joinList cfg o' ranked (scanned cfg v ranked s.pstate) =
      joinList cfg o ranked (scanned cfg v ranked s.pstate) := by
    refine HashOrder.sortAsc_eq_of_perm ((o'.pstate.perm o.pstate _).filter _)
      fun p hp q hq heq => ?_
    have hp' := hjoins p ((HashOrder.sortAsc_perm _ _).mem_iff.mpr hp)
    have hq' := hjoins q ((HashOrder.sortAsc_perm _ _).mem_iff.mpr hq)
    rw [rankOr,rankOr,rank?,rank?,if_pos hp',if_pos hq',Option.getD_some,Option.getD_some,
      Nat.add_right_cancel_iff] at heq
    exact (List.idxOf_inj hp').mp heq
  rw [View.processes,View.processes,View.ranked_eq h o o',selected_eq,selected_eq,joined,joined,
    stayed_eq cfg o o',hlist]

/-! ## The threads -/

/-- The selected processes in the order of `pstate_`. -/
def Procs.selected (t : Procs) (o : Orders) : List UInt32 :=
  (o.pstate.enum t.known).filter fun p => (t.st p).marked

/-- The pinned threads fill the budget; or the threads that the selected processes still want
all fit in; or at most one of the processes wants any. -/
def Settled (v : View) (ar : Arith F) (cfg : Config F) (o : Orders) (now : UInt64)
    (s : State F) : Prop :=
  Handout.Uncontended s.threadBudget.toNat cfg.perProcThreads.toNat (v.threads ar cfg o) s.pinned
    ((v.processes ar cfg o now s).selected o)

theorem View.threads_disjoint (v : View) (ar : Arith F) (cfg : Config F) (o : Orders)
    (p q tid : UInt32) (hp : tid ∈ v.threads ar cfg o p) (hq : tid ∈ v.threads ar cfg o q) :
    p = q := (View.mem_threads.mp hp).2.symm.trans (View.mem_threads.mp hq).2

/-- In which order a handout sees the processes is all that it takes from the orders. -/
theorem View.choose_eq {v : View} {ar : Arith F} {cfg : Config F} (hcfg : cfg.Sanitized)
    {rows : List ProcessRow} (h : Distinct v ar cfg rows)
    (htids : v.tids = (rows.map ProcessRow.pid).toFinset) (o o' : Orders) (now : UInt64)
    (s : State F) : v.choose ar cfg o' now s =
      v.fallback ar cfg s.threadBudget o now (v.ranked ar cfg o) (v.processes ar cfg o now s)
        (Handout.fill s.threadBudget.toNat cfg.perProcThreads.toNat (v.threads ar cfg o) s.pinned
          ((v.processes ar cfg o now s).selected o')) := by
  have hthreads := View.threads_eq h htids o o'
  have hranked := View.ranked_eq h o o'
  have hprocs := View.processes_eq hcfg h o o' now s
  have hchoose : v.choose ar cfg o' now s =
      v.fallback ar cfg s.threadBudget o' now (v.ranked ar cfg o') (v.processes ar cfg o' now s)
        (Handout.fill s.threadBudget.toNat cfg.perProcThreads.toNat (v.threads ar cfg o') s.pinned
          ((v.processes ar cfg o' now s).selected o')) := rfl
  rw [hchoose,hranked,hprocs,hthreads]
  cases v.ranked ar cfg o with
  | nil => rfl
  | cons top ranked => rw [View.fallback,View.fallback,hthreads]

theorem View.choose_eq_of_settled {v : View} {ar : Arith F} {cfg : Config F}
    (hcfg : cfg.Sanitized) {rows : List ProcessRow} (h : Distinct v ar cfg rows)
    (htids : v.tids = (rows.map ProcessRow.pid).toFinset) {o : Orders} {now : UInt64}
    {s : State F} (hsettled : Settled v ar cfg o now s) (o' : Orders) :
    v.choose ar cfg o' now s = v.choose ar cfg o now s := by
  have hperm : ((v.processes ar cfg o now s).selected o').Perm
      ((v.processes ar cfg o now s).selected o) := (o'.pstate.perm o.pstate _).filter _
  have hnd : ((v.processes ar cfg o now s).selected o).Nodup := (o.pstate.nodup _).filter _
  rw [View.choose_eq hcfg h htids o o',View.choose_eq hcfg h htids o o,
    Handout.fill_eq_of_perm (v.threads_nodup ar cfg o) (v.threads_disjoint ar cfg o) hnd hperm
      hsettled]

/-- Every permutation of the selected processes is what some order gives. -/
theorem Procs.exists_selected_eq (t : Procs) (o : Orders) {l : List UInt32}
    (hl : l.Perm (t.selected o)) : ∃ o' : Orders, t.selected o' = l := by
  have hsplit : (l++(o.pstate.enum t.known).filter fun p => !(t.st p).marked).Perm
      (o.pstate.enum t.known) :=
    (hl.append_right _).trans (List.filter_append_perm _ _)
  obtain ⟨ho,henum⟩ := o.pstate.exists_enum_eq t.known hsplit
  refine ⟨{ o with pstate := ho },?_⟩
  have hmarked : ∀ q ∈ l, (t.st q).marked = true := fun q hq =>
    (List.mem_filter.mp (hl.subset hq)).2
  rw [Procs.selected,henum,List.filter_append,List.filter_eq_self.mpr hmarked,List.filter_filter]
  simp

/-- When processes compete, some other order of `pstate_` has other threads watched. -/
theorem View.exists_choose_ne {v : View} {ar : Arith F} {cfg : Config F}
    (hcfg : cfg.Sanitized) {rows : List ProcessRow} (h : Distinct v ar cfg rows)
    (htids : v.tids = (rows.map ProcessRow.pid).toFinset) {o : Orders} {now : UInt64}
    {s : State F} (hsettled : ¬ Settled v ar cfg o now s) :
    ∃ o' o'' : Orders, (v.choose ar cfg o' now s).2 ≠ (v.choose ar cfg o'' now s).2 := by
  let t := v.processes ar cfg o now s
  let keys := t.selected o
  have hnd : keys.Nodup := (o.pstate.nodup _).filter _
  obtain ⟨p,hp,hne⟩ := Handout.fill_ne_of_contended (v.threads_nodup ar cfg o)
    (v.threads_disjoint ar cfg o) hnd hsettled
  have hfirst : (p::keys.erase p).Perm keys := (List.perm_cons_erase hp).symm
  have hlast : (keys.erase p++[p]).Perm keys :=
    (List.perm_append_singleton p _).trans hfirst
  obtain ⟨o',ho'⟩ := t.exists_selected_eq o hfirst
  obtain ⟨o'',ho''⟩ := t.exists_selected_eq o hlast
  refine ⟨o',o'',?_⟩
  have hfill : ∀ l : List UInt32, l.Perm keys → ∀ o₁ : Orders, t.selected o₁ = l →
      (v.choose ar cfg o₁ now s).2 = Handout.fill s.threadBudget.toNat cfg.perProcThreads.toNat
        (v.threads ar cfg o) s.pinned l := by
    intro l hl o₁ ho₁
    have hsome := (Handout.fill_nonempty_of_contended hl hsettled).ne_empty
    rw [View.choose_eq hcfg h htids o o₁,ho₁,View.fallback_of_nonempty _ _ _ _ _ _ _ _ hsome]
  rw [hfill _ hfirst o' ho',hfill _ hlast o'' ho'']
  exact hne

/-! ## Evaluate -/

/-- What an evaluation leaves is the same for all orders, of the containers and of the rows. -/
def OrderFree (env : Surroundings) (ar : Arith F) (cfg : Config F) (k : Readings)
    (rows : List ProcessRow) (now : UInt64) (s : State F) : Prop :=
  ∀ (o o' : Orders) (rows' : List ProcessRow), rows'.Perm rows →
    (evaluate env ar cfg k o' rows' now s).members =
        (evaluate env ar cfg k o rows now s).members ∧
      (evaluate env ar cfg k o' rows' now s).pstate = (evaluate env ar cfg k o rows now s).pstate

section Evaluate

variable {env : Surroundings} {v : View} {ar : Arith F} {cfg : Config F} {o : Orders}
  {k : Readings} {rows : List ProcessRow} {now : UInt64} {s : State F}

theorem evaluate_chosen (h : s.view? cfg k rows now = some v) :
    (evaluate env ar cfg k o rows now s).members = (v.choose ar cfg o now s).2 ∧
      (evaluate env ar cfg k o rows now s).pstate = (v.choose ar cfg o now s).1 := by
  rw [evaluate_of_some h]
  obtain ⟨k',log,heq⟩ := evaluateView_eq env v ar cfg o now
    { s with history := slide now cfg.windowSeconds (s.history++[snapshot now k rows]) }
  rw [heq]
  exact ⟨rfl,rfl⟩

/-- With distinct scores the order decides exactly when processes compete for places. -/
theorem orderFree_iff (o : Orders) (hcfg : cfg.Sanitized)
    (hdistinct : ∀ v ∈ s.view? cfg k rows now, Distinct v ar cfg rows) :
    OrderFree env ar cfg k rows now s ↔
      ∀ v ∈ s.view? cfg k rows now, Settled v ar cfg o now s := by
  cases hview : s.view? cfg k rows now with
  | none =>
    have hhistory := history_of_view?_eq_none hview
    refine iff_of_true (fun o o' rows' _ => ?_) fun v hv => by cases hv
    rw [evaluate_of_none hview,evaluate_of_none (view?_of_history_eq_nil k rows' hhistory)]
    exact ⟨rfl,rfl⟩
  | some v =>
    have hd := hdistinct v hview
    have htids := tids_of_view?_eq_some hview
    constructor
    · rintro hfree v' ⟨⟩
      by_contra hsettled
      obtain ⟨o',o'',hne⟩ := View.exists_choose_ne hcfg hd htids hsettled
      have hmembers := (hfree o'' o' rows (List.Perm.refl _)).1
      rw [(evaluate_chosen hview).1,(evaluate_chosen hview).1] at hmembers
      exact hne hmembers
    · intro hsettled o₁ o₂ rows' hperm
      have hview' := (s.view?_perm cfg k now hd.pids hperm).trans hview
      have hchoose : v.choose ar cfg o₂ now s = v.choose ar cfg o₁ now s :=
        (View.choose_eq_of_settled hcfg hd htids (hsettled v rfl) o₂).trans
          (View.choose_eq_of_settled hcfg hd htids (hsettled v rfl) o₁).symm
      rw [(evaluate_chosen hview).1,(evaluate_chosen hview).2,(evaluate_chosen hview').1,
        (evaluate_chosen hview').2,hchoose]
      exact ⟨rfl,rfl⟩

end Evaluate

end Selector

/-! ## Two processes, one place -/

def descending : HashOrder UInt32 :=
  @HashOrder.ascending UInt32 ℕᵒᵈ _ (fun t => .toDual t.toNat) fun _ _ h => UInt32.toNat.inj h

def rivalConfig : Config ℕ :=
  { soleConfig with maxTargets := 2, enterRank := 2, leaveRank := 2, pinned := [11] }

theorem rivalConfig_sanitized : rivalConfig.Sanitized :=
  ⟨by decide,by decide,by decide,by decide,by decide,by decide,by decide,by decide⟩

/-- Process 10 with the threads 11 and 12, process 20 with the thread 21. -/
def rivals (time : UInt64) : List ProcessRow :=
  [{ pid := 11, tgid := 10, utime := time },{ pid := 12, tgid := 10, utime := 5*time },
   { pid := 21, tgid := 20, utime := 3*time }]

/-- Thread 11 is pinned, and the first evaluation has been. -/
def rivalState : State ℕ :=
  run (step cpuTime) (started ℕ)
    [.probe rivalConfig ⟨4,0,0,32768⟩,.applyPinned nowhere (fun _ => 10) 0 rivalConfig,
     .evaluate nowhere rivalConfig idle ascendingOrders (rivals 0) 1000000000]

theorem rivals_distinct : ∀ v ∈ rivalState.view? rivalConfig idle (rivals 1) 2000000000,
    Distinct v cpuTime rivalConfig (rivals 1) := by
  rintro v ⟨⟩
  refine ⟨fun o => ?_,by decide⟩
  rw [View.procScore_eq _ cpuTime rivalConfig ascendingOrders o,← Finset.card_image_iff]
  decide

theorem orderFree_iff_rivals :
    OrderFree nowhere cpuTime rivalConfig idle (rivals 1) 2000000000 rivalState ↔
      ∀ v ∈ rivalState.view? rivalConfig idle (rivals 1) 2000000000,
        Settled v cpuTime rivalConfig ascendingOrders 2000000000 rivalState :=
  orderFree_iff ascendingOrders rivalConfig_sanitized rivals_distinct

/-- The processes and the threads differ in their scores, and who is watched with thread 11
depends on which of the processes comes first. -/
theorem rivals_not_orderFree :
    (∀ v ∈ rivalState.view? rivalConfig idle (rivals 1) 2000000000,
      Distinct v cpuTime rivalConfig (rivals 1)) ∧
    ¬ OrderFree nowhere cpuTime rivalConfig idle (rivals 1) 2000000000 rivalState := by
  refine ⟨rivals_distinct,fun h => ?_⟩
  have hmembers := (h ascendingOrders { ascendingOrders with pstate := descending } (rivals 1)
    (List.Perm.refl _)).1
  revert hmembers
  decide

end TargetSelector
end ETraceDiag
