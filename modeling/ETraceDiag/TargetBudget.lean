import ETraceDiag.TargetCoherence

/-!
# The budgets of the target selector

The thread budget holds whatever happens. The process budget is checked before a process
joins, and not when the fallback marks one because nothing else is there to watch.
-/

namespace ETraceDiag
namespace TargetSelector

open KernelMaps ProcessTable Transition

variable {F : Type}

/-! ## Marks through one evaluation -/

theorem Procs.mem_marked {t : Procs} {p : UInt32} :
    p ∈ t.marked ↔ p ∈ t.known ∧ (t.st p).marked = true := Finset.mem_filter

theorem Procs.mem_pinned {t : Procs} {p : UInt32} :
    p ∈ t.pinned ↔ p ∈ t.known ∧ (t.st p).pinnedProc = true := Finset.mem_filter

@[simp] theorem ProcState.scan_member (cfg : Config F) (rank : ℕ) (st : ProcState) :
    (st.scan cfg rank).member = st.member := by
  rw [ProcState.scan]
  split
  · rfl
  · split <;> rfl

@[simp] theorem ProcState.scan_pinnedProc (cfg : Config F) (rank : ℕ) (st : ProcState) :
    (st.scan cfg rank).pinnedProc = st.pinnedProc := by
  rw [ProcState.scan]
  split
  · rfl
  · split <;> rfl

@[simp] theorem ProcState.scan_marked (cfg : Config F) (rank : ℕ) (st : ProcState) :
    (st.scan cfg rank).marked = st.marked := by
  rw [ProcState.marked,ProcState.marked,scan_member,scan_pinnedProc]

theorem scanned_st {cfg : Config F} {v : View} {ranked : List UInt32} {t : Procs} {p : UInt32}
    (hp : p ∈ t.known) : (scanned cfg v ranked t).st p =
      (t.st p).scan cfg (rankOr ranked 0xFFFFFFFF p) := by
  have hknown : p ∈ (t.ensure v.procs).known := Finset.mem_union_left _ hp
  rw [scanned,Procs.scan]
  dsimp only
  rw [if_pos hknown,Procs.ensure]
  dsimp only
  rw [if_neg fun h => h.2 hp]

/-- An entry that is new has no marks. -/
theorem scanned_st_of_notMem {cfg : Config F} {v : View} {ranked : List UInt32} {t : Procs}
    {p : UInt32} (hp : p ∉ t.known) (hv : p ∈ v.procs) :
    (scanned cfg v ranked t).st p = ({} : ProcState).scan cfg (rankOr ranked 0xFFFFFFFF p) := by
  have hknown : p ∈ (t.ensure v.procs).known := Finset.mem_union_right _ hv
  rw [scanned,Procs.scan]
  dsimp only
  rw [if_pos hknown,Procs.ensure]
  dsimp only
  rw [if_pos ⟨hv,hp⟩]

theorem mem_scanned_known {cfg : Config F} {v : View} {ranked : List UInt32} {t : Procs}
    {p : UInt32} : p ∈ (scanned cfg v ranked t).known ↔ p ∈ t.known ∨ p ∈ v.procs :=
  Finset.mem_union

/-- The hysteresis loop leaves the marks alone. -/
theorem scanned_marked (cfg : Config F) (v : View) (ranked : List UInt32) (t : Procs) :
    (scanned cfg v ranked t).marked = t.marked := by
  ext p
  rw [Procs.mem_marked,Procs.mem_marked,mem_scanned_known]
  by_cases hp : p ∈ t.known
  · rw [scanned_st hp,ProcState.scan_marked]
    simp [hp]
  · refine iff_of_false ?_ fun h => hp h.1
    rintro ⟨hknown,hmark⟩
    rw [scanned_st_of_notMem hp (hknown.resolve_left hp),ProcState.scan_marked] at hmark
    cases hmark

theorem scanned_pinned (cfg : Config F) (v : View) (ranked : List UInt32) (t : Procs) :
    (scanned cfg v ranked t).pinned = t.pinned := by
  ext p
  rw [Procs.mem_pinned,Procs.mem_pinned,mem_scanned_known]
  by_cases hp : p ∈ t.known
  · rw [scanned_st hp,ProcState.scan_pinnedProc]
    simp [hp]
  · refine iff_of_false ?_ fun h => hp h.1
    rintro ⟨hknown,hmark⟩
    rw [scanned_st_of_notMem hp (hknown.resolve_left hp),ProcState.scan_pinnedProc] at hmark
    cases hmark

/-- The marked processes that the hysteresis keeps. -/
def kept (cfg : Config F) (now : UInt64) (ranked : List UInt32) (t : Procs) : Finset UInt32 :=
  t.marked.filter fun p => ¬ ((t.st p).scan cfg (rankOr ranked 0xFFFFFFFF p)).leaves cfg now

theorem mem_leaveList {cfg : Config F} {o : Orders} {now : UInt64} {t : Procs} {p : UInt32} :
    p ∈ leaveList cfg o now t ↔ p ∈ t.known ∧ (t.st p).leaves cfg now = true := by
  rw [leaveList,List.mem_filter,o.pstate.mem]

theorem ProcState.pinnedProc_of_leaves {cfg : Config F} {now : UInt64} {st : ProcState}
    (h : st.leaves cfg now = true) : st.pinnedProc = false := by
  simp only [ProcState.leaves,Bool.and_eq_true,Bool.not_eq_true'] at h
  exact h.1.1.1

theorem mem_stayed_marked {cfg : Config F} {o : Orders} {now : UInt64} {t : Procs} {p : UInt32} :
    p ∈ (stayed cfg o now t).marked ↔ p ∈ t.marked ∧ ¬ (t.st p).leaves cfg now = true := by
  rw [Procs.mem_marked,Procs.mem_marked,and_assoc]
  refine and_congr_right fun (hp : p ∈ t.known) => ?_
  dsimp only [stayed,Procs.drop]
  by_cases hleave : (t.st p).leaves cfg now = true
  · rw [if_pos (mem_leaveList.mpr ⟨hp,hleave⟩)]
    simp [ProcState.marked,ProcState.pinnedProc_of_leaves hleave,hleave]
  · rw [if_neg fun h => hleave (mem_leaveList.mp h).2]
    simp [hleave]

theorem stayed_pinned (cfg : Config F) (o : Orders) (now : UInt64) (t : Procs) :
    (stayed cfg o now t).pinned = t.pinned := by
  ext p
  rw [Procs.mem_pinned,Procs.mem_pinned]
  dsimp only [stayed,Procs.drop]
  split <;> rfl

theorem stayed_scanned_marked (cfg : Config F) (o : Orders) (now : UInt64) (v : View)
    (ranked : List UInt32) (t : Procs) :
    (stayed cfg o now (scanned cfg v ranked t)).marked = kept cfg now ranked t := by
  ext p
  rw [mem_stayed_marked,scanned_marked,kept,Finset.mem_filter]
  exact and_congr_right fun hp => by rw [scanned_st (Procs.mem_marked.mp hp).1]

/-! ## Joining -/

theorem joinLoop_eq_take (budget : ℕ) (ps : List UInt32) : ∀ memberProc,
    joinLoop budget memberProc ps = ps.take (budget-memberProc) := by
  induction ps with
  | nil => intro memberProc; simp [joinLoop]
  | cons p ps ih =>
    intro memberProc
    rw [joinLoop]
    split
    · next hfull => rw [Nat.sub_eq_zero_of_le hfull,List.take_zero]
    · next hroom =>
      have hsub : budget-memberProc = budget-(memberProc+1)+1 := by omega
      rw [ih,hsub,List.take_succ_cons]

theorem countP_marked (o : HashOrder UInt32) (t : Procs) :
    ((o.enum t.known).countP fun p => (t.st p).marked) = t.marked.card := by
  have hset : ((o.enum t.known).filter fun p => (t.st p).marked).toFinset = t.marked := by
    ext p
    rw [List.mem_toFinset,List.mem_filter,o.mem,Procs.mem_marked]
  rw [List.countP_eq_length_filter,← List.toFinset_card_of_nodup ((o.nodup _).filter _),hset]

/-- The processes that join. -/
def joined (cfg : Config F) (threadBudget : UInt32) (o : Orders) (now : UInt64)
    (ranked : List UInt32) (t : Procs) : List UInt32 :=
  (joinList cfg o ranked t).take (procBudget threadBudget cfg-(stayed cfg o now t).marked.card)

theorem selected_eq (cfg : Config F) (threadBudget : UInt32) (o : Orders) (now : UInt64)
    (ranked : List UInt32) (t : Procs) : selected cfg threadBudget o now ranked t =
      (stayed cfg o now t).enroll now (joined cfg threadBudget o now ranked t) := by
  rw [joined,← joinLoop_eq_take,← countP_marked o.pstate,selected]

theorem mem_joinList {cfg : Config F} {o : Orders} {ranked : List UInt32} {t : Procs}
    {p : UInt32} :
    p ∈ joinList cfg o ranked t ↔ p ∈ t.known ∧ (t.st p).joins cfg = true := by
  rw [joinList,(HashOrder.sortAsc_perm _ _).mem_iff,List.mem_filter,o.pstate.mem]

theorem joinList_nodup (cfg : Config F) (o : Orders) (ranked : List UInt32) (t : Procs) :
    (joinList cfg o ranked t).Nodup :=
  (HashOrder.sortAsc_perm _ _).nodup_iff.mpr ((o.pstate.nodup _).filter _)

theorem ProcState.marked_of_joins {cfg : Config F} {st : ProcState} (h : st.joins cfg = true) :
    st.marked = false := by
  simp only [ProcState.joins,Bool.and_eq_true,Bool.not_eq_true'] at h
  simp [ProcState.marked,h.1.1,h.1.2]

/-- Those that stay, and those that join. -/
theorem selected_marked (cfg : Config F) (threadBudget : UInt32) (o : Orders) (now : UInt64)
    (ranked : List UInt32) (t : Procs) : (selected cfg threadBudget o now ranked t).marked =
      (stayed cfg o now t).marked ∪ (joined cfg threadBudget o now ranked t).toFinset := by
  ext p
  rw [selected_eq,Finset.mem_union,List.mem_toFinset,Procs.mem_marked,Procs.mem_marked]
  dsimp only [Procs.enroll]
  by_cases hp : p ∈ joined cfg threadBudget o now ranked t
  · have hknown : p ∈ t.known := (mem_joinList.mp (List.mem_of_mem_take hp)).1
    simp [hp,ProcState.marked,stayed,Procs.drop,hknown]
  · simp [hp]

theorem selected_pinned (cfg : Config F) (threadBudget : UInt32) (o : Orders) (now : UInt64)
    (ranked : List UInt32) (t : Procs) :
    (selected cfg threadBudget o now ranked t).pinned = t.pinned := by
  rw [selected_eq,← stayed_pinned cfg o now t]
  ext p
  rw [Procs.mem_pinned,Procs.mem_pinned]
  dsimp only [Procs.enroll]
  split <;> rfl

/-- Joining fills the budget up and no further. -/
theorem selected_marked_card (cfg : Config F) (threadBudget : UInt32) (o : Orders)
    (now : UInt64) (ranked : List UInt32) (t : Procs) :
    (selected cfg threadBudget o now ranked t).marked.card =
      (stayed cfg o now t).marked.card+(joined cfg threadBudget o now ranked t).length := by
  have hnd : (joined cfg threadBudget o now ranked t).Nodup :=
    (joinList_nodup cfg o ranked t).sublist (List.take_sublist _ _)
  have hdisj : Disjoint (stayed cfg o now t).marked
      (joined cfg threadBudget o now ranked t).toFinset := by
    refine Finset.disjoint_right.mpr fun p hp hstay => ?_
    have hjoin := (mem_joinList.mp (List.mem_of_mem_take (List.mem_toFinset.mp hp))).2
    have hmark := (Procs.mem_marked.mp (mem_stayed_marked.mp hstay).1).2
    rw [ProcState.marked_of_joins hjoin] at hmark
    cases hmark
  rw [selected_marked,Finset.card_union_of_disjoint hdisj,List.toFinset_card_of_nodup hnd]

/-! ## Who gets threads -/

/-- The bounds that `Sanitize` puts on the numbers of `cfg.targets`. -/
structure Config.Sanitized (cfg : Config F) : Prop where
  maxTargets : 1 ≤ cfg.maxTargets ∧ cfg.maxTargets ≤ 1024
  minTargets : 1 ≤ cfg.minTargets ∧ cfg.minTargets ≤ cfg.maxTargets
  perProcThreads : 1 ≤ cfg.perProcThreads ∧ cfg.perProcThreads ≤ 256
  windowSeconds : 1 ≤ cfg.windowSeconds ∧ cfg.windowSeconds ≤ 3600
  enterRank : 1 ≤ cfg.enterRank ∧ cfg.enterRank ≤ 1024
  leaveRank : cfg.enterRank ≤ cfg.leaveRank ∧ cfg.leaveRank ≤ 4096
  holdPeriods : 1 ≤ cfg.holdPeriods ∧ cfg.holdPeriods ≤ 1000
  minResidencySeconds : cfg.minResidencySeconds ≤ 36000

theorem rankOr_of_notMem {ranked : List UInt32} {p : UInt32} (h : p ∉ ranked) (absent : ℕ) :
    rankOr ranked absent p = absent := by
  rw [rankOr,rank?,if_neg h,Option.getD_none]

/-- A streak that is long enough began with a rank, so the process is there. -/
theorem ProcState.mem_of_scan_joins {cfg : Config F} (hcfg : cfg.Sanitized)
    {ranked : List UInt32} {p : UInt32} {st : ProcState}
    (h : (st.scan cfg (rankOr ranked 0xFFFFFFFF p)).joins cfg = true) : p ∈ ranked := by
  by_contra habsent
  have hmark : st.marked = false := by
    rw [← ProcState.scan_marked cfg]
    exact ProcState.marked_of_joins h
  obtain ⟨hmember,hpin⟩ := Bool.or_eq_false_iff.mp hmark
  have henter : ¬ 0xFFFFFFFF ≤ cfg.enterRank.toNat := by
    have hle := UInt32.le_iff_toNat_le.mp hcfg.enterRank.2
    have h1024 : (1024 : UInt32).toNat = 1024 := rfl
    omega
  have hstreak : (st.scan cfg (rankOr ranked 0xFFFFFFFF p)).goodStreak = 0 := by
    rw [ProcState.scan,if_neg (by simp [hpin]),if_neg (by simp [hmember]),
      rankOr_of_notMem habsent]
    dsimp only
    rw [if_neg henter]
  have hhold := hcfg.holdPeriods.1
  simp only [ProcState.joins,hstreak,Bool.and_eq_true,decide_eq_true_eq] at h
  exact absurd (UInt32.le_trans hhold h.2) (by decide)

section Evaluate

variable [LinearOrder F]

theorem View.mem_ranked {v : View} {ar : Arith F} {cfg : Config F} {o : Orders} {p : UInt32} :
    p ∈ v.ranked ar cfg o ↔ p ∈ v.procs := by
  rw [View.ranked,(HashOrder.sortDesc_perm _ _).mem_iff,o.pacc.mem]

theorem View.mem_threads {v : View} {ar : Arith F} {cfg : Config F} {o : Orders}
    {p tid : UInt32} : tid ∈ v.threads ar cfg o p ↔ tid ∈ v.tids ∧ v.tgid tid = p := by
  rw [View.threads,(HashOrder.sortDesc_perm _ _).mem_iff,List.mem_filter,o.threadDelta.mem,
    decide_eq_true_eq]

theorem View.threads_nodup (v : View) (ar : Arith F) (cfg : Config F) (o : Orders)
    (p : UInt32) : (v.threads ar cfg o p).Nodup :=
  (HashOrder.sortDesc_perm _ _).nodup_iff.mpr ((o.threadDelta.nodup _).filter _)

theorem View.threads_eq_nil_iff {v : View} {ar : Arith F} {cfg : Config F} {o : Orders}
    {p : UInt32} : v.threads ar cfg o p = [] ↔ p ∉ v.procs := by
  rw [List.eq_nil_iff_forall_not_mem,View.procs,Finset.mem_image,not_exists]
  exact forall_congr' fun tid => not_congr View.mem_threads

/-- Nobody gets a thread when nobody who is marked has one. -/
theorem View.handout_eq_empty_iff {v : View} {ar : Arith F} {cfg : Config F}
    (hcfg : cfg.Sanitized) {threadBudget : UInt32} (hbudget : threadBudget ≠ 0) {o : Orders}
    {pinned : Finset UInt32} {t : Procs} :
    v.handout ar cfg threadBudget o pinned t = ∅ ↔
      pinned = ∅ ∧ ∀ p ∈ t.marked, p ∉ v.procs := by
  have hmem : ∀ p, p ∈ (o.pstate.enum t.known).filter (fun p => (t.st p).marked) ↔
      p ∈ t.marked := by
    intro p
    rw [List.mem_filter,o.pstate.mem,Procs.mem_marked]
  have hcap : 0 < threadBudget.toNat := by
    refine Nat.pos_of_ne_zero fun h => hbudget ?_
    exact UInt32.toNat.inj h
  have hn : 0 < cfg.perProcThreads.toNat := UInt32.le_iff_toNat_le.mp hcfg.perProcThreads.1
  constructor
  · intro hempty
    constructor
    · exact Finset.subset_empty.mp (hempty ▸ Handout.subset_fill _ _ _ _ _)
    · intro p hp hprocs
      have hts : v.threads ar cfg o p ≠ [] := fun h => View.threads_eq_nil_iff.mp h hprocs
      have hsome := Handout.fill_nonempty hcap hn hts ((hmem p).mpr hp) pinned
      exact hsome.ne_empty hempty
  · rintro ⟨rfl,hnone⟩
    refine Handout.fill_of_wants_nil (v.threads_nodup ar cfg o) _ _ fun p hp => ?_
    rw [View.threads_eq_nil_iff.mpr (hnone p ((hmem p).mp hp)),Handout.wants,List.take_nil,
      List.filter_nil]

/-! ## The fallback -/

section Fallback

variable (v : View) (ar : Arith F) (cfg : Config F) (threadBudget : UInt32) (o : Orders)
  (now : UInt64) (t : Procs)

theorem View.fallback_of_nonempty (ranked : List UInt32) {desired : Finset UInt32}
    (h : desired ≠ ∅) : v.fallback ar cfg threadBudget o now ranked t desired = (t,desired) := by
  cases ranked with
  | nil => rfl
  | cons top ranked => rw [View.fallback,if_neg h]

theorem View.fallback_marked {top : UInt32} (htop : top ∈ t.known) (ranked : List UInt32) :
    (v.fallback ar cfg threadBudget o now (top::ranked) t ∅).1.marked = insert top t.marked := by
  rw [View.fallback,if_pos rfl]
  ext p
  rw [Finset.mem_insert,Procs.mem_marked,Procs.mem_marked]
  dsimp only
  by_cases hp : p = top
  · subst hp
    simp [htop,ProcState.marked]
  · rw [Function.update_of_ne hp]
    simp [hp]

theorem View.fallback_pinned (ranked : List UInt32) (desired : Finset UInt32) :
    (v.fallback ar cfg threadBudget o now ranked t desired).1.pinned = t.pinned := by
  cases ranked with
  | nil => rfl
  | cons top ranked =>
    rw [View.fallback]
    split
    · ext p
      rw [Procs.mem_pinned,Procs.mem_pinned]
      dsimp only
      by_cases hp : p = top
      · subst hp
        rw [Function.update_self]
      · rw [Function.update_of_ne hp]
    · rfl

omit [LinearOrder F] in
theorem placeFirst_card_le (budget : ℕ) (tids : List UInt32) : ∀ (take : ℕ)
    (desired : Finset UInt32), (placeFirst budget take desired tids).card ≤
      max budget desired.card := by
  induction tids with
  | nil => intro take desired; cases take <;> exact le_max_right ..
  | cons tid tids ih =>
    intro take desired
    cases take with
    | zero => exact le_max_right ..
    | succ take =>
      rw [placeFirst]
      split
      · exact le_max_right ..
      · next hroom =>
        refine (ih take _).trans (max_le (le_max_left ..) ?_)
        exact le_max_of_le_left ((Finset.card_insert_le tid desired).trans (by omega))

theorem View.fallback_card_le (ranked : List UInt32) (desired : Finset UInt32) :
    (v.fallback ar cfg threadBudget o now ranked t desired).2.card ≤
      max threadBudget.toNat desired.card := by
  cases ranked with
  | nil => exact le_max_right ..
  | cons top ranked =>
    rw [View.fallback]
    split
    · exact placeFirst_card_le _ _ _ _
    · exact le_max_right ..

end Fallback

/-! ## One evaluation -/

variable (v : View) (ar : Arith F) (cfg : Config F) (o : Orders) (now : UInt64) (s : State F)

theorem View.choose_card_le :
    (v.choose ar cfg o now s).2.card ≤ max s.threadBudget.toNat s.pinned.card := by
  refine (v.fallback_card_le ar cfg s.threadBudget o now _ _ _).trans ?_
  exact max_le (le_max_left ..) (Handout.fill_card_le _ _ _ _ _)

theorem View.choose_pinned : (v.choose ar cfg o now s).1.pinned = s.pstate.pinned := by
  rw [View.choose,View.fallback_pinned,selected_pinned,scanned_pinned]

/-- The processes that an evaluation has join. -/
def View.newcomers : List UInt32 :=
  joined cfg s.threadBudget o now (v.ranked ar cfg o) (scanned cfg v (v.ranked ar cfg o) s.pstate)

/-- The table between step 8 and the fallback. -/
def View.processes : Procs :=
  selected cfg s.threadBudget o now (v.ranked ar cfg o)
    (scanned cfg v (v.ranked ar cfg o) s.pstate)

theorem View.processes_marked : (v.processes ar cfg o now s).marked =
    kept cfg now (v.ranked ar cfg o) s.pstate ∪ (v.newcomers ar cfg o now s).toFinset := by
  rw [View.processes,selected_marked,stayed_scanned_marked,View.newcomers]

theorem View.processes_marked_card : (v.processes ar cfg o now s).marked.card =
    (kept cfg now (v.ranked ar cfg o) s.pstate).card+(v.newcomers ar cfg o now s).length := by
  rw [View.processes,selected_marked_card,stayed_scanned_marked,View.newcomers]

theorem View.newcomers_length_le : (v.newcomers ar cfg o now s).length ≤
    procBudget s.threadBudget cfg-(kept cfg now (v.ranked ar cfg o) s.pstate).card := by
  rw [← stayed_scanned_marked cfg o now v]
  exact List.length_take_le _ _

theorem View.newcomers_subset (hcfg : cfg.Sanitized) :
    (v.newcomers ar cfg o now s).toFinset ⊆ v.procs := by
  intro p hp
  obtain ⟨hknown,hjoins⟩ := mem_joinList.mp (List.mem_of_mem_take (List.mem_toFinset.mp hp))
  by_cases hold : p ∈ s.pstate.known
  · rw [scanned_st hold] at hjoins
    exact View.mem_ranked.mp (ProcState.mem_of_scan_joins hcfg hjoins)
  · exact (mem_scanned_known.mp hknown).resolve_left hold

/-- The processes that the hysteresis keeps are within the budget; and somebody is watched,
or there is room for the process that the fallback marks. -/
structure Fits : Prop where
  room : (kept cfg now (v.ranked ar cfg o) s.pstate).card ≤
    max (procBudget s.threadBudget cfg) s.pstate.pinned.card
  watched : v.procs = ∅ ∨ s.pinned ≠ ∅ ∨
    (∃ p ∈ kept cfg now (v.ranked ar cfg o) s.pstate, p ∈ v.procs) ∨
    (kept cfg now (v.ranked ar cfg o) s.pstate).card < procBudget s.threadBudget cfg

variable {v ar cfg o now s}

/-- With threads to hand out nobody needs the fallback. -/
theorem View.choose_of_handout_ne
    (h : v.handout ar cfg s.threadBudget o s.pinned (v.processes ar cfg o now s) ≠ ∅) :
    (v.choose ar cfg o now s).1 = v.processes ar cfg o now s :=
  congrArg Prod.fst (v.fallback_of_nonempty ar cfg s.threadBudget o now _ _ h)

/-- Without any, the fallback marks one process more. -/
theorem View.choose_marked_of_handout_eq
    (h : v.handout ar cfg s.threadBudget o s.pinned (v.processes ar cfg o now s) = ∅)
    {top : UInt32} {rest : List UInt32} (hranked : v.ranked ar cfg o = top::rest) :
    (v.choose ar cfg o now s).1.marked = insert top (v.processes ar cfg o now s).marked := by
  have htop : top ∈ v.procs := by
    have hmem : top ∈ v.ranked ar cfg o := hranked ▸ List.mem_cons_self ..
    exact View.mem_ranked.mp hmem
  have hscanned : top ∈ (scanned cfg v (v.ranked ar cfg o) s.pstate).known :=
    mem_scanned_known.mpr (Or.inr htop)
  have hknown : top ∈ (v.processes ar cfg o now s).known := hscanned
  have hchoose : v.choose ar cfg o now s = v.fallback ar cfg s.threadBudget o now
      (top::rest) (v.processes ar cfg o now s) ∅ := by
    rw [← h,← hranked]
    rfl
  rw [hchoose,View.fallback_marked v ar cfg s.threadBudget o now _ hknown]

theorem View.choose_marked_of_ranked_eq (h : v.ranked ar cfg o = []) :
    (v.choose ar cfg o now s).1 = v.processes ar cfg o now s := by
  have hchoose : v.choose ar cfg o now s = v.fallback ar cfg s.threadBudget o now
      (v.ranked ar cfg o) (v.processes ar cfg o now s)
      (v.handout ar cfg s.threadBudget o s.pinned (v.processes ar cfg o now s)) := rfl
  rw [hchoose,h]
  rfl

/-- With a handout no process has to be marked for the fallback. -/
theorem View.choose_marked_card_le_iff_of_handout (hcfg : cfg.Sanitized)
    (hbudget : s.threadBudget ≠ 0)
    (hne : v.handout ar cfg s.threadBudget o s.pinned (v.processes ar cfg o now s) ≠ ∅) :
    (v.choose ar cfg o now s).1.marked.card ≤
        max (procBudget s.threadBudget cfg) s.pstate.pinned.card ↔ Fits v ar cfg o now s := by
  have hcard := v.processes_marked_card ar cfg o now s
  have hnew := v.newcomers_length_le ar cfg o now s
  rw [View.choose_of_handout_ne hne,hcard]
  refine ⟨fun h => ⟨(Nat.le_add_right ..).trans h,?_⟩,fun h => ?_⟩
  · by_contra hnot
    simp only [not_or,not_exists,not_and,ne_eq,not_not] at hnot
    obtain ⟨-,hnopin,hnokept,hfull⟩ := hnot
    refine hne ((View.handout_eq_empty_iff hcfg hbudget).mpr ⟨hnopin,fun p hp => ?_⟩)
    rw [v.processes_marked,Finset.mem_union,List.mem_toFinset] at hp
    obtain hp | hp := hp
    · exact hnokept p hp
    · have hpos := List.length_pos_of_mem hp
      omega
  · have hroom := h.room
    omega

/-- Without one, none of the marked processes is in the table, so that the first of the ranking
is one more. -/
theorem View.choose_marked_card_le_iff_of_fallback (hcfg : cfg.Sanitized)
    (hbudget : s.threadBudget ≠ 0) (hpin : s.pinned = ∅ → s.pstate.pinned = ∅)
    (hempty : v.handout ar cfg s.threadBudget o s.pinned (v.processes ar cfg o now s) = ∅) :
    (v.choose ar cfg o now s).1.marked.card ≤
        max (procBudget s.threadBudget cfg) s.pstate.pinned.card ↔ Fits v ar cfg o now s := by
  let K := kept cfg now (v.ranked ar cfg o) s.pstate
  have hmarked := v.processes_marked ar cfg o now s
  obtain ⟨hnopin,hnone⟩ := (View.handout_eq_empty_iff hcfg hbudget).mp hempty
  have hnojoin : v.newcomers ar cfg o now s = [] := by
    refine List.eq_nil_iff_forall_not_mem.mpr fun p hp => ?_
    have hp' := List.mem_toFinset.mpr hp
    exact hnone p (hmarked ▸ Finset.mem_union_right _ hp')
      (v.newcomers_subset ar cfg o now s hcfg hp')
  have hmarkedK : (v.processes ar cfg o now s).marked = K := by
    rw [hmarked,hnojoin,List.toFinset_nil,Finset.union_empty]
  rw [hmarkedK] at hnone
  cases hranked : v.ranked ar cfg o with
  | nil =>
    have hprocs : v.procs = ∅ := by
      refine Finset.eq_empty_of_forall_notMem fun p hp => ?_
      have hmem : p ∈ v.ranked ar cfg o := View.mem_ranked.mpr hp
      rw [hranked] at hmem
      cases hmem
    rw [View.choose_marked_of_ranked_eq hranked,hmarkedK]
    exact ⟨fun h => ⟨h,Or.inl hprocs⟩,fun h => h.room⟩
  | cons top rest =>
    -- the first process has a thread in the table, so it is not marked yet
    have htop : top ∈ v.procs := by
      have hmem : top ∈ v.ranked ar cfg o := hranked ▸ List.mem_cons_self ..
      exact View.mem_ranked.mp hmem
    have htopK : top ∉ K := fun h => hnone top h htop
    rw [View.choose_marked_of_handout_eq hempty hranked,hmarkedK,
      Finset.card_insert_of_notMem htopK,hpin hnopin,Finset.card_empty,Nat.max_zero]
    constructor
    · intro h
      refine ⟨le_max_of_le_left (Nat.le_of_succ_le h),?_⟩
      exact Or.inr (Or.inr (Or.inr h))
    · rintro ⟨-,hnoprocs | hpinned | hkept | hroom⟩
      · rw [hnoprocs] at htop
        exact absurd htop (Finset.notMem_empty top)
      · exact absurd hnopin hpinned
      · obtain ⟨p,hp,hprocs⟩ := hkept
        exact absurd hprocs (hnone p hp)
      · exact hroom

/-- The processes after an evaluation are within the budget exactly when they fit before. -/
theorem View.choose_marked_card_le_iff (hcfg : cfg.Sanitized) (hbudget : s.threadBudget ≠ 0)
    (hpin : s.pinned = ∅ → s.pstate.pinned = ∅) :
    (v.choose ar cfg o now s).1.marked.card ≤
        max (procBudget s.threadBudget cfg) s.pstate.pinned.card ↔ Fits v ar cfg o now s := by
  by_cases hempty :
      v.handout ar cfg s.threadBudget o s.pinned (v.processes ar cfg o now s) = ∅
  · exact View.choose_marked_card_le_iff_of_fallback hcfg hbudget hpin hempty
  · exact View.choose_marked_card_le_iff_of_handout hcfg hbudget hempty

/-! ## One call -/

omit [LinearOrder F] in
theorem foldl_leave_eq (env : Surroundings) (tgid : UInt32 → UInt32) (rank : UInt32 → ℕ)
    (tids : List UInt32) : ∀ s : State F, ∃ k log,
      tids.foldl (State.leave env tgid rank) s = { s with kernel := k, log := log } := by
  induction tids with
  | nil => exact fun s => ⟨s.kernel,s.log,rfl⟩
  | cons tid tids ih =>
    intro s
    obtain ⟨k,log,h⟩ := ih (s.leave env tgid rank tid)
    exact ⟨k,log,h⟩

omit [LinearOrder F] in
theorem foldl_join_eq (env : Surroundings) (tgid : UInt32 → UInt32) (score : UInt32 → F)
    (rank : UInt32 → ℕ) (tids : List UInt32) : ∀ s : State F, ∃ k log,
      tids.foldl (State.join env tgid score rank) s = { s with kernel := k, log := log } := by
  induction tids with
  | nil => exact fun s => ⟨s.kernel,s.log,rfl⟩
  | cons tid tids ih =>
    intro s
    obtain ⟨k,log,h⟩ := ih (s.join env tgid score rank tid)
    exact ⟨k,log,h⟩

/-- Only the maps and the log see the difference. -/
theorem evaluateView_eq (env : Surroundings) (v : View) (ar : Arith F) (cfg : Config F)
    (o : Orders) (now : UInt64) (s : State F) : ∃ k log,
      evaluateView env v ar cfg o now s =
        { s with
          kernel := k
          log := log
          pstate := (v.choose ar cfg o now s).1
          members := (v.choose ar cfg o now s).2
          procs := (v.choose ar cfg o now s).2.image v.tgid } := by
  rw [evaluateView,State.adopt]
  dsimp only
  obtain ⟨k,log,hleave⟩ := foldl_leave_eq env v.tgid (rankOr (v.ranked ar cfg o) 0)
    ((o.members.enum s.members).filter (· ∉ (v.choose ar cfg o now s).2))
    { s with pstate := (v.choose ar cfg o now s).1 }
  rw [hleave]
  obtain ⟨k',log',hjoin⟩ := foldl_join_eq env v.tgid (v.threadScore ar cfg)
    (rankOr (v.ranked ar cfg o) 0)
    ((o.desired.enum (v.choose ar cfg o now s).2).filter (· ∉ s.members))
    { s with pstate := (v.choose ar cfg o now s).1, kernel := k, log := log }
  rw [hjoin]
  exact ⟨k',log',rfl⟩

/-- What an evaluation looks at; the first one has nothing to compare with. -/
def State.view? (cfg : Config F) (k : Readings) (rows : List ProcessRow) (now : UInt64)
    (s : State F) : Option View :=
  match slide now cfg.windowSeconds (s.history++[snapshot now k rows]) with
  | base::_::_ => some (view rows base (snapshot now k rows))
  | _ => none

theorem evaluate_of_some {env : Surroundings} {k : Readings} {rows : List ProcessRow}
    (h : s.view? cfg k rows now = some v) : evaluate env ar cfg k o rows now s =
      evaluateView env v ar cfg o now
        { s with history := slide now cfg.windowSeconds (s.history++[snapshot now k rows]) } := by
  rw [State.view?] at h
  rw [evaluate]
  dsimp only
  generalize slide now cfg.windowSeconds (s.history++[snapshot now k rows]) = history at h ⊢
  rcases history with _ | ⟨base,_ | ⟨head,tail⟩⟩
  · cases h
  · cases h
  · rw [← Option.some.inj h]

theorem evaluate_of_none {env : Surroundings} {k : Readings} {rows : List ProcessRow}
    (h : s.view? cfg k rows now = none) : evaluate env ar cfg k o rows now s =
      { s with history := slide now cfg.windowSeconds (s.history++[snapshot now k rows]) } := by
  rw [State.view?] at h
  rw [evaluate]
  dsimp only
  generalize slide now cfg.windowSeconds (s.history++[snapshot now k rows]) = history at h ⊢
  rcases history with _ | ⟨base,_ | ⟨head,tail⟩⟩
  · rfl
  · rfl
  · cases h

theorem two_le_length_slide (now windowSeconds : UInt64) (history : List Snapshot) :
    2 ≤ history.length → 2 ≤ (slide now windowSeconds history).length := by
  induction history with
  | nil => exact id
  | cons a rest ih =>
    intro hlen
    match rest,ih with
    | [],_ => exact hlen
    | [b],_ => exact hlen
    | b::c::rest,ih =>
      rw [slide]
      split
      · exact ih (by simp)
      · exact hlen

omit [LinearOrder F] in
theorem history_of_view?_eq_none {k : Readings} {rows : List ProcessRow}
    (h : s.view? cfg k rows now = none) : s.history = [] := by
  by_contra hne
  have hpos := List.length_pos_of_ne_nil hne
  have hlen := two_le_length_slide now cfg.windowSeconds (s.history++[snapshot now k rows])
    (by simp only [List.length_append,List.length_singleton]; omega)
  rw [State.view?] at h
  split at h
  · cases h
  · next hslide =>
    match hl : slide now cfg.windowSeconds (s.history++[snapshot now k rows]) with
    | [] => simp [hl] at hlen
    | [a] => simp [hl] at hlen
    | a::b::rest => exact hslide a b rest hl

omit [LinearOrder F] in
theorem view?_of_history_eq_nil (k : Readings) (rows : List ProcessRow)
    (h : s.history = []) : s.view? cfg k rows now = none := by
  rw [State.view?,h]
  rfl

omit [LinearOrder F] in
theorem tids_of_view?_eq_some {k : Readings} {rows : List ProcessRow}
    (h : s.view? cfg k rows now = some v) : v.tids = (rows.map ProcessRow.pid).toFinset := by
  rw [State.view?] at h
  split at h
  · obtain rfl := Option.some.inj h
    rfl
  · cases h

/-- Both budgets, with what is pinned beyond them. -/
structure Bounded (cfg : Config F) (s : State F) : Prop where
  threads : s.members.card ≤ max s.threadBudget.toNat s.pinned.card
  procs : s.pstate.marked.card ≤ max (procBudget s.threadBudget cfg) s.pstate.pinned.card

theorem evaluateView_bounded_iff (env : Surroundings) (hcfg : cfg.Sanitized)
    (hbudget : s.threadBudget ≠ 0) (hpin : s.pinned = ∅ → s.pstate.pinned = ∅) :
    Bounded cfg (evaluateView env v ar cfg o now s) ↔ Fits v ar cfg o now s := by
  obtain ⟨k,log,h⟩ := evaluateView_eq env v ar cfg o now s
  rw [← View.choose_marked_card_le_iff hcfg hbudget hpin,h]
  constructor
  · intro hb
    have hprocs := hb.procs
    rwa [v.choose_pinned ar cfg o now s] at hprocs
  · intro hle
    refine ⟨v.choose_card_le ar cfg o now s,?_⟩
    rwa [v.choose_pinned ar cfg o now s]

/-! ## Runs -/

/-- Before the second evaluation only what is pinned is watched. -/
structure Sound (s : State F) : Prop where
  threadBudget : s.threadBudget ≠ 0
  pinnedProcs : s.pinned = ∅ → s.pstate.pinned = ∅
  fresh : s.history = [] → s.members ⊆ s.pinned ∧ s.pstate.marked ⊆ s.pstate.pinned

theorem ite_ne_zero (budget : UInt32) : (if budget ≠ 0 then budget else 1) ≠ 0 := by
  split
  · next h => exact h
  · decide

omit [LinearOrder F] in
theorem Arith.probe_ne_zero (ar : Arith F) (cfg : Config F) (hw : HardwareProbe) :
    ar.probe cfg hw ≠ 0 := ite_ne_zero _

omit [LinearOrder F] in
theorem Sound.probe {s : State F} (h : Sound s) (ar : Arith F) (cfg : Config F)
    (hw : HardwareProbe) : Sound (probe ar cfg hw s) :=
  ⟨ar.probe_ne_zero cfg hw,h.pinnedProcs,h.fresh⟩

omit [LinearOrder F] in
theorem Sound.pin {s : State F} (h : Sound s) (env : Surroundings) (tgidOf : UInt32 → UInt32)
    (now : UInt64) (tid : UInt32) : Sound (s.pin env tgidOf now tid) := by
  rw [State.pin]
  split
  · exact h
  · refine ⟨h.threadBudget,fun hempty => absurd hempty (Finset.insert_ne_empty _ _),
      fun hfresh => ?_⟩
    obtain ⟨hmembers,hmarked⟩ := h.fresh hfresh
    refine ⟨Finset.insert_subset_insert tid hmembers,fun p hp => ?_⟩
    rw [Procs.mem_marked] at hp
    rw [Procs.mem_pinned]
    refine ⟨hp.1,?_⟩
    obtain ⟨hknown,hmark⟩ := hp
    revert hmark
    dsimp only at hknown ⊢
    generalize (if tgidOf tid ≠ 0 then tgidOf tid else tid) = tgid at hknown ⊢
    by_cases heq : p = tgid
    · subst heq
      rw [Function.update_self]
      exact fun _ => rfl
    · rw [Function.update_of_ne heq]
      have hold : p ∈ s.pstate.known := (Finset.mem_insert.mp hknown).resolve_left heq
      exact fun hmark => (Procs.mem_pinned.mp (hmarked (Procs.mem_marked.mpr ⟨hold,hmark⟩))).2

omit [LinearOrder F] in
theorem Sound.applyPinned {s : State F} (h : Sound s) (env : Surroundings)
    (tgidOf : UInt32 → UInt32) (now : UInt64) (cfg : Config F) :
    Sound (applyPinned env tgidOf now cfg s) := by
  rw [TargetSelector.applyPinned]
  induction cfg.pinned generalizing s with
  | nil => exact h
  | cons tid tids ih => exact ih (h.pin env tgidOf now tid)

theorem slide_ne_nil (now windowSeconds : UInt64) (history : List Snapshot) :
    history ≠ [] → slide now windowSeconds history ≠ [] := by
  intro hne hnil
  match history,hne with
  | [a],_ => cases hnil
  | a::b::rest,_ =>
    have hlen := two_le_length_slide now windowSeconds (a::b::rest) (by simp)
    rw [hnil] at hlen
    simp at hlen

theorem Sound.evaluate {s : State F} (h : Sound s) (env : Surroundings) (ar : Arith F)
    (cfg : Config F) (k : Readings) (o : Orders) (rows : List ProcessRow) (now : UInt64) :
    Sound (evaluate env ar cfg k o rows now s) := by
  have hhistory : slide now cfg.windowSeconds (s.history++[snapshot now k rows]) ≠ [] :=
    slide_ne_nil _ _ _ (by simp)
  cases hview : s.view? cfg k rows now with
  | none =>
    rw [evaluate_of_none hview]
    exact ⟨h.threadBudget,h.pinnedProcs,fun hnil => absurd hnil hhistory⟩
  | some v =>
    rw [evaluate_of_some hview]
    obtain ⟨k',log,heq⟩ := evaluateView_eq env v ar cfg o now
      { s with history := slide now cfg.windowSeconds (s.history++[snapshot now k rows]) }
    rw [heq]
    refine ⟨h.threadBudget,fun hempty => ?_,fun hnil => absurd hnil hhistory⟩
    rw [View.choose_pinned]
    exact h.pinnedProcs hempty

theorem Sound.step {s : State F} (h : Sound s) (ar : Arith F) (c : Call F) :
    Sound (step ar s c) := by
  cases c with
  | probe cfg hw => exact h.probe ar cfg hw
  | applyPinned env tgidOf now cfg => exact h.applyPinned env tgidOf now cfg
  | evaluate env cfg k o rows now => exact h.evaluate env ar cfg k o rows now
  | kernel k => exact ⟨h.threadBudget,h.pinnedProcs,h.fresh⟩

omit [LinearOrder F] in
theorem started_sound : Sound (started F) :=
  ⟨by change (16 : UInt32) ≠ 0; decide,fun _ => rfl,fun _ => ⟨Finset.Subset.refl _,Finset.Subset.refl _⟩⟩

/-- The configuration of a call has been through `Sanitize`. -/
def Call.Sanitized : Call F → Prop
  | .probe cfg _ => cfg.Sanitized
  | .applyPinned _ _ _ cfg => cfg.Sanitized
  | .evaluate _ cfg _ _ _ _ => cfg.Sanitized
  | .kernel _ => True

abbrev SanitizedCall (F : Type) := {c : Call F // c.Sanitized}

/-- After an evaluation both budgets hold. -/
def Call.Bounds (ar : Arith F) (s : State F) (c : Call F) : Prop :=
  match c with
  | .evaluate _ cfg _ _ _ _ => Bounded cfg (TargetSelector.step ar s c)
  | _ => True

/-- Before an evaluation over a window the processes fit. -/
def Call.Fits (ar : Arith F) (s : State F) : Call F → Prop
  | .evaluate _ cfg k o rows now =>
    ∀ v ∈ s.view? cfg k rows now, TargetSelector.Fits v ar cfg o now s
  | _ => True

theorem Call.bounds_iff {s : State F} (h : Sound s) (ar : Arith F) (c : SanitizedCall F) :
    c.1.Bounds ar s ↔ c.1.Fits ar s := by
  obtain ⟨c,hc⟩ := c
  cases c with
  | probe cfg hw => exact Iff.rfl
  | applyPinned env tgidOf now cfg => exact Iff.rfl
  | kernel k => exact Iff.rfl
  | evaluate env cfg k o rows now =>
    rw [Call.Bounds,Call.Fits,TargetSelector.step]
    cases hview : s.view? cfg k rows now with
    | none =>
      have hfresh := h.fresh (history_of_view?_eq_none hview)
      rw [evaluate_of_none hview]
      refine iff_of_true ⟨?_,?_⟩ fun v hv => ?_
      · exact le_max_of_le_right (Finset.card_le_card hfresh.1)
      · exact le_max_of_le_right (Finset.card_le_card hfresh.2)
      · cases hv
    | some v =>
      rw [evaluate_of_some hview]
      refine Iff.trans (evaluateView_bounded_iff env hc ?_ ?_) ⟨?_,fun hfits => ?_⟩
      · exact h.threadBudget
      · exact h.pinnedProcs
      · rintro hfits v' ⟨⟩
        exact ⟨hfits.room,hfits.watched⟩
      · have hv := hfits v rfl
        exact ⟨hv.room,hv.watched⟩

/-- Along every run: the budgets hold after each evaluation exactly when the processes fit
before each of them. -/
theorem bounded_along_iff (ar : Arith F) (calls : List (SanitizedCall F)) :
    Along (fun s c => step ar s c.1) (fun s c => c.1.Bounds ar s) (started F) calls ↔
      Along (fun s c => step ar s c.1) (fun s c => c.1.Fits ar s) (started F) calls :=
  Along.iff_of_invariant _ (fun _ c h => Call.bounds_iff h ar c) (fun _ c h _ => h.step ar c.1)
    calls _ started_sound

omit [LinearOrder F] in
/-- As long as budgets and pins stay, what fitted once leaves room; only the fallback then
goes over the budget. -/
theorem Bounded.room {cfg : Config F} {s : State F} (h : Bounded cfg s) (now : UInt64)
    (ranked : List UInt32) : (kept cfg now ranked s.pstate).card ≤
      max (procBudget s.threadBudget cfg) s.pstate.pinned.card :=
  (Finset.card_filter_le _ _).trans h.procs

end Evaluate

/-! ## A process exits and another one takes its place -/

def ascending : HashOrder UInt32 := .ascending UInt32.toNat fun _ _ => UInt32.toNat.inj

def ascendingOrders : Orders := ⟨ascending,ascending,ascending,ascending,ascending,ascending⟩

/-- One thread, one process; who joins stays for ten seconds. -/
def soleConfig : Config ℕ where
  maxTargets := 1
  autoScale := false
  minTargets := 1
  perProcThreads := 1
  concurrencyFactor := 4
  windowSeconds := 60
  enterRank := 1
  leaveRank := 1
  holdPeriods := 1
  minResidencySeconds := 10
  pinned := []
  weights := ⟨1,1,1,1,1⟩
  fineIntervalMs := 100
  ringBacklogSeconds := 90

theorem soleConfig_sanitized : soleConfig.Sanitized :=
  ⟨by decide,by decide,by decide,by decide,by decide,by decide,by decide,by decide⟩

def cpuTime : Arith ℕ := ⟨fun _ _ => 4,id,fun _ _ a => a.onCpuNs.toNat⟩

def idle : Readings := ⟨fun _ => none,fun _ => none⟩

def nowhere : Surroundings := ⟨fun _ _ => 0,fun _ => []⟩

/-- A process with one thread, which the table has as the only task. -/
def alone (tid : UInt32) : List ProcessRow := [{ pid := tid, tgid := tid, utime := 1 }]

def evaluateAlone (tid : UInt32) (now : UInt64) : SanitizedCall ℕ :=
  ⟨.evaluate nowhere soleConfig idle ascendingOrders (alone tid) now,soleConfig_sanitized⟩

/-- Process 10 joins and exits, process 20 appears. -/
def exited : List (SanitizedCall ℕ) :=
  [⟨.probe soleConfig ⟨4,0,0,32768⟩,soleConfig_sanitized⟩,evaluateAlone 10 1000000000,
   evaluateAlone 10 2000000000,evaluateAlone 20 3000000000]

theorem exited_not_bounded :
    ¬ Along (fun s c => step cpuTime s c.1) (fun s c => c.1.Bounds cpuTime s) (started ℕ)
      exited := by
  rintro ⟨-,-,-,hbounded,-⟩
  have hprocs := hbounded.procs
  revert hprocs
  decide

end TargetSelector
end ETraceDiag
