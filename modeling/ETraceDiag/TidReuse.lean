import ETraceDiag.SlidingWindow

/-!
# Thread ids that are used again

`start_time_` forgets a thread id that another thread has got, but the snapshots in `history_`
stay as they are: the new thread is compared with what the old one did.
-/

namespace ETraceDiag
namespace TargetSelector

open AgeTrim ProcessTable Transition

variable {F : Type}

/-- The evaluation whose snapshot is at the front of the history. -/
def Sys.base? (s : Sys F) : Option Taking := (s.taken.rtake s.sel.history.length).head?

/-- Another thread had this id when the base was taken. -/
def Reused (base cur : Taking) (tid : UInt32) : Prop :=
  ∃ old ∈ startTimes base.rows tid, ∃ new ∈ startTimes cur.rows tid, old ≠ new

instance (base cur : Taking) : DecidablePred (Reused base cur) := fun tid =>
  inferInstanceAs (Decidable (∃ old ∈ startTimes base.rows tid, ∃ new ∈ startTimes cur.rows tid,
    old ≠ new))

/-- The view with what the current threads did. -/
def View.own (v : View) (base cur : Taking) : View :=
  { v with delta := fun tid =>
      if Reused base cur tid then cur.snapshot.c tid else v.delta tid }

/-- The earlier thread counts neither for its id nor for a process. -/
structure CountsOwn (ar : Arith F) (cfg : Config F) (o : Orders) (v : View)
    (base cur : Taking) : Prop where
  delta : ∀ tid, Reused base cur tid → v.delta tid = cur.snapshot.c tid
  threadScore : ∀ tid, v.threadScore ar cfg tid = (v.own base cur).threadScore ar cfg tid
  procScore : ∀ p, v.procScore ar cfg o p = (v.own base cur).procScore ar cfg o p

/-- Each counter of a thread id that is used again was zero in the base or is zero now. -/
def Zeroed (base cur : Taking) : Prop :=
  ∀ tid, Reused base cur tid → ∀ f ∈ Counters.fields,
    f (base.snapshot.c tid) = 0 ∨ f (cur.snapshot.c tid) = 0

/-! ## One comparison -/

theorem Counters.ext_fields {c d : Counters} : c = d ↔ ∀ f ∈ Counters.fields, f c = f d := by
  cases c
  cases d
  simp [Counters.fields]

theorem growth_eq_iff (c b : UInt64) : growth c b = c ↔ b = 0 ∨ c = 0 := by
  rw [← UInt64.toNat_inj,growth_toNat,← UInt64.toNat_inj,← UInt64.toNat_inj]
  have hzero : (0 : UInt64).toNat = 0 := rfl
  omega

theorem mem_pids_of_startTimes {rows : List ProcessRow} {tid : UInt32} {t : UInt64}
    (h : startTimes rows tid = some t) : tid ∈ rows.map ProcessRow.pid := by
  rw [startTimes] at h
  induction rows using List.reverseRecOn with
  | nil => cases h
  | append_singleton rows r ih =>
    rw [List.foldl_concat,Function.update_apply] at h
    rw [List.map_append,List.mem_append]
    split at h
    · next heq => exact Or.inr (by simp [heq])
    · exact Or.inl (ih h)

theorem Reused.mem_base {base cur : Taking} {tid : UInt32} (h : Reused base cur tid) :
    tid ∈ base.snapshot.tids := by
  obtain ⟨old,hold,-⟩ := h
  exact List.mem_toFinset.mpr (mem_pids_of_startTimes hold)

theorem view_delta_reused (rows : List ProcessRow) {base cur : Taking} {tid : UInt32}
    (h : Reused base cur tid) : (view rows base.snapshot cur.snapshot).delta tid =
      (cur.snapshot.c tid).since (base.snapshot.c tid) := by
  rw [view]
  dsimp only
  rw [if_pos h.mem_base]

/-- Compared with the earlier thread, the counters come out as those of the current one exactly
when one of the two is zero. -/
theorem since_eq_iff (c b : Counters) :
    c.since b = c ↔ ∀ f ∈ Counters.fields, f b = 0 ∨ f c = 0 := by
  rw [Counters.ext_fields]
  refine forall₂_congr fun f hf => ?_
  rw [fields_since c b f hf,growth_eq_iff]

theorem countsOwn_iff (ar : Arith F) (cfg : Config F) (o : Orders) (rows : List ProcessRow)
    (base cur : Taking) :
    CountsOwn ar cfg o (view rows base.snapshot cur.snapshot) base cur ↔ Zeroed base cur := by
  constructor
  · intro h tid htid
    have hdelta := h.delta tid htid
    rw [view_delta_reused rows htid] at hdelta
    exact (since_eq_iff _ _).mp hdelta
  · intro h
    have hdelta : ∀ tid, Reused base cur tid →
        (view rows base.snapshot cur.snapshot).delta tid = cur.snapshot.c tid := by
      intro tid htid
      rw [view_delta_reused rows htid]
      exact (since_eq_iff _ _).mpr (h tid htid)
    have hown : (view rows base.snapshot cur.snapshot).own base cur =
        view rows base.snapshot cur.snapshot := by
      rw [View.own]
      congr 1
      funext tid
      split
      · next htid => exact (hdelta tid htid).symm
      · rfl
    refine ⟨hdelta,fun tid => ?_,fun p => ?_⟩
    · rw [hown]
    · rw [hown]

/-! ## Runs -/

section Runs

variable [LinearOrder F]

/-- In this call the scores count what the current threads did. -/
def Sys.CountsOwn (ar : Arith F) (s : Sys F) (c : Call F) : Prop :=
  match c with
  | .evaluate _ cfg k o rows now =>
    ∀ v ∈ s.sel.view? cfg k rows now, ∀ base ∈ (s.step ar c).base?,
      TargetSelector.CountsOwn ar cfg o v base (cfg.taking k rows now)
  | _ => True

/-- In this call no counter of an earlier thread is met by one of the thread that has its id. -/
def Sys.Zeroed (ar : Arith F) (s : Sys F) (c : Call F) : Prop :=
  match c with
  | .evaluate _ cfg k _ rows now =>
    s.sel.view? cfg k rows now ≠ none → ∀ base ∈ (s.step ar c).base?,
      TargetSelector.Zeroed base (cfg.taking k rows now)
  | _ => True

/-- The history is the end of what was taken. -/
def Sys.Held (s : Sys F) : Prop := s.sel.history <:+ s.taken.map Taking.snapshot

theorem Sys.Held.step {s : Sys F} (h : s.Held) (ar : Arith F) (c : Call F) :
    (s.step ar c).Held := by
  cases c with
  | probe cfg hw => exact h
  | kernel k => exact h
  | applyPinned env tgidOf now cfg =>
    have hkept : (s.step ar (.applyPinned env tgidOf now cfg)).sel.history = s.sel.history :=
      applyPinned_history ..
    rw [Sys.Held,hkept]
    exact h
  | evaluate env cfg k o rows now =>
    have hhistory := evaluate_history env ar cfg k o rows now s.sel
    have htaken : (s.step ar (.evaluate env cfg k o rows now)).taken.map Taking.snapshot =
        s.taken.map Taking.snapshot++[snapshot now k rows] := List.map_append
    rw [slide_eq_trim] at hhistory
    rw [Sys.Held,htaken]
    exact hhistory ▸ (trim_suffix ..).trans (List.suffix_append_self_iff.mpr h)

omit [LinearOrder F] in
theorem Sys.Held.base {s : Sys F} (h : s.Held) {a : Snapshot} (ha : s.sel.history.head? = some a) :
    ∃ base, s.base? = some base ∧ base.snapshot = a := by
  rw [eq_rtake_of_suffix h,List.rtake,List.length_map,← List.map_drop,List.head?_map] at ha
  exact Option.map_eq_some_iff.mp ha

theorem Sys.countsOwn_iff {s : Sys F} (h : s.Held) (ar : Arith F) (c : Call F) :
    s.CountsOwn ar c ↔ s.Zeroed ar c := by
  cases c with
  | probe cfg hw => exact Iff.rfl
  | kernel k => exact Iff.rfl
  | applyPinned env tgidOf now cfg => exact Iff.rfl
  | evaluate env cfg k o rows now =>
    rw [Sys.CountsOwn,Sys.Zeroed]
    cases hview : s.sel.view? cfg k rows now with
    | none => simp
    | some v =>
      obtain ⟨a,ha,rfl⟩ := view?_eq hview
      rw [← evaluate_history env ar cfg k o rows now s.sel] at ha
      obtain ⟨base,hbase,rfl⟩ := (h.step ar (.evaluate env cfg k o rows now)).base ha
      rw [hbase]
      simp only [Option.mem_def,Option.some.injEq,forall_eq',ne_eq,reduceCtorEq,not_false_eq_true,
        forall_const]
      exact TargetSelector.countsOwn_iff ar cfg o rows base (cfg.taking k rows now)

/-- Along every run: the scores count what the current threads did exactly when no counter of an
earlier thread meets one of the thread that has its id. -/
theorem countsOwn_along_iff (ar : Arith F) (calls : List (Call F)) :
    Along (Sys.step ar) (Sys.CountsOwn ar) (startedSys F) calls ↔
      Along (Sys.step ar) (Sys.Zeroed ar) (startedSys F) calls :=
  Along.iff_of_invariant _ (fun _ c h => Sys.countsOwn_iff h ar c)
    (fun _ c h _ => h.step ar c) calls _ List.suffix_rfl

end Runs

/-- Thread 10 as the table has it. -/
def thread (startTime utime : UInt64) : List ProcessRow :=
  [{ pid := 10, tgid := 10, startTime := startTime, utime := utime }]

/-- A thread with 100 ticks, then another one with 150: the window has 50 for it. -/
theorem reused_not_countsOwn : ¬∀ calls : List (Call ℕ),
    Along (Sys.step cpuTime) (Sys.CountsOwn cpuTime) (startedSys ℕ) calls := by
  intro h
  obtain ⟨-,hown,-⟩ := h
    [.evaluate nowhere soleConfig idle ascendingOrders (thread 1 100) 1000000000,
     .evaluate nowhere soleConfig idle ascendingOrders (thread 2 150) 2000000000]
  have hdelta := (hown _ rfl _ rfl).delta 10 ⟨1,rfl,2,rfl,by decide⟩
  have hticks := congrArg Counters.onCpuNs hdelta
  revert hticks
  decide

end TargetSelector
end ETraceDiag
