import ETraceDiag.AgeTrim
import ETraceDiag.TargetBudget
import Mathlib.Algebra.Order.Field.Rat

/-!
# The window of the target selector

`history_` holds the snapshots that an evaluation compares: the oldest one is the base of its
counter deltas. A call keeps what is not older than its `window_seconds`, and two snapshots in
any case; what it drops is gone, also when a later call has a longer window.
-/

namespace ETraceDiag
namespace TargetSelector

open AgeTrim ProcessTable Transition

variable {F : Type}

/-- An evaluation as far as its snapshot goes. -/
structure Taking where
  now : UInt64
  readings : Readings
  rows : List ProcessRow
  windowSeconds : UInt64

def Taking.snapshot (t : Taking) : Snapshot :=
  TargetSelector.snapshot t.now t.readings t.rows

def Config.taking (cfg : Config F) (k : Readings) (rows : List ProcessRow) (now : UInt64) :
    Taking := ⟨now,k,rows,cfg.windowSeconds⟩

/-- The start times of a table, before `start_time_` is cleared: an entry of a thread that
started at another time goes. -/
def eraseReused (rows : List ProcessRow) (startTime : UInt32 → Option UInt64) :
    UInt32 → Option UInt64 :=
  rows.foldl (fun m r => if (m r.pid).any (· ≠ r.startTime) then Function.update m r.pid none
    else m) startTime

def startTimes (rows : List ProcessRow) : UInt32 → Option UInt64 :=
  rows.foldl (fun m r => Function.update m r.pid (some r.startTime)) fun _ => none

/-- The selector with its `start_time_`, which no other member reads, and the evaluations so
far. -/
structure Sys (F : Type) where
  sel : State F
  startTime : UInt32 → Option UInt64 := fun _ => none
  taken : List Taking := []

/-- `start_time_.clear()` forgets what has been erased or kept. -/
def Sys.trackStartTimes (rows : List ProcessRow) (s : Sys F) : Sys F :=
  let erased := { s with startTime := eraseReused rows s.startTime }
  { erased with startTime := startTimes rows }

def startedSys (F : Type) : Sys F := { sel := started F }

/-- The snapshots that are not older than the window. -/
def recent (windowSeconds now : UInt64) (taken : List Taking) : ℕ :=
  taken.countP fun t => now.toNat-t.now.toNat ≤ windowSeconds.toNat*10^9

def Counters.fields : List (Counters → UInt64) :=
  [onCpuNs,swVol,swInvol,ioOps,ioBytes,pfMinor,pfMajor,lockWaits]

/-- The counters of a thread; a thread that was not there has done nothing. -/
def Snapshot.counters (s : Snapshot) (tid : UInt32) : Counters :=
  if tid ∈ s.tids then s.c tid else {}

/-- `window_s`. -/
def View.windowS (v : View) : ℚ :=
  let windowS : ℚ := v.windowNs.toNat/10^9
  if windowS ≤ 0 then 1 else windowS

section Runs

variable [LinearOrder F]

def Sys.step (ar : Arith F) (s : Sys F) : Call F → Sys F
  | .evaluate env cfg k o rows now =>
    { s.trackStartTimes rows with
      sel := evaluate env ar cfg k o rows now s.sel
      taken := s.taken++[cfg.taking k rows now] }
  | c => { s with sel := TargetSelector.step ar s.sel c }

/-- The clock of the evaluations does not go back. -/
def Sys.Forward (s : Sys F) : Call F → Prop
  | .evaluate _ _ _ _ _ now => ∀ t ∈ s.taken, t.now ≤ now
  | _ => True

/-- The history is the last snapshots: all that are not older than the window, and two at
least. -/
def Sys.Latest (s : Sys F) (cfg : Config F) (now : UInt64) : Prop :=
  s.sel.history = (s.taken.map Taking.snapshot).rtake
    (max 2 (recent cfg.windowSeconds now s.taken))

/-- The deltas between the ends of the history. -/
structure Compares (history : List Snapshot) (v : View) (oldest newest : Snapshot) : Prop where
  first : history.head? = some oldest
  last : history.getLast? = some newest
  deltas : ∀ tid ∈ v.tids, ∀ f ∈ Counters.fields, (f (v.delta tid)).toNat =
    (f (newest.counters tid)).toNat-(f (oldest.counters tid)).toNat
  windowNs : v.windowNs.toNat = newest.tsNs.toNat-oldest.tsNs.toNat

/-- A call keeps the last snapshots: so many as are not older than its window and two at least,
as far as the calls before have left them. With windows that never grow they have left enough. -/
structure Windowed (cfg : Config F) (k : Readings) (rows : List ProcessRow) (now : UInt64)
    (s s' : Sys F) : Prop where
  history : s'.sel.history = (s'.taken.map Taking.snapshot).rtake
    (min (s.sel.history.length+1) (max 2 (recent cfg.windowSeconds now s'.taken)))
  steady : (s'.taken.map Taking.windowSeconds).Pairwise (· ≥ ·) → s'.Latest cfg now
  ordered : s'.sel.history.Pairwise fun a b => a.tsNs ≤ b.tsNs
  compares : ∀ v ∈ s.sel.view? cfg k rows now,
    (∃ oldest newest, Compares s'.sel.history v oldest newest) ∧ 0 < v.windowS

def Sys.Windowed (ar : Arith F) (s : Sys F) (c : Call F) : Prop :=
  match c with
  | .evaluate _ cfg k _ rows now => TargetSelector.Windowed cfg k rows now s (s.step ar c)
  | _ => True

/-! ## One call -/

theorem slide_eq_trim (now windowSeconds : UInt64) (history : List Snapshot) :
    slide now windowSeconds history =
      trim (fun a => windowSeconds*1000000000 < now-a.tsNs) 2 history := by
  induction history with
  | nil => rfl
  | cons a rest ih =>
    match rest,ih with
    | [],_ => simp [slide,trim]
    | [b],_ => simp [slide,trim]
    | b::c::rest,ih =>
      rw [slide,trim,ih]
      simp

theorem evaluate_history (env : Surroundings) (ar : Arith F) (cfg : Config F) (k : Readings)
    (o : Orders) (rows : List ProcessRow) (now : UInt64) (s : State F) :
    (evaluate env ar cfg k o rows now s).history =
      slide now cfg.windowSeconds (s.history++[snapshot now k rows]) := by
  cases hview : s.view? cfg k rows now with
  | none => rw [evaluate_of_none hview]
  | some v =>
    rw [evaluate_of_some hview]
    obtain ⟨kernel,log,heq⟩ := evaluateView_eq env v ar cfg o now
      { s with history := slide now cfg.windowSeconds (s.history++[snapshot now k rows]) }
    rw [heq]

omit [LinearOrder F] in
theorem applyPinned_history (env : Surroundings) (tgidOf : UInt32 → UInt32) (now : UInt64)
    (cfg : Config F) (s : State F) : (applyPinned env tgidOf now cfg s).history = s.history := by
  rw [applyPinned]
  induction cfg.pinned generalizing s with
  | nil => rfl
  | cons tid tids ih =>
    rw [List.foldl_cons,ih,State.pin]
    split <;> rfl

/-! ## The invariant -/

/-- The history is the end of what was taken, the times ascend, and with windows that never
grow the history has all that is in the window. -/
structure Sys.Wf (s : Sys F) : Prop where
  held : s.sel.history = (s.taken.map Taking.snapshot).rtake s.sel.history.length
  ordered : s.taken.Pairwise fun a b => a.now ≤ b.now
  steady : (s.taken.map Taking.windowSeconds).Pairwise (· ≥ ·) → ∀ t ∈ s.taken.getLast?,
    s.sel.history.length = min s.taken.length (max 2 (recent t.windowSeconds t.now s.taken))

omit [LinearOrder F] in
theorem startedSys_wf : (startedSys F).Wf where
  held := rfl
  ordered := List.Pairwise.nil
  steady _ t ht := by cases ht

omit [LinearOrder F] in
theorem Sys.Wf.of_kept {s s' : Sys F} (h : s.Wf) (htaken : s'.taken = s.taken)
    (hhistory : s'.sel.history = s.sel.history) : s'.Wf := by
  refine ⟨?_,htaken ▸ h.ordered,?_⟩
  · rw [htaken,hhistory]
    exact h.held
  · rw [htaken,hhistory]
    exact h.steady

theorem old_iff {windowSeconds now : UInt64} (hw : windowSeconds ≤ 3600) {t : Taking}
    (ht : t.now ≤ now) : windowSeconds*1000000000 < now-t.snapshot.tsNs ↔
      ¬now.toNat-t.now.toNat ≤ windowSeconds.toNat*10^9 := by
  have hprod : (windowSeconds*1000000000).toNat = windowSeconds.toNat*10^9 := by
    have hle : windowSeconds.toNat ≤ 3600 := UInt64.le_iff_toNat_le.mp hw
    rw [UInt64.toNat_mul]
    refine Nat.mod_eq_of_lt ?_
    have hbig : (1000000000 : UInt64).toNat = 1000000000 := rfl
    rw [hbig]
    omega
  rw [UInt64.lt_iff_toNat_lt,hprod,not_le]
  exact iff_of_eq (congrArg _ (UInt64.toNat_sub_of_le _ _ ht))

section Evaluate

variable {windowSeconds now : UInt64} {taken : List Taking}

omit [LinearOrder F] in
theorem oldFirst_snapshots (hw : windowSeconds ≤ 3600) (hnow : ∀ t ∈ taken, t.now ≤ now)
    (hord : taken.Pairwise fun a b => a.now ≤ b.now) :
    OldFirst (fun a => windowSeconds*1000000000 < now-a.tsNs) (taken.map Taking.snapshot) := by
  rw [OldFirst,List.pairwise_map]
  refine (hord.imp_of_mem fun {a b} ha hb hab => ?_)
  rw [decide_eq_true_eq,decide_eq_true_eq,old_iff hw (hnow a ha),old_iff hw (hnow b hb)]
  intro hold hnew
  have hle := UInt64.le_iff_toNat_le.mp hab
  omega

omit [LinearOrder F] in
theorem keep_snapshots (hw : windowSeconds ≤ 3600) (hnow : ∀ t ∈ taken, t.now ≤ now) :
    keep (fun a => windowSeconds*1000000000 < now-a.tsNs) 2 (taken.map Taking.snapshot) =
      max 2 (recent windowSeconds now taken) := by
  rw [keep,recent,List.countP_map]
  refine congrArg (max 2) (List.countP_congr fun t ht => ?_)
  rw [Function.comp_apply,Bool.not_eq_true',decide_eq_false_iff_not,old_iff hw (hnow t ht),
    not_not,decide_eq_true_eq]

end Evaluate

variable {s : Sys F} {env : Surroundings} {cfg : Config F} {k : Readings} {o : Orders}
  {rows : List ProcessRow} {now : UInt64}

theorem ordered_concat {taken : List Taking} {t : Taking}
    (hord : taken.Pairwise fun a b => a.now ≤ b.now) (hnow : ∀ a ∈ taken, a.now ≤ t.now) :
    (taken++[t]).Pairwise fun a b => a.now ≤ b.now := by
  rw [List.pairwise_append]
  refine ⟨hord,List.pairwise_singleton _ _,fun a ha b hb => ?_⟩
  rw [List.mem_singleton.mp hb]
  exact hnow a ha

theorem le_now_concat {taken : List Taking} {t : Taking} (hnow : ∀ a ∈ taken, a.now ≤ t.now) :
    ∀ a ∈ taken++[t], a.now ≤ t.now := by
  intro a ha
  rcases List.mem_append.mp ha with ha | ha
  · exact hnow a ha
  · rw [List.mem_singleton.mp ha]
    exact UInt64.le_refl _

variable (env k o rows) in
/-- What was held and the new snapshot, cut down to the window and two at least. -/
theorem Sys.Wf.evaluate_history (h : s.Wf) (ar : Arith F) (hcfg : cfg.Sanitized)
    (hnow : ∀ t ∈ s.taken, t.now ≤ now) :
    (evaluate env ar cfg k o rows now s.sel).history =
      ((s.taken++[cfg.taking k rows now]).map Taking.snapshot).rtake
        (min (s.sel.history.length+1)
          (max 2 (recent cfg.windowSeconds now (s.taken++[cfg.taking k rows now])))) := by
  have hw := hcfg.windowSeconds.2
  have hall := le_now_concat (t:=cfg.taking k rows now) hnow
  have hold := oldFirst_snapshots hw hall (ordered_concat h.ordered hnow)
  rw [List.map_append,List.map_singleton] at hold
  rw [TargetSelector.evaluate_history,slide_eq_trim,h.held]
  have htrim := trim_rtake_concat 2 s.sel.history.length hold
  rw [← List.map_singleton,← List.map_append,keep_snapshots hw hall,List.map_append,
    List.map_singleton] at htrim
  rw [← h.held] at htrim ⊢
  rw [List.map_append,List.map_singleton]
  exact htrim

omit [LinearOrder F] in
/-- Nothing comes back into a window that does not grow. -/
theorem recent_concat_le (taken : List Taking) {t : Taking} (t' : Taking) (hnow : t.now ≤ t'.now)
    (hw : t'.windowSeconds ≤ t.windowSeconds) :
    recent t'.windowSeconds t'.now (taken++[t,t']) ≤
      recent t.windowSeconds t.now (taken++[t])+1 := by
  have hsplit : taken++[t,t'] = (taken++[t])++[t'] := by simp
  have hle : recent t'.windowSeconds t'.now (taken++[t]) ≤
      recent t.windowSeconds t.now (taken++[t]) := by
    refine List.countP_mono_left fun a _ ha => ?_
    have hnow' := UInt64.le_iff_toNat_le.mp hnow
    have hw' := UInt64.le_iff_toNat_le.mp hw
    simp only [decide_eq_true_eq] at ha ⊢
    have hmul := Nat.mul_le_mul_right (10^9) hw'
    omega
  rw [hsplit,recent,List.countP_append]
  refine Nat.add_le_add hle ?_
  exact List.countP_le_length

variable (env o) in
/-- With windows that never grow the calls before have left enough. -/
theorem Sys.Wf.steady_history (h : s.Wf) (ar : Arith F) (hcfg : cfg.Sanitized)
    (hnow : ∀ t ∈ s.taken, t.now ≤ now)
    (hsteady : ((s.taken++[cfg.taking k rows now]).map Taking.windowSeconds).Pairwise (· ≥ ·)) :
    (evaluate env ar cfg k o rows now s.sel).history =
      ((s.taken++[cfg.taking k rows now]).map Taking.snapshot).rtake
        (max 2 (recent cfg.windowSeconds now (s.taken++[cfg.taking k rows now]))) := by
  rw [h.evaluate_history env k o rows ar hcfg hnow]
  let held := s.sel.history.length
  let all := (s.taken++[cfg.taking k rows now]).map Taking.snapshot
  let most := max 2 (recent cfg.windowSeconds now (s.taken++[cfg.taking k rows now]))
  have hlen : all.length = s.taken.length+1 := by simp [all]
  suffices hmin : min (min (held+1) most) all.length = min most all.length by
    have heq := congrArg all.rtake hmin
    rwa [rtake_min_length,rtake_min_length] at heq
  rcases List.eq_nil_or_concat' s.taken with hnil | ⟨taken,t,hconcat⟩
  · have hheld : held = 0 := by
      have hempty := h.held
      rw [hnil,List.map_nil,List.rtake_nil] at hempty
      exact congrArg List.length hempty
    have htwo : 2 ≤ most := le_max_left ..
    rw [hnil,List.length_nil] at hlen
    omega
  · rw [List.map_append,List.pairwise_append] at hsteady
    have hheld := h.steady hsteady.1 t (by simp [hconcat])
    have hw : cfg.windowSeconds ≤ t.windowSeconds :=
      hsteady.2.2 _ (List.mem_map_of_mem (by simp [hconcat])) cfg.windowSeconds (by
        simp [Config.taking])
    have hk := recent_concat_le taken (cfg.taking k rows now) (hnow t (by simp [hconcat])) hw
    have hall : taken++[t,cfg.taking k rows now] = s.taken++[cfg.taking k rows now] := by
      simp [hconcat]
    rw [hall,← hconcat] at hk
    have hkmost : most ≤ max 2 (recent t.windowSeconds t.now s.taken)+1 := by
      refine max_le (by omega) (hk.trans ?_)
      exact Nat.add_le_add_right (le_max_right ..) 1
    omega

/-! ## What a call compares -/

theorem growth_toNat (c b : UInt64) : (growth c b).toNat = c.toNat-b.toNat := by
  rw [growth]
  split
  · next hle => exact UInt64.toNat_sub_of_le _ _ hle
  · next hlt =>
    have hnle : ¬b.toNat ≤ c.toNat := fun hle => hlt (UInt64.le_iff_toNat_le.mpr hle)
    have hzero : (0 : UInt64).toNat = 0 := rfl
    omega

theorem fields_since (c b : Counters) :
    ∀ f ∈ Counters.fields, f (c.since b) = growth (f c) (f b) := by
  simp [Counters.fields,Counters.since]

theorem fields_zero : ∀ f ∈ Counters.fields, f {} = 0 := by simp [Counters.fields]

theorem view_delta (rows : List ProcessRow) {base cur : Snapshot} {tid : UInt32}
    (htid : tid ∈ cur.tids) : ∀ f ∈ Counters.fields, (f ((view rows base cur).delta tid)).toNat =
      (f (cur.counters tid)).toNat-(f (base.counters tid)).toNat := by
  intro f hf
  rw [view,Snapshot.counters,Snapshot.counters,if_pos htid]
  dsimp only
  split
  · rw [fields_since _ _ f hf,growth_toNat]
  · rw [fields_zero f hf]
    rfl

theorem View.windowS_pos (v : View) : 0 < v.windowS := by
  rw [View.windowS]
  split
  · exact one_pos
  · next hpos => exact not_le.mp hpos

omit [LinearOrder F] in
/-- The view of a call goes from the front of its history to the new snapshot. -/
theorem view?_eq {s : State F} {v : View} (h : s.view? cfg k rows now = some v) :
    ∃ base, (slide now cfg.windowSeconds (s.history++[snapshot now k rows])).head? = some base ∧
      v = view rows base (snapshot now k rows) := by
  rw [State.view?] at h
  split at h
  · next base head tail hslide =>
    rw [hslide]
    exact ⟨base,rfl,(Option.some.inj h).symm⟩
  · cases h

omit [LinearOrder F] in
theorem getLast?_rtake_concat {α : Type} (n : ℕ) (l : List α) (a : α) :
    ((l++[a]).rtake (n+1)).getLast? = some a := by
  rw [List.rtake_concat_succ,List.getLast?_concat]

theorem Sys.Wf.compares (h : s.Wf) (ar : Arith F) (hcfg : cfg.Sanitized)
    (hnow : ∀ t ∈ s.taken, t.now ≤ now) {v : View} (hv : s.sel.view? cfg k rows now = some v) :
    ∃ oldest newest, Compares (evaluate env ar cfg k o rows now s.sel).history v oldest newest := by
  obtain ⟨base,hbase,rfl⟩ := view?_eq hv
  have hhistory := h.evaluate_history env k o rows ar hcfg hnow
  rw [← TargetSelector.evaluate_history env ar cfg k o rows now s.sel] at hbase
  refine ⟨base,snapshot now k rows,hbase,?_,fun tid htid => view_delta rows htid,?_⟩
  · rw [hhistory,List.map_append,List.map_singleton]
    obtain ⟨n,hn⟩ : ∃ n, min (s.sel.history.length+1) (max 2 (recent cfg.windowSeconds now
        (s.taken++[cfg.taking k rows now]))) = n+1 := ⟨_,(Nat.succ_pred (by omega)).symm⟩
    rw [hn]
    exact getLast?_rtake_concat n _ _
  · have hmem : base ∈ (s.taken++[cfg.taking k rows now]).map Taking.snapshot := by
      have hin := List.mem_of_head? hbase
      rw [hhistory] at hin
      exact List.mem_of_mem_drop hin
    obtain ⟨t,ht,rfl⟩ := List.mem_map.mp hmem
    exact UInt64.toNat_sub_of_le _ _ (le_now_concat hnow t ht)

/-! ## Runs -/

theorem Sys.Wf.windowed (h : s.Wf) (ar : Arith F) (hcfg : cfg.Sanitized)
    (hnow : ∀ t ∈ s.taken, t.now ≤ now) :
    s.Windowed ar (.evaluate env cfg k o rows now) where
  history := h.evaluate_history env k o rows ar hcfg hnow
  steady := h.steady_history env o ar hcfg hnow
  ordered := by
    have hsorted : ((s.taken++[cfg.taking k rows now]).map Taking.snapshot).Pairwise
        fun a b => a.tsNs ≤ b.tsNs :=
      List.pairwise_map.mpr (ordered_concat (t:=cfg.taking k rows now) h.ordered hnow)
    rw [Sys.step,h.evaluate_history env k o rows ar hcfg hnow]
    exact hsorted.sublist (List.drop_sublist ..)
  compares v hv := ⟨h.compares ar hcfg hnow hv,v.windowS_pos⟩

theorem Sys.Wf.evaluate (h : s.Wf) (ar : Arith F) (hcfg : cfg.Sanitized)
    (hnow : ∀ t ∈ s.taken, t.now ≤ now) :
    (s.step ar (.evaluate env cfg k o rows now)).Wf where
  held := by
    have hhistory := h.evaluate_history env k o rows ar hcfg hnow
    rw [Sys.step,hhistory,length_rtake,rtake_min_length]
  ordered := ordered_concat (t:=cfg.taking k rows now) h.ordered hnow
  steady hsteady t ht := by
    have hlast : t = cfg.taking k rows now := by
      simpa [Sys.step,eq_comm] using ht
    have hhistory := h.steady_history env o ar hcfg hnow hsteady
    rw [Sys.step,hhistory,length_rtake,hlast,List.length_map,Nat.min_comm]
    rfl

theorem Sys.Wf.step (h : s.Wf) (ar : Arith F) (c : SanitizedCall F) (hc : s.Forward c.1) :
    (s.step ar c.1).Wf := by
  obtain ⟨c,hcfg⟩ := c
  cases c with
  | evaluate env cfg k o rows now => exact h.evaluate ar hcfg hc
  | probe cfg hw => exact h.of_kept rfl rfl
  | applyPinned env tgidOf now cfg => exact h.of_kept rfl (applyPinned_history ..)
  | kernel k => exact h.of_kept rfl rfl

/-- With a clock that does not go back every call has its window. -/
theorem windowed_run (ar : Arith F) (calls : List (SanitizedCall F))
    (h : Along (fun s c => s.step ar c.1) (fun s c => s.Forward c.1) (startedSys F) calls) :
    Along (fun s c => s.step ar c.1) (fun s c => s.Windowed ar c.1) (startedSys F) calls :=
  (Along.of_invariant _ (fun _ c hI hC => hI.step ar c hC) (fun s c hI hC => by
    obtain ⟨c,hcfg⟩ := c
    cases c with
    | evaluate env cfg k o rows now => exact hI.windowed ar hcfg hC
    | _ => trivial) calls _ startedSys_wf h).1

end Runs

/-! ## A window that grows -/

/-- An evaluation with a window of so many seconds. -/
def evaluateIn (windowSeconds : UInt64) (h : 1 ≤ windowSeconds ∧ windowSeconds ≤ 3600)
    (now : UInt64) : SanitizedCall ℕ :=
  ⟨.evaluate nowhere { soleConfig with windowSeconds := windowSeconds } idle ascendingOrders
    (alone 10) now,
    { soleConfig_sanitized with windowSeconds := h }⟩

/-- Three seconds with a window of one, then a window of a minute. -/
def grown : List (SanitizedCall ℕ) :=
  [evaluateIn 1 (by decide) 1000000000,evaluateIn 1 (by decide) 2000000000,
   evaluateIn 1 (by decide) 3000000000,evaluateIn 60 (by decide) 4000000000]

theorem grown_forward : Along (fun s c => s.step cpuTime c.1) (fun s c => s.Forward c.1)
    (startedSys ℕ) grown := by
  refine ⟨?_,?_,?_,?_,trivial⟩
  · intro t ht
    cases ht
  · intro t ht
    obtain rfl := List.mem_singleton.mp ht
    decide
  · intro t ht
    rcases List.mem_pair.mp ht with rfl | rfl <;> decide
  · intro t ht
    rcases List.mem_cons.mp ht with rfl | ht
    · decide
    · rcases List.mem_pair.mp ht with rfl | rfl <;> decide

theorem windowed_run_grown :
    Along (fun s c => s.step cpuTime c.1) (fun s c => s.Forward c.1) (startedSys ℕ) grown ∧
      Along (fun s c => s.step cpuTime c.1) (fun s c => s.Windowed cpuTime c.1) (startedSys ℕ)
        grown :=
  ⟨grown_forward,windowed_run cpuTime grown grown_forward⟩

/-- The first snapshot is in the window of the last call, but it has been dropped. -/
theorem grown_not_latest : ¬∀ calls : List (SanitizedCall ℕ),
    Along (fun s c => s.step cpuTime c.1) (fun s c => s.Forward c.1) (startedSys ℕ) calls →
      Along (fun s c => s.step cpuTime c.1) (fun s c => match c.1 with
        | .evaluate _ cfg _ _ _ now => (s.step cpuTime c.1).Latest cfg now
        | _ => True) (startedSys ℕ) calls := by
  intro h
  obtain ⟨-,-,-,hlatest,-⟩ := h grown grown_forward
  have hlength := congrArg List.length hlatest
  revert hlength
  decide

end TargetSelector
end ETraceDiag
