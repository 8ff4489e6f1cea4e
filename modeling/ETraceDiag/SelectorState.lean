import ETraceDiag.Hysteresis

/-!
# What the selector remembers of processes

`pstate_` gets an entry for every process that an evaluation finds, and no entry is ever taken
out. What an entry still says of a process that is gone is another matter: without a rank a good
streak ends.
-/

namespace ETraceDiag
namespace TargetSelector
namespace SelectorState

open Hysteresis ProcessTable Transition

variable {F : Type}

/-- The selector and the processes that its evaluations have found or that have been pinned. -/
structure Sys (F : Type) where
  sel : State F
  found : Finset UInt32 := ∅

def startedSys (F : Type) : Sys F := { sel := started F }

/-- `tgid` in `ApplyPinned`. -/
def pinnedTgid (tgidOf : UInt32 → UInt32) (tid : UInt32) : UInt32 :=
  if tgidOf tid ≠ 0 then tgidOf tid else tid

/-- The processes of the threads that a call pins. -/
def pinnedProcs (tgidOf : UInt32 → UInt32) (tids : List UInt32) (pinned : Finset UInt32) :
    Finset UInt32 :=
  ((tids.filter fun tid => tid ≠ 0 ∧ tid ∉ pinned).map (pinnedTgid tgidOf)).toFinset

section Runs

variable [LinearOrder F]

def Sys.step (ar : Arith F) (s : Sys F) (c : Call F) : Sys F :=
  { sel := TargetSelector.step ar s.sel c
    found := match c with
      | .evaluate _ cfg k _ rows now => match s.sel.view? cfg k rows now with
        | some v => s.found ∪ v.procs
        | none => s.found
      | .applyPinned _ tgidOf _ cfg => s.found ∪ pinnedProcs tgidOf cfg.pinned s.sel.pinned
      | _ => s.found }

/-- Only processes of the table, members and pinned processes have an entry. -/
def Live (v : View) (t : Procs) : Prop :=
  ∀ p ∈ t.known, p ∈ v.procs ∨ (entry t p).member = true ∨ (entry t p).pinnedProc = true

/-- After the call there are entries for what has been found or pinned, and an entry that is not
of the table, no member and not pinned has no streaks. -/
structure Remembers (ar : Arith F) (s : Sys F) (c : Call F) : Prop where
  known : (s.step ar c).sel.pstate.known = (s.step ar c).found
  gone : ∀ env cfg k o rows now, c = .evaluate env cfg k o rows now →
    ∀ v ∈ s.sel.view? cfg k rows now, ∀ p ∉ v.procs, (entry s.sel.pstate p).member = false →
      (entry s.sel.pstate p).pinnedProc = false →
      (entry (s.step ar c).sel.pstate p).goodStreak = 0 ∧
        (entry (s.step ar c).sel.pstate p).badStreak = 0

/-! ## One call -/

omit [LinearOrder F] in
theorem mem_pinnedProcs {tgidOf : UInt32 → UInt32} {tids : List UInt32} {pinned : Finset UInt32}
    {p : UInt32} : p ∈ pinnedProcs tgidOf tids pinned ↔
      ∃ tid ∈ tids, (tid ≠ 0 ∧ tid ∉ pinned) ∧ pinnedTgid tgidOf tid = p := by
  simp [pinnedProcs,pinnedTgid,and_assoc]

omit [LinearOrder F] in
theorem applyPinned_known (env : Surroundings) (tgidOf : UInt32 → UInt32) (now : UInt64)
    (cfg : Config F) (s : State F) : (applyPinned env tgidOf now cfg s).pstate.known =
      s.pstate.known ∪ pinnedProcs tgidOf cfg.pinned s.pinned := by
  rw [applyPinned]
  generalize cfg.pinned = tids
  induction tids generalizing s with
  | nil => simp [pinnedProcs]
  | cons tid tids ih =>
    rw [List.foldl_cons,ih,State.pin]
    split
    · next hskip =>
      -- an id that is pinned already, or zero, is passed over
      ext p
      simp only [Finset.mem_union,mem_pinnedProcs,List.exists_mem_cons_iff]
      have hnot : ¬((tid ≠ 0 ∧ tid ∉ s.pinned) ∧ pinnedTgid tgidOf tid = p) := by
        rintro ⟨⟨hne,hnew⟩,-⟩
        exact hskip.elim hne hnew
      rw [or_iff_right hnot]
    · next hpin =>
      ext p
      have hnew := not_or.mp hpin
      simp only [State.addTarget,Finset.mem_union,Finset.mem_insert,mem_pinnedProcs,
        List.exists_mem_cons_iff]
      constructor
      · rintro ((heq | hknown) | ⟨tid',htid',hnot,heq⟩)
        · exact Or.inr (Or.inl ⟨hnew,heq.symm⟩)
        · exact Or.inl hknown
        · exact Or.inr (Or.inr ⟨tid',htid',⟨hnot.1,fun h => hnot.2 (Or.inr h)⟩,heq⟩)
      · rintro (hknown | ⟨-,heq⟩ | ⟨tid',htid',hnot,heq⟩)
        · exact Or.inl (Or.inr hknown)
        · exact Or.inl (Or.inl heq.symm)
        · by_cases hsame : tid' = tid
          · subst hsame
            exact Or.inl (Or.inl heq.symm)
          · exact Or.inr ⟨tid',htid',⟨hnot.1,not_or.mpr ⟨hsame,hnot.2⟩⟩,heq⟩

theorem choose_known (v : View) (ar : Arith F) (cfg : Config F) (o : Orders) (now : UInt64)
    (s : State F) : (v.choose ar cfg o now s).1.known = s.pstate.known ∪ v.procs := by
  have hchoose : v.choose ar cfg o now s = v.fallback ar cfg s.threadBudget o now
      (v.ranked ar cfg o) (v.processes ar cfg o now s)
      (v.handout ar cfg s.threadBudget o s.pinned (v.processes ar cfg o now s)) := rfl
  rw [hchoose]
  cases v.ranked ar cfg o with
  | nil => rfl
  | cons top rest =>
    rw [View.fallback]
    split <;> rfl

/-- Who is no member has no bad streak. -/
def Sys.Idle (s : Sys F) : Prop := ∀ p, (entry s.sel.pstate p).pinnedProc = false →
  (entry s.sel.pstate p).member = false → (entry s.sel.pstate p).badStreak = 0

section Evaluate

variable {cfg : Config F} {now : UInt64} {rank : ℕ} {st st' : ProcState}

omit [LinearOrder F] in
theorem verdict_idle (hv : Verdict cfg now rank st st') (hpin : st.pinnedProc = false)
    (hidle : st.member = false → st.badStreak = 0) (hm : st'.member = false) :
    st'.badStreak = 0 := by
  cases hv with
  | stays =>
    rw [ProcState.scan_member] at hm
    rw [scan_of_not_member hpin hm]
    exact hidle hm
  | leaves hleaves => rfl
  | joins hjoins => cases hm

omit [LinearOrder F] in
/-- A rank beyond the band ends a good streak. -/
theorem verdict_gone (hv : Verdict cfg now rank st st') (hpin : st.pinnedProc = false)
    (hm : st.member = false) (hidle : st.badStreak = 0) (hrank : ¬rank ≤ cfg.enterRank.toNat) :
    st'.goodStreak = 0 ∧ st'.badStreak = 0 := by
  cases hv with
  | stays =>
    rw [scan_of_not_member hpin hm,if_neg hrank]
    exact ⟨rfl,hidle⟩
  | leaves hleaves =>
    have hmember := (member_of_leaves hleaves).2.1
    rw [hm] at hmember
    cases hmember
  | joins hjoins =>
    rw [scan_of_not_member hpin hm]
    exact ⟨rfl,hidle⟩

variable {v : View} {ar : Arith F} {o : Orders} {s : State F}

theorem not_le_enterRank_of_gone (hcfg : cfg.Sanitized) {p : UInt32} (hp : p ∉ v.procs) :
    ¬rankOr (v.ranked ar cfg o) 0xFFFFFFFF p ≤ cfg.enterRank.toNat := by
  have hle := UInt32.le_iff_toNat_le.mp hcfg.enterRank.2
  have h1024 : (1024 : UInt32).toNat = 1024 := rfl
  rw [rankOr_of_notMem fun h => hp (View.mem_ranked.mp h)]
  omega

theorem choose_gone (hcfg : cfg.Sanitized) {p : UInt32} (hp : p ∉ v.procs)
    (hpin : (entry s.pstate p).pinnedProc = false) (hm : (entry s.pstate p).member = false)
    (hidle : (entry s.pstate p).badStreak = 0) :
    (entry (v.choose ar cfg o now s).1 p).goodStreak = 0 ∧
      (entry (v.choose ar cfg o now s).1 p).badStreak = 0 := by
  have hgone := verdict_gone (processes_verdict v ar o now s hcfg p) hpin hm
    hidle (not_le_enterRank_of_gone hcfg hp)
  rcases choose_entry v ar cfg o now s p with heq | heq
  · rw [heq]
    exact hgone
  · rw [heq]
    exact hgone

end Evaluate

/-! ## Runs -/

theorem Sys.Idle.step {s : Sys F} (h : s.Idle) (ar : Arith F) (c : SanitizedCall F) :
    (s.step ar c.1).Idle := by
  obtain ⟨c,hcfg⟩ := c
  cases c with
  | probe cfg hw => exact h
  | kernel k => exact h
  | applyPinned env tgidOf now cfg =>
    intro p hpin hm
    have hkept := applyPinned_entry env tgidOf now cfg s.sel p hpin
    change (entry (applyPinned env tgidOf now cfg s.sel).pstate p).member = false at hm
    change (entry (applyPinned env tgidOf now cfg s.sel).pstate p).badStreak = 0
    rw [hkept] at hm ⊢
    exact h p (hkept ▸ hpin) hm
  | evaluate env cfg k o rows now =>
    intro p
    change (entry (evaluate env ar cfg k o rows now s.sel).pstate p).pinnedProc = false →
      (entry (evaluate env ar cfg k o rows now s.sel).pstate p).member = false →
      (entry (evaluate env ar cfg k o rows now s.sel).pstate p).badStreak = 0
    cases hview : s.sel.view? cfg k rows now with
    | none =>
      rw [evaluate_pstate_of_none hview]
      exact h p
    | some v =>
      rw [evaluate_pstate_of_some hview]
      have hverdict := processes_verdict v ar o now s.sel hcfg p
      intro hpin hm
      rcases choose_entry v ar cfg o now s.sel p with heq | heq
      · rw [heq] at hpin hm ⊢
        have hpin' := hverdict.pinnedProc_eq.symm.trans hpin
        exact verdict_idle hverdict hpin' (h p hpin') hm
      · rw [heq] at hm
        cases hm

theorem Sys.step_known {s : Sys F} (h : s.sel.pstate.known = s.found) (ar : Arith F)
    (c : Call F) : (s.step ar c).sel.pstate.known = (s.step ar c).found := by
  cases c with
  | probe cfg hw => exact h
  | kernel k => exact h
  | applyPinned env tgidOf now cfg =>
    exact (applyPinned_known env tgidOf now cfg s.sel).trans (by rw [h]; rfl)
  | evaluate env cfg k o rows now =>
    simp only [Sys.step,TargetSelector.step]
    cases hview : s.sel.view? cfg k rows now with
    | none =>
      rw [evaluate_pstate_of_none hview]
      exact h
    | some v => rw [evaluate_pstate_of_some hview,choose_known,h]

theorem Sys.remembers {s : Sys F} (hknown : s.sel.pstate.known = s.found) (hidle : s.Idle)
    (ar : Arith F) (c : SanitizedCall F) : Remembers ar s c.1 := by
  obtain ⟨c,hcfg⟩ := c
  refine ⟨Sys.step_known hknown ar c,?_⟩
  rintro env cfg k o rows now rfl v hview p hp hm hpin
  rw [Option.mem_def] at hview
  change (entry (evaluate env ar cfg k o rows now s.sel).pstate p).goodStreak = 0 ∧
    (entry (evaluate env ar cfg k o rows now s.sel).pstate p).badStreak = 0
  rw [evaluate_pstate_of_some hview]
  exact choose_gone hcfg hp hpin hm (hidle p hpin hm)

/-- Nothing is forgotten in any run, but streaks end when a process is gone. -/
theorem remembers_run (ar : Arith F) (calls : List (SanitizedCall F)) :
    Along (fun s c => s.step ar c.1) (fun s c => Remembers ar s c.1) (startedSys F) calls := by
  refine (Along.of_invariant (I:=fun s : Sys F => s.sel.pstate.known = s.found ∧ s.Idle)
    (C:=fun _ _ => True) _ (fun s c hI _ => ⟨Sys.step_known hI.1 ar c.1,hI.2.step ar c⟩)
    (fun s c hI _ => Sys.remembers hI.1 hI.2 ar c) calls _ ⟨rfl,fun _ _ _ => rfl⟩ ?_).1
  exact (along_inputs _ (fun _ => True) calls _).mpr fun _ _ => trivial

end Runs

/-- Process 20 is there once; when it is gone, its entry is not. -/
theorem exited_not_live : ¬∀ calls : List (SanitizedCall ℕ),
    Along (fun s c => s.step cpuTime c.1) (fun s c => match c.1 with
      | .evaluate _ cfg k _ rows now => ∀ v ∈ s.sel.view? cfg k rows now,
        Live v (s.step cpuTime c.1).sel.pstate
      | _ => True) (startedSys ℕ) calls := by
  intro h
  obtain ⟨-,-,-,hlive,-⟩ := h [probePair,evaluatePair 0 0 1000000000,
    evaluatePair 10 0 2000000000,
    ⟨.evaluate nowhere pairConfig idle ascendingOrders (alone 10) 3000000000,
      pairConfig_sanitized⟩]
  have hentry := hlive _ rfl 20 (by decide +kernel)
  revert hentry
  decide +kernel

end SelectorState
end TargetSelector
end ETraceDiag
