import ETraceDiag.Streak
import ETraceDiag.TargetBudget

/-!
# The hysteresis of the target selector

A process joins after a streak of good ranks and leaves after a streak of bad ones. Each entry
counts both streaks. A process that the fallback marks keeps the good streak it had, and goes
on counting it once it has left.
-/

namespace ETraceDiag
namespace TargetSelector
namespace Hysteresis

open Streak ProcessTable Transition

variable {F : Type}

/-- What an evaluation finds of a process. -/
structure Seen where
  member : Bool
  rank : ℕ
  enterRank : ℕ
  leaveRank : ℕ

def Seen.good (o : Seen) : Bool := !o.member && o.rank ≤ o.enterRank

def Seen.bad (o : Seen) : Bool := o.member && o.leaveRank < o.rank

/-- The selector, what its evaluations have found of every process, when each member became one,
and the time of the last evaluation. -/
structure Sys (F : Type) where
  sel : State F
  seen : UInt32 → List Seen := fun _ => []
  since : UInt32 → UInt64 := fun _ => 0
  clock : UInt64 := 0

def startedSys (F : Type) : Sys F := { sel := started F }

/-- The entry of a process, which starts without marks and streaks. -/
def entry (t : Procs) (p : UInt32) : ProcState := if p ∈ t.known then t.st p else {}

def observe (cfg : Config F) (rank : ℕ) (st : ProcState) : Seen :=
  ⟨st.member,rank,cfg.enterRank.toNat,cfg.leaveRank.toNat⟩

section Runs

variable [LinearOrder F]

/-- The evaluations over a window are those that rank. -/
def Sys.step (ar : Arith F) (s : Sys F) (c : Call F) : Sys F :=
  match c with
  | .evaluate env cfg k o rows now =>
    let sel := evaluate env ar cfg k o rows now s.sel
    match s.sel.view? cfg k rows now with
    | none => { s with sel := sel, clock := now }
    | some v =>
      { sel := sel
        seen := fun p => s.seen p++
          [observe cfg (rankOr (v.ranked ar cfg o) 0xFFFFFFFF p) (entry s.sel.pstate p)]
        since := fun p =>
          if (entry sel.pstate p).member ∧ ¬(entry s.sel.pstate p).member then now else s.since p
        clock := now }
  | c => { s with sel := TargetSelector.step ar s.sel c }

/-- The rules of an evaluation: who joins has been no member and good for `hold_periods`
evaluations up to this one, who leaves has been a member and bad for as many, and a member for
`min_residency_seconds`. The table between step 8 and the fallback is `View.processes`. -/
structure Rules (ar : Arith F) (cfg : Config F) (o : Orders) (now : UInt64) (v : View)
    (s s' : Sys F) : Prop where
  joins : ∀ p, (entry s.sel.pstate p).pinnedProc = false → (entry s.sel.pstate p).member = false →
    (entry (v.processes ar cfg o now s.sel) p).member = true →
    cfg.holdPeriods.toNat ≤ (current Seen.good (s'.seen p)).length
  leaves : ∀ p, (entry s.sel.pstate p).pinnedProc = false → (entry s.sel.pstate p).member = true →
    (entry s'.sel.pstate p).member = false →
    cfg.holdPeriods.toNat ≤ (current Seen.bad (s'.seen p)).length ∧
      cfg.minResidencySeconds.toNat*10^9 ≤ now.toNat-(s.since p).toNat

def Sys.Rules (ar : Arith F) (s : Sys F) (c : Call F) : Prop :=
  match c with
  | .evaluate _ cfg k o rows now => ∀ v ∈ s.sel.view? cfg k rows now,
    Hysteresis.Rules ar cfg o now v s (s.step ar c)
  | _ => True

/-- The process was a member in the last evaluation. -/
def JustLeft (seen : List Seen) : Prop := ∃ o ∈ seen.getLast?, o.member = true

/-- The clock does not go back, and a process that has just left with a good streak from before
it was a member has no good rank. -/
structure Fresh (ar : Arith F) (cfg : Config F) (o : Orders) (now : UInt64) (v : View)
    (s : Sys F) : Prop where
  clock : s.clock ≤ now
  streaks : ∀ p, (entry s.sel.pstate p).pinnedProc = false → (entry s.sel.pstate p).member = false →
    JustLeft (s.seen p) → (entry s.sel.pstate p).goodStreak ≠ 0 →
    cfg.enterRank.toNat < rankOr (v.ranked ar cfg o) 0xFFFFFFFF p

def Sys.Fresh (ar : Arith F) (s : Sys F) (c : Call F) : Prop :=
  match c with
  | .evaluate _ cfg k o rows now => s.clock ≤ now ∧ ∀ v ∈ s.sel.view? cfg k rows now,
    Hysteresis.Fresh ar cfg o now v s
  | _ => True

end Runs

/-! ## One entry -/

/-- What an evaluation makes of an entry before the fallback. -/
inductive Verdict (cfg : Config F) (now : UInt64) (rank : ℕ) (st : ProcState) : ProcState → Prop
  | stays : Verdict cfg now rank st (st.scan cfg rank)
  | leaves (h : (st.scan cfg rank).leaves cfg now = true) :
    Verdict cfg now rank st { st.scan cfg rank with member := false, badStreak := 0 }
  | joins (h : (st.scan cfg rank).joins cfg = true) :
    Verdict cfg now rank st
      { st.scan cfg rank with member := true, goodStreak := 0, joinedNs := now }

/-- The counters of an entry count no more than there was. -/
structure Tracks (seen : List Seen) (since clock : UInt64) (st : ProcState) : Prop where
  idle : st.member = false → st.badStreak = 0
  good : st.member = false →
    st.goodStreak.toNat ≤ (current Seen.good seen).length ∨ JustLeft seen
  bad : st.member = true → st.badStreak.toNat ≤ (current Seen.bad seen).length
  joined : st.member = true → since ≤ st.joinedNs ∧ st.joinedNs ≤ clock

section Entry

variable {cfg : Config F} {now since clock : UInt64} {rank : ℕ} {seen : List Seen}
  {st st' : ProcState}

theorem scan_of_member (hpin : st.pinnedProc = false) (hm : st.member = true) :
    st.scan cfg rank =
      { st with badStreak := if cfg.leaveRank.toNat < rank then st.badStreak+1 else 0 } := by
  rw [ProcState.scan,if_neg (by simp [hpin]),if_pos hm]

theorem scan_of_not_member (hpin : st.pinnedProc = false) (hm : st.member = false) :
    st.scan cfg rank =
      { st with goodStreak := if rank ≤ cfg.enterRank.toNat then st.goodStreak+1 else 0 } := by
  rw [ProcState.scan,if_neg (by simp [hpin]),if_neg (by simp [hm])]

theorem succ_toNat_le (n : UInt32) : (n+1).toNat ≤ n.toNat+1 := by
  rw [UInt32.toNat_add]
  exact Nat.mod_le _ _

/-- A streak goes up by one at most, where the one that was seen does. -/
theorem streak_le {hit : Seen → Bool} {o : Seen} {n : UInt32}
    (h : n.toNat ≤ (current hit seen).length) :
    (if hit o = true then n+1 else 0).toNat ≤ (current hit (seen++[o])).length := by
  split
  · next ho =>
    rw [current_concat_hit hit ho,List.length_append]
    exact (succ_toNat_le n).trans (Nat.add_le_add_right h 1)
  · exact Nat.zero_le _

theorem Tracks.bad_scan (h : Tracks seen since clock st) (hpin : st.pinnedProc = false)
    (hm : st.member = true) : (st.scan cfg rank).badStreak.toNat ≤
      (current Seen.bad (seen++[observe cfg rank st])).length := by
  have hhit : Seen.bad (observe cfg rank st) = decide (cfg.leaveRank.toNat < rank) := by
    simp [Seen.bad,observe,hm]
  have hle := streak_le (o:=observe cfg rank st) (h.bad hm)
  simp only [hhit,decide_eq_true_eq] at hle
  rw [scan_of_member hpin hm]
  exact hle

/-- A streak from before the process was a member must not go on. -/
theorem Tracks.good_scan (h : Tracks seen since clock st) (hpin : st.pinnedProc = false)
    (hm : st.member = false)
    (hfresh : JustLeft seen → st.goodStreak ≠ 0 → cfg.enterRank.toNat < rank) :
    (st.scan cfg rank).goodStreak.toNat ≤
      (current Seen.good (seen++[observe cfg rank st])).length := by
  have hhit : Seen.good (observe cfg rank st) = decide (rank ≤ cfg.enterRank.toNat) := by
    simp [Seen.good,observe,hm]
  rw [scan_of_not_member hpin hm]
  dsimp only
  by_cases hrank : rank ≤ cfg.enterRank.toNat
  · have hn : st.goodStreak.toNat ≤ (current Seen.good seen).length := by
      rcases h.good hm with hle | hleft
      · exact hle
      · have hzero : st.goodStreak = 0 := by
          by_contra hne
          exact absurd (hfresh hleft hne) (by omega)
        rw [hzero]
        exact Nat.zero_le _
    have hle := streak_le (o:=observe cfg rank st) hn
    simp only [hhit,decide_eq_true_eq] at hle
    exact hle
  · rw [if_neg hrank]
    exact Nat.zero_le _

theorem member_of_leaves (h : (st.scan cfg rank).leaves cfg now = true) :
    st.pinnedProc = false ∧ st.member = true ∧ cfg.holdPeriods ≤ (st.scan cfg rank).badStreak ∧
      cfg.minResidencySeconds*1000000000 ≤ now-(st.scan cfg rank).joinedNs := by
  simp only [ProcState.leaves,ProcState.scan_member,ProcState.scan_pinnedProc,Bool.and_eq_true,
    Bool.not_eq_true',decide_eq_true_eq] at h
  exact ⟨h.1.1.1,h.1.1.2,h.1.2,h.2⟩

theorem member_of_joins (h : (st.scan cfg rank).joins cfg = true) :
    st.pinnedProc = false ∧ st.member = false ∧
      cfg.holdPeriods ≤ (st.scan cfg rank).goodStreak := by
  simp only [ProcState.joins,ProcState.scan_member,ProcState.scan_pinnedProc,Bool.and_eq_true,
    Bool.not_eq_true',decide_eq_true_eq] at h
  exact ⟨h.1.1,h.1.2,h.2⟩

theorem justLeft_concat (seen : List Seen) (hm : st.member = true) :
    JustLeft (seen++[observe cfg rank st]) :=
  ⟨observe cfg rank st,by simp,hm⟩

theorem Tracks.stays (h : Tracks seen since clock st) (hpin : st.pinnedProc = false)
    (hfresh : st.member = false → JustLeft seen → st.goodStreak ≠ 0 →
      cfg.enterRank.toNat < rank) (hclock : clock ≤ now) :
    Tracks (seen++[observe cfg rank st]) since now (st.scan cfg rank) := by
  cases hm : st.member with
  | false =>
    have hgood := h.good_scan hpin hm (hfresh hm)
    rw [scan_of_not_member hpin hm] at hgood ⊢
    exact ⟨fun _ => h.idle hm,fun _ => Or.inl hgood,fun ht => by simp [hm] at ht,
      fun ht => by simp [hm] at ht⟩
  | true =>
    have hbad : (st.scan cfg rank).badStreak.toNat ≤
        (current Seen.bad (seen++[observe cfg rank st])).length := h.bad_scan hpin hm
    rw [scan_of_member hpin hm] at hbad ⊢
    obtain ⟨hsince,hjoined⟩ := h.joined hm
    exact ⟨fun hf => by simp [hm] at hf,fun hf => by simp [hm] at hf,fun _ => hbad,
      fun _ => ⟨hsince,UInt64.le_trans hjoined hclock⟩⟩

/-- When the process became a member, after the entry has changed. -/
def sinceOf (now since : UInt64) (st st' : ProcState) : UInt64 :=
  if st'.member ∧ ¬st.member then now else since

theorem Tracks.verdict (h : Tracks seen since clock st) (hpin : st.pinnedProc = false)
    (hfresh : st.member = false → JustLeft seen → st.goodStreak ≠ 0 →
      cfg.enterRank.toNat < rank) (hclock : clock ≤ now) (hv : Verdict cfg now rank st st') :
    Tracks (seen++[observe cfg rank st]) (sinceOf now since st st') now st' := by
  cases hv with
  | stays =>
    have hsince : sinceOf now since st (st.scan cfg rank) = since := by simp [sinceOf]
    rw [hsince]
    exact h.stays hpin hfresh hclock
  | leaves hleaves =>
    obtain ⟨-,hm,-⟩ := member_of_leaves hleaves
    exact ⟨fun _ => rfl,fun _ => Or.inr (justLeft_concat seen hm),fun ht => by simp at ht,
      fun ht => by simp at ht⟩
  | joins hjoins =>
    obtain ⟨-,hm,-⟩ := member_of_joins hjoins
    have hbad : (st.scan cfg rank).badStreak = 0 := by
      rw [scan_of_not_member hpin hm]
      exact h.idle hm
    refine ⟨fun hf => by simp at hf,fun hf => by simp at hf,fun _ => ?_,fun _ => ?_⟩
    · rw [hbad]
      exact Nat.zero_le _
    · simp [sinceOf,hm]

theorem Verdict.pinnedProc_eq (hv : Verdict cfg now rank st st') :
    st'.pinnedProc = st.pinnedProc := by
  cases hv <;> exact ProcState.scan_pinnedProc ..

/-- The fallback starts a membership, or starts it again in the call in which it has ended. -/
theorem Tracks.fallback (h : Tracks seen since clock st) (hclock : clock ≤ now)
    {seen' : List Seen} {since' : UInt64} (h' : Tracks seen' since' now st') :
    Tracks seen' (sinceOf now since st { st' with member := true, joinedNs := now }) now
      { st' with member := true, joinedNs := now } := by
  refine ⟨fun hf => by simp at hf,fun hf => by simp at hf,fun _ => ?_,fun _ => ⟨?_,?_⟩⟩
  · cases hm : st'.member with
    | false =>
      rw [h'.idle hm]
      exact Nat.zero_le _
    | true => exact h'.bad hm
  · rw [sinceOf]
    split
    · exact UInt64.le_refl _
    · next hmember =>
      have hm : st.member = true := by simpa using hmember
      obtain ⟨hsince,hjoined⟩ := h.joined hm
      exact UInt64.le_trans (UInt64.le_trans hsince hjoined) hclock
  · exact UInt64.le_refl _

/-- Who joins has had the streak. -/
theorem Tracks.joins (h : Tracks seen since clock st) (hpin : st.pinnedProc = false)
    (hfresh : st.member = false → JustLeft seen → st.goodStreak ≠ 0 →
      cfg.enterRank.toNat < rank) (hm : st.member = false) (hv : Verdict cfg now rank st st')
    (hm' : st'.member = true) : cfg.holdPeriods.toNat ≤
      (current Seen.good (seen++[observe cfg rank st])).length := by
  cases hv with
  | stays => simp [hm] at hm'
  | leaves hleaves => simp at hm'
  | joins hjoins =>
    have hhold := UInt32.le_iff_toNat_le.mp (member_of_joins hjoins).2.2
    exact hhold.trans (h.good_scan hpin hm (hfresh hm))

/-- Who leaves has had the streak and the time. -/
theorem Tracks.leaves (h : Tracks seen since clock st) (hcfg : cfg.Sanitized)
    (hpin : st.pinnedProc = false) (hclock : clock ≤ now) (hm : st.member = true)
    (hv : Verdict cfg now rank st st') (hm' : st'.member = false) :
    cfg.holdPeriods.toNat ≤ (current Seen.bad (seen++[observe cfg rank st])).length ∧
      cfg.minResidencySeconds.toNat*10^9 ≤ now.toNat-since.toNat := by
  cases hv with
  | stays => simp [hm] at hm'
  | joins hjoins => simp at hm'
  | leaves hleaves =>
    obtain ⟨-,-,hhold,hresidency⟩ := member_of_leaves hleaves
    refine ⟨(UInt32.le_iff_toNat_le.mp hhold).trans (h.bad_scan hpin hm),?_⟩
    obtain ⟨hsince,hjoined⟩ := h.joined hm
    have hle := UInt64.le_iff_toNat_le.mp hsince
    have hmin := UInt64.le_iff_toNat_le.mp hcfg.minResidencySeconds
    rw [scan_of_member hpin hm,UInt64.le_iff_toNat_le,
      UInt64.toNat_sub_of_le _ _ (UInt64.le_trans hjoined hclock),UInt64.toNat_mul] at hresidency
    have hbig : (1000000000 : UInt64).toNat = 10^9 := rfl
    have h36000 : (36000 : UInt64).toNat = 36000 := rfl
    rw [hbig,Nat.mod_eq_of_lt (by omega)] at hresidency
    omega

end Entry

/-! ## One evaluation -/

section Evaluate

variable [LinearOrder F] {v : View} {ar : Arith F} {cfg : Config F} {o : Orders} {now : UInt64}
  {s : State F}

variable (v ar o now s)

omit now in
theorem scanned_entry (hcfg : cfg.Sanitized) (p : UInt32) :
    entry (scanned cfg v (v.ranked ar cfg o) s.pstate) p =
      (entry s.pstate p).scan cfg (rankOr (v.ranked ar cfg o) 0xFFFFFFFF p) := by
  by_cases hp : p ∈ s.pstate.known
  · rw [entry,if_pos (mem_scanned_known.mpr (Or.inl hp)),scanned_st hp,entry,if_pos hp]
  · by_cases hv : p ∈ v.procs
    · rw [entry,if_pos (mem_scanned_known.mpr (Or.inr hv)),scanned_st_of_notMem hp hv,entry,
        if_neg hp]
    · -- a process that nobody knows has no rank
      have henter : ¬0xFFFFFFFF ≤ cfg.enterRank.toNat := by
        have hle := UInt32.le_iff_toNat_le.mp hcfg.enterRank.2
        have h1024 : (1024 : UInt32).toNat = 1024 := rfl
        omega
      have hnone : p ∉ v.ranked ar cfg o := fun hmem => hv (View.mem_ranked.mp hmem)
      have hknown : p ∉ (scanned cfg v (v.ranked ar cfg o) s.pstate).known := fun hmem =>
        (mem_scanned_known.mp hmem).elim hp hv
      rw [entry,if_neg hknown,entry,if_neg hp,rankOr_of_notMem hnone,
        scan_of_not_member rfl rfl,if_neg henter]

omit [LinearOrder F] in
theorem stayed_entry (t : Procs) (p : UInt32) : entry (stayed cfg o now t) p =
    if (entry t p).leaves cfg now = true then { entry t p with member := false, badStreak := 0 }
    else entry t p := by
  by_cases hp : p ∈ t.known
  · have hp' : p ∈ (stayed cfg o now t).known := hp
    rw [entry,if_pos hp',entry,if_pos hp]
    simp only [stayed,Procs.drop,mem_leaveList,hp,true_and]
  · have hp' : p ∉ (stayed cfg o now t).known := hp
    rw [entry,if_neg hp',entry,if_neg hp]
    simp [ProcState.leaves]

omit [LinearOrder F] in
theorem selected_entry (threadBudget : UInt32) (ranked : List UInt32) (t : Procs) (p : UInt32) :
    entry (selected cfg threadBudget o now ranked t) p = entry (stayed cfg o now t) p ∨
      ((entry t p).joins cfg = true ∧ entry (selected cfg threadBudget o now ranked t) p =
        { entry t p with member := true, goodStreak := 0, joinedNs := now }) := by
  rw [selected_eq]
  by_cases hjoined : p ∈ joined cfg threadBudget o now ranked t
  · obtain ⟨hp,hjoins⟩ := mem_joinList.mp (List.mem_of_mem_take hjoined)
    have hp' : p ∈ ((stayed cfg o now t).enroll now
        (joined cfg threadBudget o now ranked t)).known := hp
    have hstay : ¬(t.st p).leaves cfg now = true := by
      simp only [ProcState.joins,Bool.and_eq_true,Bool.not_eq_true'] at hjoins
      simp [ProcState.leaves,hjoins.1.2]
    refine Or.inr ?_
    rw [entry,if_pos hp,entry,if_pos hp']
    refine ⟨hjoins,?_⟩
    simp only [Procs.enroll,if_pos hjoined,stayed,Procs.drop,mem_leaveList,hp,true_and,
      if_neg hstay]
  · refine Or.inl ?_
    have hst : ((stayed cfg o now t).enroll now (joined cfg threadBudget o now ranked t)).st p =
        (stayed cfg o now t).st p := if_neg hjoined
    rw [entry,entry,hst]
    rfl

/-- The entry of every process goes through one of three doors. -/
theorem processes_verdict (hcfg : cfg.Sanitized) (p : UInt32) :
    Verdict cfg now (rankOr (v.ranked ar cfg o) 0xFFFFFFFF p) (entry s.pstate p)
      (entry (v.processes ar cfg o now s) p) := by
  have hscan := scanned_entry v ar o s hcfg p
  rw [View.processes]
  rcases selected_entry o now s.threadBudget (v.ranked ar cfg o)
    (scanned cfg v (v.ranked ar cfg o) s.pstate) p with hstayed | ⟨hjoins,heq⟩
  · rw [hstayed,stayed_entry,hscan]
    split
    · next hleaves => exact .leaves hleaves
    · exact .stays
  · rw [heq,hscan]
    rw [hscan] at hjoins
    exact .joins hjoins

variable (cfg) in
/-- The fallback marks one process or none. -/
theorem choose_entry (p : UInt32) : entry (v.choose ar cfg o now s).1 p =
      entry (v.processes ar cfg o now s) p ∨
    entry (v.choose ar cfg o now s).1 p =
      { entry (v.processes ar cfg o now s) p with member := true, joinedNs := now } := by
  have hchoose : v.choose ar cfg o now s = v.fallback ar cfg s.threadBudget o now
      (v.ranked ar cfg o) (v.processes ar cfg o now s)
      (v.handout ar cfg s.threadBudget o s.pinned (v.processes ar cfg o now s)) := rfl
  rw [hchoose]
  generalize v.ranked ar cfg o = ranked
  cases ranked with
  | nil => exact Or.inl rfl
  | cons top rest =>
    rw [View.fallback]
    split
    · by_cases hp : p ∈ (v.processes ar cfg o now s).known
      · by_cases htop : p = top
        · subst htop
          refine Or.inr ?_
          rw [entry,if_pos hp,entry,if_pos hp]
          exact Function.update_self ..
        · refine Or.inl ?_
          rw [entry,if_pos hp,entry,if_pos hp]
          exact Function.update_of_ne htop ..
      · refine Or.inl ?_
        rw [entry,if_neg hp,entry,if_neg hp]
    · exact Or.inl rfl

end Evaluate

/-! ## Runs -/

section Runs

variable [LinearOrder F]

/-- The counters of every process that is not pinned. -/
def Sys.Tracked (s : Sys F) : Prop := ∀ p, (entry s.sel.pstate p).pinnedProc = false →
  Tracks (s.seen p) (s.since p) s.clock (entry s.sel.pstate p)

omit [LinearOrder F] in
theorem startedSys_tracked : (startedSys F).Tracked := fun _ _ =>
  ⟨fun _ => rfl,fun _ => Or.inl (Nat.zero_le _),nofun,nofun⟩

omit [LinearOrder F] in
theorem pin_entry (env : Surroundings) (tgidOf : UInt32 → UInt32) (now : UInt64) (s : State F)
    (tid p : UInt32) (h : (entry (s.pin env tgidOf now tid).pstate p).pinnedProc = false) :
    entry (s.pin env tgidOf now tid).pstate p = entry s.pstate p := by
  rw [State.pin] at h ⊢
  split at h
  · next hskip => rw [if_pos hskip]
  · next hpin =>
    rw [if_neg hpin]
    dsimp only [State.addTarget] at h ⊢
    generalize (if tgidOf tid ≠ 0 then tgidOf tid else tid) = tgid at h ⊢
    by_cases hp : p = tgid
    · subst hp
      simp [entry] at h
    · simp [entry,hp]

omit [LinearOrder F] in
theorem applyPinned_entry (env : Surroundings) (tgidOf : UInt32 → UInt32) (now : UInt64)
    (cfg : Config F) (s : State F) (p : UInt32)
    (h : (entry (applyPinned env tgidOf now cfg s).pstate p).pinnedProc = false) :
    entry (applyPinned env tgidOf now cfg s).pstate p = entry s.pstate p := by
  rw [applyPinned] at h ⊢
  generalize cfg.pinned = tids at h ⊢
  induction tids generalizing s with
  | nil => rfl
  | cons tid tids ih =>
    have hrest := ih (s.pin env tgidOf now tid) h
    rw [List.foldl_cons] at h ⊢
    rw [hrest] at h ⊢
    exact pin_entry env tgidOf now s tid p h

theorem evaluate_pstate_of_none {env : Surroundings} {ar : Arith F} {cfg : Config F}
    {k : Readings} {o : Orders} {rows : List ProcessRow} {now : UInt64} {s : State F}
    (h : s.view? cfg k rows now = none) :
    (evaluate env ar cfg k o rows now s).pstate = s.pstate := by
  rw [evaluate_of_none h]

theorem evaluate_pstate_of_some {env : Surroundings} {ar : Arith F} {cfg : Config F}
    {k : Readings} {o : Orders} {rows : List ProcessRow} {now : UInt64} {s : State F} {v : View}
    (h : s.view? cfg k rows now = some v) :
    (evaluate env ar cfg k o rows now s).pstate = (v.choose ar cfg o now s).1 := by
  rw [evaluate_of_some h]
  obtain ⟨kernel,log,heq⟩ := evaluateView_eq env v ar cfg o now
    { s with history := slide now cfg.windowSeconds (s.history++[snapshot now k rows]) }
  rw [heq]
  rfl

theorem Sys.Tracked.evaluate {s : Sys F} (h : s.Tracked) (ar : Arith F) {env : Surroundings}
    {cfg : Config F} (hcfg : cfg.Sanitized) {k : Readings} {o : Orders} {rows : List ProcessRow}
    {now : UInt64} (hfresh : s.Fresh ar (.evaluate env cfg k o rows now)) :
    (s.step ar (.evaluate env cfg k o rows now)).Tracked := by
  obtain ⟨hclock,hfresh⟩ := hfresh
  intro p
  rw [Sys.step]
  cases hview : s.sel.view? cfg k rows now with
  | none =>
    dsimp only
    rw [evaluate_pstate_of_none hview]
    intro hpin
    have htrack := h p hpin
    refine ⟨htrack.idle,htrack.good,htrack.bad,fun hm => ?_⟩
    obtain ⟨hsince,hjoined⟩ := htrack.joined hm
    exact ⟨hsince,UInt64.le_trans hjoined hclock⟩
  | some v =>
    dsimp only
    rw [evaluate_pstate_of_some hview]
    have hverdict := processes_verdict v ar o now s.sel hcfg p
    intro hpin
    have hpin' : (entry s.sel.pstate p).pinnedProc = false := by
      rw [← hverdict.pinnedProc_eq]
      rcases choose_entry v ar cfg o now s.sel p with heq | heq
      · exact heq ▸ hpin
      · rw [heq] at hpin
        exact hpin
    have htrack := h p hpin'
    have hafter := htrack.verdict hpin' ((hfresh v hview).streaks p hpin') hclock hverdict
    rcases choose_entry v ar cfg o now s.sel p with heq | heq
    · rw [heq]
      exact hafter
    · rw [heq]
      exact htrack.fallback hclock hafter

theorem Sys.Tracked.step {s : Sys F} (h : s.Tracked) (ar : Arith F) (c : SanitizedCall F)
    (hfresh : s.Fresh ar c.1) : (s.step ar c.1).Tracked := by
  obtain ⟨c,hcfg⟩ := c
  cases c with
  | evaluate env cfg k o rows now => exact h.evaluate ar hcfg hfresh
  | probe cfg hw => exact h
  | kernel k => exact h
  | applyPinned env tgidOf now cfg =>
    intro p hpin
    have hkept := applyPinned_entry env tgidOf now cfg s.sel p hpin
    have htrack := h p (hkept ▸ hpin)
    change Tracks (s.seen p) (s.since p) s.clock
      (entry (applyPinned env tgidOf now cfg s.sel).pstate p)
    rwa [hkept]

theorem Sys.Tracked.rules {s : Sys F} (h : s.Tracked) (ar : Arith F) (c : SanitizedCall F)
    (hfresh : s.Fresh ar c.1) : s.Rules ar c.1 := by
  obtain ⟨c,hcfg⟩ := c
  cases c with
  | probe cfg hw => trivial
  | kernel k => trivial
  | applyPinned env tgidOf now cfg => trivial
  | evaluate env cfg k o rows now =>
    obtain ⟨hclock,hfresh⟩ := hfresh
    intro v hview
    rw [Option.mem_def] at hview
    have hverdict := processes_verdict v ar o now s.sel hcfg
    have hstep : s.step ar (.evaluate env cfg k o rows now) =
        { sel := TargetSelector.evaluate env ar cfg k o rows now s.sel
          seen := fun p => s.seen p++
            [observe cfg (rankOr (v.ranked ar cfg o) 0xFFFFFFFF p) (entry s.sel.pstate p)]
          since := fun p => sinceOf now (s.since p) (entry s.sel.pstate p)
            (entry (TargetSelector.evaluate env ar cfg k o rows now s.sel).pstate p)
          clock := now } := by
      rw [Sys.step]
      simp only [hview]
      rfl
    rw [hstep]
    constructor
    · intro p hpin hm hm'
      exact (h p hpin).joins hpin ((hfresh v hview).streaks p hpin) hm (hverdict p) hm'
    · intro p hpin hm hm'
      dsimp only at hm' ⊢
      rw [evaluate_pstate_of_some hview] at hm'
      rcases choose_entry v ar cfg o now s.sel p with heq | heq
      · exact (h p hpin).leaves hcfg hpin hclock hm (hverdict p) (heq ▸ hm')
      · rw [heq] at hm'
        cases hm'

/-- Every evaluation of a run keeps the rules, where the clock does not go back and no process
goes on with a good streak from before it was a member. -/
theorem rules_run (ar : Arith F) (calls : List (SanitizedCall F))
    (h : Along (fun s c => s.step ar c.1) (fun s c => s.Fresh ar c.1) (startedSys F) calls) :
    Along (fun s c => s.step ar c.1) (fun s c => s.Rules ar c.1) (startedSys F) calls :=
  (Along.of_invariant _ (fun _ c hI hC => hI.step ar c hC) (fun _ c hI hC => hI.rules ar c hC)
    calls _ startedSys_tracked h).1

end Runs

/-! ## A streak from before the fallback -/

/-- Two processes fit; two evaluations make a streak, and nobody has to stay. -/
def pairConfig : Config ℕ :=
  { soleConfig with
    maxTargets := 2
    windowSeconds := 1
    holdPeriods := 2
    minResidencySeconds := 0 }

theorem pairConfig_sanitized : pairConfig.Sanitized :=
  { soleConfig_sanitized with
    maxTargets := by decide
    minTargets := by decide
    windowSeconds := by decide
    holdPeriods := by decide
    minResidencySeconds := by decide }

/-- Processes 10 and 20 with one thread each, and the ticks that these have had. -/
def pair (a b : UInt64) : List ProcessRow :=
  [{ pid := 10, tgid := 10, utime := a },{ pid := 20, tgid := 20, utime := b }]

def evaluatePair (a b now : UInt64) : SanitizedCall ℕ :=
  ⟨.evaluate nowhere pairConfig idle ascendingOrders (pair a b) now,pairConfig_sanitized⟩

def probePair : SanitizedCall ℕ := ⟨.probe pairConfig ⟨4,0,0,32768⟩,pairConfig_sanitized⟩

theorem rules_run_fallback :
    Along (fun s c => s.step cpuTime c.1) (fun s c => s.Fresh cpuTime c.1) (startedSys ℕ)
        [probePair,evaluatePair 0 0 1000000000,evaluatePair 10 0 2000000000] ∧
      Along (fun s c => s.step cpuTime c.1) (fun s c => s.Rules cpuTime c.1) (startedSys ℕ)
        [probePair,evaluatePair 0 0 1000000000,evaluatePair 10 0 2000000000] := by
  have h : Along (fun s c => s.step cpuTime c.1) (fun s c => s.Fresh cpuTime c.1) (startedSys ℕ)
      [probePair,evaluatePair 0 0 1000000000,evaluatePair 10 0 2000000000] := by
    refine ⟨trivial,⟨by decide,fun v hv => by cases hv⟩,⟨by decide,fun v hv => ?_⟩,trivial⟩
    refine ⟨by decide,fun p _ _ hleft => ?_⟩
    obtain ⟨o,ho,-⟩ := hleft
    cases ho
  exact ⟨h,rules_run cpuTime _ h⟩

/-- The fallback takes process 10 after one good evaluation, two bad ones take it out again, and
after one more good one it joins. -/
theorem fallback_not_rules : ¬∀ calls : List (SanitizedCall ℕ),
    Along (fun s c => s.step cpuTime c.1) (fun s c => s.Rules cpuTime c.1) (startedSys ℕ)
      calls := by
  intro h
  obtain ⟨-,-,-,-,-,hrules,-⟩ := h [probePair,evaluatePair 0 0 1000000000,
    evaluatePair 10 0 2000000000,evaluatePair 10 20 3000000000,evaluatePair 10 40 4000000000,
    evaluatePair 60 40 5000000000]
  have hstreak := (hrules _ rfl).joins 10 (by decide +kernel) (by decide +kernel)
    (by decide +kernel)
  revert hstreak
  decide +kernel

end Hysteresis
end TargetSelector
end ETraceDiag
