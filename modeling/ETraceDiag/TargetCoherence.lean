import ETraceDiag.TargetSelector
import Mathlib.Data.List.Chain

/-!
# The four places of a target

A watched thread is in the `targets` map, in `task_meta`, in `members_` and, unless it is
pinned, in the log. `Evaluate` replaces `members_` at its end and brings the other three after
it, one thread at a time.
-/

namespace ETraceDiag
namespace TargetSelector

open KernelMaps ProcessTable Transition

variable {F : Type}

/-! ## One thread -/

/-- What an event says about a thread: `true` when it joins. -/
def TargetsEvent.about (tid : UInt32) : TargetsEvent F → Option Bool
  | .join t _ _ _ => if t = tid then some true else none
  | .leave t _ => if t = tid then some false else none

def actions (tid : UInt32) (log : List (TargetsEvent F)) : List Bool :=
  log.filterMap (TargetsEvent.about tid)

/-- The last event of the thread is a join. -/
def Joined (tid : UInt32) (log : List (TargetsEvent F)) : Prop :=
  (actions tid log).getLast? = some true

/-- No two joins of a thread without a leave in between. -/
def Alternating (log : List (TargetsEvent F)) : Prop :=
  ∀ tid, (actions tid log).IsChain fun a b => ¬ (a = true ∧ b = true)

/-- The keys of a map by thread. -/
def Keys (k : Maps) (m : MapName) (tids : Finset UInt32) : Prop :=
  ∀ key, (k m key).isSome ↔ ∃ tid ∈ tids, tidKey tid = key

/-- The maps and the log are about these threads. -/
structure Tracks (tids : Finset UInt32) (s : State F) : Prop where
  targets : Keys s.kernel .targets tids
  taskMeta : Keys s.kernel .taskMeta tids
  members : ∀ tid, tid ∈ tids ↔ tid ∈ s.pinned ∨ Joined tid s.log
  joins : Alternating s.log

@[simp] theorem State.leave_pinned (env : Surroundings) (tgid : UInt32 → UInt32)
    (rank : UInt32 → ℕ) (s : State F) (tid : UInt32) :
    (s.leave env tgid rank tid).pinned = s.pinned := rfl

@[simp] theorem State.join_pinned (env : Surroundings) (tgid : UInt32 → UInt32)
    (score : UInt32 → F) (rank : UInt32 → ℕ) (s : State F) (tid : UInt32) :
    (s.join env tgid score rank tid).pinned = s.pinned := rfl

@[simp] theorem State.addTarget_log (env : Surroundings) (flags tid tgid : UInt32)
    (s : State F) : (s.addTarget env flags tid tgid).log = s.log := rfl

theorem addTarget_keys {k : Maps} {m : MapName} {tids : Finset UInt32} (h : Keys k m tids)
    (hm : m = .targets ∨ m = .taskMeta) (tid : UInt32) (behind : Memory)
    (flags comm : List UInt8) :
    Keys (KernelMaps.addTarget (.atTid tid behind) flags comm k) m (insert tid tids) := by
  have hread : ∀ n : MapName, n = .targets ∨ n = .taskMeta →
      (Memory.atTid tid behind).read n.keySize = tidKey tid := by
    rintro n (rfl | rfl) <;> exact read_atTid tid behind
  intro key
  rw [KernelMaps.addTarget,updateElem,updateElem,setElem_apply,setElem_apply,
    hread _ (Or.inl rfl),hread _ (Or.inr rfl),Finset.exists_mem_insert,← h key]
  by_cases hkey : key = tidKey tid
  · obtain rfl | rfl := hm <;> simp [hkey]
  · obtain rfl | rfl := hm <;> simp [hkey,Ne.symm hkey]

theorem leave_keys {k : Maps} {m : MapName} {tids : Finset UInt32} (h : Keys k m tids)
    (hm : m = .targets ∨ m = .taskMeta) (tid : UInt32) (behind : Memory) :
    Keys (KernelMaps.leave (.atTid tid behind) k) m (tids.erase tid) := by
  have hreset : m ∈ .targets::.taskMeta::resetMaps := by
    obtain rfl | rfl := hm <;> decide
  have hread : (Memory.atTid tid behind).read m.keySize = tidKey tid := by
    obtain rfl | rfl := hm <;> exact read_atTid tid behind
  intro key
  rw [leave_apply,hread]
  by_cases hkey : key = tidKey tid
  · rw [if_pos ⟨hreset,hkey⟩,hkey]
    refine iff_of_false Bool.false_ne_true ?_
    rintro ⟨t,ht,heq⟩
    exact (Finset.mem_erase.mp ht).1 (tidKey_injective heq)
  · rw [if_neg fun h => hkey h.2,h key]
    refine exists_congr fun t => and_congr_left fun heq => ?_
    rw [Finset.mem_erase]
    refine (and_iff_right ?_).symm
    rintro rfl
    exact hkey heq.symm

theorem actions_append (tid : UInt32) (log log' : List (TargetsEvent F)) :
    actions tid (log++log') = actions tid log++actions tid log' := List.filterMap_append

/-- One more event: about another thread it changes nothing. -/
theorem joined_concat {tid t : UInt32} {log : List (TargetsEvent F)} {e : TargetsEvent F}
    {b : Bool} (he : ∀ u, e.about u = if t = u then some b else none) :
    Joined tid (log++[e]) ↔ if t = tid then b = true else Joined tid log := by
  rw [Joined,Joined,actions_append]
  by_cases htid : t = tid
  · simp [actions,he,htid]
  · simp [actions,he,htid]

theorem alternating_concat {t : UInt32} {log : List (TargetsEvent F)} {e : TargetsEvent F}
    {b : Bool} (he : ∀ u, e.about u = if t = u then some b else none) (h : Alternating log)
    (hb : b = true → ¬ Joined t log) : Alternating (log++[e]) := by
  intro tid
  rw [actions_append]
  by_cases htid : t = tid
  · subst htid
    have hone : actions t [e] = [b] := by simp [actions,he]
    rw [hone,List.isChain_append]
    refine ⟨h t,List.isChain_singleton _,?_⟩
    intro a ha b' hb'
    rintro ⟨rfl,rfl⟩
    have hbtrue : b = true := by simpa using hb'
    exact hb hbtrue ha
  · have hnone : actions tid [e] = [] := by simp [actions,he,htid]
    rw [hnone,List.append_nil]
    exact h tid

theorem Tracks.leave {tids : Finset UInt32} {s : State F} (h : Tracks tids s)
    (env : Surroundings) (tgid : UInt32 → UInt32) (rank : UInt32 → ℕ) {tid : UInt32}
    (hpin : tid ∉ s.pinned) : Tracks (tids.erase tid) (s.leave env tgid rank tid) where
  targets := leave_keys h.targets (Or.inl rfl) tid _
  taskMeta := leave_keys h.taskMeta (Or.inr rfl) tid _
  members := by
    intro t
    have he : ∀ u, (TargetsEvent.leave (F:=F) tid (rank (tgid tid))).about u =
        if tid = u then some false else none := fun u => rfl
    rw [Finset.mem_erase,h.members t]
    refine Iff.trans ?_ (or_congr_right (joined_concat he).symm)
    by_cases htid : tid = t
    · subst htid
      simp [hpin]
    · simp [htid,Ne.symm htid]
  joins := alternating_concat (t:=tid) (b:=false) (fun u => rfl) h.joins fun hb => by cases hb

theorem Tracks.join {tids : Finset UInt32} {s : State F} (h : Tracks tids s)
    (env : Surroundings) (tgid : UInt32 → UInt32) (score : UInt32 → F) (rank : UInt32 → ℕ)
    {tid : UInt32} (htid : tid ∉ tids) :
    Tracks (insert tid tids) (s.join env tgid score rank tid) where
  targets := addTarget_keys h.targets (Or.inl rfl) tid _ _ _
  taskMeta := addTarget_keys h.taskMeta (Or.inr rfl) tid _ _ _
  members := by
    intro t
    have he : ∀ u, (TargetsEvent.join tid (tgid tid) (score tid) (rank (tgid tid))).about u =
        if tid = u then some true else none := fun u => rfl
    rw [Finset.mem_insert,h.members t]
    refine Iff.trans ?_ (or_congr_right (joined_concat he).symm)
    by_cases heq : tid = t
    · subst heq
      simp
    · simp [heq,Ne.symm heq]
  joins := by
    refine alternating_concat (t:=tid) (b:=true) (fun u => rfl) h.joins fun _ hj => htid ?_
    exact (h.members tid).mpr (Or.inr hj)

/-! ## Many threads -/

theorem Tracks.foldl_leave (env : Surroundings) (tgid : UInt32 → UInt32) (rank : UInt32 → ℕ)
    (leaving : List UInt32) : ∀ {tids : Finset UInt32} {s : State F}, Tracks tids s →
      (∀ tid ∈ leaving, tid ∉ s.pinned) →
      Tracks (tids \ leaving.toFinset) (leaving.foldl (State.leave env tgid rank) s) ∧
        (leaving.foldl (State.leave env tgid rank) s).pinned = s.pinned := by
  induction leaving with
  | nil => intro tids s h _; exact ⟨by simpa using h,rfl⟩
  | cons tid leaving ih =>
    intro tids s h hpin
    have hstep := h.leave env tgid rank (hpin tid (List.mem_cons_self ..))
    have hrest := ih hstep fun t ht => hpin t (List.mem_cons_of_mem _ ht)
    have hset : tids.erase tid \ leaving.toFinset = tids \ (tid::leaving).toFinset := by
      rw [List.toFinset_cons,Finset.erase_sdiff_comm,Finset.sdiff_insert]
    rw [← hset]
    exact hrest

theorem Tracks.foldl_join (env : Surroundings) (tgid : UInt32 → UInt32) (score : UInt32 → F)
    (rank : UInt32 → ℕ) (joining : List UInt32) : joining.Nodup →
    ∀ {tids : Finset UInt32} {s : State F}, Tracks tids s → (∀ tid ∈ joining, tid ∉ tids) →
      Tracks (joining.toFinset ∪ tids) (joining.foldl (State.join env tgid score rank) s) := by
  induction joining with
  | nil => intro _ tids s h _; simpa using h
  | cons tid joining ih =>
    intro hnd tids s h hnew
    obtain ⟨htid,hnd⟩ := List.nodup_cons.mp hnd
    have hstep := h.join env tgid score rank (hnew tid (List.mem_cons_self ..))
    have hrest := ih hnd hstep fun t ht hmem => by
      obtain rfl | hmem := Finset.mem_insert.mp hmem
      · exact htid ht
      · exact hnew t (List.mem_cons_of_mem _ ht) hmem
    have hset : joining.toFinset ∪ insert tid tids = (tid::joining).toFinset ∪ tids := by
      rw [List.toFinset_cons,Finset.union_insert,Finset.insert_union]
    rw [← hset]
    exact hrest

/-! ## One call -/

/-- The four places agree, and a pinned thread stays in. -/
structure Coherent (s : State F) : Prop where
  targets : Keys s.kernel .targets s.members
  taskMeta : Keys s.kernel .taskMeta s.members
  pinned : s.pinned ⊆ s.members
  members : ∀ tid, tid ∈ s.members ↔ tid ∈ s.pinned ∨ Joined tid s.log
  joins : Alternating s.log

theorem Coherent.tracks {s : State F} (h : Coherent s) : Tracks s.members s :=
  ⟨h.targets,h.taskMeta,h.members,h.joins⟩

theorem Tracks.coherent {s : State F} (h : Tracks s.members s) : Coherent s :=
  ⟨h.targets,h.taskMeta,fun tid htid => (h.members tid).mpr (Or.inl htid),h.members,h.joins⟩

theorem Coherent.pin {s : State F} (h : Coherent s) (env : Surroundings)
    (tgidOf : UInt32 → UInt32) (now : UInt64) (tid : UInt32) :
    Coherent (s.pin env tgidOf now tid) := by
  rw [State.pin]
  split
  · exact h
  · refine Tracks.coherent ⟨addTarget_keys h.targets (Or.inl rfl) tid _ _ _,
      addTarget_keys h.taskMeta (Or.inr rfl) tid _ _ _,fun t => ?_,h.joins⟩
    dsimp only [State.addTarget]
    rw [Finset.mem_insert,Finset.mem_insert,h.members t,or_assoc]

theorem Coherent.applyPinned {s : State F} (h : Coherent s) (env : Surroundings)
    (tgidOf : UInt32 → UInt32) (now : UInt64) (cfg : Config F) :
    Coherent (applyPinned env tgidOf now cfg s) := by
  rw [TargetSelector.applyPinned]
  induction cfg.pinned generalizing s with
  | nil => exact h
  | cons tid tids ih => exact ih (h.pin env tgidOf now tid)

theorem subset_placeFirst (budget : ℕ) (tids : List UInt32) : ∀ (take : ℕ)
    (desired : Finset UInt32), desired ⊆ placeFirst budget take desired tids := by
  induction tids with
  | nil => intro take desired; cases take <;> exact Finset.Subset.refl _
  | cons tid tids ih =>
    intro take desired
    cases take with
    | zero => exact Finset.Subset.refl _
    | succ take =>
      rw [placeFirst]
      split
      · exact Finset.Subset.refl _
      · exact (Finset.subset_insert tid desired).trans (ih take _)

section Evaluate

variable [LinearOrder F]

theorem View.subset_fallback (v : View) (ar : Arith F) (cfg : Config F) (threadBudget : UInt32)
    (o : Orders) (now : UInt64) (ranked : List UInt32) (t : Procs) (desired : Finset UInt32) :
    desired ⊆ (v.fallback ar cfg threadBudget o now ranked t desired).2 := by
  cases ranked with
  | nil => exact Finset.Subset.refl _
  | cons top ranked =>
    rw [View.fallback]
    split
    · exact subset_placeFirst _ _ _ _
    · exact Finset.Subset.refl _

/-- The pinned threads are among those that an evaluation ends up with. -/
theorem View.pinned_subset_choose (v : View) (ar : Arith F) (cfg : Config F) (o : Orders)
    (now : UInt64) (s : State F) : s.pinned ⊆ (v.choose ar cfg o now s).2 :=
  (Handout.subset_fill _ _ _ _ _).trans (v.subset_fallback ar cfg s.threadBudget o now _ _ _)

omit [LinearOrder F] in
/-- The difference to the members, thread by thread, ends at the threads that are wanted. -/
theorem Coherent.adopt {s : State F} (h : Coherent s) (env : Surroundings) (v : View)
    (ar : Arith F) (cfg : Config F) (o : Orders) (ranked : List UInt32)
    {desired : Finset UInt32} (hpin : s.pinned ⊆ desired) :
    Coherent (s.adopt env v ar cfg o ranked desired) := by
  let leaving := (o.members.enum s.members).filter (· ∉ desired)
  let joining := (o.desired.enum desired).filter (· ∉ s.members)
  have hleaving : leaving.toFinset = s.members \ desired := by
    ext tid
    simp [leaving,o.members.mem]
  have hjoining : joining.toFinset = desired \ s.members := by
    ext tid
    simp [joining,o.desired.mem]
  have hleave := h.tracks.foldl_leave env v.tgid (rankOr ranked 0) leaving fun tid htid hp =>
    absurd (hpin hp) (by simpa using (List.mem_filter.mp htid).2)
  have hjoin := hleave.1.foldl_join env v.tgid (v.threadScore ar cfg) (rankOr ranked 0) joining
    ((o.desired.nodup desired).filter _) fun tid htid hmem => by
      have hnew : tid ∉ s.members := by simpa using (List.mem_filter.mp htid).2
      exact hnew (Finset.mem_sdiff.mp hmem).1
  have hset : joining.toFinset ∪ (s.members \ leaving.toFinset) = desired := by
    rw [hleaving,hjoining,sdiff_sdiff_right_self,Finset.inf_eq_inter,Finset.inter_comm,
      Finset.sdiff_union_inter]
  rw [hset] at hjoin
  exact Tracks.coherent ⟨hjoin.targets,hjoin.taskMeta,hjoin.members,hjoin.joins⟩

theorem Coherent.evaluateView {s : State F} (h : Coherent s) (env : Surroundings) (v : View)
    (ar : Arith F) (cfg : Config F) (o : Orders) (now : UInt64) :
    Coherent (evaluateView env v ar cfg o now s) := by
  have hchosen : Coherent { s with pstate := (v.choose ar cfg o now s).1 } :=
    ⟨h.targets,h.taskMeta,h.pinned,h.members,h.joins⟩
  exact hchosen.adopt env v ar cfg o _ (v.pinned_subset_choose ar cfg o now s)

theorem Coherent.evaluate {s : State F} (h : Coherent s) (env : Surroundings) (ar : Arith F)
    (cfg : Config F) (k : Readings) (o : Orders) (rows : List ProcessRow) (now : UInt64) :
    Coherent (evaluate env ar cfg k o rows now s) := by
  rw [TargetSelector.evaluate]
  dsimp only
  split
  · refine Coherent.evaluateView ?_ env _ ar cfg o now
    exact ⟨h.targets,h.taskMeta,h.pinned,h.members,h.joins⟩
  · exact ⟨h.targets,h.taskMeta,h.pinned,h.members,h.joins⟩

/-! ## Runs -/

/-- What happens to a selector: its own calls, and the programs in the kernel, which fill all
maps but the two of the targets. -/
inductive Call (F : Type)
  | probe (cfg : Config F) (hw : HardwareProbe)
  | applyPinned (env : Surroundings) (tgidOf : UInt32 → UInt32) (now : UInt64) (cfg : Config F)
  | evaluate (env : Surroundings) (cfg : Config F) (k : Readings) (o : Orders)
      (rows : List ProcessRow) (now : UInt64)
  | kernel (k : Maps)

def step (ar : Arith F) (s : State F) : Call F → State F
  | .probe cfg hw => probe ar cfg hw s
  | .applyPinned env tgidOf now cfg => applyPinned env tgidOf now cfg s
  | .evaluate env cfg k o rows now => evaluate env ar cfg k o rows now s
  | .kernel k => { s with kernel := fun m =>
      if m = .targets ∨ m = .taskMeta then s.kernel m else k m }

/-- A selector that nobody has called yet; the maps are new. -/
def started (F : Type) : State F := { kernel := fun _ _ => none }

omit [LinearOrder F] in
theorem started_coherent : Coherent (started F) where
  targets := fun key => by simp [started]
  taskMeta := fun key => by simp [started]
  pinned := Finset.Subset.refl _
  members := fun tid => by simp [started,Joined,actions]
  joins := fun tid => List.isChain_nil

theorem Coherent.step {s : State F} (h : Coherent s) (ar : Arith F) (c : Call F) :
    Coherent (step ar s c) := by
  cases c with
  | probe cfg hw => exact ⟨h.targets,h.taskMeta,h.pinned,h.members,h.joins⟩
  | applyPinned env tgidOf now cfg => exact h.applyPinned env tgidOf now cfg
  | evaluate env cfg k o rows now => exact h.evaluate env ar cfg k o rows now
  | kernel k => exact ⟨h.targets,h.taskMeta,h.pinned,h.members,h.joins⟩

/-- Whatever the calls are, the four places of a target agree after each of them. -/
theorem run_coherent (ar : Arith F) (calls : List (Call F)) :
    Coherent (run (step ar) (started F) calls) := by
  suffices hrun : ∀ s, Coherent s → Coherent (run (step ar) s calls) from
    hrun _ started_coherent
  induction calls with
  | nil => exact fun s h => h
  | cons c calls ih => exact fun s h => ih _ (h.step ar c)

end Evaluate

end TargetSelector
end ETraceDiag
