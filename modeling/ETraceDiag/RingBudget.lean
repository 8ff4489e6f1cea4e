import ETraceDiag.FlightRecorder
import ETraceDiag.TargetBudget

/-!
# The thread budget and the recorder ring

`Probe` divides the slots of the ring by the ticks of the backlog. The records come from one
timer (`snap_tick`), or, where a program cannot read the slices of other CPUs, from one
perf-event sampler on every possible CPU (`snapshotter`, `OpenRecorderPerf`).
-/

namespace ETraceDiag
namespace RingBudget

open SeqRing FlightRecorder
open TargetSelector (Config Arith HardwareProbe)

/-! ## Ticks -/

/-- `RecorderPerCpu`: one summed record per target and tick, or one per target, CPU and tick. -/
inductive Mode
  | summed
  | perCpu (cpus : ℕ)

def Mode.producers : Mode → ℕ
  | .summed => 1
  | .perCpu cpus => cpus

structure Tick where
  producer : ℕ
  now : ℕ

/-- Each producer waits for the interval between two of its ticks. -/
structure Scheduled (m : Mode) (fineNs : ℕ) (ticks : List Tick) : Prop where
  ordered : ticks.Pairwise fun a b => a.now ≤ b.now
  producers : ∀ t ∈ ticks, t.producer < m.producers
  spaced : ticks.Pairwise fun a b => a.producer = b.producer → a.now+fineNs ≤ b.now

/-- The most ticks of one producer that a span holds. -/
def ticksIn (spanNs fineNs : ℕ) : ℕ := (spanNs+fineNs-1)/fineNs

def recent (now spanNs : ℕ) (t : Tick) : Bool := now < t.now+spanNs

theorem lt_ticksIn {fineNs spanNs k : ℕ} (hfine : 0 < fineNs) :
    k < ticksIn spanNs fineNs ↔ k*fineNs < spanNs := by
  rw [ticksIn,Nat.lt_div_iff_mul_lt hfine]
  omega

/-- The ticks of one producer lie at least `length-1` intervals apart. -/
theorem spaced_length {fineNs : ℕ} : ∀ {ticks : List Tick},
    ticks.Pairwise (fun a b => a.now+fineNs ≤ b.now) → ∀ {first last : ℕ},
    (∀ t ∈ ticks, first ≤ t.now ∧ t.now ≤ last) → ticks ≠ [] →
    first+(ticks.length-1)*fineNs ≤ last
  | [],_,_,_,_,hne => absurd rfl hne
  | [t],_,first,last,hin,_ => by
    have ht := hin t (by simp)
    simp only [List.length_singleton,Nat.sub_self,Nat.zero_mul]
    omega
  | t::u::ticks,hspaced,first,last,hin,_ => by
    have ht := hin t (by simp)
    rw [List.pairwise_cons] at hspaced
    have hrest : first+fineNs+((u::ticks).length-1)*fineNs ≤ last := spaced_length hspaced.2
      (fun w hw => ⟨by have := hspaced.1 w hw; omega,(hin w (by simp_all)).2⟩) (by simp)
    simp only [List.length_cons,Nat.add_sub_cancel] at hrest ⊢
    rw [Nat.succ_mul]
    omega

theorem spaced_recent {fineNs spanNs : ℕ} (now : ℕ) (hfine : 0 < fineNs) {ticks : List Tick}
    (hspaced : ticks.Pairwise fun a b => a.now+fineNs ≤ b.now)
    (hrecent : ∀ t ∈ ticks, t.now ≤ now ∧ now < t.now+spanNs) :
    ticks.length ≤ ticksIn spanNs fineNs := by
  cases hticks : ticks with
  | nil => exact Nat.zero_le _
  | cons t rest =>
    have hne : ticks ≠ [] := by simp [hticks]
    have hspan : now+1-spanNs+(ticks.length-1)*fineNs ≤ now := spaced_length hspaced
      (fun w hw => by have := hrecent w hw; omega) hne
    have ht := hrecent t (by simp [hticks])
    have hlt : ticks.length-1 < ticksIn spanNs fineNs := (lt_ticksIn hfine).mpr (by omega)
    rw [← hticks]
    omega

theorem countP_le_add {α : Type*} {p q r : α → Bool}
    (h : ∀ a, p a = true → q a = true ∨ r a = true) (l : List α) :
    l.countP p ≤ l.countP q+l.countP r := by
  induction l with
  | nil => simp
  | cons a l ih =>
    have ha := h a
    simp only [List.countP_cons]
    split <;> split <;> split <;> grind

theorem Scheduled.countP_recent {m : Mode} {fineNs : ℕ} {ticks : List Tick}
    (h : Scheduled m fineNs ticks) (hfine : 0 < fineNs) {now : ℕ} (hnow : ∀ t ∈ ticks, t.now ≤ now)
    (spanNs : ℕ) : ticks.countP (recent now spanNs) ≤ m.producers*ticksIn spanNs fineNs := by
  -- the ticks of the first `n` producers, by induction on `n`
  have hfirst : ∀ n, ticks.countP (fun t => recent now spanNs t && decide (t.producer < n)) ≤
      n*ticksIn spanNs fineNs := by
    intro n
    induction n with
    | zero => simp
    | succ n ih =>
      have hown : ticks.countP (fun t => recent now spanNs t && decide (t.producer = n)) ≤
          ticksIn spanNs fineNs := by
        rw [List.countP_eq_length_filter]
        refine spaced_recent now hfine ?_ fun t ht => ?_
        · refine (List.pairwise_filter.mpr ?_)
          refine h.spaced.imp fun hab ha hb => hab ?_
          simp only [Bool.and_eq_true,decide_eq_true_eq] at ha hb
          exact ha.2.trans hb.2.symm
        · simp only [List.mem_filter,Bool.and_eq_true,recent,decide_eq_true_eq] at ht
          exact ⟨hnow t ht.1,ht.2.1⟩
      have hsplit := countP_le_add (p:=fun t => recent now spanNs t && decide (t.producer < n+1))
        (q:=fun t => recent now spanNs t && decide (t.producer < n))
        (r:=fun t => recent now spanNs t && decide (t.producer = n)) (fun t ht => by
          simp only [Bool.and_eq_true,decide_eq_true_eq] at ht ⊢
          exact (Nat.lt_succ_iff_lt_or_eq.mp ht.2).imp (⟨ht.1,·⟩) (⟨ht.1,·⟩)) ticks
      rw [Nat.succ_mul]
      omega
  refine le_trans (le_of_eq (List.countP_congr fun t ht => ?_)) (hfirst m.producers)
  simp [h.producers t ht]

/-! ## The records in the ring -/

section Ring

variable {δ : Type} {c : Capacity}

/-- `rec_commit`, from the record number to the even stamp. -/
def recCommit (c : Capacity) (r : SeqRing.Ring (Snapshot δ)) (v : Snapshot δ) :
    SeqRing.Ring (Snapshot δ) :=
  ((r.start v).copy c.ix).commit c.ix

/-- What a tick writes before an episode: a record of every target. -/
def Tick.records (data : Tick → UInt32 → δ) (targets : List UInt32) (t : Tick) :
    List (Snapshot δ) :=
  targets.map fun tid => ⟨t.now,0,data t tid⟩

def produced (data : Tick → UInt32 → δ) (targets : List UInt32) (ticks : List Tick) :
    List (Snapshot δ) :=
  ticks.flatMap (Tick.records data targets)

def recorder (c : Capacity) (zero : δ) (data : Tick → UInt32 → δ) (targets : List UInt32)
    (ticks : List Tick) : SeqRing.Ring (Snapshot δ) :=
  (produced data targets ticks).foldl (recCommit c) (Ring.init ⟨0,0,zero⟩)

/-- Between two commits the ring is whole and everything is committed. -/
structure Whole (c : Capacity) (r : SeqRing.Ring (Snapshot δ)) (log : List (Snapshot δ)) :
    Prop where
  wf : r.Wf c.cap
  stage : r.stage = .idle
  items : r.items = log

theorem Whole.recCommit {r : SeqRing.Ring (Snapshot δ)} {log : List (Snapshot δ)}
    (h : Whole c r log) (v : Snapshot δ) : Whole c (recCommit c r v) (log++[v]) := by
  have hstart : r.start v = { r with stage := .started, items := r.items++[v] } := by
    simp [Ring.start,h.stage]
  have hitems : (r.start v).items = log++[v] := by rw [hstart,h.items]
  have hcopy : ((r.start v).copy c.ix).stage = .copied := by
    obtain ⟨w,-,hw⟩ := copy_eq (r:=r.start v) (by rw [hstart]) (by simp [Ring.head,hitems]) c.ix
    rw [hw]
  refine ⟨?_,?_,?_⟩
  · rw [RingBudget.recCommit,c.ix_eq_mod]
    exact wf_commit (wf_copy (wf_start h.wf v))
  · rw [RingBudget.recCommit,commit_eq hcopy]
  · rw [RingBudget.recCommit,items_commit,items_copy,hitems]

theorem whole_foldl (vs : List (Snapshot δ)) : ∀ {r : SeqRing.Ring (Snapshot δ)}
    {log : List (Snapshot δ)}, Whole c r log → Whole c (vs.foldl (recCommit c) r) (log++vs) := by
  induction vs with
  | nil => intro r log h; simpa using h
  | cons v vs ih =>
    intro r log h
    have hrest := ih (h.recCommit v)
    rwa [List.append_assoc] at hrest

theorem recorder_whole (zero : δ) (data : Tick → UInt32 → δ) (targets : List UInt32)
    (ticks : List Tick) :
    Whole c (recorder c zero data targets ticks) (produced data targets ticks) :=
  whole_foldl _ ⟨wf_init _ _,rfl,rfl⟩

theorem Whole.kept_iff {r : SeqRing.Ring (Snapshot δ)} {log : List (Snapshot δ)} (h : Whole c r log)
    {i : ℕ} {v : Snapshot δ} (hv : log[i]? = some v) :
    r.slots (c.ix i) = ⟨2*i,v⟩ ↔ log.length ≤ i+c.cap := by
  have hcopied : r.copied = log.length := by simp [Ring.copied,Ring.head,h.stage,h.items]
  have hcommitted : r.committed = log.length := by
    simp [Ring.committed,Ring.head,h.stage,h.items]
  have hlt : i < log.length := (List.getElem?_eq_some_iff.mp hv).1
  rw [c.ix_eq]
  refine ⟨fun hslot => ?_,fun hle => ?_⟩
  · by_contra hover
    refine seq_of_overwritten (Nat.lt_trans (by decide) c.cap_pos) h.wf (i:=i) (by omega) ?_
    rw [hslot]
  · exact slot_of_committed h.wf (by rw [h.items]; exact hv) (by omega) (by omega)

/-- At every moment the records of the last `backlogNs` are in the ring, with `budget` targets
and any times of the ticks. -/
def Protects (c : Capacity) (m : Mode) (fineNs backlogNs budget : ℕ) : Prop :=
  ∀ (δ : Type) (zero : δ) (data : Tick → UInt32 → δ) (targets : List UInt32), targets.Nodup →
    targets.length = budget → ∀ ticks, Scheduled m fineNs ticks → ∀ now,
      (∀ t ∈ ticks, t.now ≤ now) → ∀ (i : ℕ) (v : Snapshot δ),
        (produced data targets ticks)[i]? = some v → now < v.tsNs+backlogNs →
          (recorder c zero data targets ticks).slots (c.ix i) = ⟨2*i,v⟩

theorem countP_produced (data : Tick → UInt32 → δ) (targets : List UInt32) (now spanNs : ℕ)
    (ticks : List Tick) :
    (produced data targets ticks).countP (fun v => now < v.tsNs+spanNs) =
      targets.length*ticks.countP (recent now spanNs) := by
  induction ticks with
  | nil => simp [produced]
  | cons t ticks ih =>
    have ht : (t.records data targets).countP (fun v => now < v.tsNs+spanNs) =
        if recent now spanNs t then targets.length else 0 := by
      rw [Tick.records,List.countP_map]
      split
      · next h => exact List.countP_eq_length.mpr fun _ _ => h
      · next h => exact List.countP_eq_zero.mpr fun _ _ => h
    rw [produced,List.flatMap_cons,List.countP_append,← produced,ih,ht,List.countP_cons]
    split <;> simp [Nat.mul_add,Nat.add_comm]

theorem produced_ordered {m : Mode} {fineNs : ℕ} {ticks : List Tick}
    (h : Scheduled m fineNs ticks) (data : Tick → UInt32 → δ) (targets : List UInt32) :
    (produced data targets ticks).Pairwise fun v w => v.tsNs ≤ w.tsNs := by
  rw [produced,List.pairwise_flatMap]
  refine ⟨fun t _ => ?_,h.ordered.imp fun hab v hv w hw => ?_⟩
  · rw [Tick.records,List.pairwise_map]
    exact List.pairwise_of_forall fun _ _ => le_rfl
  · obtain ⟨_,-,rfl⟩ := List.mem_map.mp hv
    obtain ⟨_,-,rfl⟩ := List.mem_map.mp hw
    exact hab

/-- The ring has room for the most records that one backlog can hold. -/
theorem protects_of_le {m : Mode} {fineNs backlogNs budget : ℕ} (hfine : 0 < fineNs)
    (hfits : m.producers*(budget*ticksIn backlogNs fineNs) ≤ c.cap) :
    Protects c m fineNs backlogNs budget := by
  intro δ zero data targets _ hbudget ticks hticks now hnow i v hv hrecent
  rw [(recorder_whole zero data targets ticks).kept_iff hv]
  obtain ⟨hi,rfl⟩ := List.getElem?_eq_some_iff.mp hv
  -- from record `i` on everything is in the window
  have hafter : ∀ w ∈ (produced data targets ticks).drop i, now < w.tsNs+backlogNs := by
    intro w hw
    obtain ⟨j,hj,rfl⟩ := List.mem_iff_getElem.mp hw
    rw [List.getElem_drop]
    rcases Nat.eq_zero_or_pos j with rfl | hpos
    · exact hrecent
    · have hle := List.pairwise_iff_getElem.mp (produced_ordered hticks data targets) i (i+j) hi
        (by rw [List.length_drop] at hj; omega) (by omega)
      omega
  have hcount : (produced data targets ticks).length-i ≤
      targets.length*ticks.countP (recent now backlogNs) := by
    rw [← countP_produced data,← List.length_drop]
    rw [← List.countP_eq_length (p:=fun v => decide (now < v.tsNs+backlogNs))|>.mpr
      fun w hw => decide_eq_true (hafter w hw)]
    exact (List.drop_sublist i _).countP_le
  have hmost := Nat.mul_le_mul_left budget (hticks.countP_recent hfine hnow backlogNs)
  rw [hbudget] at hcount
  rw [Nat.mul_left_comm] at hmost
  omega

/-- All producers tick together, as fast as they may. -/
def together (producers fineNs n : ℕ) : List Tick :=
  (List.range n).flatMap fun k => (List.range producers).map fun p => ⟨p,k*fineNs⟩

theorem together_scheduled (m : Mode) (fineNs n : ℕ) :
    Scheduled m fineNs (together m.producers fineNs n) where
  ordered := by
    rw [together,List.pairwise_flatMap]
    refine ⟨fun k _ => ?_,List.pairwise_lt_range.imp fun hab v hv w hw => ?_⟩
    · rw [List.pairwise_map]
      exact List.pairwise_of_forall fun _ _ => le_rfl
    · obtain ⟨_,-,rfl⟩ := List.mem_map.mp hv
      obtain ⟨_,-,rfl⟩ := List.mem_map.mp hw
      exact Nat.mul_le_mul_right _ hab.le
  producers := by
    intro t ht
    obtain ⟨k,-,hk⟩ := List.mem_flatMap.mp ht
    obtain ⟨p,hp,rfl⟩ := List.mem_map.mp hk
    exact List.mem_range.mp hp
  spaced := by
    rw [together,List.pairwise_flatMap]
    refine ⟨fun k _ => ?_,List.pairwise_lt_range.imp fun hab v hv w hw _ => ?_⟩
    · rw [List.pairwise_map]
      exact List.pairwise_lt_range.imp fun hab heq => absurd heq hab.ne
    · obtain ⟨_,-,rfl⟩ := List.mem_map.mp hv
      obtain ⟨_,-,rfl⟩ := List.mem_map.mp hw
      have hsucc := Nat.mul_le_mul_right fineNs (Nat.succ_le_of_lt hab)
      rwa [Nat.succ_mul] at hsucc

theorem length_produced_together (data : Tick → UInt32 → δ) (targets : List UInt32)
    (producers fineNs n : ℕ) :
    (produced data targets (together producers fineNs n)).length =
      producers*(targets.length*n) := by
  simp [produced,together,Tick.records,List.length_flatMap]
  ring

theorem le_of_protects {m : Mode} {fineNs backlogNs budget : ℕ} (hfine : 0 < fineNs)
    (hbudget : budget < 2^32) (h : Protects c m fineNs backlogNs budget) :
    m.producers*(budget*ticksIn backlogNs fineNs) ≤ c.cap := by
  let targets := (List.range budget).map UInt32.ofNat
  have hlen : targets.length = budget := by simp [targets]
  have hnodup : targets.Nodup := by
    refine List.nodup_range.map_on fun a ha b hb hab => ?_
    have heq := congrArg UInt32.toNat hab
    rw [List.mem_range] at ha hb
    rwa [UInt32.toNat_ofNat_of_lt' (ha.trans hbudget),
      UInt32.toNat_ofNat_of_lt' (hb.trans hbudget)] at heq
  by_contra hover
  let ticks := together m.producers fineNs (ticksIn backlogNs fineNs)
  let data : Tick → UInt32 → Unit := fun _ _ => ()
  have htotal : (produced data targets ticks).length =
      m.producers*(budget*ticksIn backlogNs fineNs) := by
    rw [length_produced_together,hlen]
  obtain ⟨v,hv⟩ : ∃ v, (produced data targets ticks)[0]? = some v :=
    ⟨_,List.getElem?_eq_getElem (by have := c.cap_pos; omega)⟩
  -- the last of the ticks still has the first one in its window
  have hticks : 0 < ticksIn backlogNs fineNs := by
    refine Nat.pos_of_ne_zero fun hzero => hover ?_
    rw [hzero,Nat.mul_zero,Nat.mul_zero]
    exact Nat.zero_le _
  have hlast : (ticksIn backlogNs fineNs-1)*fineNs < backlogNs :=
    (lt_ticksIn hfine).mp (Nat.sub_lt hticks Nat.one_pos)
  have hnow : ∀ t ∈ ticks, t.now ≤ (ticksIn backlogNs fineNs-1)*fineNs := by
    intro t ht
    obtain ⟨k,hk,hp⟩ := List.mem_flatMap.mp ht
    obtain ⟨p,-,rfl⟩ := List.mem_map.mp hp
    exact Nat.mul_le_mul_right _ (Nat.le_sub_one_of_lt (List.mem_range.mp hk))
  have hslot := h Unit () data targets hnodup hlen ticks (together_scheduled m fineNs _) _ hnow 0 v
    hv (by omega)
  have hle := ((recorder_whole () data targets ticks).kept_iff hv).mp hslot
  omega

end Ring

/-! ## The budget -/

section Probe

variable {F : Type}

/-- The bounds that `Sanitize` puts on the two settings behind the ticks. -/
structure Paced (cfg : Config F) : Prop where
  fineIntervalMs : 10 ≤ cfg.fineIntervalMs ∧ cfg.fineIntervalMs ≤ 5000
  ringBacklogSeconds : 1 ≤ cfg.ringBacklogSeconds ∧ cfg.ringBacklogSeconds ≤ 3600

def fineNs (cfg : Config F) : ℕ := cfg.fineIntervalMs.toNat*1000000

def backlogNs (cfg : Config F) : ℕ := cfg.ringBacklogSeconds.toNat*1000000000

/-- `hw_.eff_cpus`. -/
def effCpus (hw : HardwareProbe) : UInt32 :=
  let eff := if hw.onlineCpus ≠ 0 then hw.onlineCpus else 1
  let eff := if hw.quotaCpus ≠ 0 ∧ hw.quotaCpus < eff then hw.quotaCpus else eff
  if hw.cpusetCpus ≠ 0 ∧ hw.cpusetCpus < eff then hw.cpusetCpus else eff

/-- The whole ticks of the backlog, and one if there is none. -/
def wholeTicks (cfg : Config F) : ℕ :=
  max 1 (cfg.ringBacklogSeconds.toNat*1000/cfg.fineIntervalMs.toNat)

/-- The ring takes the records of so many targets. -/
def Affords (cfg : Config F) (hw : HardwareProbe) (m : Mode) (targets : ℕ) : Prop :=
  m.producers*(targets*ticksIn (backlogNs cfg) (fineNs cfg)) ≤ hw.ringSlots.toNat

/-- One of the three bounds of the budget is small enough for the mode. -/
def Fits (ar : Arith F) (cfg : Config F) (hw : HardwareProbe) (m : Mode) : Prop :=
  Affords cfg hw m (ar.byConcurrency (effCpus hw) cfg.concurrencyFactor).toNat ∨
    Affords cfg hw m (hw.ringSlots.toNat/wholeTicks cfg) ∨ Affords cfg hw m cfg.maxTargets.toNat

theorem toNat_min (a b : UInt32) : (min a b).toNat = min a.toNat b.toNat := by
  change (if a ≤ b then a else b).toNat = _
  split
  · next h => exact (Nat.min_eq_left (UInt32.le_iff_toNat_le.mp h)).symm
  · next h =>
    rw [UInt32.le_iff_toNat_le] at h
    exact (Nat.min_eq_right (Nat.le_of_not_le h)).symm

theorem Paced.ticks {cfg : Config F} (h : Paced cfg) (slots : UInt32) :
    (slots/(if cfg.ringBacklogSeconds*1000/cfg.fineIntervalMs ≠ 0 then
      (cfg.ringBacklogSeconds*1000/cfg.fineIntervalMs).toUInt32 else 1)).toNat =
        slots.toNat/wholeTicks cfg := by
  have hf := UInt64.le_iff_toNat_le.mp h.fineIntervalMs.1
  have hb := UInt64.le_iff_toNat_le.mp h.ringBacklogSeconds.2
  change cfg.ringBacklogSeconds.toNat ≤ 3600 at hb
  change 10 ≤ cfg.fineIntervalMs.toNat at hf
  have hticks : (cfg.ringBacklogSeconds*1000/cfg.fineIntervalMs).toNat =
      cfg.ringBacklogSeconds.toNat*1000/cfg.fineIntervalMs.toNat := by
    rw [UInt64.toNat_div,UInt64.toNat_mul]
    congr 1
    exact Nat.mod_eq_of_lt (by change _*1000 < 2^64; omega)
  have hlt : cfg.ringBacklogSeconds.toNat*1000/cfg.fineIntervalMs.toNat < 2^32 :=
    (Nat.div_le_self _ _).trans_lt (by omega)
  rw [UInt32.toNat_div,wholeTicks]
  congr 1
  split
  · next hne =>
    have hpos : (cfg.ringBacklogSeconds*1000/cfg.fineIntervalMs).toNat ≠ 0 := fun hzero =>
      hne (UInt64.toNat_inj.mp hzero)
    rw [UInt64.toNat_toUInt32,hticks,Nat.mod_eq_of_lt hlt,Nat.max_eq_right (by omega)]
  · next hzero =>
    rw [not_ne_iff.mp hzero] at hticks
    rw [← hticks]
    rfl

/-- What `Probe` clamps. -/
def leastBound (ar : Arith F) (cfg : Config F) (hw : HardwareProbe) : UInt32 :=
  min (min (ar.byConcurrency (effCpus hw) cfg.concurrencyFactor)
    (hw.ringSlots/(if cfg.ringBacklogSeconds*1000/cfg.fineIntervalMs ≠ 0 then
      (cfg.ringBacklogSeconds*1000/cfg.fineIntervalMs).toUInt32 else 1))) cfg.maxTargets

theorem Paced.toNat_leastBound {cfg : Config F} (h : Paced cfg) (ar : Arith F)
    (hw : HardwareProbe) : (leastBound ar cfg hw).toNat =
      min (min (ar.byConcurrency (effCpus hw) cfg.concurrencyFactor).toNat
        (hw.ringSlots.toNat/wholeTicks cfg)) cfg.maxTargets.toNat := by
  rw [leastBound,toNat_min,toNat_min,h.ticks]

theorem ne_zero_of_le {a b : UInt64} (ha : a ≠ 0) (h : a ≤ b) : b ≠ 0 := by
  rintro rfl
  exact ha (UInt64.toNat_inj.mp (Nat.le_zero.mp (UInt64.le_iff_toNat_le.mp h)))

theorem Paced.probe_eq {cfg : Config F} (h : Paced cfg) (hauto : cfg.autoScale = true)
    (ar : Arith F) (hw : HardwareProbe) : ar.probe cfg hw =
      let budget := if leastBound ar cfg hw < cfg.minTargets then cfg.minTargets
        else leastBound ar cfg hw
      let budget := if cfg.maxTargets < budget then cfg.maxTargets else budget
      if budget ≠ 0 then budget else 1 := by
  have hfine : cfg.fineIntervalMs ≠ 0 := ne_zero_of_le (by decide) h.fineIntervalMs.1
  have hbacklog : cfg.ringBacklogSeconds ≠ 0 := ne_zero_of_le (by decide) h.ringBacklogSeconds.1
  rw [Arith.probe]
  simp only [hauto,if_true,if_pos hfine,if_pos hbacklog]
  rfl

/-- A budget above `min_targets` is the least of its three bounds. -/
theorem Paced.probe_of_lt {cfg : Config F} (hpaced : Paced cfg) (hcfg : cfg.Sanitized)
    (hauto : cfg.autoScale = true) {ar : Arith F} {hw : HardwareProbe}
    (hlt : cfg.minTargets < ar.probe cfg hw) : ar.probe cfg hw = leastBound ar cfg hw := by
  have hmax : ¬cfg.maxTargets < leastBound ar cfg hw := by
    rw [UInt32.lt_iff_toNat_lt,hpaced.toNat_leastBound,Nat.not_lt]
    exact Nat.min_le_right _ _
  have hone : ∀ n : UInt32, ¬n < cfg.minTargets → n ≠ 0 := by
    rintro n hn rfl
    exact hn (UInt32.lt_of_lt_of_le (by decide) hcfg.minTargets.1)
  rw [hpaced.probe_eq hauto] at hlt ⊢
  by_cases hlow : leastBound ar cfg hw < cfg.minTargets
  · have hfloor : ¬cfg.maxTargets < cfg.minTargets := UInt32.not_lt.mpr hcfg.minTargets.2
    simp only [if_pos hlow,if_neg hfloor,if_pos (hone _ (UInt32.lt_irrefl _))] at hlt
    exact absurd hlt (UInt32.lt_irrefl _)
  · simp only [if_neg hlow,if_neg hmax,if_pos (hone _ hlow)]

theorem affords_min {cfg : Config F} {hw : HardwareProbe} {m : Mode} {a b : ℕ} :
    Affords cfg hw m (min a b) ↔ Affords cfg hw m a ∨ Affords cfg hw m b := by
  have hmono : ∀ {x y}, x ≤ y → Affords cfg hw m y → Affords cfg hw m x := fun hxy hy =>
    (Nat.mul_le_mul_left _ (Nat.mul_le_mul_right _ hxy)).trans hy
  refine ⟨fun h => ?_,?_⟩
  · rcases Nat.le_total a b with hab | hab
    · exact .inl (Nat.min_eq_left hab ▸ h)
    · exact .inr (Nat.min_eq_right hab ▸ h)
  · rintro (h | h)
    · exact hmono (Nat.min_le_left a b) h
    · exact hmono (Nat.min_le_right a b) h

theorem Paced.fineNs_pos {cfg : Config F} (h : Paced cfg) : 0 < fineNs cfg := by
  have hf := UInt64.le_iff_toNat_le.mp h.fineIntervalMs.1
  change 10 ≤ cfg.fineIntervalMs.toNat at hf
  rw [fineNs]
  omega

theorem Paced.protects_iff {cfg : Config F} (h : Paced cfg) {hw : HardwareProbe} {c : Capacity}
    (hslots : hw.ringSlots.toNat = c.cap) (m : Mode) (budget : UInt32) :
    Protects c m (fineNs cfg) (backlogNs cfg) budget.toNat ↔ Affords cfg hw m budget.toNat := by
  rw [Affords,hslots]
  exact ⟨le_of_protects h.fineNs_pos budget.toNat_lt,protects_of_le h.fineNs_pos⟩

/-- A budget above `min_targets` protects the ring exactly when one of its bounds does. -/
theorem budget_protects_iff (ar : Arith F) {cfg : Config F} (hcfg : cfg.Sanitized)
    (hpaced : Paced cfg) (hauto : cfg.autoScale = true) {hw : HardwareProbe} {c : Capacity}
    (hslots : hw.ringSlots.toNat = c.cap) (hlt : cfg.minTargets < ar.probe cfg hw) (m : Mode) :
    Protects c m (fineNs cfg) (backlogNs cfg) (ar.probe cfg hw).toNat ↔ Fits ar cfg hw m := by
  rw [hpaced.protects_iff hslots,hpaced.probe_of_lt hcfg hauto hlt,hpaced.toNat_leastBound,
    affords_min,affords_min,or_assoc,Fits]

/-- The timer's records fit when the interval divides the backlog. -/
theorem fits_summed_of_dvd (ar : Arith F) {cfg : Config F} (hpaced : Paced cfg)
    (hdvd : cfg.fineIntervalMs.toNat ∣ cfg.ringBacklogSeconds.toNat*1000) (hw : HardwareProbe) :
    Fits ar cfg hw .summed := by
  have hf := UInt64.le_iff_toNat_le.mp hpaced.fineIntervalMs.1
  have hb := UInt64.le_iff_toNat_le.mp hpaced.ringBacklogSeconds.1
  change 10 ≤ cfg.fineIntervalMs.toNat at hf
  change 1 ≤ cfg.ringBacklogSeconds.toNat at hb
  obtain ⟨k,hk⟩ := hdvd
  have hkpos : 1 ≤ k := Nat.pos_of_ne_zero fun hzero => by
    rw [hzero,Nat.mul_zero] at hk
    omega
  have hwhole : wholeTicks cfg = k := by
    rw [wholeTicks,hk,Nat.mul_div_cancel_left _ (by omega),Nat.max_eq_right hkpos]
  have hticks : ticksIn (backlogNs cfg) (fineNs cfg) = k := by
    have hspan : backlogNs cfg = k*fineNs cfg := by
      rw [backlogNs,fineNs]
      calc cfg.ringBacklogSeconds.toNat*1000000000
          = cfg.ringBacklogSeconds.toNat*1000*1000000 := by ring
        _ = k*(cfg.fineIntervalMs.toNat*1000000) := by rw [hk]; ring
    refine Nat.le_antisymm ?_ ?_
    · refine Nat.le_of_not_lt fun hgt => ?_
      exact absurd ((lt_ticksIn hpaced.fineNs_pos).mp hgt) (by omega)
    · refine Nat.le_of_pred_lt ((lt_ticksIn hpaced.fineNs_pos).mpr ?_)
      rw [hspan]
      exact Nat.mul_lt_mul_of_pos_right (Nat.pred_lt (by omega)) hpaced.fineNs_pos
  refine .inr (.inl ?_)
  rw [Affords,hwhole,hticks,Mode.producers,Nat.one_mul]
  exact Nat.div_mul_le_self _ _

end Probe

/-! ## Eight CPUs with a sampler on each -/

/-- The defaults; the ring is empty before the sampler starts. -/
def defaultConfig : Config ℕ where
  maxTargets := 64
  autoScale := true
  minTargets := 4
  perProcThreads := 4
  concurrencyFactor := 2
  windowSeconds := 30
  enterRank := 12
  leaveRank := 20
  holdPeriods := 3
  minResidencySeconds := 10
  pinned := []
  weights := ⟨35,15,20,15,15⟩
  fineIntervalMs := 100
  ringBacklogSeconds := 90

theorem defaultConfig_sanitized : defaultConfig.Sanitized :=
  ⟨by decide,by decide,by decide,by decide,by decide,by decide,by decide,by decide⟩

theorem defaultConfig_paced : Paced defaultConfig := ⟨by decide,by decide⟩

/-- With whole numbers the scaled concurrency is their product. -/
def wholeFactor : Arith ℕ := ⟨fun cpus k => cpus*k.toUInt32,id,fun _ _ a => a.onCpuNs.toNat⟩

def eightCpus : HardwareProbe := ⟨8,0,0,32768⟩

theorem eightCpus_slots : eightCpus.ringSlots.toNat = Capacity.default.cap := by decide

/-- One summed record per target and tick: 16 targets and 900 ticks. -/
theorem budget_protects_summed :
    Protects .default .summed (fineNs defaultConfig) (backlogNs defaultConfig)
      (wholeFactor.probe defaultConfig eightCpus).toNat :=
  (budget_protects_iff wholeFactor defaultConfig_sanitized defaultConfig_paced rfl eightCpus_slots
    (by decide) .summed).mpr (.inl (by rw [Affords]; decide))

theorem perCpu_not_protects : ¬∀ (ar : Arith ℕ) (cfg : Config ℕ), cfg.Sanitized → Paced cfg →
    cfg.autoScale = true → ∀ (hw : HardwareProbe) (c : Capacity), hw.ringSlots.toNat = c.cap →
      cfg.minTargets < ar.probe cfg hw → ∀ m : Mode,
        Protects c m (fineNs cfg) (backlogNs cfg) (ar.probe cfg hw).toNat := by
  intro h
  have hprotects := h wholeFactor defaultConfig defaultConfig_sanitized defaultConfig_paced rfl
    eightCpus .default eightCpus_slots (by decide) (.perCpu 8)
  have hfits := (defaultConfig_paced.protects_iff eightCpus_slots _ _).mp hprotects
  revert hfits
  rw [Affords]
  decide

end RingBudget
end ETraceDiag
