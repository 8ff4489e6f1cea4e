import ETraceDiag.CellLedger
import ETraceDiag.EpisodeMaps

/-!
# The ledger of syslat_account

What `sys_st`, `futex_st` and `sys_lat` hold after a sequence of calls of `syslat_account`,
on any processors: the sums over the calls that were accounted to an entry.
-/

namespace ETraceDiag
namespace LatencyLedger

open CellCounters CellLedger EpisodeMaps Transition

variable {β : Type}

/-- The arguments of `syslat_account`, and where it runs. -/
structure Call where
  env : Env
  tid : ℕ
  id : ℕ
  futexWait : Bool
  lat : ℕ
  ret : ℤ

def Call.stat (c : Call) : Stat := if c.futexWait then .futexSt else .sysSt

def step (s : State β) (c : Call) : State β :=
  s.syslatAccount c.env c.tid c.id c.futexWait c.lat c.ret

def empty (s : State β) : State β :=
  { s with stats := fun _ _ => none, sysLat := fun _ => none }

/-- The calls that are accounted to a thread in map `k`, on some processors. -/
def statCalls (k : Stat) (tid : ℕ) (C : Finset ℕ) (cs : List Call) : List Call :=
  cs.filter fun c => c.stat = k ∧ c.tid = tid ∧ c.env.cpu ∈ C

def sysCalls (tid id : ℕ) (C : Finset ℕ) (cs : List Call) : List Call :=
  cs.filter fun c => c.stat = .sysSt ∧ (c.tid,c.id) = (tid,id) ∧ c.env.cpu ∈ C

/-- The identity of the aggregates, on any processors alone and together: on one it is about a
slice, on all of them about the entry as user space reads it. -/
structure Accounted (cs : List Call) (s : State β) : Prop where
  stat : ∀ k tid C,
    cells C (s.stats k) tid .count = (statCalls k tid C cs).length ∧
    ∑ i, cells C (s.stats k) tid (.hist i) = (statCalls k tid C cs).length ∧
    cells C (s.stats k) tid .latSum % 2^64 = ((statCalls k tid C cs).map Call.lat).sum % 2^64
  sysLat : ∀ tid id C,
    cells C s.sysLat (tid,id) .count = (sysCalls tid id C cs).length ∧
    ∑ i, cells C s.sysLat (tid,id) (.hist i) = (sysCalls tid id C cs).length ∧
    cells C s.sysLat (tid,id) .latSum % 2^64 = ((sysCalls tid id C cs).map Call.lat).sum % 2^64 ∧
    cells C s.sysLat (tid,id) .errorCount = ((sysCalls tid id C cs).filter (·.ret < 0)).length
  ids : ∀ tid C (ids : Finset ℕ), (∀ c ∈ cs, c.id ∈ ids) →
    cells C (s.stats .sysSt) tid .count = ∑ id ∈ ids, cells C s.sysLat (tid,id) .count ∧
    cells C (s.stats .sysSt) tid .latSum % 2^64 =
      (∑ id ∈ ids, cells C s.sysLat (tid,id) .latSum) % 2^64

/-- The entries that the call needs are there or start from zeros, and their bins have room. -/
structure Fits (s : State β) (c : Call) : Prop where
  stat : Clean c.env.room c.env.z c.tid (s.stats c.stat)
  sysLat : c.futexWait = false → Clean c.env.room c.env.zSys (c.tid,c.id) s.sysLat
  statBin : ∀ i, slice (s.stats c.stat) c.tid c.env.cpu (.hist i)+latDelta c.lat (.hist i) < 2^32
  sysBin : c.futexWait = false → ∀ i,
    slice s.sysLat (c.tid,c.id) c.env.cpu (.hist i)+sysDelta c.lat c.ret (.hist i) < 2^32

/-! ## The charges -/

def Call.statCharge (c : Call) : Charge ℕ LatCell := ⟨c.tid,c.env.cpu,latDelta c.lat⟩

def Call.sysCharge (c : Call) : Charge (ℕ×ℕ) SysCell :=
  ⟨(c.tid,c.id),c.env.cpu,sysDelta c.lat c.ret⟩

def statCharges (k : Stat) (cs : List Call) : List (Charge ℕ LatCell) :=
  (cs.filter (·.stat = k)).map Call.statCharge

def sysCharges (cs : List Call) : List (Charge (ℕ×ℕ) SysCell) :=
  (cs.filter (·.stat = .sysSt)).map Call.sysCharge

theorem statCharges_concat (k : Stat) (cs : List Call) (c : Call) :
    statCharges k (cs++[c]) = statCharges k cs++if c.stat = k then [c.statCharge] else [] := by
  rw [statCharges,List.filter_append,List.map_append]
  by_cases h : c.stat = k <;> simp [statCharges,h]

theorem sysCharges_concat (cs : List Call) (c : Call) :
    sysCharges (cs++[c]) = sysCharges cs++if c.futexWait then [] else [c.sysCharge] := by
  rw [sysCharges,List.filter_append,List.map_append]
  cases h : c.futexWait <;> simp [sysCharges,Call.stat,h]

theorem chargesIn_statCharges (k : Stat) (cs : List Call) (tid : ℕ) (C : Finset ℕ) :
    chargesIn (statCharges k cs) tid C = (statCalls k tid C cs).map Call.statCharge := by
  rw [chargesIn,statCharges,List.filter_map,List.filter_filter,statCalls]
  congr 1
  refine List.filter_congr fun c _ => Bool.eq_iff_iff.mpr ?_
  simp only [Function.comp_apply,Bool.and_eq_true,decide_eq_true_eq]
  exact and_comm

theorem chargesIn_sysCharges (cs : List Call) (tid id : ℕ) (C : Finset ℕ) :
    chargesIn (sysCharges cs) (tid,id) C = (sysCalls tid id C cs).map Call.sysCharge := by
  rw [chargesIn,sysCharges,List.filter_map,List.filter_filter,sysCalls]
  congr 1
  refine List.filter_congr fun c _ => Bool.eq_iff_iff.mpr ?_
  simp only [Function.comp_apply,Bool.and_eq_true,decide_eq_true_eq]
  exact and_comm

theorem base4Bin_lt (ns : ℕ) : base4Bin ns < 13 := by
  simp only [base4Bin]
  split
  · omega
  · split <;> omega

theorem log2lBin_lt (v : ℕ) : log2lBin v < 64 := by
  simp only [log2lBin]
  split
  · omega
  · split <;> omega

theorem Call.binned_statCharge (c : Call) : Binned LatCell.hist c.statCharge :=
  sum_one_bin (base4Bin_lt c.lat)

theorem Call.binned_sysCharge (c : Call) : Binned SysCell.hist c.sysCharge :=
  sum_one_bin (log2lBin_lt c.lat)

theorem binned_statCharges (k : Stat) (cs : List Call) :
    ∀ x ∈ statCharges k cs, Binned LatCell.hist x ∧ x.amount .count = 1 := by
  intro x hx
  obtain ⟨c,_,rfl⟩ := List.mem_map.mp hx
  exact ⟨c.binned_statCharge,rfl⟩

theorem binned_sysCharges (cs : List Call) :
    ∀ x ∈ sysCharges cs, Binned SysCell.hist x ∧ x.amount .count = 1 := by
  intro x hx
  obtain ⟨c,_,rfl⟩ := List.mem_map.mp hx
  exact ⟨c.binned_sysCharge,rfl⟩

/-! ## What one call does -/

/-- The entries hold what the calls come to, and no bin has overflowed. -/
structure Ledger (cs : List Call) (s : State β) : Prop where
  stats : ∀ k, Records LatCell.width (s.stats k) (statCharges k cs)
  sysLat : Records SysCell.width s.sysLat (sysCharges cs)
  statBins : ∀ k i tid cpu, charged (statCharges k cs) tid cpu (.hist i) < 2^32
  sysBins : ∀ i key cpu, charged (sysCharges cs) key cpu (.hist i) < 2^32

theorem ledger_empty (s : State β) : Ledger [] (empty s) := by
  refine ⟨fun k => records_nil _,records_nil _,?_,?_⟩
  · simp [statCharges,charged,chargesOf]
  · simp [sysCharges,charged,chargesOf]

theorem step_stats (s : State β) (c : Call) : (step s c).stats = Function.update s.stats c.stat
    (account LatCell.width c.env.room c.env.z c.env.cpu c.tid (latDelta c.lat)
      (s.stats c.stat)) := by
  rw [step,State.syslatAccount,Call.stat]
  cases c.futexWait <;> rfl

theorem step_sysLat (s : State β) (c : Call) : (step s c).sysLat =
    if c.futexWait then s.sysLat
    else account SysCell.width c.env.room c.env.zSys c.env.cpu (c.tid,c.id)
      (sysDelta c.lat c.ret) s.sysLat := by
  rw [step,State.syslatAccount]
  cases c.futexWait <;> rfl

theorem Ledger.step {cs : List Call} {s : State β} (h : Ledger cs s) {c : Call}
    (hfits : Fits s c) : Ledger (cs++[c]) (LatencyLedger.step s c) := by
  refine ⟨fun k => ?_,?_,fun k i => ?_,fun i => ?_⟩
  · rw [step_stats,statCharges_concat]
    by_cases hk : c.stat = k
    · subst hk
      rw [if_pos rfl,Function.update_self]
      exact (h.stats _).account hfits.stat _ _
    · rw [if_neg hk,Function.update_of_ne (Ne.symm hk),List.append_nil]
      exact h.stats k
  · rw [step_sysLat,sysCharges_concat]
    cases hf : c.futexWait with
    | true =>
      rw [if_pos rfl,if_pos rfl,List.append_nil]
      exact h.sysLat
    | false => exact h.sysLat.account (hfits.sysLat hf) _ _
  · rw [statCharges_concat]
    by_cases hk : c.stat = k
    · subst hk
      rw [if_pos rfl]
      exact (h.stats _).lt_concat (h.statBins _ i) (hfits.statBin i)
    · rw [if_neg hk,List.append_nil]
      exact h.statBins k i
  · rw [sysCharges_concat]
    cases hf : c.futexWait with
    | true =>
      rw [if_pos rfl,List.append_nil]
      exact h.sysBins i
    | false => exact h.sysLat.lt_concat (h.sysBins i) (hfits.sysBin hf i)

theorem ledger_run (cs : List Call) : ∀ {done : List Call} {s : State β}, Ledger done s →
    Along step Fits s cs → Ledger (done++cs) (run step s cs) := by
  induction cs with
  | nil => intro done s h _; simpa using h
  | cons c cs ih =>
    intro done s h hfits
    have hrun := ih (h.step hfits.1) hfits.2
    rwa [List.append_assoc] at hrun

/-! ## The identity -/

theorem Ledger.stat {cs : List Call} {s : State β} (h : Ledger cs s) (k : Stat) (tid : ℕ)
    (C : Finset ℕ) :
    cells C (s.stats k) tid .count = (statCalls k tid C cs).length ∧
      ∑ i, cells C (s.stats k) tid (.hist i) = (statCalls k tid C cs).length ∧
      cells C (s.stats k) tid .latSum % 2^64 =
        ((statCalls k tid C cs).map Call.lat).sum % 2^64 := by
  have hbinned := fun x hx => (binned_statCharges k cs x hx).1
  have hcount := fun x hx => (binned_statCharges k cs x hx).2
  have hlen : (chargesIn (statCharges k cs) tid C).length = (statCalls k tid C cs).length := by
    rw [chargesIn_statCharges,List.length_map]
  have hwidth : ∑ i : Fin 13, 2^LatCell.width (.hist i) < 2^LatCell.width .count := by decide
  have hlt := fun i cpu => h.statBins k i tid cpu
  have hcells := (h.stats k).count_eq LatCell.hist hbinned hcount hwidth hlt C
  have hbins := (h.stats k).sum_bins_eq LatCell.hist hbinned hlt C
  have hsum := (h.stats k).cells_mod C tid .latSum
  rw [chargesIn_statCharges,List.map_map] at hsum
  exact ⟨hcells.trans hlen,hbins.trans hlen,hsum⟩

/-- Errors are calls. -/
theorem errors_le_count (cs : List Call) (key : ℕ×ℕ) (cpu : ℕ) :
    charged (sysCharges cs) key cpu .errorCount ≤ charged (sysCharges cs) key cpu .count := by
  refine List.sum_le_sum fun x hx => ?_
  obtain ⟨c,_,rfl⟩ := List.mem_map.mp (mem_of_mem_chargesOf hx)
  simp only [Call.sysCharge,sysDelta]
  split <;> omega

theorem sum_negative (cs : List Call) :
    (cs.map ((fun x : Charge (ℕ×ℕ) SysCell => x.amount .errorCount)∘Call.sysCharge)).sum =
      (cs.filter (·.ret < 0)).length := by
  induction cs with
  | nil => rfl
  | cons c cs ih =>
    rw [List.map_cons,List.sum_cons,ih]
    by_cases hret : c.ret < 0 <;> simp [Call.sysCharge,sysDelta,hret,Nat.add_comm]

theorem Ledger.sys {cs : List Call} {s : State β} (h : Ledger cs s) (tid id : ℕ)
    (C : Finset ℕ) :
    cells C s.sysLat (tid,id) .count = (sysCalls tid id C cs).length ∧
      ∑ i, cells C s.sysLat (tid,id) (.hist i) = (sysCalls tid id C cs).length ∧
      cells C s.sysLat (tid,id) .latSum % 2^64 =
        ((sysCalls tid id C cs).map Call.lat).sum % 2^64 ∧
      cells C s.sysLat (tid,id) .errorCount =
        ((sysCalls tid id C cs).filter (·.ret < 0)).length := by
  have hbinned := fun x hx => (binned_sysCharges cs x hx).1
  have hcount := fun x hx => (binned_sysCharges cs x hx).2
  have hlen : (chargesIn (sysCharges cs) (tid,id) C).length = (sysCalls tid id C cs).length := by
    rw [chargesIn_sysCharges,List.length_map]
  have hwidth : ∑ i : Fin 64, 2^SysCell.width (.hist i) < 2^SysCell.width .count := by decide
  have hlt := fun i cpu => h.sysBins i (tid,id) cpu
  have hcells := h.sysLat.count_eq SysCell.hist hbinned hcount hwidth hlt C
  have hbins := h.sysLat.sum_bins_eq SysCell.hist hbinned hlt C
  have hsum := h.sysLat.cells_mod C (tid,id) .latSum
  have herrors := h.sysLat.cells_eq (k:=(tid,id)) (c:=.errorCount) (fun cpu =>
    (errors_le_count cs (tid,id) cpu).trans_lt
      (charged_lt_of_bins SysCell.hist hbinned hcount hwidth fun i => hlt i cpu)) C
  rw [chargesIn_sysCharges,List.map_map] at hsum herrors
  exact ⟨hcells.trans hlen,hbins.trans hlen,hsum,herrors.trans (sum_negative _)⟩

theorem statCalls_cons (k : Stat) (tid : ℕ) (C : Finset ℕ) (c : Call) (cs : List Call) :
    statCalls k tid C (c::cs) =
      if c.stat = k ∧ c.tid = tid ∧ c.env.cpu ∈ C then c::statCalls k tid C cs
      else statCalls k tid C cs := by
  simp only [statCalls,List.filter_cons,decide_eq_true_eq]

theorem sysCalls_cons (tid id : ℕ) (C : Finset ℕ) (c : Call) (cs : List Call) :
    sysCalls tid id C (c::cs) =
      if c.stat = .sysSt ∧ (c.tid,c.id) = (tid,id) ∧ c.env.cpu ∈ C then c::sysCalls tid id C cs
      else sysCalls tid id C cs := by
  simp only [sysCalls,List.filter_cons,decide_eq_true_eq]

/-- Every call has its number, so the calls of a thread are those of its entries. -/
theorem sum_sysCalls {cs : List Call} {ids : Finset ℕ} (hids : ∀ c ∈ cs, c.id ∈ ids) (tid : ℕ)
    (C : Finset ℕ) (f : Call → ℕ) :
    ∑ id ∈ ids, ((sysCalls tid id C cs).map f).sum =
      ((statCalls .sysSt tid C cs).map f).sum := by
  induction cs with
  | nil => simp [sysCalls,statCalls]
  | cons c cs ih =>
    obtain ⟨hc,hcs⟩ := List.forall_mem_cons.mp hids
    have hrest := ih hcs
    rw [statCalls_cons]
    by_cases hon : c.stat = .sysSt ∧ c.tid = tid ∧ c.env.cpu ∈ C
    · have hsys : ∀ id, ((sysCalls tid id C (c::cs)).map f).sum =
          (if c.id = id then f c else 0)+((sysCalls tid id C cs).map f).sum := by
        intro id
        rw [sysCalls_cons]
        by_cases hid : c.id = id <;> simp [hon,hid]
      rw [if_pos hon,Finset.sum_congr rfl fun id _ => hsys id,Finset.sum_add_distrib,hrest,
        Finset.sum_ite_eq,if_pos hc,List.map_cons,List.sum_cons]
    · have hsys : ∀ id, sysCalls tid id C (c::cs) = sysCalls tid id C cs := by
        intro id
        rw [sysCalls_cons,if_neg]
        exact fun h => hon ⟨h.1,(Prod.mk.inj h.2.1).1,h.2.2⟩
      rw [if_neg hon,← hrest]
      exact Finset.sum_congr rfl fun id _ => congrArg (fun l => (l.map f).sum) (hsys id)

theorem Ledger.accounted {cs : List Call} {s : State β} (h : Ledger cs s) : Accounted cs s := by
  refine ⟨h.stat,h.sys,fun tid C ids hids => ⟨?_,?_⟩⟩
  · rw [(h.stat .sysSt tid C).1,Finset.sum_congr rfl fun id _ => (h.sys tid id C).1]
    simpa using (sum_sysCalls hids tid C fun _ => 1).symm
  · rw [(h.stat .sysSt tid C).2.2,← sum_sysCalls hids,Finset.sum_nat_mod]
    conv_rhs => rw [Finset.sum_nat_mod]
    rw [Finset.sum_congr rfl fun id _ => (h.sys tid id C).2.2.1]

/-- Where every entry starts from zeros and no bin overflows, the aggregates agree with each
other and with the calls. -/
theorem accounted_run (s : State β) (cs : List Call) (h : Along step Fits (empty s) cs) :
    Accounted cs (run step (empty s) cs) :=
  (ledger_run cs (ledger_empty s) h).accounted

/-- A call of thread 7: system call 1 took 300 ns and failed. -/
def failedWrite (z : LatCell → ℕ) : Call := ⟨{ cpu := 0, now := 0, z := z },7,1,false,300,-9⟩

theorem accounted_run_failedWrite :
    Along step Fits (empty ({} : State Unit)) [failedWrite 0] ∧
      Accounted [failedWrite 0] (run step (empty ({} : State Unit)) [failedWrite 0]) := by
  have h : Along step Fits (empty ({} : State Unit)) [failedWrite 0] :=
    ⟨⟨fun _ => ⟨rfl,rfl⟩,fun _ _ => ⟨rfl,rfl⟩,by decide,fun _ => by decide⟩,trivial⟩
  exact ⟨h,accounted_run _ _ h⟩

/-- The stack holds ones where `h_lat` takes `z` from: after one call `sys_st` counts two. -/
theorem dirtyStack_not_accounted :
    ¬∀ (s : State Unit) (cs : List Call), Accounted cs (run step (empty s) cs) := by
  intro h
  have hcount := ((h {} [failedWrite fun _ => 1]).stat .sysSt 7 {0}).1
  exact absurd hcount (by decide)

end LatencyLedger
end ETraceDiag
