import Mathlib.Algebra.Group.Nat.Defs
import Mathlib.Data.List.Basic
import Mathlib.Logic.Function.Basic

/-!
# The maps in the kernel

All maps of `bpf/etrace_common.h` as bytes to bytes, and what `EbpfManager` does to them when a
thread becomes a target or stops being one. A map call is handed the address of a key and reads
as many bytes from there as the keys of the map are long.
-/

namespace ETraceDiag
namespace KernelMaps

inductive MapName
  | targets | taskMeta
  | onCpuNs | switches | blockIo | faults | lockSt | sysSt | futexSt | runqSt | devIo
  | deepEnabled | ringHead | timerMap | snapshotCfg | recorder | scratch | memEvents | oomEvents
  | oomSeq | ratelimit | lastRunTs | curTid | armCmd | sampleRateCfg | ncpus
  | blkReq | wakeupTs | offcpuStash | sysStart | lockWait
  | sysLat | oncpuCount | offcpuTime | ioFile | ioStart | lockHot | offcpuStat | offcpuLastTs
  | offcpuFallback
  | sockOwner | netFlow | connectStart | netDrop | netSoftirq | rttLast | softirqEnterTs
  | stackmap
  deriving DecidableEq,Repr

def MapName.keySize : MapName → ℕ
  | .blkReq | .sysLat | .offcpuTime | .lockHot | .sockOwner | .netFlow | .netSoftirq
  | .rttLast => 8
  | .oncpuCount | .netDrop => 16
  | .ioFile => 272
  | _ => 4

/-- The maps whose key is a thread id. -/
def byTid : List MapName :=
  [.targets,.taskMeta,.onCpuNs,.switches,.blockIo,.faults,.lockSt,.sysSt,.futexSt,.runqSt,
   .wakeupTs,.offcpuStash,.sysStart,.lockWait,.ioStart,.offcpuStat,.offcpuLastTs,.connectStart]

/-- The bytes from an address on. -/
abbrev Memory := ℕ → UInt8

def Memory.read (mem : Memory) (n : ℕ) : List UInt8 := (List.range n).map mem

/-- A local `tid` and whatever lies behind it. -/
def Memory.atTid (tid : UInt32) (behind : Memory) : Memory := fun i =>
  if i < 4 then UInt8.ofNat (tid.toNat / 256^i) else behind (i-4)

def tidKey (tid : UInt32) : List UInt8 :=
  (List.range 4).map fun i => UInt8.ofNat (tid.toNat / 256^i)

abbrev Maps := MapName → List UInt8 → Option (List UInt8)

def setElem (m : MapName) (mem : Memory) (value : Option (List UInt8)) (k : Maps) : Maps :=
  Function.update k m (Function.update (k m) (mem.read m.keySize) value)

/-- `bpf_map_update_elem` with `BPF_ANY`, when it succeeds. -/
def updateElem (m : MapName) (mem : Memory) (value : List UInt8) : Maps → Maps :=
  setElem m mem (some value)

/-- `bpf_map_delete_elem`; there may be no such element. -/
def deleteElem (m : MapName) (mem : Memory) : Maps → Maps := setElem m mem none

/-- `EbpfManager::AddTarget`. -/
def addTarget (mem : Memory) (flags taskMeta : List UInt8) (k : Maps) : Maps :=
  updateElem .taskMeta mem taskMeta (updateElem .targets mem flags k)

/-- `EbpfManager::RemoveTarget`. -/
def removeTarget (mem : Memory) (k : Maps) : Maps :=
  deleteElem .taskMeta mem (deleteElem .targets mem k)

/-- The maps that `ResetTidCounters` names. -/
def resetMaps : List MapName :=
  [.onCpuNs,.switches,.blockIo,.faults,.lockSt,.sysSt,.futexSt,.runqSt,.wakeupTs,.offcpuStash,
   .offcpuLastTs,.sysStart,.ioStart,.connectStart,.sockOwner]

/-- `EbpfManager::ResetTidCounters`. -/
def resetTidCounters (mem : Memory) (k : Maps) : Maps :=
  resetMaps.foldl (fun k m => deleteElem m mem k) k

/-- What `TargetSelector::Leave` does to the maps. -/
def leave (mem : Memory) (k : Maps) : Maps := resetTidCounters mem (removeTarget mem k)

/-! ## Setting and deleting -/

theorem read_atTid (tid : UInt32) (behind : Memory) :
    (Memory.atTid tid behind).read 4 = tidKey tid := by
  refine List.map_congr_left fun i hi => ?_
  rw [Memory.atTid,if_pos (List.mem_range.mp hi)]

theorem tidKey_injective : Function.Injective tidKey := by
  intro s t h
  have hbyte : ∀ i < 4, s.toNat/256^i%256 = t.toNat/256^i%256 := by
    intro i hi
    have := List.map_inj_left.mp h i (List.mem_range.mpr hi)
    simpa using congrArg UInt8.toNat this
  have h0 := hbyte 0 (by decide)
  have h1 := hbyte 1 (by decide)
  have h2 := hbyte 2 (by decide)
  have h3 := hbyte 3 (by decide)
  have hs := s.toNat_lt
  have ht := t.toNat_lt
  refine UInt32.toNat.inj ?_
  omega

theorem setElem_apply (m : MapName) (mem : Memory) (value : Option (List UInt8)) (k : Maps)
    (n : MapName) (key : List UInt8) : setElem m mem value k n key =
      if n = m ∧ key = mem.read m.keySize then value else k n key := by
  by_cases hn : n = m
  · subst hn
    by_cases hkey : key = mem.read n.keySize
    · rw [setElem,Function.update_self,hkey,Function.update_self,if_pos ⟨rfl,rfl⟩]
    · rw [setElem,Function.update_self,Function.update_of_ne hkey,if_neg fun h => hkey h.2]
  · rw [setElem,Function.update_of_ne hn,if_neg fun h => hn h.1]

/-- Deleting from one map after the other deletes what the address holds in each of them. -/
theorem foldl_deleteElem (mem : Memory) (n : MapName) (key : List UInt8) (ms : List MapName) :
    ∀ k : Maps, ms.foldl (fun k m => deleteElem m mem k) k n key =
      if n ∈ ms ∧ key = mem.read n.keySize then none else k n key := by
  induction ms with
  | nil => intro k; simp
  | cons m ms ih =>
    intro k
    rw [List.foldl_cons,ih,deleteElem,setElem_apply]
    by_cases hn : n = m
    · subst hn
      by_cases hkey : key = mem.read n.keySize <;> simp [hkey]
    · simp [hn]

theorem leave_apply (mem : Memory) (k : Maps) (n : MapName) (key : List UInt8) :
    leave mem k n key = if n ∈ .targets::.taskMeta::resetMaps ∧ key = mem.read n.keySize
      then none else k n key := by
  have hfold : leave mem k =
      (.targets::.taskMeta::resetMaps).foldl (fun k m => deleteElem m mem k) k := rfl
  rw [hfold,foldl_deleteElem]

/-! ## Leaving resets one thread -/

/-- The maps by thread whose values add up or are half of a pair. -/
def perThread : List MapName :=
  [.onCpuNs,.switches,.blockIo,.faults,.lockSt,.sysSt,.futexSt,.runqSt,.wakeupTs,.offcpuStash,
   .offcpuLastTs,.sysStart,.ioStart,.connectStart,.lockWait]

/-- Nothing is left of the thread, and every entry under another key stays. -/
structure ResetsThread (tid : UInt32) (k after : Maps) : Prop where
  gone : ∀ m ∈ perThread, after m (tidKey tid) = none
  frame : ∀ m key, ¬ (m ∈ byTid ∧ key = tidKey tid) → after m key = k m key

theorem keySize_byTid : ∀ m ∈ byTid, m.keySize = 4 := by decide

theorem read_byTid {m : MapName} (hm : m ∈ byTid) (tid : UInt32) (behind : Memory) :
    (Memory.atTid tid behind).read m.keySize = tidKey tid := by
  rw [keySize_byTid m hm,read_atTid]

/-- A thread that waits for a lock leaves its wait behind, and a socket whose cookie happens to
lie at the address of the thread id goes with the thread. -/
theorem leave_resetsThread_iff (tid : UInt32) (behind : Memory) (k : Maps) :
    ResetsThread tid k (leave (.atTid tid behind) k) ↔
      k .lockWait (tidKey tid) = none ∧
      k .sockOwner ((Memory.atTid tid behind).read 8) = none := by
  constructor
  · intro h
    constructor
    · have hgone := h.gone .lockWait (by decide)
      rwa [leave_apply,if_neg fun h => absurd h.1 (by decide)] at hgone
    · have hframe := h.frame .sockOwner ((Memory.atTid tid behind).read 8)
        fun h => absurd h.1 (by decide)
      rwa [leave_apply,if_pos ⟨by decide,rfl⟩,eq_comm] at hframe
  · rintro ⟨hlock,hsock⟩
    refine ⟨fun m hm => ?_,fun m key hkey => ?_⟩
    · rw [leave_apply]
      by_cases hreset : m ∈ .targets::.taskMeta::resetMaps
      · have hby : m ∈ byTid := by
          revert m
          decide
        rw [if_pos ⟨hreset,(read_byTid hby tid behind).symm⟩]
      · have heq : m = .lockWait := by
          revert m
          decide
        rw [if_neg fun h => hreset h.1,heq,hlock]
    · rw [leave_apply]
      split
      · next hdel =>
        obtain ⟨hreset,rfl⟩ := hdel
        by_cases hby : m ∈ byTid
        · exact absurd ⟨hby,read_byTid hby tid behind⟩ hkey
        · have heq : m = .sockOwner := by
            clear hkey
            revert m
            decide
          rw [heq]
          exact hsock.symm
      · rfl

/-- A thread leaves while it waits for a lock. -/
def waiting : Maps :=
  updateElem .lockWait (.atTid 7 fun _ => 0) (List.replicate 24 0) fun _ _ => none

theorem waiting_not_resetsThread :
    ¬ ResetsThread 7 waiting (leave (.atTid 7 fun _ => 0) waiting) := by
  intro h
  have hgone := h.gone .lockWait (by decide)
  revert hgone
  decide

end KernelMaps
end ETraceDiag
