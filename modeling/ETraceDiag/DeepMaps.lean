import ETraceDiag.BpfValues

/-!
# The maps of an episode

The maps that `DeepCollector::ResetEpisodeMaps` wipes, as `bpf/etrace_common.h` declares them:
their keys, the layout of their values and their capacity. Between two resets the programs
insert, change and delete entries.
-/

namespace ETraceDiag
namespace DeepMaps

open CursorMap MapReader BpfValues

structure SysLatKey where
  tid : UInt32
  id : UInt32
  deriving DecidableEq,Repr

structure OncpuKey where
  pid : UInt32
  tid : UInt32
  userSid : UInt32
  kernelSid : UInt32
  deriving DecidableEq,Repr

structure OffcpuKey where
  tid : UInt32
  ksid : UInt32
  deriving DecidableEq,Repr

/-- All bytes of the key tell entries apart: the four behind `dev` and those behind the end
of the path as well. -/
structure IoFileKey where
  dev : UInt32
  padding : UInt32
  ino : UInt64
  path : List UInt8
  deriving DecidableEq,Repr

structure NetDropKeyVal where
  netnsIno : UInt64
  ifindex : UInt32
  reasonId : UInt32
  deriving DecidableEq,Repr

structure NetSoftirqKeyVal where
  cpuIdx : UInt32
  vector : UInt32
  deriving DecidableEq,Repr

inductive EpisodeMap
  | sysLat
  | sysSt
  | futexSt
  | runqSt
  | oncpuCount
  | offcpuTime
  | offcpuStat
  | ioFile
  | ioStart
  | devIo
  | wakeupTs
  | offcpuStash
  | offcpuLastTs
  | sockOwner
  | connectStart
  | netFlow
  | netDrop
  | netSoftirq
  | rttLast
  deriving DecidableEq,Repr

@[reducible] def EpisodeMap.Key : EpisodeMap → Type
  | .sysLat => SysLatKey
  | .oncpuCount => OncpuKey
  | .offcpuTime => OffcpuKey
  | .ioFile => IoFileKey
  | .netDrop => NetDropKeyVal
  | .netSoftirq => NetSoftirqKeyVal
  | .sockOwner | .netFlow | .rttLast => UInt64
  | .sysSt | .futexSt | .runqSt | .offcpuStat | .ioStart | .devIo | .wakeupTs | .offcpuStash
  | .offcpuLastTs | .connectStart => UInt32

instance EpisodeMap.decidableEqKey : ∀ n : EpisodeMap, DecidableEq n.Key
  | .sysLat => inferInstanceAs (DecidableEq SysLatKey)
  | .oncpuCount => inferInstanceAs (DecidableEq OncpuKey)
  | .offcpuTime => inferInstanceAs (DecidableEq OffcpuKey)
  | .ioFile => inferInstanceAs (DecidableEq IoFileKey)
  | .netDrop => inferInstanceAs (DecidableEq NetDropKeyVal)
  | .netSoftirq => inferInstanceAs (DecidableEq NetSoftirqKeyVal)
  | .sockOwner | .netFlow | .rttLast => inferInstanceAs (DecidableEq UInt64)
  | .sysSt | .futexSt | .runqSt | .offcpuStat | .ioStart | .devIo | .wakeupTs | .offcpuStash
  | .offcpuLastTs | .connectStart => inferInstanceAs (DecidableEq UInt32)

def ioStartVal : ValueLayout := ⟨280,[⟨0,.u32⟩,⟨8,.u64⟩,⟨272,.u64⟩],by decide⟩

def offcpuStashVal : ValueLayout := ⟨16,[⟨0,.u64⟩,⟨8,.u32⟩,⟨12,.u32⟩],by decide⟩

def connectStartVal : ValueLayout := ⟨16,[⟨0,.u64⟩,⟨8,.u64⟩],lockHotVal.fits⟩

namespace SysLatVal

def count : Field := ⟨0,.u64⟩
def latSum : Field := ⟨8,.u64⟩
def errorCount : Field := ⟨16,.u64⟩

end SysLatVal

namespace LatStatVal13

def count : Field := ⟨0,.u64⟩
def latSum : Field := ⟨8,.u64⟩

end LatStatVal13

namespace IoFileVal

def bytes : Field := ⟨0,.u64⟩
def ops : Field := ⟨8,.u32⟩
def errors : Field := ⟨16,.u64⟩
def latSum : Field := ⟨24,.u64⟩

end IoFileVal

namespace BlockIoVal

def ops : Field := ⟨0,.u64⟩
def bytes : Field := ⟨8,.u64⟩
def latSum : Field := ⟨16,.u64⟩

end BlockIoVal

/-- A value that is one `u64`. -/
def U64Val : Field := ⟨0,.u64⟩

namespace SockOwnerVal

def tgid : Field := ⟨0,.u64⟩
def tid : Field := ⟨8,.u32⟩
def netnsIno : Field := ⟨16,.u64⟩
def family : Field := ⟨24,.u32⟩
def localAddr (i : ℕ) : Field := ⟨28+4*i,.u32⟩
def remoteAddr (i : ℕ) : Field := ⟨44+4*i,.u32⟩
def localPort : Field := ⟨60,.u32⟩
def remotePort : Field := ⟨64,.u32⟩
def startTs : Field := ⟨72,.u64⟩
def establishedTs : Field := ⟨80,.u64⟩
def txBytes : Field := ⟨88,.u64⟩
def rxBytes : Field := ⟨96,.u64⟩
def retrans : Field := ⟨104,.u64⟩
def rstReason : Field := ⟨112,.u32⟩
def rttCount : Field := ⟨120,.u64⟩
def rttSumUs : Field := ⟨128,.u64⟩

end SockOwnerVal

open SockOwnerVal in
def sockOwnerVal : ValueLayout :=
  ⟨136,[tgid,tid,netnsIno,family]++(List.range 4).map localAddr++(List.range 4).map remoteAddr++
    [localPort,remotePort,startTs,establishedTs,txBytes,rxBytes,retrans,rstReason,rttCount,
      rttSumUs],by decide⟩

def EpisodeMap.layout : EpisodeMap → ValueLayout
  | .sysLat => sysLatVal
  | .sysSt | .futexSt | .runqSt | .offcpuStat | .netSoftirq => latStatVal13
  | .oncpuCount | .offcpuTime | .wakeupTs | .offcpuLastTs | .netDrop | .rttLast => u64Val
  | .ioFile => ioFileVal
  | .ioStart => ioStartVal
  | .devIo => blockIoVal
  | .offcpuStash => offcpuStashVal
  | .sockOwner | .netFlow => sockOwnerVal
  | .connectStart => connectStartVal

def EpisodeMap.percpu : EpisodeMap → Bool
  | .sysLat | .sysSt | .futexSt | .runqSt | .offcpuStat | .ioFile | .devIo | .netDrop
  | .netSoftirq => true
  | .oncpuCount | .offcpuTime | .ioStart | .wakeupTs | .offcpuStash | .offcpuLastTs | .sockOwner
  | .connectStart | .netFlow | .rttLast => false

def EpisodeMap.maxEntries : EpisodeMap → ℕ
  | .sysLat | .oncpuCount | .ioFile | .sockOwner | .netFlow | .rttLast => 16384
  | .offcpuTime => 8192
  | .sysSt | .futexSt | .runqSt | .offcpuStat | .ioStart | .wakeupTs | .offcpuStash
  | .offcpuLastTs | .connectStart | .netDrop => 4096
  | .netSoftirq => 1024
  | .devIo => 256

/-- How many slots an entry has and how long each of them is. -/
def EpisodeMap.slots (n : EpisodeMap) (ncpus : ℕ) : ℕ := if n.percpu then ncpus else 1

def EpisodeMap.slotSize (n : EpisodeMap) : ℕ :=
  if n.percpu then roundUp8 n.layout.size else n.layout.size

def EpisodeMap.slice (n : EpisodeMap) (ncpus : ℕ) : MapSlice :=
  ⟨true,n.percpu,n.layout.size,ncpus⟩

/-- The value of an entry: its slots. -/
abbrev Slots := List (List UInt8)

structure EpisodeMap.Shaped (n : EpisodeMap) (ncpus : ℕ) (v : Slots) : Prop where
  slots_length : v.length = n.slots ncpus
  slot_length : ∀ s ∈ v, s.length = n.slotSize

/-- Entries that the map can hold. -/
structure EpisodeMap.Fits (n : EpisodeMap) (ncpus : ℕ) (es : Entries n.Key) : Prop where
  nodup : (keys es).Nodup
  bounded : es.length ≤ n.maxEntries
  shaped : ∀ e ∈ es, n.Shaped ncpus e.2

/-- What the maps hold. -/
structure EpisodeMaps (ncpus : ℕ) where
  entries : ∀ n : EpisodeMap, Entries n.Key
  fits : ∀ n : EpisodeMap, n.Fits ncpus (entries n)

variable {ncpus : ℕ}

theorem EpisodeMap.fits_nil (n : EpisodeMap) : n.Fits ncpus [] :=
  ⟨List.nodup_nil,Nat.zero_le _,by simp⟩

def EpisodeMaps.empty : EpisodeMaps ncpus := ⟨fun _ => [],fun n => n.fits_nil⟩

/-- One map is replaced. -/
def EpisodeMaps.set (ms : EpisodeMaps ncpus) (n : EpisodeMap) (es : Entries n.Key)
    (h : n.Fits ncpus es) : EpisodeMaps ncpus where
  entries := Function.update ms.entries n es
  fits m := by
    by_cases hm : m = n
    · subst hm
      rwa [Function.update_self]
    · rw [Function.update_of_ne hm]
      exact ms.fits m

@[simp] theorem EpisodeMaps.set_self (ms : EpisodeMaps ncpus) (n : EpisodeMap)
    (es : Entries n.Key) (h : n.Fits ncpus es) : (ms.set n es h).entries n = es :=
  Function.update_self ..

theorem EpisodeMaps.set_of_ne (ms : EpisodeMaps ncpus) {n m : EpisodeMap}
    (es : Entries n.Key) (h : n.Fits ncpus es) (hm : m ≠ n) :
    (ms.set n es h).entries m = ms.entries m :=
  Function.update_of_ne hm ..

@[ext] theorem EpisodeMaps.ext {a b : EpisodeMaps ncpus} (h : ∀ n, a.entries n = b.entries n) :
    a = b := by
  obtain ⟨ea,_⟩ := a
  obtain ⟨eb,_⟩ := b
  obtain rfl : ea = eb := funext h
  rfl

/-! ## ResetEpisodeMaps -/

theorem EpisodeMap.Fits.wipe {n : EpisodeMap} {es : Entries n.Key} (h : n.Fits ncpus es) :
    n.Fits ncpus (wipe es) := by
  rw [wipe_eq es h.nodup]
  refine ⟨?_,?_,fun e he => h.shaped e (List.mem_of_mem_drop he)⟩
  · rw [keys,List.map_drop]
    exact h.nodup.sublist (List.drop_sublist _ _)
  · rw [List.length_drop]
    exact (Nat.sub_le _ _).trans h.bounded

def resetNames : List EpisodeMap :=
  [.sysLat,.sysSt,.futexSt,.runqSt,.oncpuCount,.offcpuTime,.offcpuStat,.ioFile,.ioStart,.devIo,
    .wakeupTs,.offcpuStash,.offcpuLastTs,.sockOwner,.connectStart,.netFlow,.netDrop,.netSoftirq,
    .rttLast]

def EpisodeMaps.wipe (ms : EpisodeMaps ncpus) (n : EpisodeMap) : EpisodeMaps ncpus :=
  ms.set n (MapReader.wipe (ms.entries n)) (ms.fits n).wipe

def resetEpisodeMaps (ms : EpisodeMaps ncpus) : EpisodeMaps ncpus :=
  resetNames.foldl EpisodeMaps.wipe ms

theorem EpisodeMap.mem_resetNames (n : EpisodeMap) : n ∈ resetNames := by cases n <;> decide

theorem entries_foldl_wipe (names : List EpisodeMap) : ∀ (ms : EpisodeMaps ncpus),
    names.Nodup → ∀ n, (names.foldl EpisodeMaps.wipe ms).entries n =
      if n ∈ names then MapReader.wipe (ms.entries n) else ms.entries n := by
  induction names with
  | nil => intro ms _ n; rfl
  | cons name names ih =>
    intro ms hn n
    obtain ⟨hname,hnames⟩ := List.nodup_cons.mp hn
    rw [List.foldl_cons,ih _ hnames]
    by_cases h : n = name
    · subst h
      rw [if_neg hname,if_pos List.mem_cons_self,EpisodeMaps.wipe,EpisodeMaps.set_self]
    · simp only [List.mem_cons,h,false_or,EpisodeMaps.wipe,ms.set_of_ne _ _ h]

theorem entries_resetEpisodeMaps (ms : EpisodeMaps ncpus) (n : EpisodeMap) :
    (resetEpisodeMaps ms).entries n = MapReader.wipe (ms.entries n) := by
  rw [resetEpisodeMaps,entries_foldl_wipe resetNames ms (by decide),if_pos n.mem_resetNames]

/-- The maps that can hold more entries than `Wipe` deletes. -/
def largeMaps : List EpisodeMap :=
  [.sysLat,.oncpuCount,.ioFile,.sockOwner,.netFlow,.rttLast]

theorem EpisodeMap.maxEntries_le {n : EpisodeMap} (h : n ∉ largeMaps) :
    n.maxEntries ≤ kMaxWipeIterations := by
  cases n <;> first | decide | exact absurd (by decide) h

/-- A reset empties every map exactly when no large one is filled beyond the bound of the loop. -/
theorem resetEpisodeMaps_eq_empty_iff (ms : EpisodeMaps ncpus) :
    resetEpisodeMaps ms = EpisodeMaps.empty ↔
      ∀ n ∈ largeMaps, (ms.entries n).length ≤ kMaxWipeIterations := by
  constructor
  · intro h n _
    rw [← wipe_eq_nil_iff _ (ms.fits n).nodup,← entries_resetEpisodeMaps,h]
    rfl
  · intro h
    refine EpisodeMaps.ext fun n => ?_
    rw [entries_resetEpisodeMaps]
    refine (wipe_eq_nil_iff _ (ms.fits n).nodup).mpr ?_
    by_cases hn : n ∈ largeMaps
    · exact h n hn
    · exact (ms.fits n).bounded.trans (EpisodeMap.maxEntries_le hn)

/-! ## What the programs do to the maps -/

/-- A program looks a key up and writes, keeps or deletes the entry. -/
structure Update (ncpus : ℕ) where
  map : EpisodeMap
  key : map.Key
  write : Option Slots → Option Slots
  shaped : ∀ old, ∀ v ∈ write old, map.Shaped ncpus v

/-- A new key is refused by a full map; an LRU map makes room by a deletion beforehand. -/
def writeEntry {n : EpisodeMap} (es : Entries n.Key) (k : n.Key) : Option Slots → Entries n.Key
  | none => erase es k
  | some v =>
    if k ∈ keys es then es.map fun e => if e.1 = k then (k,v) else e
    else if es.length < n.maxEntries then es++[(k,v)] else es

theorem keys_replace {n : EpisodeMap} (es : Entries n.Key) (k : n.Key) (v : Slots) :
    keys (es.map fun e => if e.1 = k then (k,v) else e) = keys es := by
  rw [keys,List.map_map]
  refine List.map_congr_left fun e _ => ?_
  by_cases he : e.1 = k
  · simp [he]
  · simp [he]

theorem EpisodeMap.Fits.writeEntry {n : EpisodeMap} {es : Entries n.Key} (h : n.Fits ncpus es)
    (k : n.Key) {v : Option Slots} (hv : ∀ s ∈ v, n.Shaped ncpus s) :
    n.Fits ncpus (writeEntry es k v) := by
  cases v with
  | none =>
    refine ⟨?_,(List.length_filter_le _ _).trans h.bounded,fun e he => ?_⟩
    · exact h.nodup.sublist (List.filter_sublist.map _)
    · exact h.shaped e (List.mem_filter.mp he).1
  | some v =>
    simp only [DeepMaps.writeEntry]
    split
    · refine ⟨?_,by simpa using h.bounded,fun e he => ?_⟩
      · rw [keys_replace]
        exact h.nodup
      · obtain ⟨e',he',rfl⟩ := List.mem_map.mp he
        split
        · exact hv v rfl
        · exact h.shaped e' he'
    · rename_i hk
      split
      · rename_i hroom
        refine ⟨?_,?_,fun e he => ?_⟩
        · simp only [keys,List.map_append,List.map_cons,List.map_nil]
          exact List.nodup_append.mpr ⟨h.nodup,List.nodup_singleton _,by
            intro a ha b hb heq
            rw [List.mem_singleton.mp hb] at heq
            exact hk (heq ▸ ha)⟩
        · rw [List.length_append]
          exact hroom
        · rcases List.mem_append.mp he with he | he
          · exact h.shaped e he
          · rw [List.mem_singleton.mp he]
            exact hv v rfl
      · exact h

def EpisodeMaps.update (ms : EpisodeMaps ncpus) (u : Update ncpus) : EpisodeMaps ncpus :=
  ms.set u.map (writeEntry (ms.entries u.map) u.key (u.write (lookup (ms.entries u.map) u.key)))
    ((ms.fits u.map).writeEntry u.key (u.shaped _))

end DeepMaps
end ETraceDiag
