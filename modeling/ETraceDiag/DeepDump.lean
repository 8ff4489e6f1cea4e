import ETraceDiag.DeepMaps
import ETraceDiag.EvidenceStore

/-!
# The dump at the end of an episode

`DeepCollector::DumpDeepMaps` walks the result maps and writes their entries to the DEEP tables
of the episode. Every row is kept together with the key whose callback wrote it.
-/

namespace ETraceDiag
namespace DeepDump

open CursorMap MapReader BpfValues DeepMaps SqlTable EvidenceStore

/-- The floating-point steps of the dump. -/
class DumpFloat (F : Type) extends Micros F where
  /-- `(u64)((double)total * q)`, `q` in percent. -/
  quantile : UInt64 → ℕ → UInt64
  /-- `(float)((double)ns / 1000.0)`. -/
  nsToUs : UInt64 → F
  /-- `(float)((double)sum / count / 1000.0)`. -/
  avgUs : UInt64 → UInt64 → F

variable {F : Type}

/-! ## Callbacks -/

def u64At (f : Field) (v : List UInt8) : UInt64 := UInt64.ofNat (f.read v)

def u32At (f : Field) (v : List UInt8) : UInt32 := UInt32.ofNat (f.read v)

def histAt (offset bins : ℕ) (v : List UInt8) : List UInt32 :=
  (hist offset bins).map fun f => u32At f v

/-- The bins until the accumulated count reaches the target. -/
def percentileLoop (factor target : UInt64) : UInt64 → UInt64 → List UInt32 → Option UInt64
  | _, _, [] => none
  | lo, acc, h::hist =>
    if target ≤ acc+h.toUInt64 then some lo
    else percentileLoop factor target (lo*factor) (acc+h.toUInt64) hist

def percentileUs [DumpFloat F] (hist : List UInt32) (baseNs factor : UInt64) (q : ℕ) : F :=
  let total := hist.foldl (fun t h => t+h.toUInt64) 0
  if total = 0 then Double.zero
  else
    let target := DumpFloat.quantile F total q
    let target := if target = 0 then 1 else target
    match percentileLoop factor target baseNs 0 hist with
    | some lo => DumpFloat.nsToUs lo
    | none => Double.zero

/-- What the dump reads besides the episode maps. -/
structure Env where
  taskMeta : List (UInt32 × UInt32 × List UInt8)
  stackmap : UInt32 → Option (List UInt64)
  resolve : UInt32 → List UInt64 → Bool → String
  kernelSym : UInt64 → String
  lockHot : List (UInt64 × UInt64 × UInt64)
  lockHotBase : UInt64 → Option UInt64

def charOf (b : UInt8) : Char := Char.ofNat b.toNat

theorem charOf_injective : Function.Injective charOf := by
  intro a b hab
  have hchar (c : UInt8) : (charOf c).toNat = c.toNat := by
    have hc := c.toNat_lt
    have hvalid : c.toNat.isValidChar := .inl (by omega)
    rw [charOf,Char.ofNat,dif_pos hvalid]
    rfl
  have h : (charOf a).toNat = (charOf b).toNat := by rw [hab]
  simpa only [hchar,UInt8.toNat_inj] using h

def sanitizeCommStr (comm : List UInt8) : String :=
  String.ofList (((comm.take 16).takeWhile (· ≠ 0)).map fun b =>
    if charOf b = ';' ∨ charOf b = '/' ∨ charOf b = ' ' ∨ charOf b = '\t' then '_' else charOf b)

def Env.tidTgid (env : Env) : UInt32 → Option UInt32 :=
  env.taskMeta.foldl (fun f e => Function.update f e.1 (some e.2.1)) fun _ => none

def Env.tidComm (env : Env) : UInt32 → Option String :=
  env.taskMeta.foldl (fun f e => Function.update f e.1 (some (sanitizeCommStr e.2.2)))
    fun _ => none

abbrev FoldCache := List (UInt64 × String)

def foldKey (sid : UInt32) (user : Bool) : UInt64 :=
  sid.toUInt64 <<< 2 ||| (if user then 2 else 0)

/-- The cache does not know the process. -/
def folded (env : Env) (cache : FoldCache) (sid pid : UInt32) (user : Bool) :
    String × FoldCache :=
  match cache.lookup (foldKey sid user) with
  | some out => (out,cache)
  | none =>
    let out := match env.stackmap sid with
      | some buf => env.resolve pid ((buf.take 127).takeWhile (· ≠ 0)) user
      | none => ""
    (out,(foldKey sid user,out)::cache)

def foldedRow (n : Int32) (kind frames : String) (value : UInt64) : Row F :=
  insert ["ordinal","kind","frames","value"]
    [bindOrdinal n,bindText kind,bindText frames,bindU64 value]

def offcpuRow (n : Int32) (tid tgid : UInt32) (comm : String) (dwellNs count : UInt64)
    (stackAvailable : Int64) : Row F :=
  insert ["ordinal","tid","tgid","comm","dwell_ns","count","stack_available"]
    [bindOrdinal n,bindU32 tid,bindU32 tgid,bindText comm,bindU64 dwellNs,bindU64 count,
      bindInt64 stackAvailable]

def ioDeviceRow [Double F] (n : Int32) (dev : UInt32) (ops bytes latSum : UInt64)
    (hist : List UInt32) (p50Us p99Us : F) : Row F :=
  insert ["ordinal","dev","ops","bytes","lat_sum","hist","p50_us","p99_us"]
    [bindOrdinal n,bindU32 dev,bindU64 ops,bindU64 bytes,bindU64 latSum,bindText (histJson hist),
      bindDouble p50Us,bindDouble p99Us]

/-- `sqlite3_bind_int(st,c,(int)x)`. -/
def bindInt (x : UInt32) : Value F := bindInt64 x.toInt32.toInt64

def netDropRow (n : Int32) (netnsIno : UInt64) (ifindex reasonId : UInt32) (reason : String)
    (count : UInt64) : Row F :=
  insert ["ordinal","netns_ino","ifindex","reason_id","reason","count"]
    [bindOrdinal n,bindU64 netnsIno,bindU32 ifindex,bindInt reasonId,bindText reason,
      bindU64 count]

def netSoftirqRow (n : Int32) (cpuIdx vector : UInt32) (vectorName : String)
    (count timeNs : UInt64) (hist : String) : Row F :=
  insert ["ordinal","cpu_idx","vector","vector_name","count","time_ns","hist"]
    [bindOrdinal n,bindU32 cpuIdx,bindInt vector,bindText vectorName,bindU64 count,
      bindU64 timeNs,bindText hist]

def bindBool (b : Bool) : Value F := bindInt64 (if b then 1 else 0)

open SockOwnerVal in
/-- `write_flow`. -/
def netFlowRow (n : Int32) (closed : Bool) (cookie : UInt64) (v : List UInt8) : Row F :=
  let addr (word : ℕ → Field) := u64At (word 0) v ||| u64At (word 1) v <<< 32
  let started := u64At startTs v
  let established := u64At establishedTs v
  let rtts := u64At rttCount v
  insert
    ["ordinal","cookie","tgid","tid","netns_ino","family","local_addr","local_port",
      "remote_addr","remote_port","final_state","start_ts_ns","established_ts_ns","end_ts_ns",
      "duration_us","connect_latency_us","tx_bytes","rx_bytes","retransmits","rst_reason",
      "rtt_count","rtt_avg_us","rtt_p50_us","rtt_p99_us","closed","owner_available","error"]
    [bindOrdinal n,bindU64 cookie,bindU32 (u64At tgid v).toUInt32,bindU32 (u32At tid v),
      bindU64 (u64At netnsIno v),bindU32 (u32At family v),bindU64 (addr localAddr),
      bindU32 (u32At localPort v),bindU64 (addr remoteAddr),bindU32 (u32At remotePort v),
      bindU32 0,bindU64 started,bindU64 established,bindU64 0,bindU64 0,
      bindU64 (if started < established then (established-started)/1000 else 0),
      bindU64 (u64At txBytes v),bindU64 (u64At rxBytes v),bindU64 (u64At retrans v),
      bindU32 (u32At rstReason v),bindU64 rtts,
      bindU64 (if rtts ≠ 0 then u64At rttSumUs v/rtts else 0),bindU64 0,bindU64 0,
      bindBool closed,bindBool (u32At tid v ≠ 0),bindText ""]

def dumpSyscall [DumpFloat F] (n : Int32) (k : SysLatKey) (v : List UInt8) : Row F :=
  let count := u64At SysLatVal.count v
  syscallRow n
    { tid := k.tid
      id := k.id
      count := count
      avgUs := if count ≠ 0 then DumpFloat.avgUs (u64At SysLatVal.latSum v) count else Double.zero
      p50Us := percentileUs (histAt 24 64 v) 1 2 50
      p99Us := percentileUs (histAt 24 64 v) 1 2 99
      errorCount := u64At SysLatVal.errorCount v }

/-- The process and the thread of a folded line. -/
def task (pid : UInt32) (pc : String) (tid : UInt32) (tc : String) : String :=
  "p:"++toString pid.toNat++"/"++pc++";t:"++toString tid.toNat++"/"++tc

def dumpOncpu (env : Env) (n : Int32) (cache : FoldCache) (k : OncpuKey) (v : List UInt8) :
    Row F × FoldCache :=
  let us := folded env cache k.userSid k.pid true
  let ks := folded env us.2 k.kernelSid k.pid false
  let line := task k.pid ((env.tidComm k.pid).getD "") k.tid ((env.tidComm k.tid).getD "")
  let line := if ks.1 ≠ "" then line++(";"++ks.1) else line
  let line := if us.1 ≠ "" then line++(";"++us.1) else line
  (foldedRow n "on_cpu" line (u64At U64Val v),ks.2)

def offcpuTask (env : Env) (tid : UInt32) : String :=
  match env.tidTgid tid with
  | some tgid =>
    let c := (env.tidComm tid).getD ""
    task tgid c tid c
  | none => "t:"++toString tid.toNat++"/"

def dumpOffcpuTime (env : Env) (n : Int32) (cache : FoldCache) (k : OffcpuKey)
    (v : List UInt8) : Row F × FoldCache :=
  let ks := folded env cache k.ksid k.tid false
  (foldedRow n "off_cpu" (offcpuTask env k.tid++";"++ks.1) (u64At U64Val v),ks.2)

def dumpOffcpuStat (env : Env) (n : Int32) (tid : UInt32) (v : List UInt8) : Row F :=
  offcpuRow n tid ((env.tidTgid tid).getD 0) ((env.tidComm tid).getD "")
    (u64At LatStatVal13.latSum v) (u64At LatStatVal13.count v) 0

/-- The episode's share of a lock, or nothing when nobody waited for it. -/
def dumpLock (env : Env) (n : Int32) (e : UInt64 × UInt64 × UInt64) :
    Option (UInt64 × Row F) :=
  let base := (env.lockHotBase e.1).getD 0
  let cnt := if base < e.2.1 then e.2.1-base else 0
  if cnt = 0 then none else some (e.1,lockRow n ⟨e.1,cnt,e.2.2,some (env.kernelSym e.1)⟩)

/-- The text a C string holds. -/
def cString (bytes : List UInt8) : String := String.ofList ((bytes.takeWhile (· ≠ 0)).map charOf)

def dumpIoFile [DumpFloat F] (n : Int32) (k : IoFileKey) (v : List UInt8) : Row F :=
  ioFileRow n
    { dev := k.dev
      ino := k.ino
      path := some (cString k.path)
      bytes := u64At IoFileVal.bytes v
      ops := u32At IoFileVal.ops v
      errors := u64At IoFileVal.errors v
      latSum := u64At IoFileVal.latSum v
      hist := some (histAt 32 13 v)
      p50Us := percentileUs (histAt 32 13 v) 256 4 50
      p99Us := percentileUs (histAt 32 13 v) 256 4 99 }

def dumpIoDevice [DumpFloat F] (n : Int32) (dev : UInt32) (v : List UInt8) : Row F :=
  ioDeviceRow n dev (u64At BlockIoVal.ops v) (u64At BlockIoVal.bytes v)
    (u64At BlockIoVal.latSum v) (histAt 24 13 v) (percentileUs (histAt 24 13 v) 256 4 50)
    (percentileUs (histAt 24 13 v) 256 4 99)

def dumpNetDrop (n : Int32) (k : NetDropKeyVal) (v : List UInt8) : Row F :=
  netDropRow n k.netnsIno k.ifindex k.reasonId "" (u64At U64Val v)

def dumpNetSoftirq (n : Int32) (k : NetSoftirqKeyVal) (v : List UInt8) : Row F :=
  netSoftirqRow n k.cpuIdx k.vector
    (if k.vector = 3 then "NET_RX" else if k.vector = 2 then "NET_TX" else "other")
    (u64At LatStatVal13.count v) (u64At LatStatVal13.latSum v) (histJson (histAt 16 13 v))

/-! ## DumpDeepMaps -/

/-- The rows of one episode, each with the key whose callback wrote it: for `deep_folded` a key
of `oncpu_count` or of `offcpu_time`, for `deep_net_flow` a closed or a live socket. -/
structure DeepTables (F : Type) where
  deepSyscall : List (SysLatKey × Row F) := []
  deepFolded : List ((OncpuKey ⊕ OffcpuKey) × Row F) := []
  deepOffcpu : List (UInt32 × Row F) := []
  deepLock : List (UInt64 × Row F) := []
  deepRunq : List (UInt32 × Row F) := []
  deepIofile : List (IoFileKey × Row F) := []
  deepIoDevice : List (UInt32 × Row F) := []
  deepNetFlow : List ((Bool × UInt64) × Row F) := []
  deepNetDrop : List (NetDropKeyVal × Row F) := []
  deepNetSoftirq : List (NetSoftirqKeyVal × Row F) := []

/-- An INSERT that is refused when a row of the table has the same primary key. -/
def writeUnique {σ : Type} [Double F] (cols : List String) (written : List (σ × Row F))
    (w : σ × Row F) : List (σ × Row F) :=
  if written.any (fun x => sameKey cols w.2 x.2) then written else written++[w]

/-- The rows of a loop whose callback resolves stacks. -/
def dumpFolded {κ : Type} (row : FoldCache → κ → List UInt8 → Row F × FoldCache) :
    FoldCache → List (κ × List UInt8) → List (κ × Row F) × FoldCache
  | cache, [] => ([],cache)
  | cache, c::calls =>
    let r := row cache c.1 c.2
    let rest := dumpFolded row r.2 calls
    ((c.1,r.1)::rest.1,rest.2)

variable {ncpus : ℕ}

/-- The callback invocations of `ForEach` on a map. -/
def forEachOf (ms : EpisodeMaps ncpus) (n : EpisodeMap) : List (n.Key × List UInt8) :=
  (n.slice ncpus).forEach (ms.entries n)

/-- `ForEach` with a callback that writes one row. -/
def rowsOf {κ σ : Type} (src : κ → σ) (row : κ → List UInt8 → Row F)
    (calls : List (κ × List UInt8)) : List (σ × Row F) :=
  calls.map fun c => (src c.1,row c.1 c.2)

/-- The episode is new: its tables are empty, and `fold_cache_` was cleared by `Enter`. -/
def dumpDeepMaps [DumpFloat F] (env : Env) (n : Int32) (ms : EpisodeMaps ncpus) :
    DeepTables F :=
  let oncpu := dumpFolded (dumpOncpu env n) [] (forEachOf ms .oncpuCount)
  let offcpu := dumpFolded (dumpOffcpuTime env n) oncpu.2 (forEachOf ms .offcpuTime)
  { deepSyscall := rowsOf id (dumpSyscall n) (forEachOf ms .sysLat)
    deepFolded := oncpu.1.map (Prod.map Sum.inl id)++offcpu.1.map (Prod.map Sum.inr id)
    deepOffcpu := (rowsOf id (dumpOffcpuStat env n) (forEachOf ms .offcpuStat)).foldl
      (writeUnique ["ordinal","tid"]) []
    deepLock := env.lockHot.filterMap (dumpLock env n)
    deepIofile := rowsOf id (dumpIoFile n) (forEachOf ms .ioFile)
    deepIoDevice := (rowsOf id (dumpIoDevice n) (forEachOf ms .devIo)).foldl
      (writeUnique ["ordinal","dev"]) []
    deepNetFlow :=
      (rowsOf (Prod.mk false) (netFlowRow n false) (forEachOf ms .sockOwner)).foldl
        (writeUnique ["ordinal","cookie"])
        ((rowsOf (Prod.mk true) (netFlowRow n true) (forEachOf ms .netFlow)).foldl
          (writeUnique ["ordinal","cookie"]) [])
    deepNetDrop := (rowsOf id (dumpNetDrop n) (forEachOf ms .netDrop)).foldl
      (writeUnique ["ordinal","netns_ino","ifindex","reason_id"]) []
    deepNetSoftirq := (rowsOf id (dumpNetSoftirq n) (forEachOf ms .netSoftirq)).foldl
      (writeUnique ["ordinal","cpu_idx","vector"]) [] }

/-- The rows land behind what is stored already. -/
def DeepTables.store (t : DeepTables F) (db : Db F) : Db F :=
  { db with
    deepSyscall := db.deepSyscall++t.deepSyscall.map Prod.snd
    deepLock := db.deepLock++t.deepLock.map Prod.snd
    deepRunq := db.deepRunq++t.deepRunq.map Prod.snd
    deepIofile := db.deepIofile++t.deepIofile.map Prod.snd }

/-! ## What a key yields -/

/-- The counters of an entry and the columns that hold them. -/
def counts : EpisodeMap → List (Field × String)
  | .sysLat => [(SysLatVal.count,"count")]
  | .oncpuCount | .offcpuTime => [(U64Val,"value")]
  | .runqSt | .offcpuStat | .netSoftirq => [(LatStatVal13.count,"count")]
  | .ioFile => [(IoFileVal.ops,"ops")]
  | .devIo => [(BlockIoVal.ops,"ops")]
  | .sockOwner | .netFlow =>
    [(SockOwnerVal.txBytes,"tx_bytes"),(SockOwnerVal.rxBytes,"rx_bytes"),
      (SockOwnerVal.retrans,"retransmits"),(SockOwnerVal.rttCount,"rtt_count")]
  | .netDrop => [(U64Val,"count")]
  | .sysSt | .futexSt | .ioStart | .wakeupTs | .offcpuStash | .offcpuLastTs | .connectStart
  | .rttLast => []

/-- A counter summed over the slots, in the type of its field. -/
def count (f : Field) (v : Slots) : ℕ := (v.map f.read).sum % f.type.modulus

def Counted (n : EpisodeMap) (v : Slots) : Prop := ∃ c ∈ counts n, count c.1 v ≠ 0

/-- Every key that was counted has written exactly one row, which carries the key and its
counters. -/
def EachYieldsOne {σ : Type} [DecidableEq σ] [Double F] (n : EpisodeMap) (es : Entries n.Key)
    (src : n.Key → σ) (carries : n.Key → Row F → Prop) (table : List (σ × Row F)) : Prop :=
  ∀ e ∈ es, Counted n e.2 → ∃ row, table.filter (·.1 = src e.1) = [(src e.1,row)] ∧
    carries e.1 row ∧ ∀ c ∈ counts n, key c.2 row = (UInt64.ofNat (count c.1 e.2)).toInt64

/-- The value the callback sees. -/
def delivered (n : EpisodeMap) (ncpus : ℕ) (v : Slots) : List UInt8 :=
  (n.slice ncpus).callbackValue v.flatten

/-- No carry is lost when the slots of the CPUs are added byte by byte. -/
def Exact (n : EpisodeMap) (f : Field) (v : Slots) : Prop :=
  n.percpu = true →
    256^(f.type.width-1) ∣ DigitSum.lostCarry 256 (DigitSum.columns f.type.width (v.map f.digits))

theorem counts_fields (n : EpisodeMap) : ∀ c ∈ counts n, c.1 ∈ n.layout.fields := by
  cases n <;> decide

theorem forEachOf_eq (ms : EpisodeMaps ncpus) (n : EpisodeMap) :
    forEachOf ms n = (ms.entries n).map fun e => (e.1,delivered n ncpus e.2) :=
  forEach_eq (n.slice ncpus) rfl (ms.entries n) (ms.fits n).nodup

/-- A per-CPU map of the episode. -/
def percpuMap (ms : EpisodeMaps ncpus) (n : EpisodeMap) (h : n.percpu = true) :
    PercpuMap n.Key n.layout ncpus where
  entries := ms.entries n
  nodup := (ms.fits n).nodup
  slots_length e he := by
    have hlen := ((ms.fits n).shaped e he).slots_length
    rwa [EpisodeMap.slots,if_pos h] at hlen
  slot_length e he s hs := by
    have hlen := ((ms.fits n).shaped e he).slot_length s hs
    rwa [EpisodeMap.slotSize,if_pos h] at hlen

theorem read_lt_width (f : Field) (v : List UInt8) : f.read v < 256^f.type.width := by
  refine (Nat.ofDigits_lt_base_pow_length (by decide) Field.digits_lt).trans_le
    (Nat.pow_le_pow_right (by decide) ?_)
  simp [Field.digits]

theorem read_lt_word (f : Field) (v : List UInt8) : f.read v < 2^64 := by
  refine (read_lt_width f v).trans_le ?_
  cases f.type <;> decide

theorem count_lt (f : Field) (v : Slots) : count f v < 2^64 := by
  have hle : f.type.modulus ≤ 2^64 := by cases f.type <;> decide
  have hpos : 0 < f.type.modulus := by cases f.type <;> decide
  exact (Nat.mod_lt _ hpos).trans_le hle

theorem read_delivered_iff (ms : EpisodeMaps ncpus) {n : EpisodeMap} {e : n.Key × Slots}
    (he : e ∈ ms.entries n) {f : Field} (hf : f ∈ n.layout.fields) :
    f.read (delivered n ncpus e.2) = count f e.2 ↔ Exact n f e.2 := by
  by_cases hp : n.percpu = true
  · have hvalue : delivered n ncpus e.2 =
        (percpuMap ms n hp).slice.sumCpus e.2.flatten := by
      simp [delivered,MapSlice.callbackValue,EpisodeMap.slice,PercpuMap.slice,hp]
    have hiff := (percpuMap ms n hp).read_sumCpus_iff he hf
    rw [hvalue,Exact,forall_prop_of_true hp]
    exact hiff
  · have hshaped := (ms.fits n).shaped e he
    have hslots : e.2.length = 1 := by
      rw [hshaped.slots_length,EpisodeMap.slots,if_neg hp]
    obtain ⟨s,hs⟩ := List.length_eq_one_iff.mp hslots
    have hlt : f.read s < f.type.modulus := f.type.modulus_eq ▸ read_lt_width f s
    have hvalue : delivered n ncpus e.2 = s := by
      simp [delivered,MapSlice.callbackValue,EpisodeMap.slice,hp,hs]
    have hcount : count f e.2 = f.read s := by
      simp [count,hs,Nat.mod_eq_of_lt hlt]
    rw [hvalue,hcount]
    exact iff_of_true rfl fun h => absurd h hp

theorem filter_source {κ ν σ β : Type} [DecidableEq σ] {src : κ → σ} {P : κ × ν → β → Prop}
    (hsrc : Function.Injective src) {es : List (κ × ν)} {ws : List (σ × β)}
    (h : List.Forall₂ (fun e w => w.1 = src e.1 ∧ P e w.2) es ws) :
    (keys es).Nodup → ∀ e ∈ es, ∃ row, ws.filter (·.1 = src e.1) = [(src e.1,row)] ∧ P e row := by
  have hnone : ∀ {es : List (κ × ν)} {ws : List (σ × β)},
      List.Forall₂ (fun e w => w.1 = src e.1 ∧ P e w.2) es ws →
        ∀ k, k ∉ keys es → ws.filter (·.1 = src k) = [] := by
    intro es ws h
    induction h with
    | nil => intro k _; rfl
    | cons hw _ ih =>
      intro k hk
      simp only [keys,List.map_cons,List.mem_cons,not_or] at hk ih
      rw [List.filter_cons_of_neg (by simpa [hw.1] using fun heq => hk.1 (hsrc heq).symm)]
      exact ih k hk.2
  induction h with
  | nil => intro _ e he; cases he
  | @cons a w es ws hw hrest ih =>
    intro hn e he
    simp only [keys,List.map_cons,List.nodup_cons] at hn ih
    rcases List.mem_cons.mp he with rfl | he
    · refine ⟨w.2,?_,hw.2⟩
      rw [List.filter_cons_of_pos (by simpa using hw.1),hnone hrest _ hn.1,← hw.1]
    · have hne : w.1 ≠ src e.1 := fun heq =>
        hn.1 (hsrc (hw.1.symm.trans heq) ▸ List.mem_map_of_mem he)
      rw [List.filter_cons_of_neg (by simpa using hne)]
      exact ih hn.2 e he

/-- The row shows what the callback saw. -/
def Shows [Double F] (n : EpisodeMap) (ncpus : ℕ) (carries : n.Key → Row F → Prop)
    (e : n.Key × Slots) (row : Row F) : Prop :=
  carries e.1 row ∧ ∀ c ∈ counts n, key c.2 row = (u64At c.1 (delivered n ncpus e.2)).toInt64

theorem uint32_toInt32_inj {a b : UInt32} : a.toInt32 = b.toInt32 ↔ a = b := by
  refine ⟨fun h => ?_,fun h => by rw [h]⟩
  have hback := congrArg Int32.toUInt32 h
  simpa using hback

theorem ofNat_toInt64_inj {a b : ℕ} (ha : a < 2^64) (hb : b < 2^64) :
    (UInt64.ofNat a).toInt64 = (UInt64.ofNat b).toInt64 ↔ a = b := by
  rw [uint64_toInt64_inj,← UInt64.toNat_inj,UInt64.toNat_ofNat_of_lt' ha,
    UInt64.toNat_ofNat_of_lt' hb]

/-- Where the loop over a map writes one row for each entry and loses none, a key yields its
row exactly when its counters come through the summation. -/
theorem eachYieldsOne_iff {σ : Type} [DecidableEq σ] [Double F] (ms : EpisodeMaps ncpus)
    {n : EpisodeMap} {src : n.Key → σ} {carries : n.Key → Row F → Prop}
    {table part : List (σ × Row F)} (hsrc : Function.Injective src)
    (htable : ∀ k, table.filter (·.1 = src k) = part.filter (·.1 = src k))
    (hpart : List.Forall₂ (fun e w => w.1 = src e.1 ∧ Shows n ncpus carries e w.2)
      (ms.entries n) part) :
    EachYieldsOne n (ms.entries n) src carries table ↔
      ∀ e ∈ ms.entries n, Counted n e.2 → ∀ c ∈ counts n, Exact n c.1 e.2 := by
  refine forall₂_congr fun e he => forall_congr' fun _ => ?_
  obtain ⟨row,hrow,hcarries,hshows⟩ := filter_source hsrc hpart (ms.fits n).nodup e he
  have hcount : ∀ c ∈ counts n,
      (key c.2 row = (UInt64.ofNat (count c.1 e.2)).toInt64 ↔ Exact n c.1 e.2) := by
    intro c hc
    rw [hshows c hc,u64At,ofNat_toInt64_inj (read_lt_word _ _) (count_lt _ _)]
    exact read_delivered_iff ms he (counts_fields n c hc)
  rw [htable,hrow]
  constructor
  · rintro ⟨row',heq,_,hkeys⟩ c hc
    obtain rfl : row = row' := by simpa using heq
    exact (hcount c hc).mp (hkeys c hc)
  · intro h
    exact ⟨row,rfl,hcarries,fun c hc => (hcount c hc).mpr (h c hc)⟩

/-! ## The loops -/

theorem forall₂_rowsOf {σ : Type} [Double F] (ms : EpisodeMaps ncpus) {n : EpisodeMap}
    {src : n.Key → σ} {row : n.Key → List UInt8 → Row F} {carries : n.Key → Row F → Prop}
    (hcarries : ∀ k v, carries k (row k v))
    (hcounts : ∀ k v, ∀ c ∈ counts n, key c.2 (row k v) = (u64At c.1 v).toInt64) :
    List.Forall₂ (fun e w => w.1 = src e.1 ∧ Shows n ncpus carries e w.2) (ms.entries n)
      (rowsOf src row (forEachOf ms n)) := by
  rw [rowsOf,forEachOf_eq,List.map_map,List.forall₂_map_right_iff,List.forall₂_same]
  intro e _
  exact ⟨rfl,hcarries _ _,hcounts _ _⟩

theorem forall₂_dumpFolded [Double F] {n : EpisodeMap}
    {row : FoldCache → n.Key → List UInt8 → Row F × FoldCache} {carries : n.Key → Row F → Prop}
    (hcarries : ∀ cache k v, carries k (row cache k v).1)
    (hcounts : ∀ cache k v, ∀ c ∈ counts n,
      key c.2 (row cache k v).1 = (u64At c.1 v).toInt64) (es : Entries n.Key) :
    ∀ cache, List.Forall₂ (fun e w => w.1 = e.1 ∧ Shows n ncpus carries e w.2) es
      (dumpFolded row cache (es.map fun e => (e.1,delivered n ncpus e.2))).1 := by
  induction es with
  | nil => intro cache; exact .nil
  | cons e es ih =>
    intro cache
    exact .cons ⟨rfl,hcarries _ _ _,hcounts _ _ _⟩ (ih _)

/-- A batch whose primary keys differ: refused are the rows whose key is taken. -/
theorem foldl_writeUnique {σ γ : Type} [DecidableEq γ] [Double F] {cols : List String}
    {kf : σ → γ} {all : List (σ × Row F)}
    (hsame : ∀ a ∈ all, ∀ b ∈ all, (sameKey cols a.2 b.2 = true ↔ kf a.1 = kf b.1))
    (ws : List (σ × Row F)) : ∀ acc : List (σ × Row F), acc ⊆ all → ws ⊆ all →
      (ws.map fun w => kf w.1).Nodup → ws.foldl (writeUnique cols) acc =
        acc++ws.filter fun w => kf w.1 ∉ acc.map fun w => kf w.1 := by
  induction ws with
  | nil => intro acc _ _ _; simp
  | cons w ws ih =>
    intro acc hacc hws hn
    obtain ⟨hw,hn⟩ := List.nodup_cons.mp hn
    have hwall : w ∈ all := hws List.mem_cons_self
    have hrest : ws ⊆ all := fun x hx => hws (List.mem_cons_of_mem _ hx)
    have hany : acc.any (fun x => sameKey cols w.2 x.2) = true ↔
        kf w.1 ∈ acc.map fun w => kf w.1 := by
      rw [List.any_eq_true,List.mem_map]
      refine exists_congr fun x => and_congr_right fun hx => ?_
      rw [hsame w hwall x (hacc hx),eq_comm]
    rw [List.foldl_cons]
    by_cases hk : kf w.1 ∈ acc.map fun w => kf w.1
    · rw [writeUnique,if_pos (hany.mpr hk),ih acc hacc hrest hn,
        List.filter_cons_of_neg (by simpa using hk)]
    · have hnew : ∀ x ∈ ws, (kf x.1 ∉ (acc++[w]).map fun w => kf w.1) =
          (kf x.1 ∉ acc.map fun w => kf w.1) := by
        intro x hx
        have hne : kf x.1 ≠ kf w.1 := fun heq => hw (List.mem_map.mpr ⟨x,hx,heq⟩)
        simp [hne]
      rw [writeUnique,if_neg (hany.not.mpr hk),ih (acc++[w]) (by simp [hacc,hwall]) hrest hn,
        List.filter_cons_of_pos (by simpa using hk),List.append_assoc,List.singleton_append]
      congr 2
      exact List.filter_congr fun x hx => by simp only [hnew x hx]

theorem map_rowsOf {κ σ γ : Type} (g : σ → γ) (src : κ → σ) (row : κ → List UInt8 → Row F)
    (calls : List (κ × List UInt8)) :
    ((rowsOf src row calls).map fun w => g w.1) = calls.map fun c => g (src c.1) := by
  simp [rowsOf]

/-- One map with a table of its own, whose primary key is the key of the map. -/
theorem foldl_writeUnique_rowsOf {κ : Type} [DecidableEq κ] [Double F] {cols : List String}
    {row : κ → List UInt8 → Row F} {calls : List (κ × List UInt8)}
    (hn : (calls.map Prod.fst).Nodup)
    (hsame : ∀ k v k' v', (sameKey cols (row k v) (row k' v') = true ↔ k = k')) :
    (rowsOf id row calls).foldl (writeUnique cols) [] = rowsOf id row calls := by
  have hkeys : ((rowsOf id row calls).map fun w => id w.1) = calls.map Prod.fst :=
    map_rowsOf id id row calls
  have hrows : ∀ a ∈ rowsOf id row calls,∀ b ∈ rowsOf id row calls,
      (sameKey cols a.2 b.2 = true ↔ id a.1 = id b.1) := by
    intro a ha b hb
    obtain ⟨c,_,rfl⟩ := List.mem_map.mp ha
    obtain ⟨d,_,rfl⟩ := List.mem_map.mp hb
    exact hsame c.1 c.2 d.1 d.2
  rw [foldl_writeUnique hrows _ [] (by simp) (List.Subset.refl _) (hkeys ▸ hn)]
  simp

theorem keys_forEachOf (ms : EpisodeMaps ncpus) (n : EpisodeMap) :
    (forEachOf ms n).map Prod.fst = keys (ms.entries n) := by
  rw [forEachOf_eq,List.map_map]
  rfl

theorem nodup_forEachOf (ms : EpisodeMaps ncpus) (n : EpisodeMap) :
    ((forEachOf ms n).map Prod.fst).Nodup := by
  rw [keys_forEachOf]
  exact (ms.fits n).nodup

/-- A socket that was closed in the episode and lives again under the same cookie has a row in
the table already. -/
theorem deepNetFlow_eq [DumpFloat F] (env : Env) (n : Int32) (ms : EpisodeMaps ncpus) :
    (dumpDeepMaps env n ms : DeepTables F).deepNetFlow =
      rowsOf (Prod.mk true) (netFlowRow n true) (forEachOf ms .netFlow)++
        (rowsOf (Prod.mk false) (netFlowRow n false) (forEachOf ms .sockOwner)).filter
          fun w => w.1.2 ∉ keys (ms.entries .netFlow) := by
  have hkey : ∀ (b b' : Bool) (c c' : UInt64) (v v' : List UInt8),
      sameKey ["ordinal","cookie"] (netFlowRow n b c v : Row F) (netFlowRow n b' c' v') =
        (decide (n.toInt64 = n.toInt64) && (decide (c.toInt64 = c'.toInt64) && true)) :=
    fun _ _ _ _ _ _ => rfl
  let flows : List ((Bool × UInt64) × Row F) :=
    rowsOf (Prod.mk true) (netFlowRow n true) (forEachOf ms .netFlow)
  let owners : List ((Bool × UInt64) × Row F) :=
    rowsOf (Prod.mk false) (netFlowRow n false) (forEachOf ms .sockOwner)
  have hrow : ∀ a ∈ flows++owners, ∃ b v, a.2 = netFlowRow n b a.1.2 v := by
    intro a ha
    rcases List.mem_append.mp ha with ha | ha
    · obtain ⟨c,_,rfl⟩ := List.mem_map.mp ha
      exact ⟨true,c.2,rfl⟩
    · obtain ⟨c,_,rfl⟩ := List.mem_map.mp ha
      exact ⟨false,c.2,rfl⟩
  have hsame : ∀ a ∈ flows++owners, ∀ b ∈ flows++owners,
      (sameKey ["ordinal","cookie"] a.2 b.2 = true ↔ a.1.2 = b.1.2) := by
    intro a ha b hb
    obtain ⟨_,_,ha⟩ := hrow a ha
    obtain ⟨_,_,hb⟩ := hrow b hb
    simp [ha,hb,hkey,uint64_toInt64_inj]
  have hflows : (flows.map fun w => w.1.2) = keys (ms.entries .netFlow) := by
    rw [← keys_forEachOf]
    exact map_rowsOf Prod.snd _ _ _
  have howners : (owners.map fun w => w.1.2) = keys (ms.entries .sockOwner) := by
    rw [← keys_forEachOf]
    exact map_rowsOf Prod.snd _ _ _
  have hfirst := foldl_writeUnique hsame flows [] (by simp) (by simp)
    (hflows ▸ (ms.fits .netFlow).nodup)
  have hsecond := foldl_writeUnique hsame owners flows (by simp) (by simp)
    (howners ▸ (ms.fits .sockOwner).nodup)
  simp only [List.map_nil,List.not_mem_nil,not_false_eq_true,decide_true,List.filter_true,
    List.nil_append] at hfirst
  rw [hflows] at hsecond
  simp only [dumpDeepMaps]
  rw [hfirst,hsecond]

/-! ## Completeness -/

def carriesSyscall [Double F] (k : SysLatKey) (row : Row F) : Prop :=
  key "tid" row = k.tid.toUInt64.toInt64 ∧ key "syscall" row = k.id.toUInt64.toInt64

/-- The line starts with the process and the thread; stacks follow. -/
def carriesOncpu (env : Env) (k : OncpuKey) (row : Row F) : Prop :=
  get row "kind" = bindText "on_cpu" ∧ ∃ frames, get row "frames" = bindText
    (task k.pid ((env.tidComm k.pid).getD "") k.tid ((env.tidComm k.tid).getD "")++frames)

def carriesOffcpu (env : Env) (k : OffcpuKey) (row : Row F) : Prop :=
  get row "kind" = bindText "off_cpu" ∧
    ∃ stack, get row "frames" = bindText (offcpuTask env k.tid++";"++stack)

def carriesTid [Double F] (tid : UInt32) (row : Row F) : Prop :=
  key "tid" row = tid.toUInt64.toInt64

def carriesFile [Double F] (k : IoFileKey) (row : Row F) : Prop :=
  key "dev" row = k.dev.toUInt64.toInt64 ∧ key "ino" row = k.ino.toInt64 ∧
    get row "path" = bindText (cString k.path)

def carriesDev [Double F] (dev : UInt32) (row : Row F) : Prop :=
  key "dev" row = dev.toUInt64.toInt64

def carriesSocket [Double F] (closed : Bool) (cookie : UInt64) (row : Row F) : Prop :=
  key "cookie" row = cookie.toInt64 ∧ key "closed" row = if closed then 1 else 0

def carriesDrop [Double F] (k : NetDropKeyVal) (row : Row F) : Prop :=
  key "netns_ino" row = k.netnsIno.toInt64 ∧ key "ifindex" row = k.ifindex.toUInt64.toInt64 ∧
    key "reason_id" row = k.reasonId.toInt32.toInt64

def carriesSoftirq [Double F] (k : NetSoftirqKeyVal) (row : Row F) : Prop :=
  key "cpu_idx" row = k.cpuIdx.toUInt64.toInt64 ∧ key "vector" row = k.vector.toInt32.toInt64

/-- The writer at `Finalize`. `OpenDeep` has stored the ordinal as a new one. -/
structure OpenEpisode (F : Type) [Double F] where
  ordinal : Int32
  db : Db F
  fresh : ofOrdinal ordinal db.deepRunq = []

/-- Every key with a count has its row, and what was counted in `runq_st` reaches the bundle. -/
structure DumpComplete [DumpFloat F] (env : Env) (ms : EpisodeMaps ncpus) (ep : OpenEpisode F)
    (t : DeepTables F) : Prop where
  sysLat : EachYieldsOne .sysLat (ms.entries .sysLat) id carriesSyscall t.deepSyscall
  ioFile : EachYieldsOne .ioFile (ms.entries .ioFile) id carriesFile t.deepIofile
  devIo : EachYieldsOne .devIo (ms.entries .devIo) id carriesDev t.deepIoDevice
  offcpuStat : EachYieldsOne .offcpuStat (ms.entries .offcpuStat) id carriesTid t.deepOffcpu
  oncpuCount : EachYieldsOne .oncpuCount (ms.entries .oncpuCount) Sum.inl (carriesOncpu env)
    t.deepFolded
  offcpuTime : EachYieldsOne .offcpuTime (ms.entries .offcpuTime) Sum.inr (carriesOffcpu env)
    t.deepFolded
  netFlow : EachYieldsOne .netFlow (ms.entries .netFlow) (Prod.mk true) (carriesSocket true)
    t.deepNetFlow
  sockOwner : EachYieldsOne .sockOwner (ms.entries .sockOwner) (Prod.mk false)
    (carriesSocket false) t.deepNetFlow
  netDrop : EachYieldsOne .netDrop (ms.entries .netDrop) id carriesDrop t.deepNetDrop
  netSoftirq : EachYieldsOne .netSoftirq (ms.entries .netSoftirq) id carriesSoftirq
    t.deepNetSoftirq
  runqSt : EachYieldsOne .runqSt (ms.entries .runqSt) id carriesTid t.deepRunq
  runqEvents : ms.entries .runqSt ≠ [] → (buildEvidence (t.store ep.db) ep.ordinal).runq ≠ []

section
variable [DumpFloat F] (env : Env) (n : Int32) (ms : EpisodeMaps ncpus)

/-- The counters of every counted key come through the summation. -/
def CountsExact (m : EpisodeMap) : Prop :=
  ∀ e ∈ ms.entries m, Counted m e.2 → ∀ c ∈ counts m, Exact m c.1 e.2

/-- A table without a primary key. -/
theorem plainTable_iff {m : EpisodeMap} {row : m.Key → List UInt8 → Row F}
    {carries : m.Key → Row F → Prop} (hcarries : ∀ k v, carries k (row k v))
    (hcounts : ∀ k v, ∀ c ∈ counts m, key c.2 (row k v) = (u64At c.1 v).toInt64) :
    EachYieldsOne m (ms.entries m) id carries (rowsOf id row (forEachOf ms m)) ↔
      CountsExact ms m :=
  eachYieldsOne_iff ms Function.injective_id (fun _ => rfl) (forall₂_rowsOf ms hcarries hcounts)

/-- A table whose primary key is the key of the map. -/
theorem uniqueTable_iff {m : EpisodeMap} {cols : List String}
    {row : m.Key → List UInt8 → Row F} {carries : m.Key → Row F → Prop}
    (hsame : ∀ k v k' v', (sameKey cols (row k v) (row k' v') = true ↔ k = k'))
    (hcarries : ∀ k v, carries k (row k v))
    (hcounts : ∀ k v, ∀ c ∈ counts m, key c.2 (row k v) = (u64At c.1 v).toInt64) :
    EachYieldsOne m (ms.entries m) id carries
      ((rowsOf id row (forEachOf ms m)).foldl (writeUnique cols) []) ↔ CountsExact ms m := by
  rw [foldl_writeUnique_rowsOf (nodup_forEachOf ms m) hsame]
  exact plainTable_iff ms hcarries hcounts

theorem sysLat_iff : EachYieldsOne .sysLat (ms.entries .sysLat) id carriesSyscall
    (dumpDeepMaps env n ms : DeepTables F).deepSyscall ↔ CountsExact ms .sysLat := by
  refine plainTable_iff ms (fun _ _ => ⟨rfl,rfl⟩) fun k v c hc => ?_
  rw [List.mem_singleton.mp hc]
  rfl

/-- `ops` is the one counter of 32 bits. -/
theorem ioFile_iff : EachYieldsOne .ioFile (ms.entries .ioFile) id carriesFile
    (dumpDeepMaps env n ms : DeepTables F).deepIofile ↔ CountsExact ms .ioFile := by
  refine plainTable_iff ms (fun _ _ => ⟨rfl,rfl,rfl⟩) fun k v c hc => ?_
  have hlt : IoFileVal.ops.read v < 2^32 := read_lt_width IoFileVal.ops v
  have hops : (u32At IoFileVal.ops v).toUInt64 = u64At IoFileVal.ops v := by
    rw [← UInt64.toNat_inj,UInt32.toNat_toUInt64,u32At,u64At,UInt32.toNat_ofNat_of_lt' hlt,
      UInt64.toNat_ofNat_of_lt' (hlt.trans (by decide))]
  rw [List.mem_singleton.mp hc]
  exact congrArg UInt64.toInt64 hops

theorem devIo_iff : EachYieldsOne .devIo (ms.entries .devIo) id carriesDev
    (dumpDeepMaps env n ms : DeepTables F).deepIoDevice ↔ CountsExact ms .devIo := by
  have hkey : ∀ (k k' : UInt32) (v v' : List UInt8),
      sameKey ["ordinal","dev"] (dumpIoDevice n k v : Row F) (dumpIoDevice n k' v') =
        (decide (n.toInt64 = n.toInt64) &&
          (decide (k.toUInt64.toInt64 = k'.toUInt64.toInt64) && true)) := fun _ _ _ _ => rfl
  refine uniqueTable_iff ms (fun k v k' v' => ?_) (fun _ _ => rfl) fun k v c hc => ?_
  · simp [hkey,uint64_toInt64_inj,UInt32.toUInt64_inj]
  · rw [List.mem_singleton.mp hc]
    rfl

theorem offcpuStat_iff : EachYieldsOne .offcpuStat (ms.entries .offcpuStat) id carriesTid
    (dumpDeepMaps env n ms : DeepTables F).deepOffcpu ↔ CountsExact ms .offcpuStat := by
  have hkey : ∀ (k k' : UInt32) (v v' : List UInt8), sameKey ["ordinal","tid"]
      (dumpOffcpuStat env n k v : Row F) (dumpOffcpuStat env n k' v') =
        (decide (n.toInt64 = n.toInt64) &&
          (decide (k.toUInt64.toInt64 = k'.toUInt64.toInt64) && true)) := fun _ _ _ _ => rfl
  refine uniqueTable_iff ms (fun k v k' v' => ?_) (fun _ _ => rfl) fun k v c hc => ?_
  · simp [hkey,uint64_toInt64_inj,UInt32.toUInt64_inj]
  · rw [List.mem_singleton.mp hc]
    rfl

theorem netDrop_iff : EachYieldsOne .netDrop (ms.entries .netDrop) id carriesDrop
    (dumpDeepMaps env n ms : DeepTables F).deepNetDrop ↔ CountsExact ms .netDrop := by
  have hkey : ∀ (k k' : NetDropKeyVal) (v v' : List UInt8),
      sameKey ["ordinal","netns_ino","ifindex","reason_id"] (dumpNetDrop n k v : Row F)
        (dumpNetDrop n k' v') = (decide (n.toInt64 = n.toInt64) &&
          (decide (k.netnsIno.toInt64 = k'.netnsIno.toInt64) &&
            (decide (k.ifindex.toUInt64.toInt64 = k'.ifindex.toUInt64.toInt64) &&
              (decide (k.reasonId.toInt32.toInt64 = k'.reasonId.toInt32.toInt64) && true)))) :=
    fun _ _ _ _ => rfl
  refine uniqueTable_iff ms (fun k v k' v' => ?_) (fun _ _ => ⟨rfl,rfl,rfl⟩) fun k v c hc => ?_
  · cases k
    cases k'
    simp [hkey,uint64_toInt64_inj,UInt32.toUInt64_inj,int32_toInt64_inj,uint32_toInt32_inj]
  · rw [List.mem_singleton.mp hc]
    rfl

theorem netSoftirq_iff : EachYieldsOne .netSoftirq (ms.entries .netSoftirq) id carriesSoftirq
    (dumpDeepMaps env n ms : DeepTables F).deepNetSoftirq ↔ CountsExact ms .netSoftirq := by
  have hkey : ∀ (k k' : NetSoftirqKeyVal) (v v' : List UInt8),
      sameKey ["ordinal","cpu_idx","vector"] (dumpNetSoftirq n k v : Row F)
        (dumpNetSoftirq n k' v') = (decide (n.toInt64 = n.toInt64) &&
          (decide (k.cpuIdx.toUInt64.toInt64 = k'.cpuIdx.toUInt64.toInt64) &&
            (decide (k.vector.toInt32.toInt64 = k'.vector.toInt32.toInt64) && true))) :=
    fun _ _ _ _ => rfl
  refine uniqueTable_iff ms (fun k v k' v' => ?_) (fun _ _ => ⟨rfl,rfl⟩) fun k v c hc => ?_
  · cases k
    cases k'
    simp [hkey,uint64_toInt64_inj,UInt32.toUInt64_inj,int32_toInt64_inj,uint32_toInt32_inj]
  · rw [List.mem_singleton.mp hc]
    rfl

/-- Nothing is summed in a map that has one slot for each entry. -/
theorem countsExact_of_single {m : EpisodeMap} (hm : m.percpu = false) : CountsExact ms m := by
  intro e _ _ c _ hp
  rw [hm] at hp
  exact absurd hp Bool.false_ne_true

omit [DumpFloat F] in
theorem carriesOncpu_dumpOncpu (cache : FoldCache) (k : OncpuKey) (v : List UInt8) :
    carriesOncpu env k (dumpOncpu env n cache k v : Row F × FoldCache).1 := by
  refine ⟨rfl,?_⟩
  have hline : ∀ line, get (foldedRow n "on_cpu" line (u64At U64Val v) : Row F) "frames" =
      bindText line := fun _ => rfl
  simp only [dumpOncpu,hline]
  split <;> split
  · exact ⟨_,by rw [String.append_assoc]⟩
  · exact ⟨_,rfl⟩
  · exact ⟨_,rfl⟩
  · exact ⟨"",by rw [String.append_empty]⟩

/-- A part of `deep_folded`, whose other rows come from keys of the other map. -/
theorem folded_complete {m : EpisodeMap} (hm : m.percpu = false)
    {σ : Type} [DecidableEq σ] {src : m.Key → σ} (hsrc : Function.Injective src)
    (row : FoldCache → m.Key → List UInt8 → Row F × FoldCache) {carries : m.Key → Row F → Prop}
    (hcarries : ∀ cache k v, carries k (row cache k v).1)
    (hcounts : ∀ cache k v, ∀ c ∈ counts m, key c.2 (row cache k v).1 = (u64At c.1 v).toInt64)
    {table : List (σ × Row F)} (cache : FoldCache)
    (htable : ∀ k, table.filter (·.1 = src k) =
      ((dumpFolded row cache (forEachOf ms m)).1.map (Prod.map src id)).filter (·.1 = src k)) :
    EachYieldsOne m (ms.entries m) src carries table := by
  refine (eachYieldsOne_iff ms hsrc htable ?_).mpr (countsExact_of_single ms hm)
  rw [forEachOf_eq,List.forall₂_map_right_iff]
  refine (forall₂_dumpFolded hcarries hcounts _ cache).imp fun e w hw => ?_
  exact ⟨congrArg src hw.1,hw.2⟩

theorem oncpuCount_complete : EachYieldsOne .oncpuCount (ms.entries .oncpuCount) Sum.inl
    (carriesOncpu env) (dumpDeepMaps env n ms : DeepTables F).deepFolded := by
  have hm : EpisodeMap.oncpuCount.percpu = false := rfl
  refine folded_complete ms hm Sum.inl_injective (dumpOncpu env n)
    (carriesOncpu_dumpOncpu env n) (fun cache k v c hc => ?_) [] fun k => ?_
  · rw [List.mem_singleton.mp hc]
    rfl
  · simp only [dumpDeepMaps]
    rw [List.filter_append,List.append_right_eq_self]
    simp

theorem offcpuTime_complete : EachYieldsOne .offcpuTime (ms.entries .offcpuTime) Sum.inr
    (carriesOffcpu env) (dumpDeepMaps env n ms : DeepTables F).deepFolded := by
  have hm : EpisodeMap.offcpuTime.percpu = false := rfl
  refine folded_complete ms hm Sum.inr_injective (dumpOffcpuTime env n)
    (fun cache k v => ⟨rfl,_,rfl⟩) (fun cache k v c hc => ?_)
    (dumpFolded (dumpOncpu env n : _ → _ → _ → Row F × _) [] (forEachOf ms .oncpuCount)).2
    fun k => ?_
  · rw [List.mem_singleton.mp hc]
    rfl
  · simp only [dumpDeepMaps]
    rw [List.filter_append,List.append_left_eq_self]
    simp

theorem socketCounts (closed : Bool) (k : UInt64) (v : List UInt8) : ∀ c ∈ counts .netFlow,
    key c.2 (netFlowRow n closed k v : Row F) = (u64At c.1 v).toInt64 := by
  simp only [counts,List.forall_mem_cons]
  exact ⟨rfl,rfl,rfl,rfl,by simp⟩

theorem forall₂_flows : List.Forall₂
    (fun e w => w.1 = (true,e.1) ∧ Shows .netFlow ncpus (carriesSocket true) e w.2)
    (ms.entries .netFlow)
    (rowsOf (Prod.mk true) (netFlowRow n true : _ → _ → Row F) (forEachOf ms .netFlow)) :=
  forall₂_rowsOf ms (fun _ _ => ⟨rfl,rfl⟩) (socketCounts n true)

theorem forall₂_owners : List.Forall₂
    (fun e w => w.1 = (false,e.1) ∧ Shows .sockOwner ncpus (carriesSocket false) e w.2)
    (ms.entries .sockOwner)
    (rowsOf (Prod.mk false) (netFlowRow n false : _ → _ → Row F) (forEachOf ms .sockOwner)) :=
  forall₂_rowsOf ms (fun _ _ => ⟨rfl,rfl⟩) (socketCounts n false)

theorem netFlow_complete : EachYieldsOne .netFlow (ms.entries .netFlow) (Prod.mk true)
    (carriesSocket true) (dumpDeepMaps env n ms : DeepTables F).deepNetFlow := by
  have hm : EpisodeMap.netFlow.percpu = false := rfl
  refine (eachYieldsOne_iff ms (Prod.mk_right_injective true) (fun k => ?_)
    (forall₂_flows n ms)).mpr (countsExact_of_single ms hm)
  rw [deepNetFlow_eq,List.filter_append,List.append_right_eq_self]
  simp [rowsOf]

/-- A live socket has its row unless a closed one has taken the cookie. -/
theorem sockOwner_iff : EachYieldsOne .sockOwner (ms.entries .sockOwner) (Prod.mk false)
    (carriesSocket false) (dumpDeepMaps env n ms : DeepTables F).deepNetFlow ↔
      ∀ e ∈ ms.entries .sockOwner, Counted .sockOwner e.2 → e.1 ∉ keys (ms.entries .netFlow) := by
  have hinj : Function.Injective (Prod.mk false : UInt64 → Bool × UInt64) :=
    Prod.mk_right_injective false
  have hm : EpisodeMap.sockOwner.percpu = false := rfl
  have hall := (eachYieldsOne_iff ms hinj (fun _ => rfl) (forall₂_owners (F := F) n ms)).mpr
    (countsExact_of_single ms hm)
  have htable : ∀ k : UInt64, (dumpDeepMaps env n ms : DeepTables F).deepNetFlow.filter
      (·.1 = (false,k)) = if k ∈ keys (ms.entries .netFlow) then []
        else (rowsOf (Prod.mk false) (netFlowRow n false)
          (forEachOf ms .sockOwner)).filter (·.1 = (false,k)) := by
    intro k
    have hflows : (rowsOf (Prod.mk true) (netFlowRow n true : _ → _ → Row F)
        (forEachOf ms .netFlow)).filter (·.1 = (false,k)) = [] := by
      simp [rowsOf]
    rw [deepNetFlow_eq,List.filter_append,hflows,List.nil_append,List.filter_filter]
    by_cases hk : k ∈ keys (ms.entries .netFlow)
    · rw [if_pos hk,List.filter_eq_nil_iff]
      intro w _ hw
      simp only [decide_eq_true_eq,Bool.and_eq_true] at hw
      exact hw.2 (by rw [hw.1]; exact hk)
    · rw [if_neg hk]
      refine List.filter_congr fun w _ => ?_
      by_cases hw : w.1 = (false,k)
      · simp [hw,hk]
      · simp [hw]
  refine forall₂_congr fun e he => forall_congr' fun hcounted => ?_
  obtain ⟨row,hrow,hcarries,hcounts⟩ := hall e he hcounted
  rw [htable]
  by_cases hk : e.1 ∈ keys (ms.entries .netFlow)
  · rw [if_pos hk]
    refine iff_of_false ?_ (fun h => h hk)
    rintro ⟨row',hrow',_⟩
    exact absurd hrow' (by simp)
  · rw [if_neg hk]
    exact iff_of_true ⟨row,hrow,hcarries,hcounts⟩ hk

/-- Nothing of `runq_st` is dumped. -/
theorem runqEvents_eq_nil (ep : OpenEpisode F) :
    (buildEvidence ((dumpDeepMaps env ep.ordinal ms).store ep.db) ep.ordinal).runq = [] := by
  have hrows : ((dumpDeepMaps env ep.ordinal ms).store ep.db).deepRunq = ep.db.deepRunq :=
    List.append_nil _
  simp only [buildEvidence,hrows,ep.fresh,List.map_nil]

/-- The per-CPU maps that are dumped. -/
def summedMaps : List EpisodeMap := [.sysLat,.ioFile,.devIo,.offcpuStat,.netDrop,.netSoftirq]

/-- The dump is complete exactly when nobody waited in a run queue, no counted live socket
shares its cookie with a closed one and no count loses a carry in the summation. -/
theorem dumpComplete_iff (ep : OpenEpisode F) :
    DumpComplete env ms ep (dumpDeepMaps env ep.ordinal ms) ↔
      ms.entries .runqSt = [] ∧
      (∀ e ∈ ms.entries .sockOwner, Counted .sockOwner e.2 → e.1 ∉ keys (ms.entries .netFlow)) ∧
      ∀ m ∈ summedMaps, CountsExact ms m := by
  have hsummed : (∀ m ∈ summedMaps, CountsExact ms m) ↔ CountsExact ms .sysLat ∧
      CountsExact ms .ioFile ∧ CountsExact ms .devIo ∧ CountsExact ms .offcpuStat ∧
      CountsExact ms .netDrop ∧ CountsExact ms .netSoftirq := by
    simp [summedMaps]
  rw [hsummed,← sysLat_iff (F := F) env ep.ordinal ms,← ioFile_iff (F := F) env ep.ordinal ms,
    ← devIo_iff (F := F) env ep.ordinal ms,← offcpuStat_iff (F := F) env ep.ordinal ms,
    ← netDrop_iff (F := F) env ep.ordinal ms,← netSoftirq_iff (F := F) env ep.ordinal ms,
    ← sockOwner_iff (F := F) env ep.ordinal ms]
  constructor
  · intro h
    refine ⟨?_,h.sockOwner,h.sysLat,h.ioFile,h.devIo,h.offcpuStat,h.netDrop,h.netSoftirq⟩
    by_contra hrunq
    exact h.runqEvents hrunq (runqEvents_eq_nil env ms ep)
  · rintro ⟨hrunq,howner,hsys,hfile,hdev,hoffcpu,hdrop,hsoftirq⟩
    exact
      { sysLat := hsys
        ioFile := hfile
        devIo := hdev
        offcpuStat := hoffcpu
        oncpuCount := oncpuCount_complete env ep.ordinal ms
        offcpuTime := offcpuTime_complete env ep.ordinal ms
        netFlow := netFlow_complete env ep.ordinal ms
        sockOwner := howner
        netDrop := hdrop
        netSoftirq := hsoftirq
        runqSt := by rw [hrunq]; exact fun e he => by cases he
        runqEvents := fun h => absurd hrunq h }

end

/-- Doubles that are exact. -/
instance : DumpFloat ℚ where
  quantile total q := UInt64.ofNat (total.toNat*q/100)
  nsToUs ns := mkRat ns.toNat 1000
  avgUs sum count := mkRat sum.toNat (1000*count.toNat)

/-- One map holds what is given, the others nothing. -/
def onlyMap (n : EpisodeMap) (es : Entries n.Key) (h : n.Fits ncpus es) : EpisodeMaps ncpus :=
  EpisodeMaps.empty.set n es h

/-- One thread has waited once for a CPU. -/
def waitedOnce : EpisodeMaps 1 :=
  onlyMap .runqSt [(7,[1::List.replicate 71 0])]
    ⟨by simp [keys],by decide,by
      intro e he
      rw [List.mem_singleton.mp he]
      exact ⟨rfl,by decide⟩⟩

theorem dump_runq_missing : ¬ ∀ (env : Env) (ms : EpisodeMaps 1) (ep : OpenEpisode ℚ),
    DumpComplete env ms ep (dumpDeepMaps env ep.ordinal ms) := by
  intro h
  let env : Env := ⟨[],fun _ => none,fun _ _ _ => "",fun _ => "",[],fun _ => none⟩
  have hrunq : waitedOnce.entries .runqSt ≠ [] := by
    rw [waitedOnce,onlyMap,EpisodeMaps.set_self]
    exact List.cons_ne_nil _ _
  exact (h env waitedOnce ⟨1,{},rfl⟩).runqEvents hrunq (runqEvents_eq_nil env waitedOnce _)

/-! ## Isolation of episodes -/

/-- A reset forgets: every map is empty, and an episode dumps what it would dump had nothing
been counted before, whatever its programs write. -/
structure Isolated (F : Type) [DumpFloat F] (ms : EpisodeMaps ncpus) : Prop where
  empty : ∀ m, (resetEpisodeMaps ms).entries m = []
  dump : ∀ (env : Env) (n : Int32) (us : List (Update ncpus)),
    (dumpDeepMaps env n (us.foldl EpisodeMaps.update (resetEpisodeMaps ms)) : DeepTables F) =
      dumpDeepMaps env n (us.foldl EpisodeMaps.update EpisodeMaps.empty)

/-- Episodes are isolated exactly when no large map is filled beyond the bound of `Wipe`. -/
theorem isolated_iff [DumpFloat F] (ms : EpisodeMaps ncpus) :
    Isolated F ms ↔ ∀ m ∈ largeMaps, (ms.entries m).length ≤ kMaxWipeIterations := by
  rw [← resetEpisodeMaps_eq_empty_iff]
  constructor
  · intro h
    exact EpisodeMaps.ext h.empty
  · intro h
    exact ⟨fun m => by rw [h]; rfl,fun env n us => by rw [h]⟩

/-- The samples of 8193 threads. -/
def busyThreads : Entries OncpuKey :=
  (List.range 8193).map fun i => (⟨0,UInt32.ofNat i,0,0⟩,[1::List.replicate 7 0])

theorem nodup_busyThreads : (keys busyThreads).Nodup := by
  rw [keys,busyThreads,List.map_map]
  refine List.Nodup.map_on ?_ List.nodup_range
  intro i hi j hj hij
  have htid : UInt32.ofNat i = UInt32.ofNat j := congrArg OncpuKey.tid hij
  have hlt : ∀ k ∈ List.range 8193, k < 2^32 := fun k hk =>
    (List.mem_range.mp hk).trans (by decide)
  rw [← UInt32.toNat_inj,UInt32.toNat_ofNat_of_lt' (hlt i hi),
    UInt32.toNat_ofNat_of_lt' (hlt j hj)] at htid
  exact htid

def busyHost : EpisodeMaps 1 :=
  onlyMap .oncpuCount busyThreads
    ⟨nodup_busyThreads,by simp [busyThreads,EpisodeMap.maxEntries],by
      intro e he
      obtain ⟨i,_,rfl⟩ := List.mem_map.mp he
      exact ⟨rfl,by simp [EpisodeMap.slotSize,EpisodeMap.percpu,EpisodeMap.layout,u64Val]⟩⟩

theorem busyHost_not_isolated : ¬ ∀ ms : EpisodeMaps 1, Isolated ℚ ms := by
  intro h
  have hsamples : busyHost.entries .oncpuCount = busyThreads := by
    rw [busyHost,onlyMap,EpisodeMaps.set_self]
  have hleft : (resetEpisodeMaps busyHost).entries .oncpuCount = [] := (h busyHost).empty _
  rw [entries_resetEpisodeMaps,hsamples,wipe_eq_nil_iff _ nodup_busyThreads] at hleft
  exact absurd hleft (by simp [busyThreads,kMaxWipeIterations])

end DeepDump
end ETraceDiag
