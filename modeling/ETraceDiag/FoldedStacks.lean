import ETraceDiag.DeepDump
import ETraceDiag.KeyedMemo
import ETraceDiag.Symbolizer

/-!
# The frames of a folded line

The samples of `oncpu`, whose stack ids become part of a key of `oncpu_count`, and the stacks
that `Folded` shows for such a key: it remembers texts by the stack id alone, and an id of 0 may
be a stack or stand for a collection that failed.
-/

namespace ETraceDiag
namespace FoldedStacks

open CursorMap DeepMaps DeepDump SqlTable KeyedMemo Symbolizer

variable {F : Type}

def textOf (bytes : List UInt8) : String := String.ofList (bytes.map charOf)

/-- The dump with the symboliser. -/
def withSymbols (env : Env) (y : Symbols) : Env :=
  { env with
    resolve := fun pid ips user => textOf (y.resolve pid ips user)
    kernelSym := fun ip => textOf (kernelSym y.ksyms ip) }

/-! ## Calls of Folded -/

structure Call where
  sid : UInt32
  pid : UInt32
  user : Bool

def Call.key (c : Call) : UInt64 := foldKey c.sid c.user

/-- What a call returns that finds nothing in the cache. -/
def text (env : Env) (c : Call) : String :=
  match env.stackmap c.sid with
  | some buf => env.resolve c.pid ((buf.take 127).takeWhile (· ≠ 0)) c.user
  | none => ""

theorem folded_eq_ask (env : Env) (cache : FoldCache) (c : Call) :
    folded env cache c.sid c.pid c.user = ask Call.key (text env) cache c := by
  rw [folded,ask,Call.key]
  cases cache.lookup (foldKey c.sid c.user) with
  | some out => rfl
  | none => rfl

theorem toNat_foldKey (sid : UInt32) (user : Bool) :
    (foldKey sid user).toNat = 4*sid.toNat+(if user then 2 else 0) := by
  have hsid := sid.toNat_lt
  have hshift : (sid.toUInt64 <<< 2).toNat = 2^2*sid.toNat := by
    rw [UInt64.toNat_shiftLeft,Nat.shiftLeft_eq]
    change sid.toNat*2^2 % 2^64 = _
    omega
  rw [foldKey,UInt64.toNat_or,hshift]
  cases user with
  | true => exact (Nat.two_pow_add_eq_or_of_lt (by decide) _).symm
  | false => exact (Nat.two_pow_add_eq_or_of_lt (by decide) _).symm

/-- The key tells stacks apart, and user stacks from kernel stacks. -/
theorem Call.key_eq_iff {a b : Call} : a.key = b.key ↔ a.sid = b.sid ∧ a.user = b.user := by
  refine ⟨fun h => ?_,fun h => by rw [Call.key,Call.key,h.1,h.2]⟩
  have hnat := congrArg UInt64.toNat h
  rw [Call.key,Call.key,toNat_foldKey,toNat_foldKey] at hnat
  have huser : a.user = b.user := by
    cases hau : a.user <;> cases hbu : b.user <;> rw [hau,hbu] at hnat
    all_goals first | rfl | exact absurd hnat (by simp; omega)
  rw [huser] at hnat
  exact ⟨UInt32.toNat_inj.mp (by omega),huser⟩

/-- A loop whose rows show what the calls so far have made known. -/
theorem dumpFolded_eq {κ : Type} {env : Env} {row : FoldCache → κ → List UInt8 → Row F × FoldCache}
    (callsOf : κ → List Call) {shown : List Call → κ → List UInt8 → Row F}
    (hrow : ∀ cache seen k v, Remembers Call.key (text env) cache seen →
      (row cache k v).1 = shown (seen++callsOf k) k v ∧
        Remembers Call.key (text env) (row cache k v).2 (seen++callsOf k))
    (hshown : ∀ pre post k v, (∀ c ∈ callsOf k, c ∈ pre) → shown (pre++post) k v = shown pre k v)
    (es : List (κ × List UInt8)) : ∀ cache seen, Remembers Call.key (text env) cache seen →
      (dumpFolded row cache es).1 =
          es.map (fun e => (e.1,shown (seen++es.flatMap fun e => callsOf e.1) e.1 e.2)) ∧
        Remembers Call.key (text env) (dumpFolded row cache es).2
          (seen++es.flatMap fun e => callsOf e.1) := by
  induction es with
  | nil => intro cache seen h; exact ⟨rfl,by simpa [dumpFolded] using h⟩
  | cons e es ih =>
    intro cache seen h
    obtain ⟨hfst,hsnd⟩ := hrow cache seen e.1 e.2 h
    obtain ⟨hrows,hcache⟩ := ih _ _ hsnd
    rw [List.append_assoc] at hrows hcache
    refine ⟨?_,hcache⟩
    rw [dumpFolded,List.map_cons,List.flatMap_cons,hrows,hfst,← List.append_assoc,
      hshown _ _ e.1 e.2 fun c hc => List.mem_append_right _ hc]

/-! ## On-CPU lines -/

def userCall (k : OncpuKey) : Call := ⟨k.userSid,k.pid,true⟩

def kernelCall (k : OncpuKey) : Call := ⟨k.kernelSid,k.pid,false⟩

/-- Kernel frames near the root, user frames behind them. -/
def frames (ks us : String) : String :=
  (if ks ≠ "" then ";"++ks else "")++(if us ≠ "" then ";"++us else "")

def oncpuTask (env : Env) (pid tid : UInt32) : String :=
  task pid ((env.tidComm pid).getD "") tid ((env.tidComm tid).getD "")

def shownOncpu (env : Env) (n : Int32) (calls : List Call) (k : OncpuKey) (v : List UInt8) :
    Row F :=
  foldedRow n "on_cpu" (oncpuTask env k.pid k.tid++frames
    (text env (firstLike Call.key calls (kernelCall k)))
    (text env (firstLike Call.key calls (userCall k)))) (u64At U64Val v)

theorem dumpOncpu_fst (env : Env) (n : Int32) (cache : FoldCache) (k : OncpuKey)
    (v : List UInt8) : (dumpOncpu env n cache k v : Row F × FoldCache).1 =
      foldedRow n "on_cpu" (oncpuTask env k.pid k.tid++frames
        (folded env (folded env cache k.userSid k.pid true).2 k.kernelSid k.pid false).1
        (folded env cache k.userSid k.pid true).1) (u64At U64Val v) := by
  simp only [dumpOncpu,frames,oncpuTask]
  congr 1
  split <;> split <;> simp only [String.append_assoc,String.append_empty,String.empty_append]

theorem oncpu_row (env : Env) (n : Int32) (cache : FoldCache) (seen : List Call) (k : OncpuKey)
    (v : List UInt8) (h : Remembers Call.key (text env) cache seen) :
    (dumpOncpu env n cache k v : Row F × FoldCache).1 =
        shownOncpu env n (seen++[userCall k,kernelCall k]) k v ∧
      Remembers Call.key (text env) (dumpOncpu env n cache k v : Row F × FoldCache).2
        (seen++[userCall k,kernelCall k]) := by
  have huser := folded_eq_ask env cache (userCall k)
  have hkernel := folded_eq_ask env (folded env cache k.userSid k.pid true).2 (kernelCall k)
  have hknown : Remembers Call.key (text env) (folded env cache k.userSid k.pid true).2
      (seen++[userCall k]) := by
    have hsnd := h.ask_snd (userCall k)
    rwa [← huser] at hsnd
  have hcalls : seen++[userCall k,kernelCall k] = seen++[userCall k]++[kernelCall k] := by simp
  have hus : (folded env cache k.userSid k.pid true).1 =
      text env (firstLike Call.key (seen++[userCall k,kernelCall k]) (userCall k)) := by
    rw [hcalls,firstLike_append (a:=userCall k) (by simp),← h.ask_fst,← huser]
    rfl
  have hks : (folded env (folded env cache k.userSid k.pid true).2 k.kernelSid k.pid false).1 =
      text env (firstLike Call.key (seen++[userCall k,kernelCall k]) (kernelCall k)) := by
    rw [hcalls,← hknown.ask_fst,← hkernel]
    rfl
  refine ⟨?_,?_⟩
  · rw [dumpOncpu_fst,hks,hus,shownOncpu]
  · have hsnd := hknown.ask_snd (kernelCall k)
    rwa [← hkernel,← hcalls] at hsnd

theorem shownOncpu_append (env : Env) (n : Int32) (pre post : List Call) (k : OncpuKey)
    (v : List UInt8) (h : ∀ c ∈ [userCall k,kernelCall k], c ∈ pre) :
    (shownOncpu env n (pre++post) k v : Row F) = shownOncpu env n pre k v := by
  rw [shownOncpu,shownOncpu,firstLike_append (h _ (by simp)),firstLike_append (h _ (by simp))]

/-- The kernel's frames are the same for every process. -/
theorem text_firstLike_kernel {env : Env} {calls : List Call} {c : Call} (hc : c ∈ calls)
    (hkernel : ∀ p q ips, env.resolve p ips false = env.resolve q ips false)
    (huser : c.user = false) : text env (firstLike Call.key calls c) = text env c := by
  obtain ⟨hsid,hfirst⟩ := Call.key_eq_iff.mp (firstLike_mem hc).2
  rw [text,text,hsid,hfirst,huser]
  cases env.stackmap c.sid with
  | none => rfl
  | some buf => exact hkernel _ _ _

/-- The process whose mappings a user stack is shown with: that of the first entry with it. -/
def firstPid (ks : List OncpuKey) (sid : UInt32) : UInt32 :=
  ((ks.find? fun k => k.userSid = sid).map OncpuKey.pid).getD 0

theorem firstLike_user {ks : List OncpuKey} {k : OncpuKey} (hk : k ∈ ks) :
    firstLike Call.key (ks.flatMap fun k => [userCall k,kernelCall k]) (userCall k) =
      ⟨k.userSid,firstPid ks k.userSid,true⟩ := by
  induction ks with
  | nil => cases hk
  | cons j ks ih =>
    have hkernel : ((kernelCall j).key == (userCall k).key) = false := by
      rw [beq_eq_false_iff_ne]
      exact fun heq => Bool.false_ne_true (Call.key_eq_iff.mp heq).2
    by_cases hsid : j.userSid = k.userSid
    · have huser : ((userCall j).key == (userCall k).key) = true :=
        beq_iff_eq.mpr (Call.key_eq_iff.mpr ⟨hsid,rfl⟩)
      have hfirst : firstLike Call.key ((j::ks).flatMap fun k => [userCall k,kernelCall k])
          (userCall k) = userCall j := by simp [firstLike,huser]
      rw [hfirst]
      simp [userCall,firstPid,hsid]
    · have huser : ((userCall j).key == (userCall k).key) = false := by
        rw [beq_eq_false_iff_ne]
        exact fun heq => hsid (Call.key_eq_iff.mp heq).1
      have hrest := ih ((List.mem_cons.mp hk).resolve_left fun heq => hsid (by rw [heq]))
      simpa [firstLike,firstPid,huser,hkernel,hsid] using hrest

/-! ## Off-CPU lines -/

def stackCall (k : OffcpuKey) : Call := ⟨k.ksid,k.tid,false⟩

def shownOffcpu (env : Env) (n : Int32) (calls : List Call) (k : OffcpuKey) (v : List UInt8) :
    Row F :=
  foldedRow n "off_cpu" (offcpuTask env k.tid++";"++
    text env (firstLike Call.key calls (stackCall k))) (u64At U64Val v)

theorem offcpu_row (env : Env) (n : Int32) (cache : FoldCache) (seen : List Call)
    (k : OffcpuKey) (v : List UInt8) (h : Remembers Call.key (text env) cache seen) :
    (dumpOffcpuTime env n cache k v : Row F × FoldCache).1 =
        shownOffcpu env n (seen++[stackCall k]) k v ∧
      Remembers Call.key (text env) (dumpOffcpuTime env n cache k v : Row F × FoldCache).2
        (seen++[stackCall k]) := by
  have hcall := folded_eq_ask env cache (stackCall k)
  refine ⟨?_,?_⟩
  · rw [shownOffcpu,← h.ask_fst,← hcall]
    rfl
  · have hsnd := h.ask_snd (stackCall k)
    rwa [← hcall] at hsnd

theorem shownOffcpu_append (env : Env) (n : Int32) (pre post : List Call) (k : OffcpuKey)
    (v : List UInt8) (h : ∀ c ∈ [stackCall k], c ∈ pre) :
    (shownOffcpu env n (pre++post) k v : Row F) = shownOffcpu env n pre k v := by
  rw [shownOffcpu,shownOffcpu,firstLike_append (h _ (by simp))]

/-! ## Every line its own stacks -/

/-- The stack id in a key: a collection that failed counts as 0. -/
def sidOf (r : Int32) : UInt32 := if r < 0 then 0 else r.toUInt32

/-- What `oncpu` samples: `bpf_get_stackid` gives a negative number when it fails. -/
structure OncpuSample where
  pid : UInt32
  tid : UInt32
  userSid : Int32
  kernelSid : Int32

def OncpuSample.key (s : OncpuSample) : OncpuKey :=
  ⟨s.pid,s.tid,sidOf s.userSid,sidOf s.kernelSid⟩

variable {ncpus : ℕ}

/-- The samples that have gone into the entries of `oncpu_count`. -/
structure Profile (ms : EpisodeMaps ncpus) where
  samples : List OncpuSample
  mem_keys : ∀ k, k ∈ keys (ms.entries .oncpuCount) ↔ ∃ s ∈ samples, s.key = k

/-- A stack of a process; none when the collection failed. -/
def ownText (env : Env) (pid : UInt32) (r : Int32) (user : Bool) : String :=
  if r < 0 then "" else text env ⟨r.toUInt32,pid,user⟩

def OncpuSample.line (env : Env) (s : OncpuSample) : String :=
  oncpuTask env s.pid s.tid++
    frames (ownText env s.pid s.kernelSid false) (ownText env s.pid s.userSid true)

/-- The frames that the dump shows for a key. -/
def shownFrames (env : Env) (ms : EpisodeMaps ncpus) (k : OncpuKey) : String :=
  frames (text env (kernelCall k))
    (text env ⟨k.userSid,firstPid (keys (ms.entries .oncpuCount)) k.userSid,true⟩)

theorem deepFolded_eq [DumpFloat F] (env : Env) (y : Symbols) (n : Int32)
    (ms : EpisodeMaps ncpus) :
    (dumpDeepMaps (withSymbols env y) n ms : DeepTables F).deepFolded =
      ((forEachOf ms .oncpuCount).map fun e => (Sum.inl e.1,foldedRow n "on_cpu"
        (oncpuTask (withSymbols env y) e.1.pid e.1.tid++shownFrames (withSymbols env y) ms e.1)
        (u64At U64Val e.2)))++
      (forEachOf ms .offcpuTime).map fun e => (Sum.inr e.1,foldedRow n "off_cpu"
        (offcpuTask (withSymbols env y) e.1.tid++";"++text (withSymbols env y) (stackCall e.1))
        (u64At U64Val e.2)) := by
  have honcpu := dumpFolded_eq (F:=F) (fun k => [userCall k,kernelCall k])
    (oncpu_row (withSymbols env y) n) (shownOncpu_append (withSymbols env y) n)
    (forEachOf ms .oncpuCount) [] [] (remembers_nil _ _)
  have hoffcpu := dumpFolded_eq (F:=F) (fun k => [stackCall k])
    (offcpu_row (withSymbols env y) n) (shownOffcpu_append (withSymbols env y) n)
    (forEachOf ms .offcpuTime) _ _ honcpu.2
  have hkernel : ∀ p q ips, (withSymbols env y).resolve p ips false =
      (withSymbols env y).resolve q ips false :=
    fun p q ips => congrArg textOf (y.resolve_kernel p q ips)
  have hkeys : (forEachOf ms .oncpuCount).flatMap (fun e => [userCall e.1,kernelCall e.1]) =
      (keys (ms.entries .oncpuCount)).flatMap fun k => [userCall k,kernelCall k] := by
    rw [forEachOf_eq,keys,List.flatMap_map,List.flatMap_map]
  rw [dumpDeepMaps]
  simp only [honcpu.1,hoffcpu.1,List.map_map,List.nil_append]
  congr 1
  · refine List.map_congr_left fun e he => ?_
    have hmem : e.1 ∈ keys (ms.entries .oncpuCount) := by
      rw [forEachOf_eq] at he
      obtain ⟨d,hd,rfl⟩ := List.mem_map.mp he
      exact List.mem_map_of_mem hd
    have hcall : kernelCall e.1 ∈
        (keys (ms.entries .oncpuCount)).flatMap fun k => [userCall k,kernelCall k] :=
      List.mem_flatMap.mpr ⟨e.1,hmem,by simp⟩
    rw [Function.comp_apply,Prod.map_apply,shownOncpu,hkeys,firstLike_user hmem,
      text_firstLike_kernel hcall hkernel rfl]
    rfl
  · refine List.map_congr_left fun e he => ?_
    have hcall : stackCall e.1 ∈ (forEachOf ms .offcpuTime).flatMap fun e => [stackCall e.1] :=
      List.mem_flatMap.mpr ⟨e,he,by simp⟩
    rw [Function.comp_apply,Prod.map_apply,shownOffcpu,
      text_firstLike_kernel (List.mem_append_right _ hcall) hkernel rfl]
    rfl

/-- Each line shows the stacks of its own entry: an on-CPU line those of its samples. -/
structure ShowsOwn (env : Env) {ms : EpisodeMaps ncpus} (p : Profile ms)
    (lines : List ((OncpuKey ⊕ OffcpuKey) × Row F)) : Prop where
  oncpu : ∀ s ∈ p.samples, ∀ w ∈ lines, w.1 = .inl s.key →
    get w.2 "frames" = bindText (s.line env)
  offcpu : ∀ k, ∀ w ∈ lines, w.1 = .inr k →
    get w.2 "frames" = bindText (offcpuTask env k.tid++";"++text env (stackCall k))

/-- For every sample, the text of the ids in its key, with a user stack in the process of the
first entry that has it, is the text of the sample's own stacks. -/
def StacksOwn (env : Env) {ms : EpisodeMaps ncpus} (p : Profile ms) : Prop :=
  ∀ s ∈ p.samples, shownFrames env ms s.key =
    frames (ownText env s.pid s.kernelSid false) (ownText env s.pid s.userSid true)

theorem mem_forEachOf {ms : EpisodeMaps ncpus} {m : EpisodeMap} {k : m.Key} :
    (∃ e ∈ forEachOf ms m, e.1 = k) ↔ k ∈ keys (ms.entries m) := by
  simp [forEachOf_eq,keys]

theorem ShowsOwn.stacksOwn [DumpFloat F] {env : Env} {y : Symbols} {n : Int32}
    {ms : EpisodeMaps ncpus} {p : Profile ms} (h : ShowsOwn (withSymbols env y) p
      (dumpDeepMaps (withSymbols env y) n ms : DeepTables F).deepFolded) :
    StacksOwn (withSymbols env y) p := by
  intro s hs
  rw [deepFolded_eq] at h
  obtain ⟨e,he,hkey⟩ := mem_forEachOf.mpr ((p.mem_keys s.key).mpr ⟨s,hs,rfl⟩)
  have hline := h.oncpu s hs _ (List.mem_append_left _ (List.mem_map_of_mem he))
    (congrArg Sum.inl hkey)
  rw [hkey] at hline
  exact (String.append_right_inj _).mp (Value.text.inj hline)

theorem StacksOwn.showsOwn [DumpFloat F] {env : Env} {y : Symbols} {ms : EpisodeMaps ncpus}
    {p : Profile ms} (h : StacksOwn (withSymbols env y) p) (n : Int32) :
    ShowsOwn (withSymbols env y) p
      (dumpDeepMaps (withSymbols env y) n ms : DeepTables F).deepFolded := by
  rw [deepFolded_eq]
  refine ⟨fun s hs w hw hkey => ?_,fun k w hw hkey => ?_⟩
  · rcases List.mem_append.mp hw with hw | hw
    · obtain ⟨⟨k,v⟩,-,rfl⟩ := List.mem_map.mp hw
      obtain rfl : k = s.key := Sum.inl.inj hkey
      exact congrArg (fun t => bindText (_++t)) (h s hs)
    · obtain ⟨e,-,rfl⟩ := List.mem_map.mp hw
      cases hkey
  · rcases List.mem_append.mp hw with hw | hw
    · obtain ⟨e,-,rfl⟩ := List.mem_map.mp hw
      cases hkey
    · obtain ⟨⟨j,v⟩,-,rfl⟩ := List.mem_map.mp hw
      obtain rfl : j = k := Sum.inr.inj hkey
      rfl

/-- Every line shows its own stacks exactly when the ids are enough to tell them. -/
theorem ownFrames_iff [DumpFloat F] (env : Env) (y : Symbols) (n : Int32)
    {ms : EpisodeMaps ncpus} (p : Profile ms) :
    ShowsOwn (withSymbols env y) p
        (dumpDeepMaps (withSymbols env y) n ms : DeepTables F).deepFolded ↔
      StacksOwn (withSymbols env y) p :=
  ⟨ShowsOwn.stacksOwn,fun h => h.showsOwn n⟩

/-- It is so when no user stack is shared between processes and an id of 0 is no stack. -/
theorem stacksOwn_of_unshared {env : Env} {ms : EpisodeMaps ncpus} (p : Profile ms)
    (hshared : ∀ s ∈ p.samples, ∀ t ∈ p.samples, sidOf s.userSid = sidOf t.userSid → s.pid = t.pid)
    (hzero : env.stackmap 0 = none) : StacksOwn env p := by
  have hown : ∀ pid r user, text env ⟨sidOf r,pid,user⟩ = ownText env pid r user := by
    intro pid r user
    rw [sidOf,ownText]
    split
    · rw [text,hzero]
    · rfl
  intro s hs
  have hmem : s.key ∈ keys (ms.entries .oncpuCount) := (p.mem_keys s.key).mpr ⟨s,hs,rfl⟩
  have hpid : firstPid (keys (ms.entries .oncpuCount)) (sidOf s.userSid) = s.pid := by
    cases hfind : (keys (ms.entries .oncpuCount)).find? fun k => k.userSid = sidOf s.userSid with
    | none => exact absurd (List.find?_eq_none.mp hfind s.key hmem) (by simp [OncpuSample.key])
    | some k =>
      obtain ⟨t,ht,rfl⟩ := (p.mem_keys k).mp (List.mem_of_find?_eq_some hfind)
      have hsid : decide (t.key.userSid = sidOf s.userSid) = true :=
        List.find?_some (p:=fun k : OncpuKey => decide (k.userSid = sidOf s.userSid)) hfind
      rw [firstPid,hfind]
      exact hshared t ht s hs (of_decide_eq_true hsid)
  rw [shownFrames,kernelCall]
  change frames (text env ⟨sidOf s.kernelSid,s.pid,false⟩)
    (text env ⟨sidOf s.userSid,firstPid _ (sidOf s.userSid),true⟩) = _
  rw [hpid,hown,hown]

/-! ## Two processes with one stack id -/

/-- Each process has a mapping of its own there. -/
def twoMaps : Symbols where
  ksyms := []
  self := 0
  dladdr _ := none
  mapsCache pid := some [⟨0,16,0,if pid = 10 then [97] else [98]⟩]
  procMaps _ := []

/-- Stack 7 has one address. -/
def sharedEnv : Env where
  taskMeta := []
  stackmap sid := if sid = 7 then some [1] else none
  resolve _ _ _ := ""
  kernelSym _ := ""
  lockHot := []
  lockHotBase _ := none

def sharedKeys : List OncpuKey := [⟨10,10,7,0⟩,⟨20,20,7,0⟩]

def sharedEntries : MapReader.Entries OncpuKey :=
  sharedKeys.map fun k => (k,[[1,0,0,0,0,0,0,0]])

def sharedMaps : EpisodeMaps 1 :=
  EpisodeMaps.empty.set .oncpuCount sharedEntries ⟨by decide,by decide,by
    intro e he
    obtain ⟨k,-,rfl⟩ := List.mem_map.mp he
    refine ⟨rfl,fun slot hslot => ?_⟩
    rw [List.mem_singleton.mp hslot]
    rfl⟩

def sharedProfile : Profile sharedMaps where
  samples := sharedKeys.map fun k => ⟨k.pid,k.tid,7,-1⟩
  mem_keys := by
    intro k
    have hsid : Int32.toUInt32 7 = 7 := by decide
    rw [sharedMaps,EpisodeMaps.set_self]
    simp [keys,sharedEntries,sharedKeys,OncpuSample.key,sidOf,hsid,eq_comm]

theorem shared_not_own : ¬∀ (env : Env) (y : Symbols) (n : Int32) (ms : EpisodeMaps 1)
    (p : Profile ms), ShowsOwn (withSymbols env y) p
      (dumpDeepMaps (withSymbols env y) n ms : DeepTables ℚ).deepFolded := by
  intro h
  have hown := (h sharedEnv twoMaps 1 sharedMaps sharedProfile).stacksOwn
    ⟨20,20,7,-1⟩ (by simp [sharedProfile,sharedKeys])
  have hpid : firstPid (keys (sharedMaps.entries .oncpuCount)) 7 = 10 := by
    rw [sharedMaps,EpisodeMaps.set_self]
    decide
  have hfirst : text (withSymbols sharedEnv twoMaps) ⟨7,10,true⟩ = "a+0x1" := by decide
  have hsecond : text (withSymbols sharedEnv twoMaps) ⟨7,20,true⟩ = "b+0x1" := by decide
  have hshown : shownFrames (withSymbols sharedEnv twoMaps) sharedMaps
      (OncpuSample.key ⟨20,20,7,-1⟩) = frames "" "a+0x1" := by
    rw [← hfirst,← hpid]
    rfl
  have hline : frames (ownText (withSymbols sharedEnv twoMaps) 20 (-1) false)
      (ownText (withSymbols sharedEnv twoMaps) 20 7 true) = frames "" "b+0x1" := by
    rw [← hsecond]
    rfl
  rw [hshown,hline] at hown
  revert hown
  decide

end FoldedStacks
end ETraceDiag
