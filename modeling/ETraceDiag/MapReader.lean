import ETraceDiag.DigitSum
import ETraceDiag.CursorMap

/-!
# User-space access to the BPF maps

`MapSlice` of `collect/map_reader.cpp`: single lookups, lookups summed over the CPUs and the
two iterations. A per-CPU lookup copies one slot of `round_up(value_size, 8)` bytes for every
possible CPU, one slot after the other.
-/

namespace ETraceDiag
namespace MapReader

open CursorMap

def roundUp8 (v : ℕ) : ℕ := (v+7)/8*8

theorem le_roundUp8 (v : ℕ) : v ≤ roundUp8 v := by
  unfold roundUp8
  omega

structure MapSlice where
  valid : Bool
  percpu : Bool
  valueSize : ℕ
  ncpus : ℕ

def MapSlice.aligned (s : MapSlice) : ℕ := roundUp8 s.valueSize

def MapSlice.pcpuStride (s : MapSlice) : ℕ := s.aligned*(if 0 < s.ncpus then s.ncpus else 1)

/-- A map as the syscalls show it: each key with the slots a lookup copies out. -/
abbrev Entries (κ : Type) := List (κ × List (List UInt8))

variable {κ : Type} [DecidableEq κ]

/-- `bpf_map_lookup_elem` into a buffer: the slots land one behind the other. -/
def bpfMapLookupElem (m : Entries κ) (k : κ) (buf : List UInt8) : Option (List UInt8) :=
  (lookup m k).map fun slots => slots.flatten ++ buf.drop slots.flatten.length

/-- `dst[i] += src[i]` on bytes. -/
def addBytes (dst src : List UInt8) : List UInt8 := List.zipWith (· + ·) dst src

/-- The summation loop over the CPUs, as `LookupPercpuSum`, `ForEach` and `Drain` have it. -/
def MapSlice.sumCpus (s : MapSlice) (buf : List UInt8) : List UInt8 :=
  (List.range s.ncpus).foldl
    (fun dst cpu => addBytes dst ((buf.drop (cpu*s.aligned)).take s.valueSize))
    (List.replicate s.valueSize 0)

def MapSlice.lookup (s : MapSlice) (m : Entries κ) (k : κ) : Option (List UInt8) :=
  if s.valid then bpfMapLookupElem m k [] else none

def MapSlice.lookupPercpuSum (s : MapSlice) (m : Entries κ) (k : κ) : Option (List UInt8) :=
  if !s.valid then none
  else if !s.percpu then s.lookup m k
  else (bpfMapLookupElem m k (List.replicate s.pcpuStride 0)).map s.sumCpus

/-- The value handed to the callback for a looked-up buffer. -/
def MapSlice.callbackValue (s : MapSlice) (buf : List UInt8) : List UInt8 :=
  if s.percpu then s.sumCpus buf else buf

/-- The `for (;;)` of `ForEach`, returning the callback invocations in order. -/
def MapSlice.forEachLoop (s : MapSlice) (m : Entries κ) :
    ℕ → Option κ → List (κ × List UInt8)
  | 0, _ => []
  | fuel+1, prev =>
    match nextKey m prev with
    | none => []
    | some next =>
      match bpfMapLookupElem m next [] with
      | none => []
      | some buf => (next,s.callbackValue buf) :: s.forEachLoop m fuel (some next)

def MapSlice.forEach (s : MapSlice) (m : Entries κ) : List (κ × List UInt8) :=
  if s.valid then s.forEachLoop m (m.length+1) none else []

def kMaxDrainIterations : ℕ := 8192

/-- The loop of `Drain`; the first argument counts the iterations that are left. -/
def MapSlice.drainLoop (s : MapSlice) :
    ℕ → Option κ → Entries κ → List (κ × List UInt8) × Entries κ
  | 0, _, m => ([],m)
  | left+1, prev, m =>
    match nextKey m prev with
    | none => ([],m)
    | some cur =>
      match bpfMapLookupElem m cur [] with
      | none => ([],m)
      | some buf =>
        let r := s.drainLoop left (some cur) (erase m cur)
        ((cur,s.callbackValue buf) :: r.1,r.2)

def MapSlice.drain (s : MapSlice) (m : Entries κ) : List (κ × List UInt8) × Entries κ :=
  s.drainLoop kMaxDrainIterations none m

def kMaxWipeIterations : ℕ := 8192

/-- The loop of `Wipe`; the first argument counts the iterations that are left. -/
def wipeLoop : ℕ → Option κ → Entries κ → Entries κ
  | 0, _, m => m
  | left+1, prev, m =>
    match nextKey m prev with
    | none => m
    | some cur => wipeLoop left (some cur) (erase m cur)

def wipe (m : Entries κ) : Entries κ := wipeLoop kMaxWipeIterations none m

/-! ## What the iterations visit -/

theorem bpfMapLookupElem_split {pre post : Entries κ} {e : κ × List (List UInt8)}
    (h : e.1 ∉ keys pre) :
    bpfMapLookupElem (pre++e::post) e.1 [] = some e.2.flatten := by
  simp [bpfMapLookupElem,lookup_split h]

theorem bpfMapLookupElem_head (e : κ × List (List UInt8)) (post : Entries κ) :
    bpfMapLookupElem (e::post) e.1 [] = some e.2.flatten := by
  have h : e.1 ∉ keys ([] : Entries κ) := by simp [keys]
  exact (bpfMapLookupElem_split h : bpfMapLookupElem ([]++e::post) e.1 [] = _)

theorem forEachLoop_split (s : MapSlice) (post : Entries κ) :
    ∀ (pre : Entries κ) (last : κ × List (List UInt8)) (fuel : ℕ), post.length < fuel →
      (keys (pre++last::post)).Nodup →
      s.forEachLoop (pre++last::post) fuel (some last.1) =
        post.map fun e => (e.1,s.callbackValue e.2.flatten) := by
  induction post with
  | nil =>
    intro pre last fuel hf hn
    obtain ⟨fuel,rfl⟩ : ∃ f, fuel = f+1 := ⟨fuel-1,by simp at hf; omega⟩
    have hl : last.1 ∉ keys pre := by
      simp only [keys,List.map_append,List.nodup_append] at hn
      exact fun hm => hn.2.2 _ hm _ (by simp) rfl
    simp only [MapSlice.forEachLoop,nextKey_split hl,firstKey_nil,List.map_nil]
  | cons e post ih =>
    intro pre last fuel hf hn
    obtain ⟨fuel,rfl⟩ : ∃ f, fuel = f+1 := ⟨fuel-1,by simp at hf; omega⟩
    have hshift : pre++last::e::post = (pre++[last])++e::post := by simp
    have hsplit : ∀ x ∈ keys pre, x ≠ last.1 := by
      intro x hx
      simp only [keys,List.map_append,List.nodup_append] at hn
      exact hn.2.2 x hx _ (by simp)
    have hl : last.1 ∉ keys pre := fun hm => hsplit _ hm rfl
    have he : e.1 ∉ keys (pre++[last]) := by
      rw [hshift] at hn
      simp only [keys,List.map_append,List.nodup_append] at hn ⊢
      exact fun hm => hn.2.2 _ hm _ (by simp) rfl
    have hnext : nextKey (pre++last::e::post) (some last.1) = some e.1 := by
      rw [nextKey_split hl,firstKey_cons]
    have hlook : bpfMapLookupElem (pre++last::e::post) e.1 [] = some e.2.flatten := by
      rw [hshift,bpfMapLookupElem_split he]
    have htail := ih (pre++[last]) e fuel (by simp at hf; omega) (hshift ▸ hn)
    simp only [MapSlice.forEachLoop,hnext,hlook,List.map_cons]
    rw [hshift,htail]

/-- `ForEach` hands every entry to the callback, once and in iteration order. -/
theorem forEach_eq (s : MapSlice) (hs : s.valid = true) (m : Entries κ) (hn : (keys m).Nodup) :
    s.forEach m = m.map fun e => (e.1,s.callbackValue e.2.flatten) := by
  cases m with
  | nil => simp [MapSlice.forEach,MapSlice.forEachLoop]
  | cons e post =>
    have hfirst := bpfMapLookupElem_head e post
    have htail := forEachLoop_split s post [] e (post.length+1) (by omega) hn
    simp only [List.nil_append] at htail
    simp only [MapSlice.forEach,hs,if_true,List.length_cons,MapSlice.forEachLoop,nextKey_none,
      firstKey_cons,hfirst,List.map_cons,htail]

/-- A key that has just been deleted is no cursor: the walk restarts. -/
theorem nextKey_prev {m : Entries κ} {prev : Option κ} (hp : ∀ k ∈ prev, k ∉ keys m) :
    nextKey m prev = firstKey m := by
  cases prev with
  | none => rfl
  | some k => exact nextKey_absent (hp k rfl)

theorem drainLoop_eq (s : MapSlice) (left : ℕ) :
    ∀ (m : Entries κ) (prev : Option κ), (keys m).Nodup → (∀ k ∈ prev, k ∉ keys m) →
      s.drainLoop left prev m =
        ((m.take left).map fun e => (e.1,s.callbackValue e.2.flatten),m.drop left) := by
  induction left with
  | zero => intro m prev _ _; simp [MapSlice.drainLoop]
  | succ left ih =>
    intro m prev hn hp
    have hnext : nextKey m prev = firstKey m := nextKey_prev hp
    cases m with
    | nil => simp [MapSlice.drainLoop,hnext]
    | cons e post =>
      have hn' : e.1 ∉ keys post ∧ (keys post).Nodup := by simpa [keys] using hn
      have hfirst := bpfMapLookupElem_head e post
      have htail := ih post (some e.1) hn'.2 (by rintro k ⟨⟩; exact hn'.1)
      simp only [MapSlice.drainLoop,hnext,firstKey_cons,hfirst,erase_head hn'.1,htail,
        List.take_succ_cons,List.map_cons,List.drop_succ_cons]

/-- `Drain` hands the first 8192 entries to the callback and deletes exactly those. -/
theorem drain_eq (s : MapSlice) (m : Entries κ) (hn : (keys m).Nodup) :
    s.drain m = ((m.take kMaxDrainIterations).map fun e => (e.1,s.callbackValue e.2.flatten),
      m.drop kMaxDrainIterations) :=
  drainLoop_eq s _ m none hn (by simp)

theorem wipeLoop_eq (left : ℕ) :
    ∀ (m : Entries κ) (prev : Option κ), (keys m).Nodup → (∀ k ∈ prev, k ∉ keys m) →
      wipeLoop left prev m = m.drop left := by
  induction left with
  | zero => intro m prev _ _; simp [wipeLoop]
  | succ left ih =>
    intro m prev hn hp
    have hnext : nextKey m prev = firstKey m := nextKey_prev hp
    cases m with
    | nil => simp [wipeLoop,hnext]
    | cons e post =>
      have hn' : e.1 ∉ keys post ∧ (keys post).Nodup := by simpa [keys] using hn
      have htail := ih post (some e.1) hn'.2 (by rintro k ⟨⟩; exact hn'.1)
      simp only [wipeLoop,hnext,firstKey_cons,erase_head hn'.1,htail,List.drop_succ_cons]

/-- `Wipe` deletes the first 8192 entries. -/
theorem wipe_eq (m : Entries κ) (hn : (keys m).Nodup) : wipe m = m.drop kMaxWipeIterations :=
  wipeLoop_eq _ m none hn (by simp)

theorem wipe_eq_nil_iff (m : Entries κ) (hn : (keys m).Nodup) :
    wipe m = [] ↔ m.length ≤ kMaxWipeIterations := by
  rw [wipe_eq m hn,List.drop_eq_nil_iff]

end MapReader
end ETraceDiag
