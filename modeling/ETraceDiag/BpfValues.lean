import ETraceDiag.MapReader
import Mathlib.Data.List.Forall2
import Mathlib.Algebra.BigOperators.Group.List.Basic

/-!
# Per-CPU values and their fields

The value structs of `collect/bpf_values.h` as the maps hold them: little-endian `u32` and
`u64` fields at fixed offsets. `MapSlice` adds the raw bytes of the CPUs; the results say
when that is the sum of the fields.
-/

namespace ETraceDiag
namespace BpfValues

open CursorMap DigitSum MapReader

inductive FieldType
  | u32
  | u64
  deriving DecidableEq,Repr

def FieldType.width : FieldType → ℕ
  | .u32 => 4
  | .u64 => 8

def FieldType.modulus : FieldType → ℕ
  | .u32 => 2^32
  | .u64 => 2^64

theorem FieldType.modulus_eq (t : FieldType) : t.modulus = 256^t.width := by
  cases t <;> rfl

theorem FieldType.width_pos (t : FieldType) : 0 < t.width := by
  cases t <;> decide

structure Field where
  offset : ℕ
  type : FieldType
  deriving DecidableEq,Repr

/-- A value struct: its size and its fields, none of which leaves the struct. -/
structure ValueLayout where
  size : ℕ
  fields : List Field
  fits : ∀ f ∈ fields, f.offset + f.type.width ≤ size

/-- `u32 hist[bins]` at `offset`. -/
def hist (offset bins : ℕ) : List Field := (List.range bins).map fun i => ⟨offset+4*i,.u32⟩

def u64Val : ValueLayout := ⟨8,[⟨0,.u64⟩],by decide⟩

def switchVal : ValueLayout := ⟨8,[⟨0,.u32⟩,⟨4,.u32⟩],by decide⟩

def faultsVal : ValueLayout := ⟨8,[⟨0,.u32⟩,⟨4,.u32⟩],by decide⟩

def blockIoVal : ValueLayout :=
  ⟨80,[⟨0,.u64⟩,⟨8,.u64⟩,⟨16,.u64⟩] ++ hist 24 13,by decide⟩

def latStatVal13 : ValueLayout := ⟨72,[⟨0,.u64⟩,⟨8,.u64⟩] ++ hist 16 13,by decide⟩

def sysLatVal : ValueLayout :=
  ⟨280,[⟨0,.u64⟩,⟨8,.u64⟩,⟨16,.u64⟩] ++ hist 24 64,by decide⟩

/-- `ops` is a `u32`; four bytes of padding follow it. -/
def ioFileVal : ValueLayout :=
  ⟨88,[⟨0,.u64⟩,⟨8,.u32⟩,⟨16,.u64⟩,⟨24,.u64⟩] ++ hist 32 13,by decide⟩

def lockHotVal : ValueLayout := ⟨16,[⟨0,.u64⟩,⟨8,.u64⟩],by decide⟩

def memEventsVal : ValueLayout := ⟨16,[⟨0,.u32⟩,⟨4,.u32⟩,⟨8,.u64⟩],by decide⟩

/-- The bytes of the field as base-256 digits. -/
def Field.digits (f : Field) (v : List UInt8) : List ℕ :=
  ((v.drop f.offset).take f.type.width).map UInt8.toNat

def Field.read (f : Field) (v : List UInt8) : ℕ := Nat.ofDigits 256 (f.digits v)

/-- A per-CPU map: distinct keys, and for each of them one padded slot per possible CPU. -/
structure PercpuMap (κ : Type) (L : ValueLayout) (ncpus : ℕ) where
  entries : Entries κ
  nodup : (keys entries).Nodup
  slots_length : ∀ e ∈ entries, e.2.length = ncpus
  slot_length : ∀ e ∈ entries, ∀ s ∈ e.2, s.length = roundUp8 L.size

variable {κ : Type} {L : ValueLayout} {ncpus : ℕ}

def PercpuMap.slice (_ : PercpuMap κ L ncpus) : MapSlice := ⟨true,true,L.size,ncpus⟩

/-! ## Fields of a byte-wise sum -/

theorem Field.digits_length {f : Field} {v : List UInt8} (h : f.offset + f.type.width ≤ v.length) :
    (f.digits v).length = f.type.width := by
  simp only [Field.digits,List.length_map,List.length_take,List.length_drop]
  omega

theorem Field.digits_lt {f : Field} {v : List UInt8} : ∀ d ∈ f.digits v, d < 256 := by
  intro d hd
  obtain ⟨x,_,rfl⟩ := List.mem_map.mp hd
  exact x.toNat_lt

theorem Field.digits_take {f : Field} {n : ℕ} (v : List UInt8)
    (h : f.offset + f.type.width ≤ n) : f.digits (v.take n) = f.digits v := by
  rw [Field.digits,Field.digits,List.drop_take,List.take_take]
  congr 2
  omega

theorem Field.digits_addBytes (f : Field) (d s : List UInt8) :
    f.digits (addBytes d s) = wrapped 256 (List.zipWith (· + ·) (f.digits d) (f.digits s)) := by
  simp only [Field.digits,addBytes,wrapped,List.drop_zipWith,List.take_zipWith,List.map_zipWith,
    List.zipWith_map,UInt8.toNat_add]

theorem Field.digits_foldl (f : Field) (vs : List (List UInt8)) :
    ∀ d : List UInt8, (∀ v ∈ vs, (f.digits v).length = f.type.width) →
      (f.digits d).length = f.type.width →
      f.digits (vs.foldl addBytes d) =
        wrapped 256 (List.zipWith (· + ·) (f.digits d) (columns f.type.width (vs.map f.digits))) := by
  induction vs with
  | nil =>
    intro d _ hd
    apply List.ext_getElem
    · simp [hd]
    · intro i h1 h2
      have hi : i < (f.digits d).length := h1
      have hlt : (f.digits d)[i] < 256 := Field.digits_lt _ (List.getElem_mem hi)
      simp [wrapped,Nat.mod_eq_of_lt hlt]
  | cons v vs ih =>
    intro d hv hd
    have hlen : (f.digits (addBytes d v)).length = f.type.width := by
      rw [Field.digits_addBytes]
      simp [hd,hv v (by simp)]
    have htail := ih (addBytes d v) (fun u hu => hv u (by simp [hu])) hlen
    rw [List.foldl_cons,htail,Field.digits_addBytes,wrapped_zipWith_wrapped,List.map_cons,
      columns_cons]

theorem Field.digits_replicate {f : Field} {n : ℕ} (h : f.offset + f.type.width ≤ n) :
    f.digits (List.replicate n 0) = List.replicate f.type.width 0 := by
  have hmin : min f.type.width (n-f.offset) = f.type.width := by omega
  simp [Field.digits,hmin]

/-! ## The summation loop -/

theorem flatten_window {a : ℕ} {slots : List (List UInt8)} :
    ∀ {cpu : ℕ}, (∀ s ∈ slots, s.length = a) → (hc : cpu < slots.length) →
      (slots.flatten.drop (cpu*a)).take a = slots[cpu] := by
  induction slots with
  | nil => intro cpu _ hc; simp at hc
  | cons s slots ih =>
    intro cpu h hc
    have hs : s.length = a := h s (by simp)
    cases cpu with
    | zero => simp [← hs]
    | succ cpu =>
      have ht := ih (fun u hu => h u (by simp [hu])) (by simpa using hc : cpu < slots.length)
      have hdrop : (cpu+1)*a = s.length + cpu*a := by rw [hs]; ring
      rw [List.flatten_cons,hdrop,List.drop_length_add_append,ht,List.getElem_cons_succ]

/-- `src = buf + cpu*aligned_` is the slot of that CPU. -/
theorem sumCpus_flatten (s : MapSlice) {slots : List (List UInt8)}
    (hn : slots.length = s.ncpus) (ha : ∀ v ∈ slots, v.length = s.aligned) :
    s.sumCpus slots.flatten =
      (slots.map (·.take s.valueSize)).foldl addBytes (List.replicate s.valueSize 0) := by
  have hle : min s.valueSize s.aligned = s.valueSize :=
    Nat.min_eq_left (le_roundUp8 s.valueSize)
  have hwin : (List.range s.ncpus).map
      (fun cpu => (slots.flatten.drop (cpu*s.aligned)).take s.valueSize) =
        slots.map (·.take s.valueSize) := by
    apply List.ext_getElem
    · simp [hn]
    · intro i h1 h2
      have hi : i < slots.length := by simpa using h2
      have hw := flatten_window ha hi
      simp only [List.getElem_map,List.getElem_range]
      rw [← hw,List.take_take,hle]
  rw [MapSlice.sumCpus,← hwin,List.foldl_map]

theorem PercpuMap.slots_digits_length (M : PercpuMap κ L ncpus) {e : κ × List (List UInt8)}
    (he : e ∈ M.entries) {f : Field} (hf : f ∈ L.fields) :
    ∀ v ∈ e.2.map f.digits, v.length = f.type.width := by
  intro v hv
  obtain ⟨s,hs,rfl⟩ := List.mem_map.mp hv
  apply Field.digits_length
  rw [M.slot_length e he s hs]
  exact (L.fits f hf).trans (le_roundUp8 _)

/-- The digits of a field of the delivered value are the wrapped column sums. -/
theorem PercpuMap.digits_sumCpus (M : PercpuMap κ L ncpus) {e : κ × List (List UInt8)}
    (he : e ∈ M.entries) {f : Field} (hf : f ∈ L.fields) :
    f.digits (M.slice.sumCpus e.2.flatten) =
      wrapped 256 (columns f.type.width (e.2.map f.digits)) := by
  have hfit := L.fits f hf
  have hlen := M.slots_digits_length he hf
  have hslot : ∀ v ∈ e.2, (f.digits v).length = f.type.width := by simpa using hlen
  have htake : (e.2.map (·.take L.size)).map f.digits = e.2.map f.digits := by
    simp [Field.digits_take _ hfit]
  have hzero := Field.digits_replicate hfit
  have hcols := columns_length hlen
  rw [sumCpus_flatten M.slice (M.slots_length e he) (M.slot_length e he)]
  rw [Field.digits_foldl f _ _ (by simpa [PercpuMap.slice,Field.digits_take _ hfit] using hslot)
    (by simp [PercpuMap.slice,hzero])]
  rw [PercpuMap.slice,htake,hzero]
  congr 1
  apply List.ext_getElem
  · simp [hcols]
  · intro i h1 h2
    simp

/-- One field: the byte-wise sum is the field sum exactly when the carries lost below its
top byte amount to a multiple of the top byte's weight. -/
theorem PercpuMap.read_sumCpus_iff (M : PercpuMap κ L ncpus) {e : κ × List (List UInt8)}
    (he : e ∈ M.entries) {f : Field} (hf : f ∈ L.fields) :
    f.read (M.slice.sumCpus e.2.flatten) = (e.2.map f.read).sum % f.type.modulus ↔
      256^(f.type.width-1) ∣ lostCarry 256 (columns f.type.width (e.2.map f.digits)) := by
  have hlen := M.slots_digits_length he hf
  have hcols := columns_length hlen
  have hne : columns f.type.width (e.2.map f.digits) ≠ [] := by
    apply List.length_pos_iff.mp
    rw [hcols]
    exact f.type.width_pos
  have hsum : (e.2.map f.read).sum =
      Nat.ofDigits 256 (columns f.type.width (e.2.map f.digits)) := by
    rw [ofDigits_columns 256 hlen,List.map_map]
    rfl
  have h := wrapped_eq_mod_iff (by decide : 1 < 256) hne
  rw [hcols] at h
  rw [← h,Field.read,M.digits_sumCpus he hf,hsum,FieldType.modulus_eq]

/-! ## Field-wise reading -/

/-- Every field of `v` is the sum of that field over the CPUs' slots. -/
def FieldwiseSum (L : ValueLayout) (slots : List (List UInt8)) (v : List UInt8) : Prop :=
  ∀ f ∈ L.fields, f.read v = (slots.map f.read).sum % f.type.modulus

/-- In every field of every entry the carries out of the bytes below the top one amount to a
multiple of the top byte's weight. -/
def PercpuMap.NoLostCarry (M : PercpuMap κ L ncpus) : Prop :=
  ∀ e ∈ M.entries, ∀ f ∈ L.fields,
    256^(f.type.width-1) ∣ lostCarry 256 (columns f.type.width (e.2.map f.digits))

/-- In every field of every entry no byte below the top one sums to 256 over the CPUs. -/
def PercpuMap.NoByteOverflow (M : PercpuMap κ L ncpus) : Prop :=
  ∀ e ∈ M.entries, ∀ f ∈ L.fields,
    ∀ c ∈ (columns f.type.width (e.2.map f.digits)).dropLast, c < 256

theorem PercpuMap.noLostCarry_iff (M : PercpuMap κ L ncpus) :
    M.NoLostCarry ↔ ∀ e ∈ M.entries, FieldwiseSum L e.2 (M.slice.sumCpus e.2.flatten) := by
  constructor
  · intro h e he f hf
    exact (M.read_sumCpus_iff he hf).mpr (h e he f hf)
  · intro h e he f hf
    exact (M.read_sumCpus_iff he hf).mp (h e he f hf)

theorem PercpuMap.callbacks_fieldwise (M : PercpuMap κ L ncpus)
    {es : Entries κ} (h : ∀ e ∈ es, FieldwiseSum L e.2 (M.slice.sumCpus e.2.flatten)) :
    List.Forall₂ (fun e c => c.1 = e.1 ∧ FieldwiseSum L e.2 c.2) es
      (es.map fun e => (e.1,M.slice.callbackValue e.2.flatten)) := by
  rw [List.forall₂_map_right_iff,List.forall₂_same]
  intro e he
  exact ⟨rfl,h e he⟩

theorem PercpuMap.noLostCarry_iff_noByteOverflow (M : PercpuMap κ L ncpus) (hn : ncpus ≤ 257) :
    M.NoLostCarry ↔ M.NoByteOverflow := by
  have key : ∀ e ∈ M.entries, ∀ f ∈ L.fields,
      (256^(f.type.width-1) ∣ lostCarry 256 (columns f.type.width (e.2.map f.digits)) ↔
        ∀ c ∈ (columns f.type.width (e.2.map f.digits)).dropLast, c < 256) := by
    intro e he f hf
    apply dvd_lostCarry_iff (by decide)
    · exact M.slots_digits_length he hf
    · rwa [List.length_map,M.slots_length e he]
    · intro v hv
      obtain ⟨s,_,rfl⟩ := List.mem_map.mp hv
      exact Field.digits_lt
  exact forall₂_congr fun e he => forall₂_congr fun f hf => key e he f hf

variable [DecidableEq κ]

theorem PercpuMap.lookupPercpuSum_entry (M : PercpuMap κ L ncpus) {e : κ × List (List UInt8)}
    (he : e ∈ M.entries) :
    M.slice.lookupPercpuSum M.entries e.1 = some (M.slice.sumCpus e.2.flatten) := by
  have hlook : lookup M.entries e.1 = some e.2 := lookup_of_mem M.nodup he
  have hlen : e.2.flatten.length = ncpus*M.slice.aligned := by
    rw [List.length_flatten,List.map_congr_left (M.slot_length e he),List.map_const',
      List.sum_replicate,M.slots_length e he,Nat.nsmul_eq_mul]
    rfl
  have hbuf : M.slice.sumCpus (e.2.flatten ++
      (List.replicate M.slice.pcpuStride (0 : UInt8)).drop e.2.flatten.length) =
        M.slice.sumCpus e.2.flatten := by
    by_cases hn : 0 < ncpus
    · have hs : M.slice.pcpuStride = e.2.flatten.length := by
        rw [hlen,MapSlice.pcpuStride,PercpuMap.slice,if_pos hn,Nat.mul_comm]
      rw [hs,List.drop_of_length_le (by simp),List.append_nil]
    · have h0 : ncpus = 0 := by omega
      subst h0
      rfl
  simp [MapSlice.lookupPercpuSum,PercpuMap.slice,bpfMapLookupElem,hlook] at hbuf ⊢
  exact hbuf

/-- All three ways to read the map deliver field-wise sums. -/
structure PercpuMap.ReadsFieldwise (M : PercpuMap κ L ncpus) : Prop where
  lookupPercpuSum : ∀ e ∈ M.entries, ∃ out,
    M.slice.lookupPercpuSum M.entries e.1 = some out ∧ FieldwiseSum L e.2 out
  forEach : List.Forall₂ (fun e c => c.1 = e.1 ∧ FieldwiseSum L e.2 c.2)
    M.entries (M.slice.forEach M.entries)
  drain : List.Forall₂ (fun e c => c.1 = e.1 ∧ FieldwiseSum L e.2 c.2)
    (M.entries.take kMaxDrainIterations) (M.slice.drain M.entries).1

/-- `MapSlice` reads a per-CPU map field-wise exactly when no carry is lost. -/
theorem readsFieldwise_iff (M : PercpuMap κ L ncpus) : M.ReadsFieldwise ↔ M.NoLostCarry := by
  rw [M.noLostCarry_iff]
  constructor
  · intro h e he
    obtain ⟨out,hout,hfields⟩ := h.lookupPercpuSum e he
    rw [M.lookupPercpuSum_entry he,Option.some.injEq] at hout
    rwa [hout]
  · intro h
    refine ⟨?_,?_,?_⟩
    · intro e he
      exact ⟨_,M.lookupPercpuSum_entry he,h e he⟩
    · rw [forEach_eq M.slice rfl M.entries M.nodup]
      exact M.callbacks_fieldwise h
    · rw [drain_eq M.slice M.entries M.nodup]
      exact M.callbacks_fieldwise fun e he => h e (List.mem_of_mem_take he)

/-- Two CPUs counted 255 and 1 under one key. -/
def carryMap : PercpuMap UInt32 u64Val 2 where
  entries := [(7,[[255,0,0,0,0,0,0,0],[1,0,0,0,0,0,0,0]])]
  nodup := by decide
  slots_length := by decide
  slot_length := by decide

theorem carryMap_not_readsFieldwise : ¬ carryMap.ReadsFieldwise := by
  intro h
  obtain ⟨out,hout,hfields⟩ := h.lookupPercpuSum (7,[[255,0,0,0,0,0,0,0],[1,0,0,0,0,0,0,0]])
    (by decide)
  have hval : carryMap.slice.lookupPercpuSum carryMap.entries 7 =
      some [0,0,0,0,0,0,0,0] := by decide
  rw [hval,Option.some.injEq] at hout
  subst hout
  exact absurd (hfields ⟨0,.u64⟩ (by decide)) (by decide)

end BpfValues
end ETraceDiag
