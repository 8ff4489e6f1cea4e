import ETraceDiag.CpuList
import ETraceDiag.Meminfo
import ETraceDiag.NetStack

/-!
# The counters of the memory manager

`VmstatValue` of `collect/host_metrics.cpp` looks for a key at the beginning of a line of
`/proc/vmstat`, where many keys begin with another one.
-/

namespace ETraceDiag
namespace Vmstat

open Metrics TextScan
open CpuList (strtol strtol_decimal)
open Meminfo (bit_or)
open NetStack (Word printLines)

/-- `sscanf` with `%lld`. -/
def scanLong (s : List UInt8) : Option ℤ :=
  if (sign (skipSpace s)).2.takeWhile isDigit = [] then none else some (strtol s)

/-- The text from `pos` on: whether a line begins there, and how much of a found key is still to be
passed. -/
def valueFrom (key : List UInt8) : Bool → ℕ → List UInt8 → Option ℤ
  | _, _, [] => none
  | _, k+1, c::text => valueFrom key (c = 10) k text
  | start, 0, c::text =>
    if key.isPrefixOf (c::text) then
      match (if start then scanLong ((c::text).drop key.length) else none) with
      | some v => some v
      | none => valueFrom key (c = 10) (key.length-1) text
    else valueFrom key (c = 10) 0 text

def vmstatValue (text key : List UInt8) : Option ℤ := valueFrom key true 0 text

/-! ## The fields -/

inductive Field
  | pgfault | pgmajfault | pswpin | pswpout | pgscanKswapd | pgscanDirect | pgstealKswapd
  | pgstealDirect | workingsetRefault | nrDirty | nrWriteback
  deriving DecidableEq

namespace Field

def key : Field → String
  | pgfault => "pgfault"
  | pgmajfault => "pgmajfault"
  | pswpin => "pswpin"
  | pswpout => "pswpout"
  | pgscanKswapd => "pgscan_kswapd"
  | pgscanDirect => "pgscan_direct"
  | pgstealKswapd => "pgsteal_kswapd"
  | pgstealDirect => "pgsteal_direct"
  | workingsetRefault => "workingset_refault"
  | nrDirty => "nr_dirty"
  | nrWriteback => "nr_writeback"

def name (f : Field) : List UInt8 := f.key.toUTF8.toList

def bit : Field → UInt32
  | pgfault => 0
  | pgmajfault => 1
  | pswpin => 2
  | pswpout => 3
  | pgscanKswapd => 4
  | pgscanDirect => 5
  | pgstealKswapd => 6
  | pgstealDirect => 7
  | workingsetRefault => 8
  | nrDirty => 9
  | nrWriteback => 10

def value : Field → VmStatSnapshot → UInt64
  | pgfault => VmStatSnapshot.pgfault
  | pgmajfault => VmStatSnapshot.pgmajfault
  | pswpin => VmStatSnapshot.pswpin
  | pswpout => VmStatSnapshot.pswpout
  | pgscanKswapd => VmStatSnapshot.pgscanKswapd
  | pgscanDirect => VmStatSnapshot.pgscanDirect
  | pgstealKswapd => VmStatSnapshot.pgstealKswapd
  | pgstealDirect => VmStatSnapshot.pgstealDirect
  | workingsetRefault => VmStatSnapshot.workingsetRefault
  | nrDirty => VmStatSnapshot.nrDirty
  | nrWriteback => VmStatSnapshot.nrWriteback

def set (v : UInt64) (m : VmStatSnapshot) : Field → VmStatSnapshot
  | pgfault => { m with pgfault := v }
  | pgmajfault => { m with pgmajfault := v }
  | pswpin => { m with pswpin := v }
  | pswpout => { m with pswpout := v }
  | pgscanKswapd => { m with pgscanKswapd := v }
  | pgscanDirect => { m with pgscanDirect := v }
  | pgstealKswapd => { m with pgstealKswapd := v }
  | pgstealDirect => { m with pgstealDirect := v }
  | workingsetRefault => { m with workingsetRefault := v }
  | nrDirty => { m with nrDirty := v }
  | nrWriteback => { m with nrWriteback := v }

/-- The order in which `Snapshot` asks for them. -/
def all : List Field :=
  [pgfault,pgmajfault,pswpin,pswpout,pgscanKswapd,pgscanDirect,pgstealKswapd,pgstealDirect,
    workingsetRefault,nrDirty,nrWriteback]

theorem mem_all (f : Field) : f ∈ all := by cases f <;> decide

theorem nodup_all : all.Nodup := by decide

theorem value_set (f g : Field) (v : UInt64) (m : VmStatSnapshot) :
    f.value (g.set v m) = if f = g then v else f.value m := by
  cases g <;> cases f <;> rfl

theorem bit_shift (f g : Field) : Metrics.bit (1 <<< g.bit) f.bit = decide (f = g) := by
  cases g <;> cases f <;> decide

theorem plain_name (f : Field) : f.name ≠ [] ∧ 10 ∉ f.name ∧ 32 ∉ f.name := by
  cases f <;> decide +kernel

end Field

/-- `get` of the snapshot: what is negative counts as zero. -/
def get (text : List UInt8) (m : VmStatSnapshot) (f : Field) : VmStatSnapshot :=
  match vmstatValue text f.name with
  | none => m
  | some v => { f.set (.ofNat v.toNat) m with validMask := m.validMask ||| 1 <<< f.bit }

def snapshot (text : List UInt8) : VmStatSnapshot := Field.all.foldl (get text) {}

/-! ## What the kernel prints -/

/-- What a number may begin with. -/
def numeric (c : UInt8) : Bool := isDigit c || c = 43 || c = 45

structure Line where
  key : List UInt8
  value : ℕ
  word : Word key
  fits : value < 2^63

/-- A key that begins with the name of a field does not go on like a number. -/
def Line.Apart (l : Line) : Prop :=
  ∀ f ∈ Field.all, f.name.isPrefixOf l.key = true →
    (l.key.drop f.name.length).head?.all (fun c => !numeric c) = true

def Line.text (l : Line) : List UInt8 := l.key++32::decimal l.value

def printVmstat (ls : List Line) : List UInt8 := printLines (ls.map Line.text)

/-! ## The search -/

theorem length_le_of_starts {key body text : List UInt8} {b : UInt8} (h : b ∉ key)
    (hpre : key <+: body++b::text) : key.length ≤ body.length := by
  by_contra hlt
  have hlt : body.length < key.length := by omega
  obtain ⟨t,ht⟩ := hpre
  have hleft : (key++t)[body.length]? = key[body.length]? := List.getElem?_append_left hlt
  have hget : key[body.length]? = some b := by
    rw [← hleft,ht,List.getElem?_append_right (Nat.le_refl _),Nat.sub_self]
    rfl
  exact h (List.mem_of_getElem? hget)

/-- Inside a line nothing is taken. -/
theorem valueFrom_inside {key : List UInt8} (hne : key ≠ []) (h : 10 ∉ key) (text : List UInt8) :
    ∀ {body : List UInt8}, 10 ∉ body → ∀ {k : ℕ}, k ≤ body.length →
      valueFrom key false k (body++10::text) = valueFrom key true 0 text := by
  intro body
  induction body with
  | nil =>
    intro _ k hk
    have hpre : ¬key.isPrefixOf (10::text) = true := by
      intro hpre
      have hlen : key.length ≤ ([] : List UInt8).length :=
        length_le_of_starts h (List.isPrefixOf_iff_prefix.mp hpre)
      exact hne (List.length_eq_zero_iff.mp (Nat.le_zero.mp hlen))
    rw [Nat.le_zero.mp hk,List.nil_append,valueFrom,if_neg hpre]
    rfl
  | cons c body ih =>
    intro hbody k hk
    obtain ⟨hc,hbody⟩ := not_or.mp (mt List.mem_cons.mpr hbody)
    have hstart : decide (c = 10) = false := decide_eq_false (Ne.symm hc)
    cases k with
    | succ k =>
      rw [List.cons_append,valueFrom,hstart]
      exact ih hbody (Nat.le_of_succ_le_succ hk)
    | zero =>
      rw [List.cons_append,valueFrom,hstart]
      split
      · next hpre =>
        have hlen : key.length ≤ (c::body).length :=
          length_le_of_starts h (List.isPrefixOf_iff_prefix.mp hpre)
        rw [List.length_cons] at hlen
        exact ih hbody (by omega)
      · exact ih hbody (Nat.zero_le _)

theorem scanLong_decimal {n : ℕ} (h : n < 2^63) {rest : List UInt8} (hrest : Ends rest) :
    scanLong (32::(decimal n++rest)) = some (n : ℤ) := by
  have hskip : skipSpace (32::(decimal n++rest)) = decimal n++rest :=
    (List.dropWhile_cons_of_pos (by decide)).trans (skipSpace_decimal n rest)
  have hstrtol : strtol (32::(decimal n++rest)) = n := by
    simp only [strtol,hskip,sign_decimal,takeWhile_decimal n hrest,digitsVal_decimal,
      Bool.false_eq_true,if_false]
    omega
  rw [scanLong,hskip,sign_decimal,takeWhile_decimal n hrest,if_neg (decimal_ne_nil n),hstrtol]

theorem scanLong_of_head {c : UInt8} (s : List UInt8) (hspace : isSpace c = false)
    (hc : numeric c = false) : scanLong (c::s) = none := by
  have hdigit : isDigit c = false ∧ c ≠ 43 ∧ c ≠ 45 := by simpa [numeric,and_assoc] using hc
  have hsign : sign (c::s) = (false,c::s) := by simp [sign,hdigit.2.1,hdigit.2.2]
  rw [scanLong,skipSpace_of_head s hspace,hsign]
  exact if_pos (List.takeWhile_cons_of_neg (by simp [hdigit.1]))

/-- At the beginning of a line the key is the whole key of the line, or the line is passed. -/
theorem valueFrom_line {key : List UInt8} (hne : key ≠ []) (h10 : 10 ∉ key) (h32 : 32 ∉ key)
    {l : Line} (hapart : key.isPrefixOf l.key = true →
      (l.key.drop key.length).head?.all (fun c => !numeric c) = true) (text : List UInt8) :
    valueFrom key true 0 (l.text++10::text) =
      if l.key = key then some (l.value : ℤ) else valueFrom key true 0 text := by
  obtain ⟨c,cs,hc⟩ := List.exists_cons_of_ne_nil l.word.ne_nil
  have htext : l.text = c::(cs++32::decimal l.value) := by rw [Line.text,hc,List.cons_append]
  have hnewline : 10 ∉ l.text := by
    intro hmem
    rcases List.mem_append.mp hmem with hmem | hmem
    · exact l.word.newline hmem
    · rcases List.mem_cons.mp hmem with hmem | hmem
      · exact absurd hmem (by decide)
      · exact absurd (decimal_digits _ 10 hmem) (by decide)
  rw [htext] at hnewline
  obtain ⟨hc10,hbody⟩ := not_or.mp (mt List.mem_cons.mpr hnewline)
  have hstart : decide (c = 10) = false := decide_eq_false (Ne.symm hc10)
  rw [htext,List.cons_append,valueFrom,hstart]
  by_cases hpre : key.isPrefixOf (c::(cs++32::decimal l.value++10::text)) = true
  · have hwhole : key <+: l.key++32::(decimal l.value++10::text) := by
      rw [hc]
      simpa using List.isPrefixOf_iff_prefix.mp hpre
    obtain ⟨r,hr⟩ := List.prefix_of_prefix_length_le hwhole (List.prefix_append _ _)
      (length_le_of_starts h32 hwhole)
    have hdrop : (c::(cs++32::decimal l.value++10::text)).drop key.length =
        r++32::(decimal l.value++10::text) := by
      have hall : c::(cs++32::decimal l.value++10::text) =
          key++(r++32::(decimal l.value++10::text)) := by
        rw [← List.append_assoc,hr,hc]
        simp
      rw [hall,List.drop_left]
    rw [if_pos hpre,if_pos rfl,hdrop]
    cases r with
    | nil =>
      rw [List.append_nil] at hr
      rw [List.nil_append,scanLong_decimal l.fits (by simp [Ends,isSpace]),if_pos hr.symm]
    | cons d r =>
      have hdmem : d ∈ l.key := hr ▸ List.mem_append_right key List.mem_cons_self
      have hd := hapart (List.isPrefixOf_iff_prefix.mpr ⟨_,hr⟩)
      rw [← hr,List.drop_left,List.head?_cons,Option.all_some] at hd
      have hkey : l.key ≠ key := by
        intro heq
        have hlen := congrArg List.length hr
        rw [heq,List.length_append,List.length_cons] at hlen
        omega
      have hlen : key.length ≤ (c::(cs++32::decimal l.value)).length :=
        length_le_of_starts h10 (List.isPrefixOf_iff_prefix.mp hpre)
      rw [List.length_cons] at hlen
      rw [List.cons_append,scanLong_of_head _ (l.word.space d hdmem) (by simpa using hd),
        if_neg hkey]
      exact valueFrom_inside hne h10 text hbody (by omega)
  · have hkey : l.key ≠ key := by
      rintro rfl
      refine hpre (List.isPrefixOf_iff_prefix.mpr ⟨32::decimal l.value++10::text,?_⟩)
      rw [hc]
      simp
    rw [if_neg hpre,if_neg hkey]
    exact valueFrom_inside hne h10 text hbody (Nat.zero_le _)

theorem vmstatValue_print (f : Field) {ls : List Line} (h : ∀ l ∈ ls, l.Apart) :
    vmstatValue (printVmstat ls) f.name =
      (ls.find? (·.key = f.name)).map fun l => (l.value : ℤ) := by
  obtain ⟨hne,h10,h32⟩ := f.plain_name
  induction ls with
  | nil => rfl
  | cons l ls ih =>
    obtain ⟨hl,hls⟩ := List.forall_mem_cons.mp h
    have hsplit : printVmstat (l::ls) = l.text++10::printVmstat ls := by
      rw [printVmstat,List.map_cons,printLines,List.flatMap_cons,List.append_assoc]
      rfl
    rw [vmstatValue,hsplit,valueFrom_line hne h10 h32 (hl f f.mem_all)]
    by_cases hkey : l.key = f.name
    · rw [if_pos hkey,List.find?_cons_of_pos (by simpa using hkey)]
      rfl
    · rw [if_neg hkey,List.find?_cons_of_neg (by simpa using hkey)]
      exact ih hls

/-! ## The snapshot -/

def found (text : List UInt8) (f : Field) : Option UInt64 :=
  (vmstatValue text f.name).map fun v => .ofNat v.toNat

theorem get_eq (text : List UInt8) (m : VmStatSnapshot) (g : Field) :
    get text m g = (found text g).elim m fun v =>
      { g.set v m with validMask := m.validMask ||| 1 <<< g.bit } := by
  rw [get,found]
  cases vmstatValue text g.name <;> rfl

theorem value_get (text : List UInt8) (m : VmStatSnapshot) (f g : Field) :
    f.value (get text m g) = if f = g then (found text f).getD (f.value m) else f.value m := by
  have hmask (n : VmStatSnapshot) (mask : UInt32) :
      f.value { n with validMask := mask } = f.value n := by cases f <;> rfl
  rw [get_eq]
  by_cases h : f = g
  · subst h
    cases hv : found text f with
    | none => simp
    | some v => simp [hmask,Field.value_set]
  · cases hv : found text g with
    | none => simp [h]
    | some v => simp [hmask,Field.value_set,h]

theorem bit_get (text : List UInt8) (m : VmStatSnapshot) (f g : Field) :
    Metrics.bit (get text m g).validMask f.bit = (Metrics.bit m.validMask f.bit ||
      (decide (f = g) && (found text f).isSome)) := by
  rw [get_eq]
  by_cases h : f = g
  · subst h
    cases hv : found text f with
    | none => simp
    | some v => simp [bit_or,Field.bit_shift]
  · cases hv : found text g with
    | none => simp [h]
    | some v => simp [bit_or,Field.bit_shift,h]

theorem foldl_get (text : List UInt8) (f : Field) (fs : List Field) : ∀ m : VmStatSnapshot,
    f.value (fs.foldl (get text) m) =
        (if f ∈ fs then (found text f).getD (f.value m) else f.value m) ∧
      Metrics.bit (fs.foldl (get text) m).validMask f.bit = (Metrics.bit m.validMask f.bit ||
        (decide (f ∈ fs) && (found text f).isSome)) := by
  induction fs with
  | nil => exact fun m => ⟨rfl,by simp⟩
  | cons g fs ih =>
    intro m
    rw [List.foldl_cons,(ih _).1,(ih _).2,value_get,bit_get]
    by_cases h : f = g
    · cases found text f <;> simp [h]
    · simp [h]

/-- Every field has the value of the line of its key, zero without one, and its bit says whether
there is one. -/
theorem vmstat_read {ls : List Line} (h : ∀ l ∈ ls, l.Apart) (f : Field) :
    f.value (snapshot (printVmstat ls)) =
        ((ls.find? (·.key = f.name)).map fun l => UInt64.ofNat l.value).getD 0 ∧
      (Metrics.bit (snapshot (printVmstat ls)).validMask f.bit = true ↔
        ∃ l ∈ ls, l.key = f.name) := by
  have hzero : f.value {} = 0 := by cases f <;> rfl
  have hbit : Metrics.bit ({} : VmStatSnapshot).validMask f.bit = false := by
    cases f <;> decide
  have hfound : found (printVmstat ls) f =
      (ls.find? (·.key = f.name)).map fun l => UInt64.ofNat l.value := by
    rw [found,vmstatValue_print f h,Option.map_map]
    rfl
  obtain ⟨hvalue,hmask⟩ := foldl_get (printVmstat ls) f Field.all {}
  rw [if_pos f.mem_all,hzero,hfound] at hvalue
  rw [hbit,decide_eq_true f.mem_all,hfound] at hmask
  refine ⟨hvalue,?_⟩
  rw [snapshot,hmask]
  simp

def refaults : Line where
  key := "workingset_refault_anon".toUTF8.toList
  value := 3
  word := ⟨by decide +kernel,by decide +kernel,by decide +kernel⟩
  fits := by decide

def faults : Line where
  key := Field.pgfault.name
  value := 5
  word := ⟨by decide +kernel,by decide +kernel,by decide +kernel⟩
  fits := by decide

/-- The refaults of newer kernels are under other keys, and not taken for the field. -/
theorem vmstat_read_refaults :
    Field.workingsetRefault.value (snapshot (printVmstat [refaults,faults])) = 0 ∧
      Field.pgfault.value (snapshot (printVmstat [refaults,faults])) = 5 := by
  have hapart : ∀ l ∈ [refaults,faults], l.Apart := by
    intro l hl
    rcases List.mem_pair.mp hl with rfl | rfl <;> rw [Line.Apart] <;> decide +kernel
  have hrefault := (vmstat_read hapart .workingsetRefault).1
  have hfault := (vmstat_read hapart .pgfault).1
  have hnone : [refaults,faults].find? (·.key = Field.workingsetRefault.name) = none := by
    rw [List.find?_eq_none]
    intro l hl
    rcases List.mem_pair.mp hl with rfl | rfl <;> decide +kernel
  have hsome : [refaults,faults].find? (·.key = Field.pgfault.name) = some faults := by
    have hkey : ¬refaults.key = Field.pgfault.name := by decide +kernel
    rw [List.find?_cons_of_neg (by simpa using hkey),List.find?_cons_of_pos (by simp [faults])]
  rw [hnone] at hrefault
  rw [hsome] at hfault
  exact ⟨hrefault,hfault⟩

end Vmstat
end ETraceDiag
