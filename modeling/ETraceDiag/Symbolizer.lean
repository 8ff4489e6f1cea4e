import ETraceDiag.Bisection
import ETraceDiag.PsiLines
import ETraceDiag.TextScan
import Mathlib.Data.Nat.Digits.Lemmas

/-!
# The stack symboliser

`StackSymbolizer` of `collect/ebpf_manager.cpp`: the kernel symbols of `/proc/kallsyms` and the
search among them, the mappings of a process, and the frames of a stack.
-/

namespace ETraceDiag
namespace Symbolizer

open Bisection TextScan
open PsiLines (getlines)

/-! ## Hexadecimal numbers -/

def hexDigit (c : UInt8) : Option ℕ :=
  if 48 ≤ c ∧ c ≤ 57 then some (c.toNat-48)
  else if 97 ≤ c ∧ c ≤ 102 then some (c.toNat-87)
  else if 65 ≤ c ∧ c ≤ 70 then some (c.toNat-55)
  else none

def hexVal (cs : List UInt8) : ℕ := cs.foldl (fun a c => 16*a+(hexDigit c).getD 0) 0

/-- A prefix `0x` is passed over. -/
def hexBody : List UInt8 → List UInt8
  | 48::c::rest => if c = 120 ∨ c = 88 then rest else 48::c::rest
  | cs => cs

/-- `is >> std::hex >> addr`: the number, and the rest of the text where the conversion succeeds.
A number out of range is cut to the largest one and fails; a minus sign negates. -/
def extractHex (cs : List UInt8) : UInt64 × Option (List UInt8) :=
  let r := sign (skipSpace cs)
  let digits := (hexBody r.2).takeWhile fun c => (hexDigit c).isSome
  if digits = [] then (0,none)
  else if 2^64 ≤ hexVal digits then (UInt64.ofNat (2^64-1),none)
  else (UInt64.ofNat (if r.1 then 2^64-hexVal digits else hexVal digits),
    some ((hexBody r.2).drop digits.length))

/-- `is >> type`. -/
def extractChar (cs : List UInt8) : Option (UInt8 × List UInt8) :=
  match skipSpace cs with
  | [] => none
  | c::rest => some (c,rest)

/-- `is >> name`. -/
def extractToken (cs : List UInt8) : Option (List UInt8 × List UInt8) :=
  let token := (skipSpace cs).takeWhile fun c => !isSpace c
  if token = [] then none else some (token,(skipSpace cs).drop token.length)

/-- `%llx`. -/
def hexText (n : UInt64) : List UInt8 :=
  if n = 0 then [48]
  else ((Nat.digits 16 n.toNat).map fun d => UInt8.ofNat (if d < 10 then 48+d else 87+d)).reverse

/-- `+0x%llx`. -/
def offsetText (off : UInt64) : List UInt8 := [43,48,120]++hexText off

/-- What `snprintf` leaves in a buffer of so many bytes; `%s` stops at a zero byte. -/
def printed (size : ℕ) (name : List UInt8) (off : UInt64) : List UInt8 :=
  (name.takeWhile (· ≠ 0)++offsetText off).take (size-1)

/-! ## Kernel symbols -/

structure Ksym where
  addr : UInt64
  name : List UInt8
  deriving DecidableEq,Inhabited

def ksymOf (line : List UInt8) : Option Ksym := do
  let r := extractHex line
  let t ← r.2 >>= extractChar
  let n ← extractToken t.2
  pure ⟨r.1,n.1⟩

def loadKallsyms (text : List UInt8) : List Ksym := (getlines text).filterMap ksymOf

/-- The bytes of `"<kernel>"`. -/
def kernelText : List UInt8 := [60,107,101,114,110,101,108,62]

/-- `ksyms_[i].first`. -/
def addrAt (ksyms : List Ksym) (i : ℕ) : UInt64 := (ksyms.getD i default).addr

/-- Where the bisection for an address ends. -/
def findSym (ksyms : List Ksym) (ip : UInt64) : ℕ :=
  search (fun i => decide (addrAt ksyms i ≤ ip)) 0 ksyms.length

def kernelSym (ksyms : List Ksym) (ip : UInt64) : List UInt8 :=
  if ksyms = [] then kernelText
  else if findSym ksyms ip = 0 then hexText ip
  else
    let hit := ksyms.getD (findSym ksyms ip-1) default
    let off := ip-hit.addr
    if off ≠ 0 then printed 64 hit.name off else hit.name

/-! ## Stacks -/

/-- A line of `/proc/<pid>/maps`; `path` begins with the device and the inode. -/
structure Mapping where
  start : UInt64
  stop : UInt64
  offset : UInt64
  path : List UInt8
  deriving DecidableEq,Repr

/-- The bytes of `"[anon]"`. -/
def anonText : List UInt8 := [91,97,110,111,110,93]

/-- `rest.substr(rest.find_first_not_of(' '))`. -/
def pathOf (rest : List UInt8) : List UInt8 :=
  let path := rest.dropWhile (· = 32)
  if path = [] then anonText else path

/-- A line without a dash behind its first number ends the file; where a later conversion fails
the rest of the mapping keeps its initial values. -/
def mappingOf (line : List UInt8) : Option Mapping := do
  let start := extractHex line
  let dash ← start.2 >>= extractChar
  if dash.1 ≠ 45 then none
  else
    let stop := extractHex dash.2
    match stop.2 with
    | none => some ⟨start.1,stop.1,0,anonText⟩
    | some rest =>
      match extractToken rest with
      | none => some ⟨start.1,stop.1,0,anonText⟩
      | some perms =>
        -- `perms` holds four bytes
        let offset := extractHex ((skipSpace rest).drop (min 4 perms.1.length))
        some ⟨start.1,stop.1,offset.1,(offset.2.map pathOf).getD anonText⟩

def parseMaps (text : List UInt8) : List Mapping :=
  ((getlines text).map mappingOf).takeWhile Option.isSome |>.filterMap id

/-- What the symboliser knows: `dladdr` names addresses of its own process; `mapsCache` holds the
mappings it has read before, and those of another process it reads at the first use. -/
structure Symbols where
  ksyms : List Ksym
  self : UInt32
  dladdr : UInt64 → Option (List UInt8)
  mapsCache : UInt32 → Option (List Mapping)
  procMaps : UInt32 → List UInt8

def Symbols.maps (y : Symbols) (pid : UInt32) : List Mapping :=
  (y.mapsCache pid).getD (parseMaps (y.procMaps pid))

def Symbols.mapped (y : Symbols) (pid : UInt32) (ip : UInt64) : List UInt8 :=
  match (y.maps pid).find? fun m => m.start ≤ ip ∧ ip < m.stop with
  | some m => printed 512 m.path (ip-m.start+m.offset)
  | none => hexText ip

def Symbols.userSym (y : Symbols) (pid : UInt32) (ip : UInt64) : List UInt8 :=
  if pid = y.self then (y.dladdr ip).getD (y.mapped pid ip) else y.mapped pid ip

def sanitize (c : UInt8) : UInt8 := if c = 59 ∨ c = 32 ∨ c = 9 then 95 else c

/-- The addresses come leaf first, the frames go root first. -/
def Symbols.resolve (y : Symbols) (pid : UInt32) (ips : List UInt64) (user : Bool) : List UInt8 :=
  ips.reverse.foldl (fun out ip =>
    if ip = 0 then out
    else
      let out := if out ≠ [] then out++[59] else out
      out++(if user then y.userSym pid ip else kernelSym y.ksyms ip).map sanitize) []

/-- Kernel frames do not depend on the process. -/
theorem Symbols.resolve_kernel (y : Symbols) (p q : UInt32) (ips : List UInt64) :
    y.resolve p ips false = y.resolve q ips false := rfl

/-! ## The nearest symbol -/

/-- A symbol that no other one lies between and the address. -/
def Greatest (ksyms : List Ksym) (ip : UInt64) (s : Ksym) : Prop :=
  s ∈ ksyms ∧ s.addr ≤ ip ∧ ∀ t ∈ ksyms, t.addr ≤ ip → t.addr ≤ s.addr

/-- The name of such a symbol with the exact offset, or the bare address when there is none. -/
def Nearest (ksyms : List Ksym) (ip : UInt64) (text : List UInt8) : Prop :=
  (∃ s, Greatest ksyms ip s ∧
      text = s.name++(if ip-s.addr ≠ 0 then offsetText (ip-s.addr) else [])) ∨
    (∀ s ∈ ksyms, ip < s.addr) ∧ text = hexText ip

/-- Every address of the table is at a place that its bisection is led to. -/
def Bisectable (ksyms : List Ksym) : Prop :=
  ∀ s ∈ ksyms, ∃ i < ksyms.length, addrAt ksyms i = s.addr ∧
    ∀ m ∈ probes (i+1) 0 ksyms.length, (addrAt ksyms m ≤ s.addr ↔ m < i+1)

theorem addrAt_mem {ksyms : List Ksym} {i : ℕ} (hi : i < ksyms.length) :
    ∃ s ∈ ksyms, addrAt ksyms i = s.addr ∧ ksyms.getD i default = s := by
  have hget : ksyms.getD i default = ksyms[i] := by simp [List.getD,hi]
  exact ⟨ksyms[i],List.getElem_mem hi,by rw [addrAt,hget],hget⟩

theorem exists_addrAt {ksyms : List Ksym} {s : Ksym} (hs : s ∈ ksyms) :
    ∃ i < ksyms.length, addrAt ksyms i = s.addr := by
  obtain ⟨i,hi,rfl⟩ := List.mem_iff_getElem.mp hs
  exact ⟨i,hi,by simp [addrAt,List.getD,hi]⟩

/-- Whatever the order, what the bisection finds is not above the address. -/
theorem addrAt_findSym {ksyms : List Ksym} {ip : UInt64} (h : findSym ksyms ip ≠ 0) :
    addrAt ksyms (findSym ksyms ip-1) ≤ ip := by
  have hpos : 0 < search (fun i => decide (addrAt ksyms i ≤ ip)) 0 ksyms.length :=
    Nat.pos_of_ne_zero h
  exact of_decide_eq_true (test_before hpos)

theorem findSym_le (ksyms : List Ksym) (ip : UInt64) : findSym ksyms ip ≤ ksyms.length :=
  (search_bounds (Nat.zero_le _)).2

theorem findSym_eq_iff {ksyms : List Ksym} {ip : UInt64} {L : ℕ} (hL : L ≤ ksyms.length) :
    findSym ksyms ip = L ↔ ∀ m ∈ probes L 0 ksyms.length, (addrAt ksyms m ≤ ip ↔ m < L) := by
  rw [findSym,search_eq_iff (Nat.zero_le _) hL]
  simp only [decide_eq_true_eq]

theorem exists_greatest {ksyms : List Ksym} {ip : UInt64} {s : Ksym} (hs : s ∈ ksyms)
    (hle : s.addr ≤ ip) : ∃ g, Greatest ksyms ip g := by
  induction ksyms generalizing s with
  | nil => cases hs
  | cons t ksyms ih =>
    by_cases hrest : ∃ u ∈ ksyms, u.addr ≤ ip
    · obtain ⟨u,hu,hule⟩ := hrest
      obtain ⟨g,hg,hgle,hmax⟩ := ih hu hule
      by_cases ht : t.addr ≤ ip ∧ g.addr ≤ t.addr
      · refine ⟨t,List.mem_cons_self,ht.1,fun v hv hvle => ?_⟩
        rcases List.mem_cons.mp hv with rfl | hv
        · exact UInt64.le_refl _
        · exact UInt64.le_trans (hmax v hv hvle) ht.2
      · refine ⟨g,List.mem_cons_of_mem _ hg,hgle,fun v hv hvle => ?_⟩
        rcases List.mem_cons.mp hv with rfl | hv
        · exact (UInt64.le_total v.addr g.addr).resolve_right fun hgv => ht ⟨hvle,hgv⟩
        · exact hmax v hv hvle
    · rcases List.mem_cons.mp hs with rfl | hs
      · refine ⟨s,List.mem_cons_self,hle,fun v hv hvle => ?_⟩
        rcases List.mem_cons.mp hv with rfl | hv
        · exact UInt64.le_refl _
        · exact absurd ⟨v,hv,hvle⟩ hrest
      · exact absurd ⟨s,hs,hle⟩ hrest

/-- In such a table the bisection finds a greatest symbol whenever there is one. -/
theorem Bisectable.findSym {ksyms : List Ksym} (h : Bisectable ksyms) {ip : UInt64} {g : Ksym}
    (hg : Greatest ksyms ip g) :
    findSym ksyms ip ≠ 0 ∧ addrAt ksyms (findSym ksyms ip-1) = g.addr := by
  obtain ⟨hmem,hle,hmax⟩ := hg
  obtain ⟨i,hi,haddr,hprobes⟩ := h g hmem
  have hfind : Symbolizer.findSym ksyms ip = i+1 := by
    refine (findSym_eq_iff hi).mpr fun m hm => Iff.trans ?_ (hprobes m hm)
    obtain ⟨t,ht,hat,-⟩ := addrAt_mem (probes_bounds hm).2
    rw [hat]
    exact ⟨hmax t ht,fun htg => UInt64.le_trans htg hle⟩
  rw [hfind]
  exact ⟨Nat.succ_ne_zero i,haddr⟩

/-- The order that bisection needs, exactly. -/
theorem bisectable_iff (ksyms : List Ksym) : Bisectable ksyms ↔ ∀ ip g, Greatest ksyms ip g →
    findSym ksyms ip ≠ 0 ∧ addrAt ksyms (findSym ksyms ip-1) = g.addr := by
  refine ⟨fun h ip g hg => h.findSym hg,fun h s hs => ?_⟩
  obtain ⟨hne,haddr⟩ := h s.addr s ⟨hs,UInt64.le_refl _,fun _ _ => id⟩
  have hle := findSym_le ksyms s.addr
  have hsucc : findSym ksyms s.addr-1+1 = findSym ksyms s.addr := by omega
  refine ⟨findSym ksyms s.addr-1,by omega,haddr,?_⟩
  rw [hsucc]
  exact (findSym_eq_iff hle).mp rfl

/-- Ascending addresses will do. -/
theorem bisectable_of_ascending {ksyms : List Ksym}
    (h : ksyms.Pairwise fun s t => s.addr ≤ t.addr) : Bisectable ksyms := by
  have hmono : ∀ i j, i ≤ j → j < ksyms.length → addrAt ksyms i ≤ addrAt ksyms j := by
    intro i j hij hj
    rcases Nat.eq_or_lt_of_le hij with rfl | hlt
    · exact UInt64.le_refl _
    · have hle := List.pairwise_iff_getElem.mp h i j (by omega) hj hlt
      simpa [addrAt,List.getD,hj,hlt.trans hj] using hle
  refine (bisectable_iff ksyms).mpr fun ip g ⟨hmem,hle,hmax⟩ => ?_
  obtain ⟨j,hj,haddr⟩ := exists_addrAt hmem
  have hlt : j < findSym ksyms ip := by
    refine Nat.lt_of_not_le fun hge => ?_
    have hend := test_at (p:=fun i => decide (addrAt ksyms i ≤ ip)) (Nat.zero_le _)
      (Nat.lt_of_le_of_lt hge hj)
    refine of_decide_eq_false hend (UInt64.le_trans (hmono _ j hge hj) ?_)
    rw [haddr]
    exact hle
  have hne : findSym ksyms ip ≠ 0 := by omega
  refine ⟨hne,UInt64.le_antisymm ?_ ?_⟩
  · have hlt : findSym ksyms ip-1 < ksyms.length := by
      have := findSym_le ksyms ip
      omega
    obtain ⟨t,ht,hat,-⟩ := addrAt_mem hlt
    rw [hat]
    refine hmax t ht ?_
    rw [← hat]
    exact addrAt_findSym hne
  · rw [← haddr]
    exact hmono _ _ (by omega) (by have := findSym_le ksyms ip; omega)

/-- Every name of a symbol below the address fits the buffer with its offset. -/
def Fits (ksyms : List Ksym) (ip : UInt64) : Prop :=
  ∀ s ∈ ksyms, s.addr < ip → 0 ∉ s.name ∧ (s.name++offsetText (ip-s.addr)).length < 64

theorem printed_of_fits {name : List UInt8} {off : UInt64} (hname : 0 ∉ name)
    (hlen : (name++offsetText off).length < 64) : printed 64 name off = name++offsetText off := by
  have hall : name.takeWhile (· ≠ 0) = name :=
    List.takeWhile_eq_self_iff.mpr fun c hc => by
      have hne : c ≠ 0 := fun heq => hname (heq ▸ hc)
      simpa using hne
  rw [printed,hall,List.take_of_length_le (by omega)]

theorem length_hexText (n : UInt64) : (hexText n).length ≤ 16 := by
  rw [hexText]
  split
  · exact by decide
  · rw [List.length_reverse,List.length_map,Nat.digits_length_le_iff (by decide)]
    exact n.toNat_lt

/-- Names of up to 44 bytes always fit. -/
theorem fits_of_short {ksyms : List Ksym} (h : ∀ s ∈ ksyms, 0 ∉ s.name ∧ s.name.length ≤ 44)
    (ip : UInt64) : Fits ksyms ip := by
  refine fun s hs _ => ⟨(h s hs).1,?_⟩
  have hname := (h s hs).2
  have hhex := length_hexText (ip-s.addr)
  simp only [offsetText,List.length_append,List.length_cons,List.length_nil]
  omega

theorem Bisectable.nearest {ksyms : List Ksym} (h : Bisectable ksyms) (hne : ksyms ≠ [])
    {ip : UInt64} (hfits : Fits ksyms ip) : Nearest ksyms ip (kernelSym ksyms ip) := by
  rw [kernelSym,if_neg hne]
  by_cases hzero : Symbolizer.findSym ksyms ip = 0
  · refine .inr ⟨fun s hs => ?_,if_pos hzero⟩
    by_contra hnot
    obtain ⟨g,hg⟩ := exists_greatest hs (UInt64.not_lt.mp hnot)
    exact (h.findSym hg).1 hzero
  · rw [if_neg hzero]
    have hlt : Symbolizer.findSym ksyms ip-1 < ksyms.length := by
      have := findSym_le ksyms ip
      omega
    obtain ⟨s,hs,haddr,hget⟩ := addrAt_mem hlt
    have hle : s.addr ≤ ip := haddr ▸ addrAt_findSym hzero
    obtain ⟨g,hg⟩ := exists_greatest hs hle
    have hsg : s.addr = g.addr := haddr ▸ (h.findSym hg).2
    refine .inl ⟨s,⟨hs,hle,fun t ht htle => hsg ▸ hg.2.2 t ht htle⟩,?_⟩
    simp only [hget]
    split
    · next hoff =>
      have hlt : s.addr < ip :=
        UInt64.lt_of_le_of_ne hle fun heq => hoff (by rw [heq,UInt64.sub_self])
      exact printed_of_fits (hfits s hs hlt).1 (hfits s hs hlt).2
    · exact (List.append_nil _).symm

/-- The bytes of `"10 T a\n20 t b\n"`. -/
def ascendingText : List UInt8 := [49,48,32,84,32,97,10,50,48,32,116,32,98,10]

theorem loadKallsyms_ascending : loadKallsyms ascendingText = [⟨16,[97]⟩,⟨32,[98]⟩] := by decide

/-- The bytes of `"20 t b\n10 T a\n"`. -/
def descendingText : List UInt8 := [50,48,32,116,32,98,10,49,48,32,84,32,97,10]

theorem loadKallsyms_descending : loadKallsyms descendingText = [⟨32,[98]⟩,⟨16,[97]⟩] := by decide

end Symbolizer
end ETraceDiag
