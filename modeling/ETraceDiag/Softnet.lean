import ETraceDiag.Metrics
import ETraceDiag.Symbolizer
import ETraceDiag.TextSearch

/-!
# The softnet rows

`ReadSoftnet` of `collect/network_metrics.cpp`. The columns of `softnet_stat` are hexadecimal and
are read as decimal numbers; `softirqs` has a line for each softirq, and the rows that are looked
for have one for each CPU.
-/

namespace ETraceDiag
namespace Softnet

open Metrics TextScan TextSearch
open PsiLines (getlines)
open Symbolizer (hexDigit hexVal)

/-! ## Columns -/

/-- The tokens that `is >> t` takes from a line. -/
def splitWs (line : List UInt8) : List (List UInt8) := (line.splitOnP isSpace).filter (· ≠ [])

/-- `strtoull` with the base 10; zero where nothing is converted. -/
def parseU64 (s : List UInt8) : UInt64 :=
  ((scanNumber (skipSpace s)).map fun r => UInt64.ofNat r.1).getD 0

/-- A row of `softnet_stat`; none where a token is read that is not there. -/
def softnetRow (cpu : UInt32) (toks : List (List UInt8)) : Option NetSoftnetRow := do
  let processed ← toks[0]?
  let dropped ← toks[1]?
  let timeSqueeze ← toks[2]?
  let n : NetSoftnetRow := {
    cpuIdx := cpu, processed := parseU64 processed, dropped := parseU64 dropped,
    timeSqueeze := parseU64 timeSqueeze }
  if 12 ≤ toks.length then
    let receivedRps ← toks[9]?
    let flowLimit ← toks[10]?
    let backlog ← toks[11]?
    some { n with
      receivedRps := parseU64 receivedRps, flowLimitCount := parseU64 flowLimit,
      backlogLen := parseU64 backlog, valid := true }
  else
    let receivedRps ← toks[3]?
    let flowLimit ← toks[4]?
    some { n with
      receivedRps := parseU64 receivedRps, flowLimitCount := parseU64 flowLimit, valid := true }

/-- The rows of the lines; a line with less than four tokens is passed over. -/
def softnetRows (cpu : UInt32) : List (List (List UInt8)) → Option (List NetSoftnetRow)
  | [] => some []
  | toks::lines =>
    if toks.length < 4 then softnetRows cpu lines
    else do
      let n ← softnetRow cpu toks
      let ns ← softnetRows (cpu+1) lines
      some (n::ns)

/-! ## Softirqs -/

/-- The bytes of `"CPU"`, `"NET_RX"` and `"NET_TX"`. -/
def cpuTag : List UInt8 := [67,80,85]

def netRx : List UInt8 := [78,69,84,95,82,88]

def netTx : List UInt8 := [78,69,84,95,84,88]

/-- The last column of the header with the name. -/
def column (hdr : List (List UInt8)) (name : List UInt8) : Option ℕ :=
  hdr.zipIdx.foldl (fun col p => if p.1 = name then some p.2 else col) none

/-- A token of a row, behind its label. -/
def count (toks : List (List UInt8)) (col : Option ℕ) : UInt64 :=
  (col.bind fun c => toks[c+1]?.map parseU64).getD 0

/-- A line behind the header: a row of a CPU sets the two counts of that CPU. -/
def softirqLine (rxCol txCol : Option ℕ) (rows : List NetSoftnetRow) (toks : List (List UInt8)) :
    List NetSoftnetRow :=
  match toks with
  | [] => rows
  | label::_ =>
    if cpuTag.isPrefixOf label then
      rows.modify (parseU64 (label.drop 3)).toUInt32.toNat fun n =>
        { n with netRxSoftirq := count toks rxCol, netTxSoftirq := count toks txCol }
    else rows

def softirqLines (rows : List NetSoftnetRow) : List (List (List UInt8)) → List NetSoftnetRow
  | [] => rows
  | hdr::lines => lines.foldl (softirqLine (column hdr netRx) (column hdr netTx)) rows

structure SoftnetOut where
  softnets : List NetSoftnetRow := []
  ok : Bool := false

/-- The contents of the two files; none where a token is read that is not there. -/
def readSoftnet (stat softirqs : List UInt8) : Option SoftnetOut :=
  if stat = [] then some {}
  else (softnetRows 0 ((getlines stat).map splitWs)).map fun rows => {
    softnets := if softirqs = [] then rows
      else softirqLines rows ((getlines softirqs).map splitWs)
    ok := !rows.isEmpty }

/-! ## What the files hold -/

structure HexColumn (c : List UInt8) : Prop where
  ne_nil : c ≠ []
  digits : ∀ b ∈ c, (hexDigit b).isSome = true
  fits : hexVal c < 2^64

/-- The contents of `softnet_stat`: rows of at least four columns. -/
structure StatText where
  text : List UInt8
  rows : List (List (List UInt8))
  split : (getlines text).map splitWs = rows
  columns : ∀ cols ∈ rows, 4 ≤ cols.length ∧ ∀ c ∈ cols, HexColumn c

/-- The contents of `softirqs`: the CPUs, and for each softirq a count for each of them. -/
structure IrqText where
  text : List UInt8
  cpus : List ℕ
  irqs : List (List UInt8 × List UInt64)
  split : (getlines text).map splitWs = cpus.map (fun n => cpuTag++decimal n)::
    irqs.map fun irq => (irq.1++[58])::irq.2.map fun c => decimal c.toNat
  named : ∀ irq ∈ irqs, ¬ cpuTag <+: irq.1
  counts : ∀ irq ∈ irqs, irq.2.length = cpus.length

/-- The value of a column, zero without it. -/
def hexAt (cols : List (List UInt8)) (i : ℕ) : ℕ := hexVal (cols.getD i [])

/-- A row with the values of its columns. -/
structure RowExact (i : ℕ) (cols : List (List UInt8)) (n : NetSoftnetRow) : Prop where
  cpuIdx : n.cpuIdx = UInt32.ofNat i
  processed : n.processed.toNat = hexAt cols 0
  dropped : n.dropped.toNat = hexAt cols 1
  timeSqueeze : n.timeSqueeze.toNat = hexAt cols 2
  receivedRps : n.receivedRps.toNat = if 12 ≤ cols.length then hexAt cols 9 else hexAt cols 3
  flowLimitCount : n.flowLimitCount.toNat =
    if 12 ≤ cols.length then hexAt cols 10 else hexAt cols 4
  backlogLen : n.backlogLen.toNat = if 12 ≤ cols.length then hexAt cols 11 else 0

/-- The count of a CPU for a softirq is the given one. -/
def CountExact (irqs : IrqText) (name : List UInt8) (i : ℕ) (count : UInt64) : Prop :=
  ∀ counts, (name,counts) ∈ irqs.irqs → ∀ c, (i,c) ∈ irqs.cpus.zip counts → count = c

/-- Nothing is read that is not there, and every row has the values of its columns and the counts
of its CPU. -/
structure Decoded (stat : StatText) (irqs : IrqText) (out : Option SoftnetOut) : Prop where
  reads : out.isSome = true
  length : ∀ o ∈ out, o.softnets.length = stat.rows.length
  row : ∀ o ∈ out, ∀ i cols n, stat.rows[i]? = some cols → o.softnets[i]? = some n →
    RowExact i cols n
  rx : ∀ o ∈ out, ∀ i n, o.softnets[i]? = some n → CountExact irqs netRx i n.netRxSoftirq
  tx : ∀ o ∈ out, ∀ i n, o.softnets[i]? = some n → CountExact irqs netTx i n.netTxSoftirq

/-! ## A hexadecimal column read as decimal -/

/-- A decimal reading of a hexadecimal number: never more, and the same below ten only. -/
structure Reads (a b : ℕ) : Prop where
  le : a ≤ b
  eq_iff : a = b ↔ b < 10

theorem hexDigit_eq (c : UInt8) : hexDigit c =
    if 48 ≤ c.toNat ∧ c.toNat ≤ 57 then some (c.toNat-48)
    else if 97 ≤ c.toNat ∧ c.toNat ≤ 102 then some (c.toNat-87)
    else if 65 ≤ c.toNat ∧ c.toNat ≤ 70 then some (c.toNat-55)
    else none := rfl

theorem isDigit_of_hexDigit {c : UInt8} {x : ℕ} (h : hexDigit c = some x) :
    (isDigit c = true → x = c.toNat-48 ∧ x < 10) ∧ (isDigit c = false → 10 ≤ x) := by
  simp only [isDigit,UInt8.le_iff_toNat_le,Bool.and_eq_true,decide_eq_true_eq,
    Bool.and_eq_false_iff,decide_eq_false_iff_not]
  change (48 ≤ c.toNat ∧ c.toNat ≤ 57 → _) ∧ (¬ 48 ≤ c.toNat ∨ ¬ c.toNat ≤ 57 → _)
  rw [hexDigit_eq] at h
  split at h
  · cases h
    omega
  · split at h
    · cases h
      omega
    · split at h <;> cases h
      omega

theorem le_foldl_hex (cs : List UInt8) : ∀ b : ℕ,
    b ≤ cs.foldl (fun a c => 16*a+(hexDigit c).getD 0) b := by
  induction cs with
  | nil => intro b; rfl
  | cons c cs ih =>
    intro b
    rw [List.foldl_cons]
    exact le_trans (by omega) (ih _)

theorem foldl_reads {cs : List UInt8} (h : ∀ c ∈ cs, (hexDigit c).isSome = true) :
    ∀ {a b : ℕ}, Reads a b → Reads ((cs.takeWhile isDigit).foldl (fun a c => 10*a+(c.toNat-48)) a)
      (cs.foldl (fun a c => 16*a+(hexDigit c).getD 0) b) := by
  induction cs with
  | nil => exact fun hr => hr
  | cons c cs ih =>
    intro a b hr
    obtain ⟨x,hx⟩ := Option.isSome_iff_exists.mp (h c (List.mem_cons_self ..))
    have hdigit := isDigit_of_hexDigit hx
    obtain ⟨hle,heq⟩ := hr
    rw [List.foldl_cons,hx,Option.getD_some]
    cases hc : isDigit c with
    | true =>
      obtain ⟨rfl,hlt⟩ := hdigit.1 hc
      rw [List.takeWhile_cons_of_pos hc,List.foldl_cons]
      exact ih (fun d hd => h d (List.mem_cons_of_mem _ hd)) ⟨by omega,by omega⟩
    | false =>
      -- the reading stops here, and the number goes on
      have hten := hdigit.2 hc
      have hmore := le_foldl_hex cs (16*b+x)
      rw [List.takeWhile_cons_of_neg (by simp [hc])]
      change Reads a _
      exact ⟨by omega,by omega⟩

theorem hexDigit_not_space {c : UInt8} (h : (hexDigit c).isSome = true) :
    isSpace c = false ∧ c ≠ 45 ∧ c ≠ 43 := by
  refine ⟨?_,?_,?_⟩
  · by_contra hs
    simp only [isSpace,Bool.not_eq_false,Bool.or_eq_true,decide_eq_true_eq,Bool.and_eq_true,
      UInt8.le_iff_toNat_le] at hs
    rcases hs with rfl | hs
    · exact absurd h (by decide)
    · change 9 ≤ c.toNat ∧ c.toNat ≤ 13 at hs
      rw [hexDigit_eq,if_neg (by omega),if_neg (by omega),if_neg (by omega)] at h
      cases h
  · rintro rfl
    exact absurd h (by decide)
  · rintro rfl
    exact absurd h (by decide)

theorem parseU64_reads {c : List UInt8} (h : HexColumn c) :
    Reads (parseU64 c).toNat (hexVal c) := by
  have hreads := foldl_reads h.digits (a:=0) (b:=0) ⟨le_rfl,by omega⟩
  obtain ⟨x,xs,rfl⟩ := List.exists_cons_of_ne_nil h.ne_nil
  obtain ⟨hspace,h45,h43⟩ := hexDigit_not_space (h.digits x (List.mem_cons_self ..))
  have hfits : digitsVal ((x::xs).takeWhile isDigit) < 2^64 := hreads.le.trans_lt h.fits
  have hvalue : (parseU64 (x::xs)).toNat = digitsVal ((x::xs).takeWhile isDigit) := by
    rw [parseU64,skipSpace_of_head xs hspace,scanNumber]
    simp only [sign,h45,h43,if_false]
    by_cases hnil : (x::xs).takeWhile isDigit = []
    · rw [if_pos hnil,hnil]
      rfl
    · rw [if_neg hnil,Option.map_some,Option.getD_some,strtoul,if_neg (by omega),
        if_neg Bool.false_ne_true,UInt64.toNat_ofNat_of_lt' hfits]
  rw [hvalue]
  exact hreads

/-! ## The rows -/

/-- A row of which every token that is read is there. -/
def decimalRow (cpu : UInt32) (cols : List (List UInt8)) : NetSoftnetRow where
  cpuIdx := cpu
  processed := parseU64 (cols.getD 0 [])
  dropped := parseU64 (cols.getD 1 [])
  timeSqueeze := parseU64 (cols.getD 2 [])
  receivedRps := if 12 ≤ cols.length then parseU64 (cols.getD 9 []) else parseU64 (cols.getD 3 [])
  flowLimitCount :=
    if 12 ≤ cols.length then parseU64 (cols.getD 10 []) else parseU64 (cols.getD 4 [])
  backlogLen := if 12 ≤ cols.length then parseU64 (cols.getD 11 []) else 0
  valid := true

theorem getElem?_of_lt {cols : List (List UInt8)} {i : ℕ} (h : i < cols.length) :
    cols[i]? = some (cols.getD i []) := by
  rw [List.getD_eq_getElem?_getD,List.getElem?_eq_getElem h,Option.getD_some]

theorem softnetRow_of_lt (cpu : UInt32) {cols : List (List UInt8)} (h : 4 < cols.length) :
    softnetRow cpu cols = some (decimalRow cpu cols) := by
  rw [softnetRow,getElem?_of_lt (i:=0) (by omega),getElem?_of_lt (i:=1) (by omega),
    getElem?_of_lt (i:=2) (by omega)]
  by_cases h12 : 12 ≤ cols.length
  · simp only [Option.bind_eq_bind,Option.bind_some,if_pos h12]
    rw [getElem?_of_lt (i:=9) (by omega),getElem?_of_lt (i:=10) (by omega),
      getElem?_of_lt (i:=11) (by omega)]
    simp [decimalRow,h12]
  · simp only [Option.bind_eq_bind,Option.bind_some,if_neg h12]
    rw [getElem?_of_lt (i:=3) (by omega),getElem?_of_lt (i:=4) h]
    simp [decimalRow,h12]

/-- With four columns the fifth is read. -/
theorem softnetRow_of_four (cpu : UInt32) {cols : List (List UInt8)} (h : cols.length = 4) :
    softnetRow cpu cols = none := by
  have h12 : ¬ 12 ≤ cols.length := by omega
  rw [softnetRow,getElem?_of_lt (i:=0) (by omega),getElem?_of_lt (i:=1) (by omega),
    getElem?_of_lt (i:=2) (by omega)]
  simp only [Option.bind_eq_bind,Option.bind_some,if_neg h12]
  rw [getElem?_of_lt (i:=3) (by omega),List.getElem?_eq_none h.le]
  rfl

/-- The rows of the lines as they are read, numbered from the first one. -/
def decimalRows (k : ℕ) (rows : List (List (List UInt8))) : List NetSoftnetRow :=
  (rows.zipIdx k).map fun p => decimalRow (UInt32.ofNat p.2) p.1

theorem softnetRows_of_lt {rows : List (List (List UInt8))} (h : ∀ cols ∈ rows, 4 < cols.length) :
    ∀ k : ℕ, softnetRows (UInt32.ofNat k) rows = some (decimalRows k rows) := by
  induction rows with
  | nil => intro k; rfl
  | cons cols rows ih =>
    intro k
    have hlen := h cols (List.mem_cons_self ..)
    have hnext : UInt32.ofNat k+1 = UInt32.ofNat (k+1) := by rw [UInt32.ofNat_add]; rfl
    rw [softnetRows,if_neg (by omega),softnetRow_of_lt _ hlen,hnext,
      ih (fun c hc => h c (List.mem_cons_of_mem _ hc)) (k+1)]
    rfl

theorem softnetRows_of_four {rows : List (List (List UInt8))} (h : ∀ cols ∈ rows, 4 ≤ cols.length)
    (hfour : ∃ cols ∈ rows, cols.length = 4) : ∀ cpu, softnetRows cpu rows = none := by
  induction rows with
  | nil => obtain ⟨cols,hmem,_⟩ := hfour; cases hmem
  | cons cols rows ih =>
    intro cpu
    have hlen := h cols (List.mem_cons_self ..)
    rw [softnetRows,if_neg (by omega)]
    by_cases heq : cols.length = 4
    · rw [softnetRow_of_four cpu heq]
      rfl
    · obtain ⟨c,hc,hc4⟩ := hfour
      have hmem : c ∈ rows := (List.mem_cons.mp hc).resolve_left fun h => heq (h ▸ hc4)
      rw [softnetRow_of_lt cpu (by omega),
        ih (fun c hc => h c (List.mem_cons_of_mem _ hc)) ⟨c,hmem,hc4⟩]
      rfl

/-- No line of the table of softirqs is a row of a CPU. -/
theorem softirqLines_eq (irqs : IrqText) (rows : List NetSoftnetRow) :
    softirqLines rows ((getlines irqs.text).map splitWs) = rows := by
  have hline (rxCol txCol : Option ℕ) (rows : List NetSoftnetRow)
      (irq : List UInt8 × List UInt64) (hirq : irq ∈ irqs.irqs) :
      softirqLine rxCol txCol rows ((irq.1++[58])::irq.2.map fun c => decimal c.toNat) = rows := by
    have hnot : ¬ cpuTag <+: irq.1++58::[] := fun hp =>
      irqs.named irq hirq ((prefix_append_sep (by decide) irq.1 []).mp hp)
    rw [softirqLine,if_neg (by rwa [List.isPrefixOf_iff_prefix])]
  rw [irqs.split,softirqLines]
  refine List.foldlRecOn _ _ (motive:=fun out => out = rows) rfl ?_
  rintro out rfl toks htoks
  obtain ⟨irq,hirq,rfl⟩ := List.mem_map.mp htoks
  exact hline _ _ out irq hirq

theorem readSoftnet_eq (stat : StatText) (irqs : IrqText) :
    readSoftnet stat.text irqs.text = (softnetRows 0 stat.rows).map fun rows =>
      { softnets := rows, ok := !rows.isEmpty } := by
  rw [readSoftnet]
  by_cases hnil : stat.text = []
  · have hrows : stat.rows = [] := by
      rw [← stat.split,hnil]
      rfl
    rw [if_pos hnil,hrows]
    rfl
  · rw [if_neg hnil,stat.split]
    refine congrArg (Option.map · _) (funext fun rows => ?_)
    rw [softirqLines_eq,ite_self]

/-! ## When the decoding is exact -/

/-- The columns of a row that are read. -/
def readColumns (cols : List (List UInt8)) : List ℕ :=
  if 12 ≤ cols.length then [0,1,2,9,10,11] else [0,1,2,3,4]

/-- The CPUs that have a row have no count for the softirq. -/
def Silent (stat : StatText) (irqs : IrqText) (name : List UInt8) : Prop :=
  ∀ i < stat.rows.length, CountExact irqs name i 0

/-- No column that is missing is read, and what is read is the same number in both bases. -/
structure BelowTen (stat : StatText) (irqs : IrqText) : Prop where
  columns : ∀ cols ∈ stat.rows, cols.length ≠ 4
  small : ∀ cols ∈ stat.rows, ∀ i ∈ readColumns cols, hexAt cols i < 10
  rx : Silent stat irqs netRx
  tx : Silent stat irqs netTx

theorem parse_iff {cols : List (List UInt8)} (h : ∀ c ∈ cols, HexColumn c) {i : ℕ}
    (hi : i < cols.length) : (parseU64 (cols.getD i [])).toNat = hexAt cols i ↔
      hexAt cols i < 10 := by
  have hmem := List.mem_of_getElem? (getElem?_of_lt hi)
  exact (parseU64_reads (h _ hmem)).eq_iff

theorem lt_length_of_mem_readColumns {cols : List (List UInt8)} (h : 4 < cols.length) {j : ℕ}
    (hj : j ∈ readColumns cols) : j < cols.length := by
  rw [readColumns] at hj
  split at hj
  · have hle : j ≤ 11 := by simp at hj; omega
    omega
  · have hle : j ≤ 4 := by simp at hj; omega
    omega

/-- A row is exact when every column that is read has been. -/
theorem rowExact_decimalRow (i : ℕ) (cols : List (List UInt8)) :
    RowExact i cols (decimalRow (UInt32.ofNat i) cols) ↔
      ∀ j ∈ readColumns cols, (parseU64 (cols.getD j [])).toNat = hexAt cols j := by
  rw [readColumns]
  by_cases h12 : 12 ≤ cols.length
  · rw [if_pos h12]
    simp only [List.forall_mem_cons,List.not_mem_nil,false_imp_iff,implies_true,and_true]
    constructor
    · rintro ⟨-,a,b,c,d,e,f⟩
      simp only [decimalRow,h12,if_true] at a b c d e f
      exact ⟨a,b,c,d,e,f⟩
    · rintro ⟨a,b,c,d,e,f⟩
      constructor <;> simp only [decimalRow,h12,if_true] <;> assumption
  · rw [if_neg h12]
    simp only [List.forall_mem_cons,List.not_mem_nil,false_imp_iff,implies_true,and_true]
    constructor
    · rintro ⟨-,a,b,c,d,e,-⟩
      simp only [decimalRow,h12,if_false] at a b c d e
      exact ⟨a,b,c,d,e⟩
    · rintro ⟨a,b,c,d,e⟩
      constructor <;> simp only [decimalRow,h12,if_false] <;> first | assumption | rfl

theorem decimalRow_exact_iff {cols : List (List UInt8)} (h : ∀ c ∈ cols, HexColumn c)
    (hlen : 4 < cols.length) (i : ℕ) : RowExact i cols (decimalRow (UInt32.ofNat i) cols) ↔
      ∀ i ∈ readColumns cols, hexAt cols i < 10 := by
  rw [rowExact_decimalRow]
  exact forall₂_congr fun j hj => parse_iff h (lt_length_of_mem_readColumns hlen hj)

theorem getElem?_decimalRows (rows : List (List (List UInt8))) (i : ℕ) :
    (decimalRows 0 rows)[i]? = (rows[i]?).map (decimalRow (UInt32.ofNat i)) := by
  rw [decimalRows,List.getElem?_map,List.getElem?_zipIdx,Nat.zero_add,Option.map_map]
  rfl

/-- A row of the result, and the columns that it comes from. -/
theorem decimalRows_some {rows : List (List (List UInt8))} {i : ℕ} {n : NetSoftnetRow}
    (hn : (decimalRows 0 rows)[i]? = some n) : i < rows.length ∧
      ∃ cols, rows[i]? = some cols ∧ n = decimalRow (UInt32.ofNat i) cols := by
  rw [getElem?_decimalRows] at hn
  obtain ⟨cols,hcols,rfl⟩ := Option.map_eq_some_iff.mp hn
  exact ⟨(List.getElem?_eq_some_iff.mp hcols).1,cols,hcols,rfl⟩

/-- Where the columns that are read are there, the rest is about numbers. -/
theorem decoded_decimalRows_iff {stat : StatText} {irqs : IrqText} {ok : Bool}
    (hlt : ∀ cols ∈ stat.rows, 4 < cols.length) :
    Decoded stat irqs (some { softnets := decimalRows 0 stat.rows, ok := ok }) ↔
      BelowTen stat irqs := by
  have hexact : ∀ cols ∈ stat.rows, ∀ i, RowExact i cols (decimalRow (UInt32.ofNat i) cols) ↔
      ∀ j ∈ readColumns cols, hexAt cols j < 10 := fun cols hc i =>
    decimalRow_exact_iff (stat.columns cols hc).2 (hlt cols hc) i
  constructor
  · intro h
    have hrow : ∀ {i : ℕ} (hi : i < stat.rows.length),
        (decimalRows 0 stat.rows)[i]? = some (decimalRow (UInt32.ofNat i) stat.rows[i]) := by
      intro i hi
      rw [getElem?_decimalRows,List.getElem?_eq_getElem hi]
      rfl
    refine ⟨fun cols hc => ne_of_gt (hlt cols hc),fun cols hc => ?_,fun i hi => ?_,fun i hi => ?_⟩
    · obtain ⟨i,hi,rfl⟩ := List.mem_iff_getElem.mp hc
      exact (hexact _ hc i).mp (h.row _ rfl i _ _ (List.getElem?_eq_getElem hi) (hrow hi))
    · exact h.rx _ rfl i _ (hrow hi)
    · exact h.tx _ rfl i _ (hrow hi)
  · intro h
    refine ⟨rfl,?_,?_,?_,?_⟩
    · intro o ho
      obtain rfl := Option.some.inj ho
      simp [decimalRows]
    · intro o ho i cols n hcols hn
      obtain rfl := Option.some.inj ho
      obtain ⟨-,cols',hcols',rfl⟩ := decimalRows_some hn
      obtain rfl := Option.some.inj (hcols.symm.trans hcols')
      have hmem := List.mem_of_getElem? hcols
      exact (hexact cols hmem i).mpr (h.small cols hmem)
    · intro o ho i n hn
      obtain rfl := Option.some.inj ho
      obtain ⟨hi,cols,-,rfl⟩ := decimalRows_some hn
      exact h.rx i hi
    · intro o ho i n hn
      obtain rfl := Option.some.inj ho
      obtain ⟨hi,cols,-,rfl⟩ := decimalRows_some hn
      exact h.tx i hi

/-- The files are decoded exactly when every number in them is the same in the two bases, the
columns that are read are there and the counts that are not read are zero. -/
theorem readSoftnet_decoded_iff (stat : StatText) (irqs : IrqText) :
    Decoded stat irqs (readSoftnet stat.text irqs.text) ↔ BelowTen stat irqs := by
  rw [readSoftnet_eq]
  by_cases hfour : ∃ cols ∈ stat.rows, cols.length = 4
  · rw [softnetRows_of_four (fun cols hc => (stat.columns cols hc).1) hfour]
    obtain ⟨cols,hmem,h4⟩ := hfour
    exact ⟨fun h => absurd h.reads Bool.false_ne_true,fun h => absurd h4 (h.columns cols hmem)⟩
  · have hlt : ∀ cols ∈ stat.rows, 4 < cols.length := fun cols hc =>
      lt_of_le_of_ne (stat.columns cols hc).1 fun h4 => hfour ⟨cols,hc,h4.symm⟩
    have hrows : softnetRows 0 stat.rows = some (decimalRows 0 stat.rows) := softnetRows_of_lt hlt 0
    rw [hrows,Option.map_some]
    exact decoded_decimalRows_iff hlt

/-- A CPU that has processed ten packets. -/
def tenPackets : StatText where
  text := "0000000a 00000000 00000000 00000000 00000000 00000000\n".toUTF8.toList
  rows := ["0000000a","00000000","00000000","00000000","00000000","00000000"].map
    (fun s : String => s.toUTF8.toList)::[]
  split := by decide +kernel
  columns := by
    have hcols : ∀ c ∈ ["0000000a","00000000","00000000","00000000","00000000","00000000"].map
        (fun s : String => s.toUTF8.toList),
        c ≠ [] ∧ (∀ b ∈ c, (hexDigit b).isSome = true) ∧ hexVal c < 2^64 := by decide +kernel
    intro cols hmem
    rw [List.mem_singleton.mp hmem]
    exact ⟨by decide,fun c hc => ⟨(hcols c hc).1,(hcols c hc).2.1,(hcols c hc).2.2⟩⟩

/-- They came with five softirqs. -/
def fiveIrqs : IrqText where
  text := "     CPU0\nNET_RX:  5\n".toUTF8.toList
  cpus := [0]
  irqs := [(netRx,[5])]
  split := by decide +kernel
  named := by decide
  counts := by decide

/-- The row says that there were none of either. -/
theorem tenPackets_not_decoded :
    ¬ Decoded tenPackets fiveIrqs (readSoftnet tenPackets.text fiveIrqs.text) := by
  intro h
  have hread : (readSoftnet tenPackets.text fiveIrqs.text).map
      (fun o => o.softnets.map fun n => (n.processed.toNat,n.netRxSoftirq.toNat)) =
        some [(0,0)] := by decide +kernel
  obtain ⟨o,ho,hmap⟩ := Option.map_eq_some_iff.mp hread
  obtain ⟨n,hn,hpair⟩ := List.map_eq_singleton_iff.mp hmap
  have hrow := (h.row o ho 0 _ n rfl (by rw [hn]; rfl)).processed
  rw [(Prod.mk.inj hpair).1] at hrow
  exact absurd hrow (by decide +kernel)

end Softnet
end ETraceDiag
