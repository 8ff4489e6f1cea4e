import ETraceDiag.NetStack
import ETraceDiag.TextSearch

/-!
# The interfaces without netlink

`ProcDevFallback` of `collect/network_metrics.cpp` reads `/proc/net/dev`, which the kernel prints in
columns of its own widths under two lines of titles.
-/

namespace ETraceDiag
namespace ProcNetDev

open Metrics TextScan TextPieces TextSearch
open PsiLines (getlines)
open Softnet (splitWs parseU64)
open NetStack (Word printLines getlines_printLines parseU64_decimal space_decimal splitWs_eq_words)

def isHeader (line : List UInt8) : Bool :=
  (find "Inter-|".toUTF8.toList line).isSome || (find "face |".toUTF8.toList line).isSome

/-- A line behind the titles; none where it is passed over. -/
def readDev (index : List UInt8 → UInt32) (err line : List UInt8) : Option NetInterfaceRow :=
  (splitOnce [58] line).bind fun (front,rest) =>
    let name := front.dropWhile fun b => b = 32 || b = 9
    let toks := splitWs rest
    if toks.length < 16 then none
    else some {
      ifindex := index name
      name
      source := "fallback".toUTF8.toList
      error := err
      rxBytes := parseU64 (toks.getD 0 [])
      rxPackets := parseU64 (toks.getD 1 [])
      rxErrors := parseU64 (toks.getD 2 [])
      rxDropped := parseU64 (toks.getD 3 [])
      txBytes := parseU64 (toks.getD 8 [])
      txPackets := parseU64 (toks.getD 9 [])
      txErrors := parseU64 (toks.getD 10 [])
      txDropped := parseU64 (toks.getD 11 [])
      collisions := parseU64 (toks.getD 13 [])
      valid := true }

/-- `index` is `if_nametoindex`. -/
def procDevFallback (index : List UInt8 → UInt32) (err text : List UInt8) : List NetInterfaceRow :=
  ((getlines text).dropWhile fun line => !isHeader line).tail.filterMap (readDev index err)

/-! ## What the kernel prints -/

/-- An interface and its counters, in the order of the columns. -/
structure Dev where
  name : List UInt8
  name_word : Word name
  rxBytes : UInt64
  rxPackets : UInt64
  rxErrors : UInt64
  rxDropped : UInt64
  rxFifo : UInt64
  rxFrame : UInt64
  rxCompressed : UInt64
  multicast : UInt64
  txBytes : UInt64
  txPackets : UInt64
  txErrors : UInt64
  txDropped : UInt64
  txFifo : UInt64
  collisions : UInt64
  carrier : UInt64
  txCompressed : UInt64

/-- The counters under the widths of their columns. -/
def Dev.columns (d : Dev) : List (ℕ × UInt64) :=
  [(7,d.rxBytes),(7,d.rxPackets),(4,d.rxErrors),(4,d.rxDropped),(4,d.rxFifo),(5,d.rxFrame),
    (10,d.rxCompressed),(9,d.multicast),(8,d.txBytes),(7,d.txPackets),(4,d.txErrors),
    (4,d.txDropped),(4,d.txFifo),(5,d.collisions),(7,d.carrier),(10,d.txCompressed)]

/-- `%*s`. -/
def padTo (width : ℕ) (s : List UInt8) : List UInt8 := List.replicate (width-s.length) 32++s

def Dev.values (d : Dev) : List UInt8 :=
  d.columns.flatMap fun c => 32::padTo c.1 (decimal c.2.toNat)

def Dev.line (d : Dev) : List UInt8 := padTo 6 d.name++58::d.values

def titles : List (List UInt8) :=
  ["Inter-|   Receive                                                |  Transmit".toUTF8.toList,
    (" face |bytes    packets errs drop fifo frame compressed multicast|bytes    packets errs "++
      "drop fifo colls carrier compressed").toUTF8.toList]

def printDevs (ds : List Dev) : List UInt8 := printLines (titles++ds.map Dev.line)

/-- The row of an interface. -/
def Dev.row (index : List UInt8 → UInt32) (err : List UInt8) (d : Dev) : NetInterfaceRow where
  ifindex := index d.name
  name := d.name
  source := "fallback".toUTF8.toList
  error := err
  rxBytes := d.rxBytes
  rxPackets := d.rxPackets
  rxErrors := d.rxErrors
  rxDropped := d.rxDropped
  txBytes := d.txBytes
  txPackets := d.txPackets
  txErrors := d.txErrors
  txDropped := d.txDropped
  collisions := d.collisions
  valid := true

/-! ## Columns -/

theorem mem_padTo {width : ℕ} {s : List UInt8} {b : UInt8} (h : b ∈ padTo width s) :
    b = 32 ∨ b ∈ s := by
  rcases List.mem_append.mp h with h | h
  · exact .inl (List.eq_of_mem_replicate h)
  · exact .inr h

theorem words_padTo (width : ℕ) (s rest : List UInt8) :
    words isSpace (padTo width s++rest) = words isSpace (s++rest) := by
  have hblank : ∀ b ∈ List.replicate (width-s.length) (32 : UInt8), isSpace b = true := by
    intro b hb
    rw [List.eq_of_mem_replicate hb]
    rfl
  rw [padTo,List.append_assoc,words_blank_append hblank]

theorem splitWs_columns (cs : List (ℕ × UInt64)) :
    splitWs (cs.flatMap fun c => 32::padTo c.1 (decimal c.2.toNat)) =
      cs.map fun c => decimal c.2.toNat := by
  rw [splitWs_eq_words]
  have hbehind : ∀ w : List UInt8,
      words isSpace (w++cs.flatMap fun c => 32::padTo c.1 (decimal c.2.toNat)) =
        words isSpace w++cs.map fun c => decimal c.2.toNat := by
    induction cs with
    | nil =>
      intro w
      rw [List.flatMap_nil,List.append_nil,List.map_nil,List.append_nil]
    | cons c cs ih =>
      intro w
      rw [List.flatMap_cons,List.cons_append,words_append_cons (by decide),words_padTo,ih,
        words_single (decimal_ne_nil _) (space_decimal _)]
      rfl
  exact hbehind []

theorem parseU64_toNat (v : UInt64) : parseU64 (decimal v.toNat) = v := by
  rw [parseU64_decimal v.toNat_lt,UInt64.ofNat_toNat]

theorem readDev_line (index : List UInt8 → UInt32) (err : List UInt8) (d : Dev) :
    readDev index err d.line = some (d.row index err) := by
  have hcolon : 58 ∉ padTo 6 d.name := by
    intro hmem
    rcases mem_padTo hmem with hb | hb
    · exact absurd hb (by decide)
    · exact d.name_word.colon hb
  have hname : (padTo 6 d.name).dropWhile (fun b => b = 32 || b = 9) = d.name := by
    rw [padTo,List.dropWhile_append_of_pos fun b hb => by rw [List.eq_of_mem_replicate hb]; rfl]
    obtain ⟨c,cs,hc⟩ := List.exists_cons_of_ne_nil d.name_word.ne_nil
    have hspace := d.name_word.space c (hc ▸ List.mem_cons_self)
    have h32 : c ≠ 32 := by rintro rfl; exact absurd hspace (by decide)
    have h9 : c ≠ 9 := by rintro rfl; exact absurd hspace (by decide)
    rw [hc,List.dropWhile_cons_of_neg (by simp [h32,h9])]
  have htoks : splitWs d.values = d.columns.map fun c => decimal c.2.toNat :=
    splitWs_columns d.columns
  rw [readDev,Dev.line,splitOnce_single_iff.mpr ⟨rfl,hcolon⟩]
  simp only [Option.bind_some,hname,htoks,Dev.columns,List.map_cons,List.map_nil,
    List.length_cons,List.length_nil,List.getD_cons_zero,List.getD_cons_succ,parseU64_toNat,
    Dev.row]
  rfl

theorem newline_line (d : Dev) : 10 ∉ d.line := by
  intro hmem
  rcases List.mem_append.mp hmem with hmem | hmem
  · rcases mem_padTo hmem with hb | hb
    · exact absurd hb (by decide)
    · exact d.name_word.newline hb
  · rcases List.mem_cons.mp hmem with hmem | hmem
    · exact absurd hmem (by decide)
    · obtain ⟨c,-,hmem⟩ := List.mem_flatMap.mp hmem
      rcases List.mem_cons.mp hmem with hmem | hmem
      · exact absurd hmem (by decide)
      · rcases mem_padTo hmem with hb | hb
        · exact absurd hb (by decide)
        · exact absurd (space_decimal _ 10 hb) (by decide)

/-- Every interface of the file has its row, with the counters of its own columns. -/
theorem devices_read (index : List UInt8 → UInt32) (err : List UInt8) (ds : List Dev) :
    procDevFallback index err (printDevs ds) = ds.map (Dev.row index err) := by
  have hlines : getlines (printDevs ds) = titles++ds.map Dev.line := by
    refine getlines_printLines fun l hl => ?_
    rcases List.mem_append.mp hl with hl | hl
    · have htitles : ∀ t ∈ titles, 10 ∉ t := by decide +kernel
      exact htitles l hl
    · obtain ⟨d,-,rfl⟩ := List.mem_map.mp hl
      exact newline_line d
  have hheader : ∀ t ∈ titles.head?, isHeader t = true := by decide +kernel
  have htail : titles.tail.filterMap (readDev index err) = [] := by
    refine List.filterMap_eq_nil_iff.mpr fun t ht => ?_
    have hcolon : ∀ t ∈ titles.tail, splitOnce [58] t = none := by decide +kernel
    rw [readDev,hcolon t ht]
    rfl
  have hrows : (ds.map Dev.line).filterMap (readDev index err) = ds.map (Dev.row index err) := by
    rw [List.filterMap_map]
    have hread : readDev index err ∘ Dev.line = some ∘ Dev.row index err :=
      funext (readDev_line index err)
    rw [hread,List.filterMap_eq_map]
  obtain ⟨t,ts,hts⟩ : ∃ t ts, titles = t::ts := ⟨_,_,rfl⟩
  rw [hts] at hheader htail
  rw [procDevFallback,hlines,hts,List.cons_append,
    List.dropWhile_cons_of_neg (by simp [hheader t rfl]),List.tail_cons,List.filterMap_append,
    hrows]
  exact (congrArg (·++_) htail).trans (List.nil_append _)

end ProcNetDev
end ETraceDiag
