import ETraceDiag.Softnet
import ETraceDiag.TextPieces

/-!
# The protocol counters

`FindSection`, `KeyedValue` and `SockstatMem` of `collect/network_metrics.cpp`, as `Snapshot` uses
them. The files of the kernel name their counters, and which sections and columns there are and in
which order is not fixed.
-/

namespace ETraceDiag
namespace NetStack

open Metrics TextScan
open PsiLines (getlines)
open Softnet (splitWs parseU64)
open TextPieces

/-- What is behind the name and a colon, in a line that begins with them. -/
def behind (name line : List UInt8) : Option (List UInt8) :=
  if (name++[58]).isPrefixOf line then some (line.drop (name.length+1)) else none

/-- The first two lines of a name: the keys and the values. -/
def findSection (text name : List UInt8) : Option (List UInt8 × List UInt8) :=
  match (getlines text).filterMap (behind name) with
  | keys::vals::_ => some (keys,vals)
  | _ => none

def keyedValue (keys vals key : List UInt8) : Option UInt64 :=
  (((splitWs keys).zip (splitWs vals)).find? (·.1 = key)).map fun kv => parseU64 kv.2

/-- The bytes of `"mem"`. -/
def memKey : List UInt8 := [109,101,109]

def memOf : List (List UInt8) → Option UInt64
  | tok::next::toks => if tok = memKey then some (parseU64 next) else memOf (next::toks)
  | _ => none

def sockstatMem (text proto : List UInt8) : UInt64 :=
  (((getlines text).filterMap (behind proto)).findSome? fun line => memOf (splitWs line)).getD 0

/-! ## The fields -/

inductive File
  | snmp | netstat

inductive Field
  | activeOpens | passiveOpens | attemptFails | estabResets | currEstab | inSegs | outSegs
  | retransSegs | inErrs | outRsts
  | udpInDatagrams | udpNoPorts | udpInErrors | udpOutDatagrams | udpRcvbufErrors
  | udpSndbufErrors
  | listenOverflows | listenDrops | backlogDrop | rcvQDrop | synRetrans | timeouts
  | memoryPressures
  deriving DecidableEq

namespace Field

/-- The file, the section and the key. -/
def place : Field → File × String × String
  | activeOpens => (.snmp,"Tcp","ActiveOpens")
  | passiveOpens => (.snmp,"Tcp","PassiveOpens")
  | attemptFails => (.snmp,"Tcp","AttemptFails")
  | estabResets => (.snmp,"Tcp","EstabResets")
  | currEstab => (.snmp,"Tcp","CurrEstab")
  | inSegs => (.snmp,"Tcp","InSegs")
  | outSegs => (.snmp,"Tcp","OutSegs")
  | retransSegs => (.snmp,"Tcp","RetransSegs")
  | inErrs => (.snmp,"Tcp","InErrs")
  | outRsts => (.snmp,"Tcp","OutRsts")
  | udpInDatagrams => (.snmp,"Udp","InDatagrams")
  | udpNoPorts => (.snmp,"Udp","NoPorts")
  | udpInErrors => (.snmp,"Udp","InErrors")
  | udpOutDatagrams => (.snmp,"Udp","OutDatagrams")
  | udpRcvbufErrors => (.snmp,"Udp","RcvbufErrors")
  | udpSndbufErrors => (.snmp,"Udp","SndbufErrors")
  | listenOverflows => (.netstat,"TcpExt","ListenOverflows")
  | listenDrops => (.netstat,"TcpExt","ListenDrops")
  | backlogDrop => (.netstat,"TcpExt","TCPBacklogDrop")
  | rcvQDrop => (.netstat,"TcpExt","TCPRcvQDrop")
  | synRetrans => (.netstat,"TcpExt","TCPSynRetrans")
  | timeouts => (.netstat,"TcpExt","TCPTimeouts")
  | memoryPressures => (.netstat,"TcpExt","TCPMemoryPressures")

def file (f : Field) : File := f.place.1

def sectionName (f : Field) : List UInt8 := f.place.2.1.toUTF8.toList

def key (f : Field) : List UInt8 := f.place.2.2.toUTF8.toList

def value : Field → NetStackSnapshot → UInt64
  | activeOpens => NetStackSnapshot.activeOpens
  | passiveOpens => NetStackSnapshot.passiveOpens
  | attemptFails => NetStackSnapshot.attemptFails
  | estabResets => NetStackSnapshot.estabResets
  | currEstab => NetStackSnapshot.currEstab
  | inSegs => NetStackSnapshot.inSegs
  | outSegs => NetStackSnapshot.outSegs
  | retransSegs => NetStackSnapshot.retransSegs
  | inErrs => NetStackSnapshot.inErrs
  | outRsts => NetStackSnapshot.outRsts
  | udpInDatagrams => NetStackSnapshot.udpInDatagrams
  | udpNoPorts => NetStackSnapshot.udpNoPorts
  | udpInErrors => NetStackSnapshot.udpInErrors
  | udpOutDatagrams => NetStackSnapshot.udpOutDatagrams
  | udpRcvbufErrors => NetStackSnapshot.udpRcvbufErrors
  | udpSndbufErrors => NetStackSnapshot.udpSndbufErrors
  | listenOverflows => NetStackSnapshot.listenOverflows
  | listenDrops => NetStackSnapshot.listenDrops
  | backlogDrop => NetStackSnapshot.backlogDrop
  | rcvQDrop => NetStackSnapshot.rcvQDrop
  | synRetrans => NetStackSnapshot.synRetrans
  | timeouts => NetStackSnapshot.timeouts
  | memoryPressures => NetStackSnapshot.memoryPressures

def set (v : UInt64) (t : NetStackSnapshot) : Field → NetStackSnapshot
  | activeOpens => { t with activeOpens := v }
  | passiveOpens => { t with passiveOpens := v }
  | attemptFails => { t with attemptFails := v }
  | estabResets => { t with estabResets := v }
  | currEstab => { t with currEstab := v }
  | inSegs => { t with inSegs := v }
  | outSegs => { t with outSegs := v }
  | retransSegs => { t with retransSegs := v }
  | inErrs => { t with inErrs := v }
  | outRsts => { t with outRsts := v }
  | udpInDatagrams => { t with udpInDatagrams := v }
  | udpNoPorts => { t with udpNoPorts := v }
  | udpInErrors => { t with udpInErrors := v }
  | udpOutDatagrams => { t with udpOutDatagrams := v }
  | udpRcvbufErrors => { t with udpRcvbufErrors := v }
  | udpSndbufErrors => { t with udpSndbufErrors := v }
  | listenOverflows => { t with listenOverflows := v }
  | listenDrops => { t with listenDrops := v }
  | backlogDrop => { t with backlogDrop := v }
  | rcvQDrop => { t with rcvQDrop := v }
  | synRetrans => { t with synRetrans := v }
  | timeouts => { t with timeouts := v }
  | memoryPressures => { t with memoryPressures := v }

/-- The order in which `Snapshot` asks for them. -/
def all : List Field :=
  [activeOpens,passiveOpens,attemptFails,estabResets,currEstab,inSegs,outSegs,retransSegs,inErrs,
    outRsts,udpInDatagrams,udpNoPorts,udpInErrors,udpOutDatagrams,udpRcvbufErrors,udpSndbufErrors,
    listenOverflows,listenDrops,backlogDrop,rcvQDrop,synRetrans,timeouts,memoryPressures]

theorem mem_all (f : Field) : f ∈ all := by cases f <;> decide

theorem value_set (f g : Field) (v : UInt64) (t : NetStackSnapshot) :
    f.value (g.set v t) = if f = g then v else f.value t := by
  cases g <;> cases f <;> rfl

theorem notMem_sectionName (f : Field) : 58 ∉ f.sectionName := by cases f <;> decide +kernel

end Field

/-- The four files. -/
structure Files where
  snmp : List UInt8
  netstat : List UInt8
  sockstat : List UInt8
  sockstat6 : List UInt8

def Files.text (files : Files) : File → List UInt8
  | .snmp => files.snmp
  | .netstat => files.netstat

def Field.find (files : Files) (f : Field) : Option UInt64 :=
  (findSection (files.text f.file) f.sectionName).bind fun s => keyedValue s.1 s.2 f.key

/-- `get_snmp`, and the same for `netstat`. -/
def get (files : Files) (t : NetStackSnapshot) (f : Field) : NetStackSnapshot :=
  match f.find files with
  | none => t
  | some v => f.set v t

inductive Proto
  | tcp | udp | frag

def Proto.name : Proto → List UInt8
  | tcp => "TCP".toUTF8.toList
  | udp => "UDP".toUTF8.toList
  | frag => "FRAG".toUTF8.toList

def Proto.name6 : Proto → List UInt8
  | tcp => "TCP6".toUTF8.toList
  | udp => "UDP6".toUTF8.toList
  | frag => "FRAG6".toUTF8.toList

def sockMem (files : Files) (p : Proto) : UInt64 :=
  sockstatMem files.sockstat p.name+sockstatMem files.sockstat6 p.name6

/-- What `Snapshot` writes before it asks for the counters. -/
def opened (netnsIno : UInt64) (files : Files) : NetStackSnapshot where
  netnsIno
  valid := files.snmp ≠ []
  source := (if files.snmp ≠ [] then "procfs" else "unavailable").toUTF8.toList
  error := (if files.snmp ≠ [] then "" else "/proc/net/snmp unreadable").toUTF8.toList

def setMem (files : Files) (t : NetStackSnapshot) : NetStackSnapshot :=
  { t with
    tcpSockMem := sockMem files .tcp
    udpSockMem := sockMem files .udp
    fragSockMem := sockMem files .frag }

/-- The part of `Snapshot` that reads the files. -/
def stack (netnsIno : UInt64) (files : Files) : NetStackSnapshot :=
  setMem files (Field.all.foldl (get files) (opened netnsIno files))

def Proto.memory : Proto → NetStackSnapshot → UInt64
  | tcp => NetStackSnapshot.tcpSockMem
  | udp => NetStackSnapshot.udpSockMem
  | frag => NetStackSnapshot.fragSockMem

theorem value_get (files : Files) (t : NetStackSnapshot) (f g : Field) :
    f.value (get files t g) = if f = g then (f.find files).getD (f.value t) else f.value t := by
  rw [get]
  by_cases hfg : f = g
  · subst hfg
    rw [if_pos rfl]
    cases f.find files with
    | none => rfl
    | some v =>
      show f.value (f.set v t) = v
      rw [Field.value_set,if_pos rfl]
  · rw [if_neg hfg]
    cases g.find files with
    | none => rfl
    | some v =>
      show f.value (g.set v t) = f.value t
      rw [Field.value_set,if_neg hfg]

theorem valid_get (files : Files) (t : NetStackSnapshot) (f : Field) :
    (get files t f).valid = t.valid := by
  rw [get]
  cases f.find files with
  | none => rfl
  | some v => cases f <;> rfl

theorem value_foldl (files : Files) (f : Field) (fs : List Field) : ∀ t : NetStackSnapshot,
    f.value (fs.foldl (get files) t) =
      if f ∈ fs then (f.find files).getD (f.value t) else f.value t := by
  induction fs with
  | nil => exact fun t => rfl
  | cons g fs ih =>
    intro t
    rw [List.foldl_cons,ih,value_get]
    by_cases hfg : f = g
    · have hmem : f ∈ g::fs := hfg ▸ List.mem_cons_self
      rw [if_pos hfg,if_pos hmem]
      split
      · cases f.find files <;> rfl
      · rfl
    · have hmem : f ∈ g::fs ↔ f ∈ fs := by simp [hfg]
      rw [if_neg hfg,if_congr hmem rfl rfl]

theorem value_opened (netnsIno : UInt64) (files : Files) (f : Field) :
    f.value (opened netnsIno files) = 0 := by
  cases f <;> rfl

theorem value_setMem (files : Files) (t : NetStackSnapshot) (f : Field) :
    f.value (setMem files t) = f.value t := by
  cases f <;> rfl

/-- A counter is what its file says of it, and zero without. -/
theorem value_stack (netnsIno : UInt64) (files : Files) (f : Field) :
    f.value (stack netnsIno files) = (f.find files).getD 0 := by
  rw [stack,value_setMem,value_foldl,if_pos f.mem_all,value_opened]

theorem valid_stack (netnsIno : UInt64) (files : Files) :
    (stack netnsIno files).valid = decide (files.snmp ≠ []) := by
  have hkeep : ∀ (fs : List Field) (t : NetStackSnapshot),
      (fs.foldl (get files) t).valid = t.valid := by
    intro fs
    induction fs with
    | nil => exact fun t => rfl
    | cons f fs ih => exact fun t => (ih _).trans (valid_get files t f)
  have hmem : ∀ t : NetStackSnapshot, (setMem files t).valid = t.valid := fun t => rfl
  rw [stack,hmem,hkeep]
  rfl

/-! ## What the files hold -/

/-- A name or a key: no blanks and no colons. -/
structure Word (w : List UInt8) : Prop where
  ne_nil : w ≠ []
  space : ∀ b ∈ w, isSpace b = false
  colon : 58 ∉ w

def number : ℤ → List UInt8
  | .ofNat n => decimal n
  | .negSucc n => 45::decimal (n+1)

/-- The counters of a protocol. -/
structure Table where
  name : List UInt8
  cols : List (List UInt8 × ℤ)
  name_word : Word name
  key_word : ∀ c ∈ cols, Word c.1
  fits : ∀ c ∈ cols, -2^64 < c.2 ∧ c.2 < 2^64

def line (name : List UInt8) (words : List (List UInt8)) : List UInt8 :=
  name++58::words.flatMap (32::·)

def Table.lines (t : Table) : List (List UInt8) :=
  [line t.name (t.cols.map Prod.fst),line t.name (t.cols.map (number ·.2))]

def printLines (ls : List (List UInt8)) : List UInt8 := ls.flatMap (·++[10])

def printTables (ts : List Table) : List UInt8 := printLines (ts.flatMap Table.lines)

/-- The value of a counter in the first table of the name. -/
def lookUp (ts : List Table) (name key : List UInt8) : Option ℤ :=
  (ts.find? (·.name = name)).bind fun t => (t.cols.find? (·.1 = key)).map Prod.snd

/-- A line of `sockstat`. -/
structure Sock where
  name : List UInt8
  counts : List (List UInt8 × UInt64)
  name_word : Word name
  key_word : ∀ c ∈ counts, Word c.1

def Sock.line (s : Sock) : List UInt8 :=
  NetStack.line s.name (s.counts.flatMap fun c => [c.1,decimal c.2.toNat])

def printSocks (ss : List Sock) : List UInt8 := printLines (ss.map Sock.line)

/-- The memory in the first line of the name that has it. -/
def memIn (ss : List Sock) (name : List UInt8) : UInt64 :=
  ((ss.filter (·.name = name)).findSome? fun s =>
    (s.counts.find? (·.1 = memKey)).map Prod.snd).getD 0

/-! ## Lines and words -/

theorem getlines_printLines {ls : List (List UInt8)} (h : ∀ l ∈ ls, 10 ∉ l) :
    getlines (printLines ls) = ls := by
  have hsplit : (printLines ls).splitOn 10 = ls++[[]] := by
    induction ls with
    | nil => rfl
    | cons l ls ih =>
      obtain ⟨hl,hls⟩ := List.forall_mem_cons.mp h
      rw [printLines,List.flatMap_cons,List.append_assoc,List.singleton_append,
        List.splitOn_append_cons_self_of_not_mem hl]
      exact congrArg (l::·) (ih hls)
  rw [getlines,hsplit]
  simp

theorem Word.newline {w : List UInt8} (h : Word w) : 10 ∉ w :=
  fun hmem => absurd (h.space 10 hmem) (by decide)

theorem splitWs_eq_words (line : List UInt8) : splitWs line = words isSpace line :=
  List.filter_congr fun w _ => by cases w <;> rfl

theorem splitWs_flatMap {ws : List (List UInt8)}
    (h : ∀ w ∈ ws, w ≠ [] ∧ ∀ b ∈ w, isSpace b = false) :
    splitWs (ws.flatMap (32::·)) = ws := by
  rw [splitWs_eq_words]
  have hbehind : ∀ w : List UInt8, words isSpace (w++ws.flatMap (32::·)) =
      words isSpace w++ws := by
    induction ws with
    | nil =>
      intro w
      rw [List.flatMap_nil,List.append_nil,List.append_nil]
    | cons x ws ih =>
      intro w
      obtain ⟨⟨hne,hx⟩,hws⟩ := List.forall_mem_cons.mp h
      rw [List.flatMap_cons,List.cons_append,words_append_cons (by decide),ih hws x,
        words_single hne hx]
      rfl
  exact hbehind []

theorem notMem_line {name : List UInt8} (hname : Word name) {ws : List (List UInt8)}
    (h : ∀ w ∈ ws, ∀ b ∈ w, isSpace b = false) : 10 ∉ line name ws := by
  intro hmem
  rcases List.mem_append.mp hmem with hmem | hmem
  · exact hname.newline hmem
  · rcases List.mem_cons.mp hmem with hmem | hmem
    · exact absurd hmem (by decide)
    · obtain ⟨w,hw,hmem⟩ := List.mem_flatMap.mp hmem
      rcases List.mem_cons.mp hmem with hmem | hmem
      · exact absurd hmem (by decide)
      · exact absurd (h w hw 10 hmem) (by decide)

theorem behind_line {name other : List UInt8} (h : 58 ∉ name) (hother : 58 ∉ other)
    (ws : List (List UInt8)) : behind name (line other ws) =
      if other = name then some (ws.flatMap (32::·)) else none := by
  by_cases hname : other = name
  · subst hname
    have hline : line other ws = other++[58]++ws.flatMap (32::·) :=
      (List.append_assoc other [58] _).symm
    have hpre : (other++[58]).isPrefixOf (line other ws) = true :=
      List.isPrefixOf_iff_prefix.mpr ⟨_,hline.symm⟩
    rw [behind,if_pos hpre,if_pos rfl,hline,List.drop_left' (by simp)]
  · have hpre : ¬(name++[58]).isPrefixOf (line other ws) = true := by
      intro hpre
      obtain ⟨t,ht⟩ := List.isPrefixOf_iff_prefix.mp hpre
      have hleft := splitOnce_single_iff.mpr ⟨ht.symm.trans (List.append_assoc name [58] t),h⟩
      have hright : splitOnce [58] (line other ws) = some (other,ws.flatMap (32::·)) :=
        splitOnce_single_iff.mpr ⟨rfl,hother⟩
      rw [hright,Option.some.injEq,Prod.mk.injEq] at hleft
      exact hname hleft.1
    rw [behind,if_neg hpre,if_neg hname]

theorem space_decimal (n : ℕ) : ∀ b ∈ decimal n, isSpace b = false :=
  fun b hb => not_isSpace_of_isDigit (decimal_digits n b hb)

theorem space_number (z : ℤ) : number z ≠ [] ∧ ∀ b ∈ number z, isSpace b = false := by
  cases z with
  | ofNat n => exact ⟨decimal_ne_nil n,space_decimal n⟩
  | negSucc n =>
    exact ⟨List.cons_ne_nil _ _,List.forall_mem_cons.mpr ⟨by decide,space_decimal (n+1)⟩⟩

theorem parseU64_decimal {n : ℕ} (h : n < 2^64) : parseU64 (decimal n) = UInt64.ofNat n := by
  have hskip := skipSpace_decimal n []
  have hscan : scanNumber (decimal n++[]) = some (n,[]) :=
    scanNumber_decimal n h (by simp [Ends])
  rw [List.append_nil] at hskip hscan
  rw [parseU64,hskip,hscan]
  rfl

/-- A negative number wraps. -/
theorem parseU64_number {z : ℤ} (hlo : -2^64 < z) (hhi : z < 2^64) :
    parseU64 (number z) = UInt64.ofInt z := by
  cases z with
  | ofNat n =>
    have hn : n < 2^64 := by
      have h : (n : ℤ) < 2^64 := hhi
      omega
    have hmod : ((n : ℤ) % 2^64).toNat = n := by omega
    show parseU64 (decimal n) = UInt64.ofNat ((n : ℤ) % 2^64).toNat
    rw [parseU64_decimal hn,hmod]
  | negSucc n =>
    have hn : n+1 < 2^64 := by omega
    have htake : (decimal (n+1)).takeWhile isDigit = decimal (n+1) :=
      List.takeWhile_eq_self_iff.mpr (decimal_digits (n+1))
    have hscan : scanNumber (45::decimal (n+1)) =
        some (2^64-(n+1),(decimal (n+1)).dropWhile isDigit) := by
      simp only [scanNumber,sign,if_true,htake,decimal_ne_nil,if_false,digitsVal_decimal,strtoul]
      rw [if_neg (by omega),Nat.mod_eq_of_lt (by omega)]
    have hmod : (Int.negSucc n % 2^64).toNat = 2^64-(n+1) := by omega
    rw [number,parseU64,skipSpace_of_head _ (by decide),hscan,Option.map_some,Option.getD_some,
      UInt64.ofInt,hmod]

/-! ## Sections -/

theorem filterMap_behind {name : List UInt8} (h : 58 ∉ name) (ts : List Table) :
    (ts.flatMap Table.lines).filterMap (behind name) = (ts.filter (·.name = name)).flatMap fun t =>
      [(t.cols.map Prod.fst).flatMap (32::·),(t.cols.map (number ·.2)).flatMap (32::·)] := by
  induction ts with
  | nil => rfl
  | cons t ts ih =>
    have hkeys := behind_line h t.name_word.colon (t.cols.map Prod.fst)
    have hvals := behind_line h t.name_word.colon (t.cols.map (number ·.2))
    rw [List.flatMap_cons,List.filterMap_append,ih,Table.lines]
    by_cases hname : t.name = name
    · rw [if_pos hname] at hkeys hvals
      rw [List.filter_cons_of_pos (by simpa using hname),List.filterMap_cons_some hkeys,
        List.filterMap_cons_some hvals]
      rfl
    · rw [if_neg hname] at hkeys hvals
      rw [List.filter_cons_of_neg (by simpa using hname),List.filterMap_cons_none hkeys,
        List.filterMap_cons_none hvals]
      rfl

theorem getlines_printTables (ts : List Table) :
    getlines (printTables ts) = ts.flatMap Table.lines := by
  refine getlines_printLines fun l hl => ?_
  obtain ⟨t,-,hl⟩ := List.mem_flatMap.mp hl
  rcases List.mem_pair.mp hl with rfl | rfl
  · refine notMem_line t.name_word fun w hw => ?_
    obtain ⟨c,hc,rfl⟩ := List.mem_map.mp hw
    exact (t.key_word c hc).space
  · refine notMem_line t.name_word fun w hw => ?_
    obtain ⟨c,-,rfl⟩ := List.mem_map.mp hw
    exact (space_number c.2).2

theorem findSection_printTables {name : List UInt8} (h : 58 ∉ name) (ts : List Table) :
    findSection (printTables ts) name = (ts.find? (·.name = name)).map fun t =>
      ((t.cols.map Prod.fst).flatMap (32::·),(t.cols.map (number ·.2)).flatMap (32::·)) := by
  rw [findSection,getlines_printTables,filterMap_behind h,← List.head?_filter]
  cases ts.filter (·.name = name) <;> rfl

theorem keyedValue_cols (t : Table) (key : List UInt8) :
    keyedValue ((t.cols.map Prod.fst).flatMap (32::·)) ((t.cols.map (number ·.2)).flatMap (32::·))
      key = ((t.cols.find? (·.1 = key)).map Prod.snd).map UInt64.ofInt := by
  have hkeys : ∀ w ∈ t.cols.map Prod.fst, w ≠ [] ∧ ∀ b ∈ w, isSpace b = false := by
    intro w hw
    obtain ⟨c,hc,rfl⟩ := List.mem_map.mp hw
    exact ⟨(t.key_word c hc).ne_nil,(t.key_word c hc).space⟩
  have hvals : ∀ w ∈ t.cols.map (number ·.2), w ≠ [] ∧ ∀ b ∈ w, isSpace b = false := by
    intro w hw
    obtain ⟨c,-,rfl⟩ := List.mem_map.mp hw
    exact space_number c.2
  rw [keyedValue,splitWs_flatMap hkeys,splitWs_flatMap hvals,List.zip_map',List.find?_map,
    Option.map_map,Option.map_map]
  refine Option.map_congr fun c hc => ?_
  obtain ⟨hlo,hhi⟩ := t.fits c (List.mem_of_find?_eq_some hc)
  exact parseU64_number hlo hhi

theorem find_printTables (ts : List Table) {name key : List UInt8} (h : 58 ∉ name) :
    ((findSection (printTables ts) name).bind fun s => keyedValue s.1 s.2 key) =
      (lookUp ts name key).map UInt64.ofInt := by
  rw [findSection_printTables h,lookUp]
  cases ts.find? (·.name = name) with
  | none => rfl
  | some t => exact keyedValue_cols t key

/-! ## Memory -/

theorem memOf_counts (cs : List (List UInt8 × UInt64)) :
    memOf (cs.flatMap fun c => [c.1,decimal c.2.toNat]) =
      (cs.find? (·.1 = memKey)).map Prod.snd := by
  induction cs with
  | nil => rfl
  | cons c cs ih =>
    rw [List.flatMap_cons]
    show memOf (c.1::decimal c.2.toNat::cs.flatMap fun c => [c.1,decimal c.2.toNat]) = _
    by_cases hkey : c.1 = memKey
    · rw [memOf,if_pos hkey,List.find?_cons_of_pos (by simpa using hkey),
        parseU64_decimal c.2.toNat_lt,UInt64.ofNat_toNat]
      rfl
    · have hdigits : decimal c.2.toNat ≠ memKey := by
        intro heq
        have hdigit := decimal_digits c.2.toNat 109 (heq ▸ List.mem_cons_self)
        exact absurd hdigit (by decide)
      rw [memOf,if_neg hkey,List.find?_cons_of_neg (by simpa using hkey),← ih]
      cases cs with
      | nil => rfl
      | cons d cs => exact (memOf.eq_1 ..).trans (if_neg hdigits)

theorem filterMap_socks {name : List UInt8} (h : 58 ∉ name) (ss : List Sock) :
    (ss.map Sock.line).filterMap (behind name) = (ss.filter (·.name = name)).map fun s =>
      (s.counts.flatMap fun c => [c.1,decimal c.2.toNat]).flatMap (32::·) := by
  induction ss with
  | nil => rfl
  | cons s ss ih =>
    have hline : behind name s.line = if s.name = name then
        some ((s.counts.flatMap fun c => [c.1,decimal c.2.toNat]).flatMap (32::·)) else none :=
      behind_line h s.name_word.colon _
    rw [List.map_cons]
    by_cases hname : s.name = name
    · rw [if_pos hname] at hline
      rw [List.filter_cons_of_pos (by simpa using hname),List.filterMap_cons_some hline,ih]
      rfl
    · rw [if_neg hname] at hline
      rw [List.filter_cons_of_neg (by simpa using hname),List.filterMap_cons_none hline,ih]

theorem Sock.words (s : Sock) : ∀ w ∈ s.counts.flatMap fun c => [c.1,decimal c.2.toNat],
    w ≠ [] ∧ ∀ b ∈ w, isSpace b = false := by
  intro w hw
  obtain ⟨c,hc,hw⟩ := List.mem_flatMap.mp hw
  rcases List.mem_pair.mp hw with rfl | rfl
  · exact ⟨(s.key_word c hc).ne_nil,(s.key_word c hc).space⟩
  · exact ⟨decimal_ne_nil _,space_decimal _⟩

theorem sockstatMem_printSocks {name : List UInt8} (h : 58 ∉ name) (ss : List Sock) :
    sockstatMem (printSocks ss) name = memIn ss name := by
  have hlines : getlines (printSocks ss) = ss.map Sock.line := by
    refine getlines_printLines fun l hl => ?_
    obtain ⟨s,-,rfl⟩ := List.mem_map.mp hl
    exact notMem_line s.name_word fun w hw => (s.words w hw).2
  rw [sockstatMem,hlines,filterMap_socks h,memIn,List.findSome?_map]
  congr 2
  funext s
  show memOf (splitWs _) = _
  rw [splitWs_flatMap s.words,memOf_counts]

/-! ## The snapshot -/

/-- What the kernel counts. -/
structure Kernel where
  snmp : List Table
  netstat : List Table
  sockstat : List Sock
  sockstat6 : List Sock

def Kernel.files (k : Kernel) : Files :=
  ⟨printTables k.snmp,printTables k.netstat,printSocks k.sockstat,printSocks k.sockstat6⟩

def Kernel.tables (k : Kernel) : File → List Table
  | .snmp => k.snmp
  | .netstat => k.netstat

def Kernel.counter (k : Kernel) (f : Field) : UInt64 :=
  .ofInt ((lookUp (k.tables f.file) f.sectionName f.key).getD 0)

def Kernel.memory (k : Kernel) (p : Proto) : UInt64 :=
  memIn k.sockstat p.name+memIn k.sockstat6 p.name6

theorem Proto.notMem_name (p : Proto) : 58 ∉ p.name ∧ 58 ∉ p.name6 := by
  cases p <;> decide +kernel

theorem find_files (k : Kernel) (f : Field) :
    (f.find k.files).getD 0 = k.counter f := by
  have htext : k.files.text f.file = printTables (k.tables f.file) := by cases f.file <;> rfl
  rw [Field.find,htext,find_printTables _ f.notMem_sectionName,Kernel.counter]
  cases lookUp (k.tables f.file) f.sectionName f.key <;> rfl

theorem memory_stack (netnsIno : UInt64) (k : Kernel) (p : Proto) :
    p.memory (stack netnsIno k.files) = k.memory p := by
  have hmem : p.memory (stack netnsIno k.files) = sockMem k.files p := by cases p <;> rfl
  rw [hmem,sockMem,Kernel.memory]
  show sockstatMem (printSocks k.sockstat) _+sockstatMem (printSocks k.sockstat6) _ = _
  rw [sockstatMem_printSocks p.notMem_name.1,sockstatMem_printSocks p.notMem_name.2]

theorem printTables_eq_nil {ts : List Table} : printTables ts = [] ↔ ts = [] := by
  cases ts with
  | nil => simp [printTables,printLines]
  | cons t ts => simp [printTables,printLines,Table.lines]

/-- Every counter of the snapshot is the kernel's, by section and name, wherever it stands among
the others, and zero where the kernel does not have it. -/
theorem counters_read (netnsIno : UInt64) (k : Kernel) :
    (∀ f : Field, f.value (stack netnsIno k.files) = k.counter f) ∧
      (∀ p : Proto, p.memory (stack netnsIno k.files) = k.memory p) ∧
      ((stack netnsIno k.files).valid = true ↔ k.snmp ≠ []) := by
  refine ⟨fun f => ?_,memory_stack netnsIno k,?_⟩
  · rw [value_stack,find_files]
  · rw [valid_stack,decide_eq_true_iff,Ne,Kernel.files,printTables_eq_nil]

theorem memIn_eq_zero {ss : List Sock} {name : List UInt8}
    (h : ∀ s ∈ ss, s.name = name → memKey ∉ s.counts.map Prod.fst) : memIn ss name = 0 := by
  rw [memIn,List.findSome?_eq_none_iff.mpr]
  · rfl
  · intro s hs
    obtain ⟨hs,hname⟩ := List.mem_filter.mp hs
    rw [Option.map_eq_none_iff,List.find?_eq_none]
    intro c hc hkey
    exact h s hs (by simpa using hname) (List.mem_map.mpr ⟨c,hc,by simpa using hkey⟩)

/-- The kernel prints the memory of the fragments under `memory`, and it is not read. -/
theorem fragSockMem_eq_zero (netnsIno : UInt64) {k : Kernel}
    (h : ∀ s ∈ k.sockstat, s.name = Proto.frag.name → memKey ∉ s.counts.map Prod.fst)
    (h6 : ∀ s ∈ k.sockstat6, s.name = Proto.frag.name6 → memKey ∉ s.counts.map Prod.fst) :
    (stack netnsIno k.files).fragSockMem = 0 := by
  have hmem : (stack netnsIno k.files).fragSockMem = k.memory .frag :=
    memory_stack netnsIno k .frag
  rw [hmem,Kernel.memory,memIn_eq_zero h,memIn_eq_zero h6]
  rfl

end NetStack
end ETraceDiag
