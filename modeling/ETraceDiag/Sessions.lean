import ETraceDiag.DecimalText
import ETraceDiag.FixedWidth
import ETraceDiag.Serve
import Mathlib.Data.Char
import Mathlib.Data.List.Sort

/-!
# The sessions in the viewer

A run of the agent writes its database into a directory of its own, named by the local time and the
process. The viewer finds the directories in the page that the file server makes of the output
directory.
-/

namespace ETraceDiag
namespace Sessions

open FixedWidth PosixPath Serve

/-! ## The directory of a run -/

structure LocalTime where
  year : ℕ
  mon : ℕ
  mday : ℕ
  hour : ℕ
  min : ℕ
  sec : ℕ
  year_lt : 1000 ≤ year ∧ year < 10^4
  mon_le : 1 ≤ mon ∧ mon ≤ 12
  mday_le : 1 ≤ mday ∧ mday ≤ 31
  hour_lt : hour < 24
  min_lt : min < 60
  sec_le : sec ≤ 60

def LocalTime.values (t : LocalTime) : List ℕ := [t.year,t.mon,t.mday,t.hour,t.min,t.sec]

/-- `%Y%m%d-%H%M%S` -/
def stamp : List Piece :=
  [.digits 4,.digits 2,.digits 2,.char '-',.digits 2,.digits 2,.digits 2]

def sessionName (t : LocalTime) (pid : ℕ) : Path :=
  format stamp t.values++ '_'::Nat.toDigits 10 pid

def outDefault : Path := ['o','u','t']

def sessionDir (dir : Path) (t : LocalTime) (pid : ℕ) : Path :=
  (if dir = [] then outDefault else dir)++ '/'::sessionName t pid

def dbFile : Path := ['e','t','r','a','c','e','.','s','q','l','i','t','e','3']

def dbPath (dir : Path) (t : LocalTime) (pid : ℕ) : Path := sessionDir dir t pid++ '/'::dbFile

/-! ## The page of a directory -/

structure Entry where
  name : Path
  directory : Bool
  link : Bool
  isName : Name name

def unreserved (c : Char) : Bool := c.isAlphanum || c ∈ ['_','.','-','~','/']

def percent (b : UInt8) : Path :=
  ['%',(b.toNat/16).digitChar.toUpper,(b.toNat%16).digitChar.toUpper]

/-- `urllib.parse.quote` -/
def quote (p : Path) : Path :=
  p.flatMap fun c => if unreserved c then [c] else (String.utf8EncodeChar c).flatMap percent

/-- `html.escape` without the quotes. -/
def escape (p : Path) : Path :=
  p.flatMap fun c =>
    if c = '&' then ['&','a','m','p',';']
    else if c = '<' then ['&','l','t',';']
    else if c = '>' then ['&','g','t',';']
    else [c]

/-- `<a href="` -/
def mark : Path := ['<','a',' ','h','r','e','f','=','"']

def item (e : Entry) : Path :=
  let linkname := if e.directory then e.name++['/'] else e.name
  let displayname := if e.link then e.name++['@'] else linkname
  ['<','l','i','>']++mark++quote linkname++['"','>']++escape displayname++
    ['<','/','a','>','<','/','l','i','>','\n']

/-- The text has no link in it. -/
def Linkless : Path → Prop
  | [] => True
  | c::t => (c = '<' → ∃ d t', t = d::t' ∧ d ≠ 'a') ∧ Linkless t

/-- The file server with the files below it. -/
structure Site where
  unquote : Unquote
  outDir : Path
  viz : Path
  entries : Path → Option (List Entry)
  file : Path → Bool
  above : Path → Path
  below : Path
  above_linkless : ∀ dir, Linkless (above dir)
  below_linkless : Linkless below

/-- What the server answers for a directory. -/
def Site.list (s : Site) (path : Path) : Option Path :=
  (s.entries (translatePath s.unquote s.outDir s.viz path)).map fun es =>
    s.above path++es.flatMap item++s.below

/-! ## What the viewer makes of it -/

def inHref (c : Char) : Bool := c ∉ ['"','#','?']

/-- `/<a href="([^"#?]+)\/"/` at this place, and how long the match is. -/
def linkAt (text : Path) : Option (Path×ℕ) :=
  if mark.isPrefixOf text then
    let run := (text.drop mark.length).takeWhile inHref
    let rest := (text.drop mark.length).dropWhile inHref
    if rest.head? = some '"' ∧ run.getLast? = some '/' ∧ run.dropLast ≠ [] then
      some (run.dropLast,mark.length+run.length+1)
    else none
  else none

/-- The matches from left to right, after so many characters. -/
def matchAll : ℕ → Path → List Path
  | _,[] => []
  | k+1,_::rest => matchAll k rest
  | 0,c::rest =>
    match linkAt (c::rest) with
    | some (dir,len) => dir::matchAll (len-1) rest
    | none => matchAll 0 rest

/-- `/^\d{8}-\d{6}_\d+$/` -/
def sessionLike (name : Path) : Bool :=
  match scan [.digits 8,.char '-',.digits 6,.char '_'] name with
  | some (_,rest) => rest ≠ [] ∧ rest.all Char.isDigit
  | none => false

/-- The fields of the date, as `/^(\d{4})(\d{2})(\d{2})-(\d{2})(\d{2})(\d{2})_/` has them. -/
def parseDirTime (name : Path) : Option (List ℕ) :=
  (scan (stamp++[.char '_']) name).map Prod.fst

def listSessions (s : Site) (out : Path) : Option (List Path) :=
  (s.list (out++['/'])).map fun html =>
    let dirs := matchAll 0 html
    let names := dirs.eraseDups.filter sessionLike
    (names.mergeSort fun a b => a ≤ b).reverse.filter fun name =>
      s.file (translatePath s.unquote s.outDir s.viz (out++ '/'::name++ '/'::dbFile))

/-! ## The links of the page -/

theorem matchAll_drop (k : ℕ) (text : Path) : matchAll k text = matchAll 0 (text.drop k) := by
  induction k generalizing text with
  | zero => rfl
  | succ k ih =>
    cases text with
    | nil => rfl
    | cons c text => exact ih text

theorem linkless_of_notMem {t : Path} (h : '<' ∉ t) : Linkless t := by
  induction t with
  | nil => trivial
  | cons c t ih =>
    rw [List.mem_cons,not_or] at h
    exact ⟨fun hc => absurd hc.symm h.1,ih h.2⟩

theorem linkAt_linkless {c : Char} {t : Path} (h : c = '<' → ∃ d t', t = d::t' ∧ d ≠ 'a') :
    linkAt (c::t) = none := by
  refine if_neg fun hmark => ?_
  obtain ⟨hc,ht⟩ : '<' = c ∧ ['a',' ','h','r','e','f','=','"'].isPrefixOf t = true := by
    simpa [mark] using hmark
  obtain ⟨d,t',rfl,hd⟩ := h hc.symm
  have ha : 'a' = d := by simpa using (show _ from (Bool.and_eq_true_iff.mp ht).1)
  exact hd ha.symm

theorem matchAll_linkless {t : Path} (h : Linkless t) (rest : Path) :
    matchAll 0 (t++rest) = matchAll 0 rest := by
  induction t with
  | nil => rfl
  | cons c t ih =>
    obtain ⟨hc,ht⟩ := h
    have hnone : linkAt (c::(t++rest)) = none := by
      refine linkAt_linkless fun hlt => ?_
      obtain ⟨d,t',rfl,hd⟩ := hc hlt
      exact ⟨d,t'++rest,rfl,hd⟩
    rw [List.cons_append,matchAll,hnone]
    exact ih ht

theorem linkAt_mark {q : Path} (h : ∀ c ∈ q, inHref c = true) (rest : Path) :
    linkAt (mark++(q++ '"'::rest)) = if q.getLast? = some '/' ∧ q.dropLast ≠ [] then
      some (q.dropLast,mark.length+q.length+1) else none := by
  have hquote : inHref '"' = false := by decide
  have hpre : mark.isPrefixOf (mark++(q++ '"'::rest)) = true :=
    List.isPrefixOf_iff_prefix.mpr (List.prefix_append _ _)
  have htake : (q++ '"'::rest).takeWhile inHref = q := by
    rw [List.takeWhile_append_of_pos h,List.takeWhile_cons_of_neg (by simp [hquote]),
      List.append_nil]
  have hdrop : (q++ '"'::rest).dropWhile inHref = '"'::rest := by
    rw [List.dropWhile_append_of_pos h,List.dropWhile_cons_of_neg (by simp [hquote])]
  rw [linkAt,if_pos hpre,List.drop_left,htake,hdrop]
  simp

/-- The link to a directory is found. -/
theorem matchAll_directory {q : Path} (hne : q ≠ []) (h : ∀ c ∈ q, inHref c = true)
    (rest : Path) : matchAll 0 (mark++(q++['/']++ '"'::rest)) = q::matchAll 0 rest := by
  have hclass : ∀ c ∈ q++['/'], inHref c = true := fun c hc =>
    (List.mem_append.mp hc).elim (h c) fun hslash => by rw [List.mem_singleton.mp hslash]; decide
  have hat := linkAt_mark hclass rest
  rw [if_pos ⟨List.getLast?_concat,by simpa using hne⟩,List.dropLast_concat] at hat
  have htext : mark++(q++['/']++ '"'::rest) = '<'::(mark.tail++(q++['/']++ '"'::rest)) := rfl
  rw [htext] at hat ⊢
  have hbehind : mark.tail++(q++['/']++ '"'::rest) = mark.tail++q++['/','"']++rest := by simp
  have hlen : mark.length+(q++['/']).length+1-1 = (mark.tail++q++['/','"']).length := by
    simp [mark]
    omega
  rw [matchAll,hat]
  show q::matchAll (mark.length+(q++['/']).length+1-1) _ = _
  rw [matchAll_drop,hbehind,hlen,List.drop_left]

/-- The link to a file is not. -/
theorem matchAll_file {q : Path} (hlast : q.getLast? ≠ some '/')
    (h : ∀ c ∈ q, inHref c = true) (hlt : '<' ∉ q) (rest : Path) :
    matchAll 0 (mark++(q++ '"'::rest)) = matchAll 0 rest := by
  have hat := linkAt_mark h rest
  rw [if_neg fun hq => hlast hq.1] at hat
  have htext : mark++(q++ '"'::rest) = '<'::(mark.tail++q++['"']++rest) := by
    simp [mark]
  rw [htext] at hat ⊢
  rw [matchAll,hat]
  exact matchAll_linkless (linkless_of_notMem (by simp [mark,hlt])) rest

theorem unreserved_cases {c : Char} (h : unreserved c = true) : c ≠ '<' ∧ inHref c = true := by
  refine ⟨?_,?_⟩
  · rintro rfl
    exact absurd h (by decide)
  · refine decide_eq_true fun hc => ?_
    rw [List.mem_cons,List.mem_cons,List.mem_singleton] at hc
    rcases hc with rfl | rfl | rfl
    · exact absurd h (by decide)
    · exact absurd h (by decide)
    · exact absurd h (by decide)

theorem percent_cases {b : UInt8} {c : Char} (h : c ∈ percent b) :
    c ≠ '<' ∧ inHref c = true ∧ c ≠ '/' := by
  have hall : ∀ d < 16, d.digitChar.toUpper ≠ '<' ∧ inHref d.digitChar.toUpper = true ∧
    d.digitChar.toUpper ≠ '/' := by decide
  have hlt : b.toNat < 256 := b.toNat_lt
  rw [percent,List.mem_cons,List.mem_cons,List.mem_singleton] at h
  rcases h with rfl | rfl | rfl
  · decide
  · exact hall _ (by omega)
  · exact hall _ (Nat.mod_lt _ (by decide))

/-- Nothing in a quoted text ends a link, and its slashes are those of the text. -/
theorem mem_quote {p : Path} {c : Char} (h : c ∈ quote p) :
    c ≠ '<' ∧ inHref c = true ∧ (c = '/' → '/' ∈ p) := by
  obtain ⟨d,hd,hc⟩ := List.mem_flatMap.mp h
  split at hc
  · next hplain =>
    rw [List.mem_singleton] at hc
    subst hc
    exact ⟨(unreserved_cases hplain).1,(unreserved_cases hplain).2,fun heq => heq ▸ hd⟩
  · obtain ⟨b,-,hb⟩ := List.mem_flatMap.mp hc
    obtain ⟨hlt,hhref,hslash⟩ := percent_cases hb
    exact ⟨hlt,hhref,fun heq => absurd heq hslash⟩

/-- A text is left as it is, or a percent sign is put into it. -/
theorem quote_eq_or (p : Path) : quote p = p ∨ '%' ∈ quote p := by
  induction p with
  | nil => exact .inl rfl
  | cons c p ih =>
    rw [quote,List.flatMap_cons]
    split
    · rcases ih with heq | hmem
      · exact .inl (congrArg (c::·) heq)
      · exact .inr (List.mem_cons_of_mem c hmem)
    · obtain ⟨b,bs,hbytes⟩ := List.exists_cons_of_ne_nil (String.utf8EncodeChar_ne_nil (c:=c))
      rw [hbytes]
      exact .inr List.mem_cons_self

theorem quote_ne_nil {p : Path} (h : p ≠ []) : quote p ≠ [] := by
  obtain ⟨c,p,rfl⟩ := List.exists_cons_of_ne_nil h
  rw [quote,List.flatMap_cons]
  split
  · exact List.cons_ne_nil _ _
  · obtain ⟨b,bs,hbytes⟩ := List.exists_cons_of_ne_nil (String.utf8EncodeChar_ne_nil (c:=c))
    rw [hbytes]
    exact List.cons_ne_nil _ _

theorem notMem_escape (p : Path) : '<' ∉ escape p := by
  intro h
  obtain ⟨c,-,hc⟩ := List.mem_flatMap.mp h
  split at hc
  · exact absurd hc (by decide)
  · split at hc
    · exact absurd hc (by decide)
    · next hlt =>
      split at hc
      · exact absurd hc (by decide)
      · exact hlt (List.mem_singleton.mp hc).symm

theorem quote_slash (p : Path) : quote (p++['/']) = quote p++['/'] := by
  rw [quote,List.flatMap_append]
  rfl

theorem linkless_append {a b : Path} (ha : Linkless a) (hb : Linkless b) : Linkless (a++b) := by
  induction a with
  | nil => exact hb
  | cons c a ih =>
    refine ⟨fun hc => ?_,ih ha.2⟩
    obtain ⟨d,t,rfl,hd⟩ := ha.1 hc
    exact ⟨d,t++b,rfl,hd⟩

/-- What stands behind the link of an entry. -/
theorem linkless_shown (shown : Path) :
    Linkless ('>'::(escape shown++['<','/','a','>','<','/','l','i','>','\n'])) := by
  refine linkless_append (a:= '>'::escape shown) (linkless_of_notMem ?_) (by simp [Linkless])
  rw [List.mem_cons,not_or]
  exact ⟨by decide,notMem_escape shown⟩

theorem matchAll_item (e : Entry) (rest : Path) : matchAll 0 (item e++rest) =
    (if e.directory then [quote e.name] else [])++matchAll 0 rest := by
  have hopen : Linkless ['<','l','i','>'] := by simp [Linkless]
  have hname : ∀ c ∈ quote e.name, inHref c = true := fun c hc => (mem_quote hc).2.1
  have hitem : ∃ shown, item e++rest = ['<','l','i','>']++(mark++
      (quote (if e.directory then e.name++['/'] else e.name)++ '"'::
        ('>'::(escape shown++['<','/','a','>','<','/','l','i','>','\n'])++rest))) := by
    refine ⟨if e.link then e.name++['@'] else if e.directory then e.name++['/'] else e.name,?_⟩
    rw [item]
    simp only [List.append_assoc,List.cons_append,List.nil_append]
  obtain ⟨shown,hitem⟩ := hitem
  rw [hitem,matchAll_linkless hopen]
  cases hdir : e.directory with
  | true =>
    rw [if_pos rfl,if_pos rfl,quote_slash,matchAll_directory (quote_ne_nil e.isName.ne_nil) hname,
      matchAll_linkless (linkless_shown shown)]
    rfl
  | false =>
    have hlast : (quote e.name).getLast? ≠ some '/' := fun heq =>
      e.isName.slash ((mem_quote (List.mem_of_mem_getLast? heq)).2.2 rfl)
    have hlt : '<' ∉ quote e.name := fun hc => (mem_quote hc).1 rfl
    rw [if_neg Bool.false_ne_true,if_neg Bool.false_ne_true,matchAll_file hlast hname hlt,
      matchAll_linkless (linkless_shown shown)]
    rfl

/-- The links of the page are the directories. -/
theorem matchAll_items (es : List Entry) (rest : Path) : matchAll 0 (es.flatMap item++rest) =
    (es.filter (·.directory)).map (quote ·.name)++matchAll 0 rest := by
  induction es with
  | nil => rfl
  | cons e es ih =>
    rw [List.flatMap_cons,List.append_assoc,matchAll_item,ih,← List.append_assoc]
    cases hdir : e.directory with
    | true => rw [List.filter_cons_of_pos hdir,if_pos rfl]; rfl
    | false => rw [List.filter_cons_of_neg (by simp [hdir]),if_neg Bool.false_ne_true]; rfl

theorem matchAll_page (s : Site) (path : Path) (es : List Entry) :
    matchAll 0 (s.above path++es.flatMap item++s.below) =
      (es.filter (·.directory)).map (quote ·.name) := by
  have hbelow : matchAll 0 s.below = [] := by
    have hempty := matchAll_linkless s.below_linkless []
    rwa [List.append_nil] at hempty
  rw [List.append_assoc,matchAll_linkless (s.above_linkless path),matchAll_items,hbelow,
    List.append_nil]

/-! ## The names of the sessions -/

theorem fits_stamp (t : LocalTime) : Fits (stamp++[.char '_']) t.values := by
  obtain ⟨-,hyear⟩ := t.year_lt
  obtain ⟨-,hmon⟩ := t.mon_le
  obtain ⟨-,hmday⟩ := t.mday_le
  have hhour := t.hour_lt
  have hmin := t.min_lt
  have hsec := t.sec_le
  exact ⟨hyear,by omega,by omega,by omega,by omega,by omega,rfl⟩

theorem sessionName_eq (t : LocalTime) (pid : ℕ) :
    sessionName t pid = format (stamp++[.char '_']) t.values++Nat.toDigits 10 pid := by
  simp [sessionName,stamp,format,LocalTime.values]

theorem scan_sessionName (t : LocalTime) (pid : ℕ) :
    scan (stamp++[.char '_']) (sessionName t pid) = some (t.values,Nat.toDigits 10 pid) := by
  rw [sessionName_eq,scan_format (fits_stamp t)]

theorem parseDirTime_sessionName (t : LocalTime) (pid : ℕ) :
    parseDirTime (sessionName t pid) = some t.values := by
  rw [parseDirTime,scan_sessionName]
  rfl

theorem sessionLike_iff (name : Path) : sessionLike name = true ↔
    ∃ rest, behind (shape (stamp++[.char '_'])) name = some rest ∧ rest ≠ [] ∧
      rest.all Char.isDigit = true := by
  have hshape : shape (stamp++[.char '_']) =
    shape [.digits 8,.char '-',.digits 6,.char '_'] := rfl
  rw [hshape,← scan_rest,sessionLike]
  cases scan [.digits 8,.char '-',.digits 6,.char '_'] name with
  | none => simp
  | some r => simp

theorem sessionLike_sessionName (t : LocalTime) (pid : ℕ) :
    sessionLike (sessionName t pid) = true := by
  refine (sessionLike_iff _).mpr ⟨Nat.toDigits 10 pid,?_,Nat.toDigits_ne_nil,?_⟩
  · rw [← scan_rest,scan_sessionName]
    rfl
  · exact List.all_eq_true.mpr fun c hc => DecimalText.isDigit_of_mem_toDigits hc

/-- The name of a session needs no quotes. -/
theorem mem_sessionLike {name : Path} (h : sessionLike name = true) {c : Char} (hc : c ∈ name) :
    c.isDigit = true ∨ c = '-' ∨ c = '_' := by
  obtain ⟨rest,hrest,-,hdigits⟩ := (sessionLike_iff name).mp h
  obtain ⟨front,rfl,hfront⟩ := behind_eq hrest
  rcases List.mem_append.mp hc with hc | hc
  · refine (hfront c hc).imp_right fun hmem => ?_
    simpa [shape,stamp] using hmem
  · exact .inl (List.all_eq_true.mp hdigits c hc)

theorem sessionName_lt {t t' : LocalTime} (h : t.values < t'.values) (pid pid' : ℕ) :
    sessionName t pid < sessionName t' pid' := by
  rw [sessionName_eq,sessionName_eq]
  exact format_lt (fits_stamp t) (fits_stamp t') h _ _

/-! ## Every session is listed -/

def outPath : Path := ['/','o','u','t']

theorem name_of_sessionLike {name : Path} (h : sessionLike name = true) :
    Name name ∧ Clean name := by
  have hno : ∀ c : Char, ¬(c.isDigit = true ∨ c = '-' ∨ c = '_') → c ∉ name :=
    fun c hc hmem => hc (mem_sessionLike h hmem)
  have hne : name ≠ [] := by
    rintro rfl
    exact absurd h (by decide)
  have hdot : '.' ∉ name := hno '.' (by decide)
  refine ⟨⟨hne,hno '/' (by decide),?_,?_⟩,hno '?' (by decide),hno '#' (by decide),
    hno '%' (by decide)⟩
  · exact fun heq => hdot (heq ▸ List.mem_cons_self)
  · exact fun heq => hdot (heq ▸ List.mem_cons_self)

theorem name_dbFile : Name dbFile ∧ Clean dbFile :=
  ⟨⟨by decide,by decide,by decide,by decide⟩,by decide,by decide,by decide⟩

theorem translatePath_out (s : Site) :
    translatePath s.unquote s.outDir s.viz (outPath++['/']) = s.outDir := by
  have hplain : s.unquote.fn (outPath++['/']) = outPath++['/'] := s.unquote.plain _ (by decide)
  have hcut : ((outPath++['/']).takeWhile (· ≠ '?')).takeWhile (· ≠ '#') = outPath++['/'] := by
    decide
  have hnorm : normpath (outPath++['/']) = slashed [outWord] := by decide
  rw [translatePath]
  simp only [hcut,hplain,hnorm]
  rw [words_slashed (List.forall_mem_singleton.mpr clean_words.1.1),unalias_out,select_out]
  rfl

/-- The viewer asks for the file that the run has written. -/
theorem translatePath_database (s : Site) (hne : s.outDir ≠ [])
    (hlast : s.outDir.getLast? ≠ some '/') {name : Path} (h : sessionLike name = true) :
    translatePath s.unquote s.outDir s.viz (outPath++ '/'::name++ '/'::dbFile) =
      s.outDir++ '/'::name++ '/'::dbFile := by
  have hnames : ∀ w ∈ [name,dbFile], Name w ∧ Clean w :=
    List.forall_mem_cons.mpr ⟨name_of_sessionLike h,List.forall_mem_singleton.mpr name_dbFile⟩
  have hpath : outPath++ '/'::name++ '/'::dbFile = slashed [outWord,name,dbFile]++[] := by
    simp [outPath,slashed,outWord]
  rw [hpath,translatePath_slashed s.unquote s.outDir s.viz (List.cons_ne_nil _ _)
    (List.forall_mem_cons.mpr ⟨clean_words.1,hnames⟩) (.inl rfl),unalias_out,select_out,
    joins_eq hne hlast fun w hw => (hnames w hw).1]
  simp [slashed]

theorem nodup_eraseDups : ∀ l : List Path, l.eraseDups.Nodup
  | [] => List.nodup_nil
  | a::l => by
    rw [List.eraseDups_cons]
    refine List.nodup_cons.mpr ⟨?_,nodup_eraseDups _⟩
    rw [List.mem_eraseDups]
    simp
termination_by l => l.length
decreasing_by exact Nat.lt_succ_of_le (List.length_filter_le _ _)

theorem quote_plain {p : Path} (h : ∀ c ∈ p, unreserved c = true) : quote p = p := by
  induction p with
  | nil => rfl
  | cons c p ih =>
    obtain ⟨hc,hp⟩ := List.forall_mem_cons.mp h
    have hrest := ih hp
    rw [quote,List.flatMap_cons,if_pos hc]
    exact congrArg (c::·) hrest

theorem mem_dirs {es : List Entry} {name : Path} (h : sessionLike name = true) :
    name ∈ (es.filter (·.directory)).map (quote ·.name) ↔
      ∃ e ∈ es, e.name = name ∧ e.directory = true := by
  have hpercent : '%' ∉ name := (name_of_sessionLike h).2.2.2
  constructor
  · intro hmem
    obtain ⟨e,he,rfl⟩ := List.mem_map.mp hmem
    obtain ⟨he,hdir⟩ := List.mem_filter.mp he
    have hquote := (quote_eq_or e.name).resolve_right hpercent
    exact ⟨e,he,hquote.symm,hdir⟩
  · rintro ⟨e,he,rfl,hdir⟩
    have hplain : ∀ c ∈ e.name, unreserved c = true := fun c hc => by
      rcases mem_sessionLike h hc with hdigit | rfl | rfl
      · simp [unreserved,Char.isAlphanum,hdigit]
      · decide
      · decide
    exact List.mem_map.mpr ⟨e,List.mem_filter.mpr ⟨he,hdir⟩,quote_plain hplain⟩

theorem pairwise_reverse_mergeSort {names : List Path} (h : names.Nodup) :
    (names.mergeSort fun a b => a ≤ b).reverse.Pairwise (· > ·) := by
  have htrans : ∀ a b c : Path, decide (a ≤ b) = true → decide (b ≤ c) = true →
      decide (a ≤ c) = true := fun a b c hab hbc =>
    decide_eq_true (le_trans (of_decide_eq_true hab) (of_decide_eq_true hbc))
  have htotal : ∀ a b : Path, (decide (a ≤ b) || decide (b ≤ a)) = true := fun a b => by
    rw [Bool.or_eq_true,decide_eq_true_iff,decide_eq_true_iff]
    exact le_total a b
  have hsorted := List.pairwise_mergeSort htrans htotal names
  have hnodup : (names.mergeSort fun a b => a ≤ b).Pairwise (· ≠ ·) :=
    (List.mergeSort_perm names _).nodup_iff.mpr h
  refine List.pairwise_reverse.mpr ((hsorted.and hnodup).imp fun hab => ?_)
  exact lt_of_le_of_ne (of_decide_eq_true hab.1) hab.2

/-- The list has the directories that are named as a session and have a database in them, each
once and the later names first. -/
theorem sessions_listed (s : Site) {es : List Entry} (hes : s.entries s.outDir = some es)
    (hne : s.outDir ≠ []) (hlast : s.outDir.getLast? ≠ some '/') :
    ∃ found, listSessions s outPath = some found ∧ found.Nodup ∧ found.Pairwise (· > ·) ∧
      ∀ name, name ∈ found ↔ sessionLike name = true ∧
        (∃ e ∈ es, e.name = name ∧ e.directory = true) ∧
        s.file (s.outDir++ '/'::name++ '/'::dbFile) = true := by
  let names := ((es.filter (·.directory)).map (quote ·.name)).eraseDups.filter sessionLike
  let found := (names.mergeSort fun a b => a ≤ b).reverse.filter fun name =>
    s.file (translatePath s.unquote s.outDir s.viz (outPath++ '/'::name++ '/'::dbFile))
  have hlist : listSessions s outPath = some found := by
    rw [listSessions,Site.list,translatePath_out,hes,Option.map_some,Option.map_some]
    simp only [matchAll_page]
    rfl
  have hpair : found.Pairwise (· > ·) :=
    (pairwise_reverse_mergeSort ((nodup_eraseDups _).filter _)).filter _
  refine ⟨found,hlist,hpair.imp fun hab => (ne_of_lt hab).symm,hpair,fun name => ?_⟩
  have hnames : name ∈ names ↔ (∃ e ∈ es, e.name = name ∧ e.directory = true) ∧
      sessionLike name = true := by
    rw [List.mem_filter,List.mem_eraseDups]
    exact and_congr_left mem_dirs
  rw [List.mem_filter,List.mem_reverse,List.mem_mergeSort,hnames]
  constructor
  · rintro ⟨⟨he,hlike⟩,hfile⟩
    rw [translatePath_database s hne hlast hlike] at hfile
    exact ⟨hlike,he,hfile⟩
  · rintro ⟨hlike,he,hfile⟩
    refine ⟨⟨he,hlike⟩,?_⟩
    rw [translatePath_database s hne hlast hlike]
    exact hfile

def morning : LocalTime :=
  ⟨2026,3,9,8,30,0,by decide,by decide,by decide,by decide,by decide,by decide⟩

def evening : LocalTime :=
  ⟨2026,3,9,20,15,59,by decide,by decide,by decide,by decide,by decide,by decide⟩

def sessionEntry (t : LocalTime) (pid : ℕ) : Entry :=
  ⟨sessionName t pid,true,false,(name_of_sessionLike (sessionLike_sessionName t pid)).1⟩

def twoRuns : List (LocalTime×ℕ) := [(morning,977),(evening,31)]

def twoSessions : Site where
  unquote := ⟨id,fun _ _ => rfl⟩
  outDir := ['/','d']
  viz := ['/','v']
  entries := fun dir =>
    if dir = ['/','d'] then some (twoRuns.map fun r => sessionEntry r.1 r.2) else none
  file := fun file => twoRuns.any fun r => file = dbPath ['/','d'] r.1 r.2
  above := fun _ => ['<','u','l','>','\n']
  below := ['<','/','u','l','>','\n']
  above_linkless := fun _ => by simp [Linkless]
  below_linkless := by simp [Linkless]

end Sessions
end ETraceDiag
