import ETraceDiag.DecimalText
import ETraceDiag.IntegerDoubles
import ETraceDiag.ReplayPoint
import ETraceDiag.TextPieces

/-!
# Prometheus exposition

`telemetry_from_prometheus`: each line of a text in the exposition format becomes a point. The
exceptions `IndexError` and `ValueError` of a line both end as `ValueError`. Texts are lists of
characters; how floats are read is left open.
-/

namespace ETraceDiag
namespace Prometheus

open CausalInput (isSpace nonneg TelemetryPoint)
open DecimalText
open Dictionaries (Dict SameDict setKey update)
open IntegerDoubles
open PyValue (Raise)
open ReplayPoint
open TextPieces

abbrev Text := List Char

/-- `float(text)`, `int(x*1e9)` and the floats of the format. A whole number is rounded when it is
read and again when it is scaled. -/
class FloatText (F : Type) where
  float : Text → Option F
  parseFloat : Text → Option F
  nanos : F → Except Raise ℤ
  float_decimal : ∀ n : ℤ, ∃ x, float (decimal n) = some x ∧
    nanos x = (((toDouble n).bind fun m => toDouble (m*10^9)).elim (.error .overflowError) .ok)

variable {F : Type} [FloatText F]

/-! ## The code -/

/-- A pair of the label set; without `=` it is passed over. -/
def setLabel (attrs : List (String × String)) (kv : Text) : List (String × String) :=
  match splitOnce ['='] kv with
  | none => attrs
  | some (k,v) => setKey (String.ofList (strip isSpace k))
      (String.ofList (strip (· = '"') (strip isSpace v))) attrs

def setLabels (labels : List (String × String)) (metricLabels : Text) : List (String × String) :=
  if metricLabels = [] then labels else (metricLabels.splitOn ',').foldl setLabel labels

/-- The name, the label set and what is behind it. -/
def cutSample (line : Text) : Except Raise (Text × Text × Text) :=
  if '{' ∈ line then
    match splitOnce ['{'] line with
    | none => .error .valueError
    | some (name,rest) =>
      match splitOnce ['}'] rest with
      | none => .error .valueError
      | some (metricLabels,valuesPart) => .ok (name,metricLabels,strip isSpace valuesPart)
  else
    match splitOnce [' '] line with
    | none => .error .valueError
    | some (name,valuesPart) => .ok (name,[],valuesPart)

def timestamp : List Text → Except Raise ℤ
  | [] => .ok 0
  | part::_ => (FloatText.float (F:=F) part).elim (.error .valueError) FloatText.nanos

theorem unique_setLabel {attrs : List (String × String)} (h : (attrs.map Prod.fst).Nodup)
    (kv : Text) : ((setLabel attrs kv).map Prod.fst).Nodup := by
  unfold setLabel
  split
  · exact h
  · exact TimeTable.nodup_keys_upsert _ _ _ h

theorem unique_setLabels {attrs : List (String × String)} (h : (attrs.map Prod.fst).Nodup)
    (metricLabels : Text) : ((setLabels attrs metricLabels).map Prod.fst).Nodup := by
  unfold setLabels
  split
  · exact h
  · generalize metricLabels.splitOn ',' = kvs
    induction kvs generalizing attrs with
    | nil => exact h
    | cons kv kvs ih => exact ih (unique_setLabel h kv)

/-- The `TelemetryPoint` of a sample. -/
def point (labels : Dict String String) (entityId : String) (name metricLabels : Text) (value : F)
    (tsNs : ℕ) : Point F where
  tsNs := tsNs
  entityId := entityId
  entityType := .host
  metricId := String.ofList name
  value :=
    { value := .float value
      unit := none
      source := .prometheus
      sampleIntervalNs := none
      attrs := ⟨setLabels labels.entries metricLabels,unique_setLabels labels.unique metricLabels⟩ }
  quality := .observed

/-- The words behind the labels are the value and the time. -/
def samplePoint (labels : Dict String String) (entityId : String) (name metricLabels : Text)
    (part : Text) (parts : List Text) : Except Raise (Point F) := do
  let value ← (FloatText.float (F:=F) part).elim (.error .valueError) .ok
  let ts ← timestamp (F:=F) parts
  let tsNs ← nonneg ts
  pure (point labels entityId name metricLabels value tsNs)

/-- A line of the text; blank lines and comments have no point. -/
def parseLine (labels : Dict String String) (entityId : String) (line : Text) :
    Except Raise (Option (Point F)) :=
  let line := strip isSpace line
  if line = [] ∨ line.head? = some '#' then .ok none
  else do
    let (name,metricLabels,valuesPart) ← cutSample line
    match words isSpace valuesPart with
    | [] => pure none
    | part::parts => some <$> samplePoint labels entityId name metricLabels part parts

def telemetryFromPrometheus (labels : Dict String String) (entityId : String) (text : Text) :
    Except Raise (List (Point F)) :=
  (fun points => points.filterMap id) <$> (lines isBreak text).mapM (parseLine labels entityId)

/-! ## The format -/

/-- Blanks and tabs between tokens. -/
structure Blanks where
  text : Text
  only : ∀ c ∈ text, c = ' ' ∨ c = '\t'

def nameStart (colon : Bool) (c : Char) : Bool := c.isAlpha || c = '_' || (colon && c = ':')

/-- The name of a metric, with colons, or that of a label. -/
structure Name (colon : Bool) where
  text : Text
  start : ∃ c ∈ text.head?, nameStart colon c = true
  chars : ∀ c ∈ text, nameStart colon c = true ∨ c.isDigit = true

structure Label where
  name : Name false
  value : Text
  before : Blanks
  afterName : Blanks
  beforeValue : Blanks
  after : Blanks

/-- A label set. After its last comma there may be nothing. -/
structure LabelSet where
  gap : Blanks
  labels : List Label
  extra : Option Blanks
  unique : (labels.map fun l => l.name.text).Nodup

def numberChar (c : Char) : Bool := c.isAlphanum || c = '+' || c = '-' || c = '.' || c = '_'

/-- A sample and its layout on the line. -/
structure Sample (F : Type) [FloatText F] where
  lead : Blanks
  name : Name true
  labelSet : Option LabelSet
  gap : Blanks
  token : Text
  value : F
  time : Option (Blanks × ℤ)
  trail : Blanks
  number : token ≠ [] ∧ ∀ c ∈ token, numberChar c = true
  means : FloatText.parseFloat token = some value
  apart : labelSet = none → gap.text ≠ []
  timeApart : ∀ t ∈ time, t.1.text ≠ []

/-- A value between quotes. -/
def escape (value : Text) : Text := value.flatMap fun c =>
  if c = '\\' then ['\\','\\'] else if c = '"' then ['\\','"']
  else if c = '\n' then ['\\','n'] else [c]

def Label.text (l : Label) : Text :=
  l.before.text++l.name.text++l.afterName.text++
    '='::(l.beforeValue.text++('"'::escape l.value++['"'])++l.after.text)

def LabelSet.inner (ls : LabelSet) : Text :=
  [','].intercalate (ls.labels.map Label.text++(ls.extra.map Blanks.text).toList)

def LabelSet.text (ls : LabelSet) : Text := ls.gap.text ++ '{'::(ls.inner++['}'])

/-- The value and the time. -/
def Sample.numbers (s : Sample F) : Text :=
  s.token++(s.time.map fun t => t.1.text++decimal t.2).getD []

def Sample.core (s : Sample F) : Text :=
  s.name.text++(s.labelSet.map LabelSet.text).getD []++s.gap.text++s.numbers

def Sample.text (s : Sample F) : Text := s.lead.text++s.core++s.trail.text

def exposition (ss : List (Sample F)) : Text := (ss.map Sample.text).flatMap (·++['\n'])

def Sample.labels (s : Sample F) : List Label := (s.labelSet.map LabelSet.labels).getD []

/-- The point that a sample stands for. -/
structure Sample.Is (s : Sample F) (p : Point F) : Prop where
  name : p.metricId.toList = s.name.text
  attrs : SameDict p.value.attrs.entries
    (s.labels.map fun l => (String.ofList l.name.text,String.ofList l.value))
  value : p.value.value = .float s.value
  time : (p.tsNs : ℤ) = (s.time.map fun t => t.2*10^9).getD 0

/-! ## Characters -/

/-- The characters of names and numbers. -/
def wordChar (c : Char) : Bool :=
  c.isAlphanum || c = '_' || c = ':' || c = '+' || c = '-' || c = '.'

/-- The codes of these characters. -/
theorem toNat_of_wordChar {c : Char} (h : wordChar c = true) :
    (48 ≤ c.toNat ∧ c.toNat ≤ 57) ∨ (65 ≤ c.toNat ∧ c.toNat ≤ 90) ∨
      (97 ≤ c.toNat ∧ c.toNat ≤ 122) ∨ c.toNat ∈ [95,58,43,45,46] := by
  have halpha : c.isAlpha = (c.isUpper || c.isLower) := rfl
  have hupper : c.isUpper = decide ('A'.val ≤ c.val ∧ c.val ≤ 'Z'.val) := rfl
  have hlower : c.isLower = (decide ('a'.val ≤ c.val) && decide (c.val ≤ 'z'.val)) := rfl
  simp only [wordChar,Char.isAlphanum,halpha,hupper,hlower,Char.isDigit,
    Bool.or_eq_true,Bool.and_eq_true,decide_eq_true_eq,ge_iff_le,UInt32.le_iff_toNat_le] at h
  have hcode : c.val.toNat = c.toNat := rfl
  rcases h with ((((((h | h) | h) | rfl) | rfl) | rfl) | rfl) | rfl
  · exact .inr (.inl h)
  · exact .inr (.inr (.inl h))
  · exact .inl h
  all_goals exact .inr (.inr (.inr (by decide)))

theorem wordChar_ne {c : Char} (h : wordChar c = true) :
    isSpace c = false ∧ isBreak c = false ∧
      c ∉ [' ','\t','{','}',',','=','"','#'] := by
  have hnot : ∀ d : Char, wordChar d = false → c ≠ d := fun d hd heq => by
    rw [heq,hd] at h
    cases h
  have hnat := toNat_of_wordChar h
  simp only [List.mem_cons,List.not_mem_nil,or_false] at hnat
  refine ⟨?_,?_,?_⟩
  · simp [isSpace]
    omega
  · simp [isBreak]
    omega
  · simp only [List.mem_cons,List.not_mem_nil,or_false,not_or]
    exact ⟨hnot _ rfl,hnot _ rfl,hnot _ rfl,hnot _ rfl,hnot _ rfl,hnot _ rfl,hnot _ rfl,hnot _ rfl⟩

theorem Blanks.isSpace (b : Blanks) : ∀ c ∈ b.text, CausalInput.isSpace c = true := by
  intro c hc
  rcases b.only c hc with rfl | rfl
  · rfl
  · rfl

theorem Blanks.not_mem (b : Blanks) {c : Char} (hc : c ≠ ' ' ∧ c ≠ '\t') : c ∉ b.text :=
  fun h => (b.only c h).elim hc.1 hc.2

theorem Blanks.isBreak (b : Blanks) : ∀ c ∈ b.text, ReplayPoint.isBreak c = false := by
  intro c hc
  rcases b.only c hc with rfl | rfl
  · rfl
  · rfl

theorem Name.wordChar {colon : Bool} (n : Name colon) : ∀ c ∈ n.text, wordChar c = true := by
  intro c hc
  rcases n.chars c hc with h | h
  · simp only [nameStart,Bool.or_eq_true,Bool.and_eq_true] at h
    rcases h with (h | h) | ⟨-,h⟩ <;>
      simp [Prometheus.wordChar,Char.isAlphanum,h]
  · simp [Prometheus.wordChar,Char.isAlphanum,h]

theorem Name.ne_nil {colon : Bool} (n : Name colon) : n.text ≠ [] := fun h => by
  obtain ⟨c,hc,-⟩ := n.start
  rw [h] at hc
  cases hc

theorem wordChar_of_number {c : Char} (h : numberChar c = true) : wordChar c = true := by
  simp only [numberChar,Bool.or_eq_true] at h
  rcases h with (((h | h) | h) | h) | h <;> simp [wordChar,h]

theorem wordChar_of_decimal {n : ℤ} {c : Char} (h : c ∈ decimal n) : wordChar c = true := by
  rcases mem_decimal h with rfl | h
  · rfl
  · simp [wordChar,Char.isAlphanum,h]

/-- Where a text of such characters lies between blanks. -/
theorem not_space_ends {w : Text} (h : ∀ c ∈ w, wordChar c = true) :
    (∀ c ∈ w.head?, isSpace c = false) ∧ ∀ c ∈ w.getLast?, isSpace c = false :=
  ⟨fun c hc => (wordChar_ne (h c (List.mem_of_mem_head? hc))).1,
    fun c hc => (wordChar_ne (h c (List.mem_of_getLast? hc))).1⟩

theorem word_not_mem {w : Text} (h : ∀ c ∈ w, wordChar c = true) {c : Char}
    (hc : c ∈ [' ','\t','{','}',',','=','"','#']) : c ∉ w :=
  fun hmem => (wordChar_ne (h c hmem)).2.2 hc

theorem mem_escape {value : Text} {c : Char} (h : c ∈ escape value) :
    c ∈ value ∨ c ∈ ['\\','"','n'] := by
  obtain ⟨d,hd,hc⟩ := List.mem_flatMap.mp h
  split at hc
  · exact .inr (by simpa using Or.inl hc)
  · split at hc
    · exact .inr (by rcases List.mem_pair.mp hc with rfl | rfl <;> simp)
    · split at hc
      · exact .inr (by rcases List.mem_pair.mp hc with rfl | rfl <;> simp)
      · exact .inl (List.mem_singleton.mp hc ▸ hd)

/-! ## What can be read at all -/

def noLabels : Dict String String := ⟨[],List.nodup_nil⟩

theorem mem_setLabel {attrs : List (String × String)} {kv : Text} {x : String × String}
    (h : x ∈ setLabel attrs kv) : x ∈ attrs ∨ ∀ c ∈ x.2.toList, c ∈ kv := by
  unfold setLabel at h
  split at h
  · exact .inl h
  · next k v heq =>
    obtain ⟨rfl,-⟩ := splitOnce_single_iff.mp heq
    rcases Dictionaries.mem_of_mem_setKey h with rfl | h
    · refine .inr fun c hc => ?_
      rw [String.toList_ofList] at hc
      have hv := mem_of_mem_strip (mem_of_mem_strip hc)
      exact List.mem_append_right _ (List.mem_cons_of_mem _ hv)
    · exact .inl h

theorem mem_setLabels {metricLabels : Text} {x : String × String}
    (h : x ∈ setLabels [] metricLabels) : ∀ c ∈ x.2.toList, c ∈ metricLabels ∧ c ≠ ',' := by
  unfold setLabels at h
  split at h
  · cases h
  · have hfold : ∀ (kvs : List Text) (attrs : List (String × String)),
        x ∈ kvs.foldl setLabel attrs → x ∈ attrs ∨ ∃ kv ∈ kvs, ∀ c ∈ x.2.toList, c ∈ kv := by
      intro kvs
      induction kvs with
      | nil => exact fun attrs h => .inl h
      | cons kv kvs ih =>
        intro attrs h
        rcases ih _ h with h | ⟨kv',hkv',h⟩
        · exact (mem_setLabel h).imp_right fun h => ⟨kv,List.mem_cons_self,h⟩
        · exact .inr ⟨kv',List.mem_cons_of_mem kv hkv',h⟩
    obtain ⟨kv,hkv,hx⟩ := (hfold _ _ h).resolve_left List.not_mem_nil
    exact fun c hc => mem_of_mem_splitOn hkv (hx c hc)

theorem mem_cutSample {line name metricLabels valuesPart : Text}
    (h : cutSample line = .ok (name,metricLabels,valuesPart)) :
    ∀ c ∈ metricLabels, c ∈ line ∧ c ≠ '}' := by
  unfold cutSample at h
  split at h
  · split at h
    · cases h
    · next name' rest heq =>
      obtain ⟨rfl,-⟩ := splitOnce_single_iff.mp heq
      split at h
      · cases h
      · next ml vp heq' =>
        obtain ⟨rfl,hnot⟩ := splitOnce_single_iff.mp heq'
        obtain ⟨-,rfl,-⟩ : _ ∧ ml = metricLabels ∧ _ := by simpa using h
        refine fun c hc => ⟨?_,fun heq => hnot (heq ▸ hc)⟩
        exact List.mem_append_right _ (List.mem_cons_of_mem _ (List.mem_append_left _ hc))
  · split at h
    · cases h
    · obtain ⟨-,rfl,-⟩ : _ ∧ [] = metricLabels ∧ _ := by simpa using h
      simp

theorem attrs_samplePoint {entityId : String} {name metricLabels part : Text} {parts : List Text}
    {p : Point F} (h : samplePoint noLabels entityId name metricLabels part parts = .ok p) :
    p.value.attrs.entries = setLabels [] metricLabels := by
  obtain ⟨value,-,h⟩ := PyValue.bind_eq_ok h
  obtain ⟨ts,-,h⟩ := PyValue.bind_eq_ok h
  obtain ⟨tsNs,-,h⟩ := PyValue.bind_eq_ok h
  rw [← Except.ok.inj h]
  rfl

/-- The characters that no label value can be read with. -/
def Readable (value : Text) : Prop := ∀ c ∈ value, isBreak c = false ∧ c ≠ ',' ∧ c ≠ '}'

theorem mem_parseLine {entityId : String} {line : Text} {p : Point F}
    (h : parseLine noLabels entityId line = .ok (some p)) {x : String × String}
    (hx : x ∈ p.value.attrs.entries) : ∀ c ∈ x.2.toList, c ∈ line ∧ c ≠ ',' ∧ c ≠ '}' := by
  unfold parseLine at h
  dsimp only at h
  split at h
  · cases h
  · obtain ⟨⟨name,metricLabels,valuesPart⟩,hcut,h⟩ := PyValue.bind_eq_ok h
    dsimp only at h
    split at h
    · cases h
    · obtain ⟨p',hp',h⟩ := PyValue.map_eq_ok h
      obtain rfl := Option.some.inj h
      rw [attrs_samplePoint hp'] at hx
      intro c hc
      obtain ⟨hml,hcomma⟩ := mem_setLabels hx c hc
      obtain ⟨hline,hbrace⟩ := mem_cutSample hcut c hml
      exact ⟨mem_of_mem_strip hline,hcomma,hbrace⟩

/-- Whatever the text, the values are of such characters. -/
theorem readable_of_parsed {entityId : String} {text : Text} {points : List (Point F)}
    (h : telemetryFromPrometheus noLabels entityId text = .ok points) :
    ∀ p ∈ points, ∀ x ∈ p.value.attrs.entries, Readable x.2.toList := by
  obtain ⟨qs,hqs,rfl⟩ := PyValue.map_eq_ok h
  intro p hp x hx c hc
  obtain ⟨q,hq,hqp⟩ := List.mem_filterMap.mp hp
  obtain rfl : q = some p := hqp
  obtain ⟨line,hline,hparse⟩ := PyValue.exists_of_mapM_ok _ hqs hq
  obtain ⟨hmem,hrest⟩ := mem_parseLine hparse hx c hc
  exact ⟨not_ends_of_mem_lines hline hmem,hrest⟩

/-! ## A label -/

/-- The value that a label is read with. -/
def seen (value : Text) : Text := strip (· = '"') ('"'::escape value++['"'])

theorem setLabel_label (attrs : List (String × String)) (l : Label) :
    setLabel attrs l.text =
      setKey (String.ofList l.name.text) (String.ofList (seen l.value)) attrs := by
  have hword := l.name.wordChar
  have heq : '=' ∉ l.before.text++l.name.text++l.afterName.text := by
    simp only [List.mem_append,not_or]
    exact ⟨⟨l.before.not_mem (by decide),word_not_mem hword (by decide)⟩,
      l.afterName.not_mem (by decide)⟩
  have hsplit : splitOnce ['='] l.text = some (l.before.text++l.name.text++l.afterName.text,
      l.beforeValue.text++('"'::escape l.value++['"'])++l.after.text) :=
    splitOnce_single_iff.mpr ⟨rfl,heq⟩
  have hname : strip isSpace (l.before.text++l.name.text++l.afterName.text) = l.name.text :=
    strip_append l.before.isSpace l.afterName.isSpace (not_space_ends hword).1
      (not_space_ends hword).2
  have hvalue : strip isSpace (l.beforeValue.text++('"'::escape l.value++['"'])++l.after.text) =
      '"'::escape l.value++['"'] := by
    refine strip_append l.beforeValue.isSpace l.after.isSpace ?_ ?_
    · rintro c ⟨⟩
      rfl
    · rw [List.getLast?_concat]
      rintro c ⟨⟩
      rfl
  rw [setLabel,hsplit]
  dsimp only
  rw [hname,hvalue]
  rfl

theorem count_escape (value : Text) :
    (escape value).count '\\' = 2*value.count '\\'+value.count '"'+value.count '\n' := by
  induction value with
  | nil => rfl
  | cons c value ih =>
    rw [escape,List.flatMap_cons,List.count_append,← escape,ih]
    simp only [List.count_cons]
    split
    · next h =>
      subst h
      simp
      omega
    · next h =>
      split
      · next h' =>
        subst h'
        simp
        omega
      · next h' =>
        split
        · next h'' =>
          subst h''
          simp
          omega
        · next h'' =>
          have hbs : (c == '\\') = false := beq_false_of_ne h
          have hquote : (c == '"') = false := beq_false_of_ne h'
          have hline : (c == '\n') = false := beq_false_of_ne h''
          simp [hbs,hquote,hline,h]

theorem escape_eq_self {value : Text} (h : ∀ c ∈ value, c ∉ ['\\','"','\n']) :
    escape value = value := by
  induction value with
  | nil => rfl
  | cons c value ih =>
    obtain ⟨hc,hvalue⟩ := List.forall_mem_cons.mp h
    simp only [List.mem_cons,List.not_mem_nil,or_false,not_or] at hc
    rw [escape,List.flatMap_cons,if_neg hc.1,if_neg hc.2.1,if_neg hc.2.2,← escape,ih hvalue]
    rfl

/-- A value is read as it is exactly where nothing in it is escaped. -/
theorem seen_eq_self_iff {value : Text} :
    seen value = value ↔ ∀ c ∈ value, c ∉ ['\\','"','\n'] := by
  constructor
  · intro heq
    have hcount : (seen value).count '\\' = (escape value).count '\\' := by
      rw [seen,count_strip (by decide),List.cons_append,List.count_cons,List.count_append]
      simp
    rw [heq,count_escape] at hcount
    have hzero : ∀ d ∈ ['\\','"','\n'], value.count d = 0 := by
      simp only [List.forall_mem_cons,List.not_mem_nil,false_imp_iff,implies_true,and_true]
      omega
    intro c hc hd
    exact absurd hc (List.count_eq_zero.mp (hzero c hd))
  · intro h
    have hquote : ∀ c ∈ value, decide (c = '"') = false := by
      intro c hc
      refine decide_eq_false fun heq => h c hc ?_
      rw [heq]
      decide
    rw [seen,escape_eq_self h]
    exact strip_append (a:=['"']) (by simp) (by simp)
      (fun c hc => hquote c (List.mem_of_mem_head? hc))
      fun c hc => hquote c (List.mem_of_getLast? hc)

/-! ## A label set -/

theorem comma_not_mem_label {l : Label} (h : Readable l.value) : ',' ∉ l.text := by
  have hescape : ',' ∉ escape l.value := fun hmem => by
    rcases mem_escape hmem with hmem | hmem
    · exact (h _ hmem).2.1 rfl
    · exact absurd hmem (by decide)
  simp only [Label.text,List.mem_append,List.mem_cons,List.not_mem_nil,not_or]
  have hblank : ∀ b : Blanks, ',' ∉ b.text := fun b => b.not_mem (by decide)
  have hname := word_not_mem l.name.wordChar (c:= ',') (by decide)
  exact ⟨⟨⟨hblank _,hname⟩,hblank _⟩,by decide,⟨hblank _,⟨by decide,hescape⟩,by decide,not_false⟩,
    hblank _⟩

def LabelSet.pieces (ls : LabelSet) : List Text :=
  ls.labels.map Label.text++(ls.extra.map Blanks.text).toList

theorem comma_not_mem_pieces {ls : LabelSet} (h : ∀ l ∈ ls.labels, Readable l.value) :
    ∀ piece ∈ ls.pieces, ',' ∉ piece := by
  intro piece hpiece
  rcases List.mem_append.mp hpiece with hpiece | hpiece
  · obtain ⟨l,hl,rfl⟩ := List.mem_map.mp hpiece
    exact comma_not_mem_label (h l hl)
  · obtain ⟨b,-,rfl⟩ := Option.map_eq_some_iff.mp (Option.mem_toList.mp hpiece)
    exact b.not_mem (by decide)

/-- The pairs of a label set as they are read. -/
def LabelSet.seen (ls : LabelSet) : List (String × String) :=
  ls.labels.map fun l => (String.ofList l.name.text,String.ofList (Prometheus.seen l.value))

theorem unique_seen (ls : LabelSet) : (ls.seen.map Prod.fst).Nodup := by
  have hkeys : ls.seen.map Prod.fst = (ls.labels.map fun l => l.name.text).map String.ofList := by
    rw [LabelSet.seen,List.map_map,List.map_map]
    rfl
  rw [hkeys]
  exact ls.unique.map fun a b h => String.ofList_injective h

theorem foldl_pieces (ls : LabelSet) : ls.pieces.foldl setLabel [] = ls.seen := by
  have hlabels : (ls.labels.map Label.text).foldl setLabel [] = update [] ls.seen := by
    rw [List.foldl_map,update,LabelSet.seen,List.foldl_map]
    congr 1
    funext attrs l
    exact setLabel_label attrs l
  have hextra : ∀ attrs, ((ls.extra.map Blanks.text).toList).foldl setLabel attrs = attrs := by
    intro attrs
    cases ls.extra with
    | none => rfl
    | some b =>
      have hnone : splitOnce ['='] b.text = none :=
        (splitOnce_eq_none_iff (List.cons_ne_nil _ _)).mpr fun hin =>
          b.not_mem (by decide) ((List.singleton_infix_iff ..).mp hin)
      simp [setLabel,hnone]
  rw [LabelSet.pieces,List.foldl_append,hlabels,hextra,Dictionaries.update_of_nodup]
  · rfl
  · exact unique_seen ls

theorem setLabels_inner {ls : LabelSet} (h : ∀ l ∈ ls.labels, Readable l.value) :
    setLabels [] ls.inner = ls.seen := by
  have hinner : ls.inner = [','].intercalate ls.pieces := rfl
  rcases eq_or_ne ls.pieces [] with hnil | hne
  · rw [← foldl_pieces,hinner,hnil]
    rfl
  · have hsplit : ls.inner.splitOn ',' = ls.pieces :=
      hinner ▸ List.splitOn_intercalate ',' (comma_not_mem_pieces h) hne
    rw [setLabels,hsplit]
    split
    · next hempty =>
      rw [hempty,List.splitOn_nil] at hsplit
      rw [← foldl_pieces,← hsplit]
      rfl
    · exact foldl_pieces ls

theorem mem_inner {ls : LabelSet} {c : Char} (h : c ∈ ls.inner) :
    c = ',' ∨ ∃ piece ∈ ls.pieces, c ∈ piece := by
  have hinner : ls.inner = [','].intercalate ls.pieces := rfl
  rw [hinner] at h
  generalize ls.pieces = pieces at h ⊢
  induction pieces with
  | nil => cases h
  | cons p pieces ih =>
    cases pieces with
    | nil => exact .inr ⟨p,List.mem_cons_self,by simpa using h⟩
    | cons q pieces =>
      rw [List.intercalate_cons_cons,List.append_assoc] at h
      rcases List.mem_append.mp h with h | h
      · exact .inr ⟨p,List.mem_cons_self,h⟩
      · rcases List.mem_append.mp h with h | h
        · exact .inl (List.mem_singleton.mp h)
        · exact (ih h).imp_right fun ⟨piece,hp,hc⟩ => ⟨piece,List.mem_cons_of_mem p hp,hc⟩

/-- The characters of a label. -/
theorem mem_label {l : Label} {c : Char} (h : c ∈ l.text) : c = ' ' ∨ c = '\t' ∨
    wordChar c = true ∨ c ∈ l.value ∨ c ∈ ['=','"','\\','n'] := by
  have hblank : ∀ b : Blanks, c ∈ b.text → c = ' ' ∨ c = '\t' := fun b hb => b.only c hb
  simp only [Label.text,List.mem_append,List.mem_cons,List.not_mem_nil,or_false] at h
  rcases h with ((h | h) | h) | h | (h | (h | h) | h) | h
  · exact (hblank _ h).elim .inl fun h => .inr (.inl h)
  · exact .inr (.inr (.inl (l.name.wordChar c h)))
  · exact (hblank _ h).elim .inl fun h => .inr (.inl h)
  · exact .inr (.inr (.inr (.inr (by simp [h]))))
  · exact (hblank _ h).elim .inl fun h => .inr (.inl h)
  · exact .inr (.inr (.inr (.inr (by simp [h]))))
  · rcases mem_escape h with h | h
    · exact .inr (.inr (.inr (.inl h)))
    · refine .inr (.inr (.inr (.inr ?_)))
      simp only [List.mem_cons,List.not_mem_nil,or_false] at h ⊢
      tauto
  · exact .inr (.inr (.inr (.inr (by simp [h]))))
  · exact (hblank _ h).elim .inl fun h => .inr (.inl h)

/-- What a label set with readable values has none of. -/
theorem inner_clean {ls : LabelSet} (h : ∀ l ∈ ls.labels, Readable l.value) {c : Char}
    (hc : c ∈ ls.inner) : isBreak c = false ∧ c ≠ '}' := by
  have hword : ∀ c, wordChar c = true → isBreak c = false ∧ c ≠ '}' := fun c hw =>
    ⟨(wordChar_ne hw).2.1,fun heq => (wordChar_ne hw).2.2 (by simp [heq])⟩
  rcases mem_inner hc with rfl | ⟨piece,hpiece,hc⟩
  · exact ⟨rfl,by decide⟩
  · rcases List.mem_append.mp hpiece with hpiece | hpiece
    · obtain ⟨l,hl,rfl⟩ := List.mem_map.mp hpiece
      rcases mem_label hc with rfl | rfl | hc | hc | hc
      · exact ⟨rfl,by decide⟩
      · exact ⟨rfl,by decide⟩
      · exact hword c hc
      · exact ⟨(h l hl c hc).1,(h l hl c hc).2.2⟩
      · simp only [List.mem_cons,List.not_mem_nil,or_false] at hc
        rcases hc with rfl | rfl | rfl | rfl <;> exact ⟨rfl,by decide⟩
    · obtain ⟨b,-,rfl⟩ := Option.map_eq_some_iff.mp (Option.mem_toList.mp hpiece)
      exact ⟨b.isBreak c hc,fun heq => b.not_mem (by decide) (heq ▸ hc)⟩

/-! ## A line -/

section Line

variable (s : Sample F)

theorem Sample.tokenWord : ∀ c ∈ s.token, wordChar c = true := fun c hc =>
  wordChar_of_number (s.number.2 c hc)

/-- The words behind the value: the time, when there is one. -/
def Sample.times : List Text := (s.time.map fun t => decimal t.2).toList

theorem words_numbers : words isSpace s.numbers = s.token::s.times := by
  have htoken : ∀ c ∈ s.token, isSpace c = false := fun c hc => (wordChar_ne (s.tokenWord c hc)).1
  rw [Sample.numbers,Sample.times]
  cases htime : s.time with
  | none =>
    rw [Option.map_none,Option.getD_none,List.append_nil]
    exact words_single s.number.1 htoken
  | some t =>
    have hdecimal : ∀ c ∈ decimal t.2, isSpace c = false := fun c hc =>
      (wordChar_ne (wordChar_of_decimal hc)).1
    rw [Option.map_some,Option.getD_some,← List.append_assoc,
      words_word_blank s.number.1 htoken t.1.isSpace (s.timeApart t htime),
      words_single (decimal_ne_nil t.2) hdecimal]
    rfl

/-- The numbers begin and end with characters of numbers. -/
theorem numbers_ends : (∀ c ∈ s.numbers.head?, isSpace c = false) ∧
    (∀ c ∈ s.numbers.getLast?, isSpace c = false) ∧ s.numbers ≠ [] := by
  have hends := not_space_ends s.tokenWord
  rw [Sample.numbers]
  refine ⟨?_,?_,by simp [s.number.1]⟩
  · rw [List.head?_append_of_ne_nil _ s.number.1]
    exact hends.1
  · cases s.time with
    | none =>
      rw [Option.map_none,Option.getD_none,List.append_nil]
      exact hends.2
    | some t =>
      rw [Option.map_some,Option.getD_some,← List.append_assoc,
        List.getLast?_append_of_ne_nil _ (decimal_ne_nil t.2)]
      exact (not_space_ends fun c hc => wordChar_of_decimal hc).2

theorem mem_numbers {c : Char} (h : c ∈ s.numbers) :
    c = ' ' ∨ c = '\t' ∨ wordChar c = true := by
  rw [Sample.numbers] at h
  rcases List.mem_append.mp h with h | h
  · exact .inr (.inr (s.tokenWord c h))
  · cases htime : s.time with
    | none =>
      rw [htime] at h
      cases h
    | some t =>
      rw [htime,Option.map_some,Option.getD_some] at h
      rcases List.mem_append.mp h with h | h
      · exact (t.1.only c h).imp_right .inl
      · exact .inr (.inr (wordChar_of_decimal h))

theorem numbers_not_mem {c : Char} (hc : c ∈ ['{','}',',','=','"','#']) : c ∉ s.numbers := by
  intro h
  rcases mem_numbers s h with rfl | rfl | hw
  · exact absurd hc (by decide)
  · exact absurd hc (by decide)
  · exact (wordChar_ne hw).2.2 (List.mem_cons_of_mem _ (List.mem_cons_of_mem _ hc))

theorem core_head : s.core.head? = s.name.text.head? := by
  rw [Sample.core,List.append_assoc,List.append_assoc,
    List.head?_append_of_ne_nil _ s.name.ne_nil]

theorem strip_text : strip isSpace s.text = s.core := by
  refine strip_append s.lead.isSpace s.trail.isSpace ?_ ?_
  · rw [core_head]
    exact (not_space_ends s.name.wordChar).1
  · rw [Sample.core,List.getLast?_append_of_ne_nil _ (numbers_ends s).2.2]
    exact (numbers_ends s).2.1

/-- What a line is read as once it is cut. -/
def finish (entityId : String) (name metricLabels : Text) : Except Raise (Option (Point F)) :=
  some <$> samplePoint noLabels entityId name metricLabels s.token s.times

theorem parseLine_of_cut {entityId : String} {name metricLabels v : Text}
    (hcut : cutSample s.core = .ok (name,metricLabels,v))
    (hwords : words isSpace v = words isSpace s.numbers) :
    parseLine noLabels entityId s.text = finish s entityId name metricLabels := by
  have hhead : ¬ (s.core = [] ∨ s.core.head? = some '#') := by
    obtain ⟨c,hc,-⟩ := s.name.start
    rw [core_head,hc]
    rintro (hnil | hcomment)
    · have hcore := core_head s
      rw [hnil,hc] at hcore
      cases hcore
    · obtain rfl := Option.some.inj hcomment
      exact word_not_mem s.name.wordChar (by decide) (List.mem_of_mem_head? hc)
  rw [parseLine]
  dsimp only
  rw [strip_text,if_neg hhead,hcut]
  dsimp only [bind,Except.bind]
  rw [hwords,words_numbers]
  rfl

theorem parseLine_labelled {entityId : String} {ls : LabelSet} (hls : s.labelSet = some ls)
    (h : ∀ l ∈ ls.labels, Readable l.value) :
    parseLine noLabels entityId s.text = finish s entityId (s.name.text++ls.gap.text) ls.inner := by
  have hcore : s.core = (s.name.text++ls.gap.text)++
      '{'::(ls.inner ++ '}'::(s.gap.text++s.numbers)) := by
    rw [Sample.core,hls,Option.map_some,Option.getD_some,LabelSet.text]
    simp
  have hopen : '{' ∉ s.name.text++ls.gap.text := fun hmem =>
    (List.mem_append.mp hmem).elim (word_not_mem s.name.wordChar (by decide))
      (ls.gap.not_mem (by decide))
  have hclose : '}' ∉ ls.inner := fun hmem => (inner_clean h hmem).2 rfl
  have hbrace : '{' ∈ s.core := by
    rw [hcore]
    exact List.mem_append_right _ List.mem_cons_self
  refine parseLine_of_cut s (v:=strip isSpace (s.gap.text++s.numbers)) ?_ ?_
  · rw [cutSample,if_pos hbrace,splitOnce_single_iff.mpr ⟨hcore,hopen⟩]
    dsimp only
    rw [splitOnce_single_iff.mpr ⟨rfl,hclose⟩]
  · have hstrip := strip_append (b:=[]) s.gap.isSpace (by simp) (numbers_ends s).1
      (numbers_ends s).2.1
    rw [List.append_nil] at hstrip
    rw [hstrip]

theorem brace_not_mem_core (hls : s.labelSet = none) : '{' ∉ s.core := by
  rw [Sample.core,hls,Option.map_none,Option.getD_none,List.append_nil]
  simp only [List.mem_append,not_or]
  exact ⟨⟨word_not_mem s.name.wordChar (by decide),s.gap.not_mem (by decide)⟩,
    numbers_not_mem s (by decide)⟩

theorem parseLine_plain {entityId : String} (hls : s.labelSet = none)
    (hgap : s.gap.text.head? = some ' ') :
    parseLine noLabels entityId s.text = finish s entityId s.name.text [] := by
  obtain ⟨gap,hgap⟩ : ∃ gap, s.gap.text = ' '::gap := List.head?_eq_some_iff.mp hgap
  have hspace : ∀ c ∈ gap, isSpace c = true := fun c hc =>
    s.gap.isSpace c (hgap ▸ List.mem_cons_of_mem _ hc)
  have hcore : s.core = s.name.text ++ ' '::(gap++s.numbers) := by
    rw [Sample.core,hls,Option.map_none,Option.getD_none,List.append_nil,hgap]
    simp
  refine parseLine_of_cut s (v:=gap++s.numbers) ?_ (words_blank_append hspace)
  rw [cutSample,if_neg (brace_not_mem_core s hls),
    splitOnce_single_iff.mpr ⟨hcore,word_not_mem s.name.wordChar (by decide)⟩]

theorem metricId_of_samplePoint {entityId : String} {name metricLabels part : Text}
    {parts : List Text} {p : Point F}
    (h : samplePoint noLabels entityId name metricLabels part parts = .ok p) :
    p.metricId.toList = name := by
  obtain ⟨value,-,h⟩ := PyValue.bind_eq_ok h
  obtain ⟨ts,-,h⟩ := PyValue.bind_eq_ok h
  obtain ⟨tsNs,-,h⟩ := PyValue.bind_eq_ok h
  rw [← Except.ok.inj h]
  exact String.toList_ofList

/-- Without labels the name ends at a blank. -/
theorem gap_of_parsed {entityId : String} {p : Point F} (hls : s.labelSet = none)
    (h : parseLine noLabels entityId s.text = .ok (some p))
    (hname : p.metricId.toList = s.name.text) :
    s.gap.text.head? = some ' ' := by
  rw [parseLine] at h
  dsimp only at h
  rw [strip_text] at h
  split at h
  · cases h
  · rw [cutSample,if_neg (brace_not_mem_core s hls)] at h
    split at h
    · cases h
    · next name valuesPart hsplit =>
      have hpoint : p.metricId.toList = name := by
        dsimp only [bind,Except.bind] at h
        split at h
        · cases h
        · obtain ⟨p',hp',h⟩ := PyValue.map_eq_ok h
          obtain rfl := Option.some.inj h
          exact metricId_of_samplePoint hp'
      obtain ⟨hcore,-⟩ := splitOnce_single_iff.mp hsplit
      rw [← hpoint,hname,Sample.core,hls,Option.map_none,Option.getD_none,List.append_nil,
        List.append_assoc,List.append_cancel_left_eq] at hcore
      have hhead := congrArg List.head? hcore
      rwa [List.head?_append_of_ne_nil _ (s.apart hls)] at hhead

/-- The labels of a sample as a dictionary. -/
def Sample.attrs : List (String × String) :=
  s.labels.map fun l => (String.ofList l.name.text,String.ofList l.value)

/-- Rounding twice keeps exactly the times that are doubles when they are scaled. -/
theorem scaled_iff (n : ℤ) : ((toDouble n).bind fun m => toDouble (m*10^9)) = some (n*10^9) ↔
    IsDouble (n*10^9) := by
  constructor
  · intro h
    obtain ⟨m,-,hm⟩ := Option.bind_eq_some_iff.mp h
    exact isDouble_of_toDouble hm
  · intro h
    rw [toDouble_eq_self_iff.mpr (h.of_mul (by decide)),Option.bind_some]
    exact toDouble_eq_self_iff.mpr h

/-- The time of a point is that of its sample. -/
theorem timestamp_iff : (∃ ts tsNs, timestamp (F:=F) s.times = .ok ts ∧ nonneg ts = .ok tsNs ∧
    (tsNs : ℤ) = (s.time.map fun t => t.2*10^9).getD 0) ↔
      ∀ t ∈ s.time, 0 ≤ t.2 ∧ IsDouble (t.2*10^9) := by
  have hnonneg : ∀ (ts : ℤ) (tsNs : ℕ), nonneg ts = .ok tsNs ↔ ts = tsNs := by
    intro ts tsNs
    rw [nonneg]
    split
    · rw [Except.ok.injEq]
      omega
    · simp only [reduceCtorEq,false_iff]
      omega
  simp only [hnonneg,Sample.times]
  cases s.time with
  | none => simp [timestamp]
  | some t =>
    obtain ⟨x,hx,hnanos⟩ := FloatText.float_decimal (F:=F) t.2
    have hts : timestamp (F:=F) [decimal t.2] =
        ((toDouble t.2).bind fun m => toDouble (m*10^9)).elim (.error .overflowError) .ok := by
      rw [timestamp,hx,← hnanos]
      rfl
    simp only [Option.map_some,Option.toList_some,Option.getD_some,Option.mem_some_iff,
      forall_eq',hts]
    constructor
    · rintro ⟨ts,tsNs,hok,rfl,htime⟩
      rw [htime] at hok
      have hround : ((toDouble t.2).bind fun m => toDouble (m*10^9)) = some (t.2*10^9) := by
        cases hb : (toDouble t.2).bind fun m => toDouble (m*10^9) with
        | none =>
          rw [hb] at hok
          cases hok
        | some k =>
          rw [hb] at hok
          exact congrArg some (Except.ok.inj hok)
      refine ⟨?_,(scaled_iff t.2).mp hround⟩
      omega
    · rintro ⟨hpos,hdouble⟩
      rw [(scaled_iff t.2).mpr hdouble]
      refine ⟨t.2*10^9,(t.2*10^9).toNat,rfl,?_,?_⟩ <;> omega

theorem finish_is_iff (entityId : String) (name metricLabels : Text) :
    (∃ p, finish s entityId name metricLabels = .ok (some p) ∧ s.Is p) ↔
      name = s.name.text ∧ SameDict (setLabels [] metricLabels) s.attrs ∧
        FloatText.float s.token = some s.value ∧
          ∀ t ∈ s.time, 0 ≤ t.2 ∧ IsDouble (t.2*10^9) := by
  rw [← timestamp_iff]
  constructor
  · rintro ⟨p,hp,his⟩
    obtain ⟨p',hp',hpp⟩ := PyValue.map_eq_ok hp
    obtain rfl := Option.some.inj hpp
    have hattrs := attrs_samplePoint hp'
    have hname := metricId_of_samplePoint hp'
    obtain ⟨value,hvalue,hp'⟩ := PyValue.bind_eq_ok hp'
    obtain ⟨ts,hts,hp'⟩ := PyValue.bind_eq_ok hp'
    obtain ⟨tsNs,htsNs,hp'⟩ := PyValue.bind_eq_ok hp'
    obtain rfl := Except.ok.inj hp'
    refine ⟨hname ▸ his.name,hattrs ▸ his.attrs,?_,ts,tsNs,hts,htsNs,his.time⟩
    cases hfloat : FloatText.float (F:=F) s.token with
    | none =>
      rw [hfloat] at hvalue
      cases hvalue
    | some x =>
      rw [hfloat] at hvalue
      obtain rfl := Except.ok.inj hvalue
      exact congrArg some (Value.float.inj his.value)
  · rintro ⟨rfl,hattrs,hfloat,ts,tsNs,hts,htsNs,htime⟩
    refine ⟨point noLabels entityId s.name.text metricLabels s.value tsNs,?_,?_⟩
    · rw [finish,samplePoint,hfloat,hts]
      dsimp only [bind,Except.bind,Option.elim]
      rw [htsNs]
      rfl
    · exact ⟨String.toList_ofList,hattrs,rfl,htime⟩

/-- What of a sample the adapter can read. -/
structure Sample.Plain : Prop where
  values : ∀ l ∈ s.labels, ∀ c ∈ l.value, isBreak c = false ∧ c ∉ [',','}','\\','"']
  gap : match s.labelSet with
    | some ls => ls.gap.text = []
    | none => s.gap.text.head? = some ' '
  number : FloatText.float s.token = some s.value
  time : ∀ t ∈ s.time, 0 ≤ t.2 ∧ IsDouble (t.2*10^9)

/-- Labels are read as they are where none of their values is escaped. -/
theorem sameDict_seen_iff {ls : LabelSet} :
    SameDict ls.seen (ls.labels.map fun l => (String.ofList l.name.text,String.ofList l.value)) ↔
      ∀ l ∈ ls.labels, seen l.value = l.value := by
  have hkeys : ((ls.labels.map fun l => (String.ofList l.name.text,String.ofList l.value)).map
      Prod.fst).Nodup := by
    have hunique := unique_seen ls
    rw [LabelSet.seen,List.map_map] at hunique
    rw [List.map_map]
    exact hunique
  constructor
  · intro h l hl
    have hseen := TimeTable.lookup_of_mem (unique_seen ls) (List.mem_map_of_mem hl)
    have hvalue := TimeTable.lookup_of_mem hkeys (List.mem_map_of_mem hl)
    have heq := h (String.ofList l.name.text)
    rw [hseen,hvalue] at heq
    exact String.ofList_injective (Option.some.inj heq)
  · intro h k
    rw [LabelSet.seen,List.map_congr_left fun l hl => by rw [h l hl]]

theorem plain_value_iff {value : Text} :
    (∀ c ∈ value, isBreak c = false ∧ c ∉ [',','}','\\','"']) ↔
      Readable value ∧ seen value = value := by
  rw [seen_eq_self_iff,Readable,← forall₂_and]
  refine forall₂_congr fun c _ => ?_
  simp only [List.mem_cons,List.not_mem_nil,or_false,not_or]
  constructor
  · rintro ⟨hbreak,hcomma,hclose,hslash,hquote⟩
    refine ⟨⟨hbreak,hcomma,hclose⟩,hslash,hquote,fun heq => ?_⟩
    rw [heq] at hbreak
    cases hbreak
  · rintro ⟨⟨hbreak,hcomma,hclose⟩,hslash,hquote,-⟩
    exact ⟨hbreak,hcomma,hclose,hslash,hquote⟩

/-- A line whose values are readable is read right exactly where it is plain. -/
theorem parseLine_iff {entityId : String} (h : ∀ l ∈ s.labels, Readable l.value) :
    (∃ p, parseLine noLabels entityId s.text = .ok (some p) ∧ s.Is p) ↔ s.Plain := by
  cases hls : s.labelSet with
  | none =>
    have hattrs : s.attrs = [] := by rw [Sample.attrs,Sample.labels,hls]; rfl
    have hlabels : s.labels = [] := by rw [Sample.labels,hls]; rfl
    constructor
    · rintro ⟨p,hp,his⟩
      have hgap := gap_of_parsed s hls hp his.name
      rw [parseLine_plain s hls hgap] at hp
      obtain ⟨-,-,hnumber,htime⟩ := (finish_is_iff s entityId _ _).mp ⟨p,hp,his⟩
      exact ⟨by simp [hlabels],by rw [hls]; exact hgap,hnumber,htime⟩
    · rintro ⟨-,hgap,hnumber,htime⟩
      rw [hls] at hgap
      rw [parseLine_plain s hls hgap]
      exact (finish_is_iff s entityId _ _).mpr
        ⟨rfl,hattrs ▸ fun k => rfl,hnumber,htime⟩
  | some ls =>
    have hlabels : s.labels = ls.labels := by rw [Sample.labels,hls]; rfl
    rw [hlabels] at h
    have hattrs : SameDict (setLabels [] ls.inner) s.attrs ↔
        ∀ l ∈ ls.labels, seen l.value = l.value := by
      rw [setLabels_inner h,Sample.attrs,hlabels]
      exact sameDict_seen_iff
    have hvalues : (∀ l ∈ s.labels, ∀ c ∈ l.value, isBreak c = false ∧
        c ∉ [',','}','\\','"']) ↔ ∀ l ∈ ls.labels, seen l.value = l.value := by
      rw [hlabels]
      exact forall₂_congr fun l hl => plain_value_iff.trans (and_iff_right (h l hl))
    rw [parseLine_labelled s hls h,finish_is_iff,hattrs,← hvalues,List.append_right_eq_self]
    constructor
    · rintro ⟨hgap,hvalues,hnumber,htime⟩
      exact ⟨hvalues,by rw [hls]; exact hgap,hnumber,htime⟩
    · rintro ⟨hvalues,hgap,hnumber,htime⟩
      rw [hls] at hgap
      exact ⟨hgap,hvalues,hnumber,htime⟩

theorem isBreak_text (h : ∀ l ∈ s.labels, Readable l.value) :
    ∀ c ∈ s.text, isBreak c = false := by
  intro c hc
  have hcore : c ∈ s.core → isBreak c = false := by
    intro hc
    have hnumbers : c ∈ s.numbers → isBreak c = false := by
      intro hc
      rcases mem_numbers s hc with rfl | rfl | hw
      · rfl
      · rfl
      · exact (wordChar_ne hw).2.1
    rcases List.mem_append.mp hc with hc | hc
    · rcases List.mem_append.mp hc with hc | hc
      · rcases List.mem_append.mp hc with hc | hc
        · exact (wordChar_ne (s.name.wordChar c hc)).2.1
        · cases hls : s.labelSet with
          | none =>
            rw [hls] at hc
            cases hc
          | some ls =>
            have hlabels : s.labels = ls.labels := by rw [Sample.labels,hls]; rfl
            rw [hls,Option.map_some,Option.getD_some] at hc
            rcases List.mem_append.mp hc with hc | hc
            · exact ls.gap.isBreak c hc
            · rcases List.mem_cons.mp hc with rfl | hc
              · rfl
              · rcases List.mem_append.mp hc with hc | hc
                · exact (inner_clean (hlabels ▸ h) hc).1
                · obtain rfl := List.mem_singleton.mp hc
                  rfl
      · exact s.gap.isBreak c hc
    · exact hnumbers hc
  rcases List.mem_append.mp hc with hc | hc
  · rcases List.mem_append.mp hc with hc | hc
    · exact s.lead.isBreak c hc
    · exact hcore hc
  · exact s.trail.isBreak c hc

end Line

/-! ## The text -/

/-- Every sample becomes one point, the point that it stands for. -/
def ParsedRight (entityId : String) (ss : List (Sample F)) : Prop :=
  ∃ points, telemetryFromPrometheus noLabels entityId (exposition ss) = .ok points ∧
    List.Forall₂ Sample.Is ss points

theorem lines_exposition {ss : List (Sample F)}
    (h : ∀ s ∈ ss, ∀ l ∈ s.labels, Readable l.value) :
    lines isBreak (exposition ss) = ss.map Sample.text := by
  refine lines_flatMap rfl fun l hl => ?_
  obtain ⟨s,hs,rfl⟩ := List.mem_map.mp hl
  exact isBreak_text s (h s hs)

/-- What has been read right has readable values. -/
theorem readable_of_right {entityId : String} {ss : List (Sample F)}
    (h : ParsedRight entityId ss) : ∀ s ∈ ss, ∀ l ∈ s.labels, Readable l.value := by
  obtain ⟨points,hpoints,hall⟩ := h
  have hreadable := readable_of_parsed hpoints
  clear hpoints
  induction hall with
  | nil => simp
  | @cons s p ss points his _ ih =>
    obtain ⟨hp,hpoints⟩ := List.forall_mem_cons.mp hreadable
    refine List.forall_mem_cons.mpr ⟨fun l hl => ?_,ih hpoints⟩
    have hmem : (String.ofList l.name.text,String.ofList l.value) ∈ s.attrs :=
      List.mem_map_of_mem hl
    have hlookup : s.attrs.lookup (String.ofList l.name.text) = some (String.ofList l.value) := by
      refine TimeTable.lookup_of_mem ?_ hmem
      cases hls : s.labelSet with
      | none =>
        have hnil : s.labels = [] := by rw [Sample.labels,hls]; rfl
        rw [hnil] at hl
        cases hl
      | some ls =>
        have hlabels : s.labels = ls.labels := by rw [Sample.labels,hls]; rfl
        have hunique := unique_seen ls
        rw [LabelSet.seen,List.map_map] at hunique
        rw [Sample.attrs,hlabels,List.map_map]
        exact hunique
    have hparsed := Dictionaries.mem_of_lookup ((his.attrs _).trans hlookup)
    have hvalue := hp _ hparsed
    rwa [String.toList_ofList] at hvalue

/-- The loop over the samples keeps one point of each exactly where each has one. -/
theorem forall₂_of_filterMap {R : Sample F → Point F → Prop} {f : Sample F → Except Raise
    (Option (Point F))} {ss : List (Sample F)} {qs : List (Option (Point F))}
    (hqs : ss.mapM f = .ok qs) (h : List.Forall₂ R ss (qs.filterMap id)) :
    ∀ s ∈ ss, ∃ p, f s = .ok (some p) ∧ R s p := by
  have hloop := (PyValue.mapM_eq_ok_iff ss).mp hqs
  have hlen : (qs.filterMap id).length = qs.length := h.length_eq.symm.trans hloop.length_eq
  have hsome := List.filterMap_length_eq_length.mp hlen
  clear hqs hlen
  induction hloop with
  | nil => simp
  | @cons s q ss qs hs _ ih =>
    obtain ⟨hq,hqs⟩ := List.forall_mem_cons.mp hsome
    obtain ⟨p,rfl⟩ := Option.isSome_iff_exists.mp hq
    rw [List.filterMap_cons_some (f:=id) (b:=p) rfl] at h
    obtain ⟨hR,hrest⟩ := List.forall₂_cons.mp h
    exact List.forall_mem_cons.mpr ⟨⟨p,hs,hR⟩,ih hrest hqs⟩

theorem exposition_parsed_iff (entityId : String) (ss : List (Sample F)) :
    ParsedRight entityId ss ↔ ∀ s ∈ ss, s.Plain := by
  have hparse : (∀ s ∈ ss, ∀ l ∈ s.labels, Readable l.value) →
      telemetryFromPrometheus noLabels entityId (exposition ss) =
        (fun points => points.filterMap id) <$>
          ss.mapM fun s => parseLine (F:=F) noLabels entityId s.text := by
    intro hreadable
    rw [telemetryFromPrometheus,lines_exposition hreadable,List.mapM_map]
    rfl
  constructor
  · intro h s hs
    have hreadable := readable_of_right h
    obtain ⟨points,hpoints,hall⟩ := h
    rw [hparse hreadable] at hpoints
    obtain ⟨qs,hqs,rfl⟩ := PyValue.map_eq_ok hpoints
    exact (parseLine_iff s (hreadable s hs)).mp (forall₂_of_filterMap hqs hall s hs)
  · intro h
    have hreadable : ∀ s ∈ ss, ∀ l ∈ s.labels, Readable l.value := fun s hs l hl =>
      (plain_value_iff.mp ((h s hs).values l hl)).1
    obtain ⟨qs,hqs,hall⟩ := PyValue.exists_mapM_ok (f:=fun s => parseLine noLabels entityId s.text)
      (P:=fun s q => ∃ p, q = some p ∧ s.Is p) ss fun s hs => by
        obtain ⟨p,hp,his⟩ := (parseLine_iff s (hreadable s hs)).mpr (h s hs)
        exact ⟨some p,hp,p,rfl,his⟩
    refine ⟨qs.filterMap id,?_,?_⟩
    · rw [hparse hreadable,hqs]
      rfl
    · clear hqs hparse hreadable h
      induction hall with
      | nil => exact .nil
      | cons hs _ ih =>
        obtain ⟨-,p,rfl,his⟩ := hs
        rw [List.filterMap_cons_some (f:=id) (b:=p) rfl]
        exact .cons his ih

/-! ## A comma between quotes -/

/-- Whole numbers as floats; what is beyond them is infinite. -/
instance wholeFloats : FloatText (Option ℤ) where
  float text := (readInt text).map toDouble
  parseFloat text := (readInt text).map toDouble
  nanos x := (x.bind fun m => toDouble (m*10^9)).elim (.error .overflowError) .ok
  float_decimal n := ⟨toDouble n,by rw [readInt_decimal]; rfl,rfl⟩

def noBlank : Blanks := ⟨[],by simp⟩

def oneBlank : Blanks := ⟨[' '],by simp⟩

theorem chars_of_all {colon : Bool} {text : Text}
    (h : (text.all fun c => nameStart colon c || c.isDigit) = true) :
    ∀ c ∈ text, nameStart colon c = true ∨ c.isDigit = true := by
  intro c hc
  simpa using List.all_eq_true.mp h c hc

/-- `requests{path="a,b"} 1`. -/
def quotedComma : Sample (Option ℤ) where
  lead := noBlank
  name := ⟨"requests".toList,⟨'r',rfl,rfl⟩,chars_of_all (by decide)⟩
  labelSet := some
    { gap := noBlank
      labels :=
        [{ name := ⟨"path".toList,⟨'p',rfl,rfl⟩,chars_of_all (by decide)⟩
           value := "a,b".toList
           before := noBlank
           afterName := noBlank
           beforeValue := noBlank
           after := noBlank }]
      extra := none
      unique := List.nodup_singleton _ }
  gap := oneBlank
  token := ['1']
  value := some 1
  time := none
  trail := noBlank
  number := ⟨by decide,List.forall_mem_singleton.mpr (by decide)⟩
  means := by decide
  apart := nofun
  timeApart := nofun

theorem quotedComma_not_right : ¬ ∀ ss : List (Sample (Option ℤ)), ParsedRight "prom-host" ss := by
  intro h
  have hreadable := readable_of_right (h [quotedComma]) quotedComma List.mem_cons_self _
    List.mem_cons_self
  exact (hreadable ',' (by decide)).2.1 rfl

end Prometheus
end ETraceDiag
