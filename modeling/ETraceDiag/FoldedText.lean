import ETraceDiag.ColumnExpr
import ETraceDiag.TextPieces
import Mathlib.Algebra.Ring.Nat
import Mathlib.Data.List.DropRight

/-!
# Folded lines in the viewer

`V.parseFolded` of `tools/viz/js/flame.js` takes a text with a line for each entry of a profile
apart. A newline in a line ends it early: what the viewer knows of the entry is what comes behind
the last one.
-/

namespace ETraceDiag
namespace FoldedText

open ScriptNumber

/-- `Number` of a text. -/
class FoldedNumber (N : Type) extends ScriptNumber N where
  scan : List Char → N
  scan_decimal : ∀ n : ℕ, n < 2^53 → scan (toString n).toList = ofInt n
  ge_zero_ofInt : ∀ n : ℕ, 1 ≤ n → n < 2^53 → ge (ofInt 0) (ofInt n) = false
  ofInt_inj : ∀ a b : ℕ, a < 2^53 → b < 2^53 → ofInt a = ofInt b → a = b
  add_ofInt : ∀ a b : ℕ, a+b < 2^53 → ofInt a+ofInt b = ofInt (a+b : ℕ)

variable {N : Type} [FoldedNumber N]

/-! ## V.parseFolded -/

/-- `tgid` and `tid` are `num` again. -/
structure PT (N : Type) where
  num : N
  comm : List Char

def parsePT (s : List Char) : PT N :=
  ⟨FoldedNumber.scan ((s.takeWhile (· ≠ '/')).drop 2),(s.dropWhile (· ≠ '/')).drop 1⟩

def pOf : List (List Char) → Option (PT N)
  | [] => none
  | first::_ => if ['p',':'].isPrefixOf first then some (parsePT first) else none

/-- The second frame, or else the first one. -/
def tOf : List (List Char) → Option (PT N)
  | [] => none
  | [first] => if ['t',':'].isPrefixOf first then some (parsePT first) else none
  | first::second::_ =>
    if ['t',':'].isPrefixOf second then some (parsePT second)
    else if ['t',':'].isPrefixOf first then some (parsePT first)
    else none

structure FoldedLine (N : Type) where
  frames : List (List Char)
  value : N
  p : Option (PT N)
  t : Option (PT N)

/-- `framesStr.split(';').filter(Boolean)`. -/
def framesOf (framesStr : List Char) : List (List Char) := (framesStr.splitOn ';').filter (· ≠ [])

def parseLine (rawLine : List Char) : Option (FoldedLine N) :=
  if ' ' ∉ rawLine then none
  else
    let framesStr := (rawLine.rdropWhile (· ≠ ' ')).dropLast
    let value : N := FoldedNumber.scan (rawLine.rtakeWhile (· ≠ ' '))
    if !finite value || ge (ofInt 0) value then none
    else if framesOf framesStr = [] then none
    else some ⟨framesOf framesStr,value,pOf (framesOf framesStr),tOf (framesOf framesStr)⟩

structure PidTotal (N : Type) where
  comm : List Char
  total : N

structure TidTotal (N : Type) where
  comm : List Char
  tgid : Option N
  total : N

structure Parsed (N : Type) where
  lines : List (FoldedLine N)
  pids : List (N × PidTotal N)
  tids : List (N × TidTotal N)
  total : N

def PidTotal.add (v : N) (e : PidTotal N) : PidTotal N := { e with total := e.total+v }

@[simp] theorem PidTotal.total_add (v : N) (e : PidTotal N) : (e.add v).total = e.total+v := rfl

def TidTotal.add (v : N) (e : TidTotal N) : TidTotal N := { e with total := e.total+v }

@[simp] theorem TidTotal.total_add (v : N) (e : TidTotal N) : (e.add v).total = e.total+v := rfl

section Tables

variable [DecidableEq N]

/-- The entry of a key is changed in its place, or a new one comes last. -/
def bump {T : Type} (m : List (N × T)) (k : N) (fresh : T) (change : T → T) : List (N × T) :=
  if m.any (fun e => e.1 = k) then m.map fun e => if e.1 = k then (k,change e.2) else e
  else m++[(k,change fresh)]

def addLine (out : Parsed N) (line : FoldedLine N) : Parsed N where
  lines := out.lines++[line]
  total := out.total+line.value
  pids :=
    match line.p with
    | none => out.pids
    | some p => bump out.pids p.num ⟨p.comm,ofInt 0⟩ (.add line.value)
  tids :=
    match line.t with
    | none => out.tids
    | some t => bump out.tids t.num ⟨t.comm,line.p.map PT.num,ofInt 0⟩ (.add line.value)

def parseFolded (text : List Char) : Parsed N :=
  ((text.splitOn '\n').filterMap parseLine).foldl addLine ⟨[],[],[],ofInt 0⟩

/-! ## Totals -/

/-- The sum in the order of the text. -/
def sumOf (vs : List N) : N := vs.foldl (· + ·) (ofInt 0)

/-- The sum of the values under a key; a key without values has none. -/
def totalOf {α K : Type} [DecidableEq K] (key : α → Option K) (value : α → N) (xs : List α)
    (k : K) : Option N :=
  match (xs.filter fun x => key x = some k).map value with
  | [] => none
  | v::vs => some (sumOf (v::vs))

omit [FoldedNumber N] in
theorem lookup_bump {T : Type} (m : List (N × T)) (k j : N) (fresh : T) (change : T → T) :
    (bump m k fresh change).lookup j =
      if j = k then some (change ((m.lookup k).getD fresh)) else m.lookup j := by
  have hmap : ∀ l : List (N × T), (l.map fun e => if e.1 = k then (k,change e.2) else e).lookup j =
      if j = k then (l.lookup k).map change else l.lookup j := by
    intro l
    induction l with
    | nil => simp
    | cons e l ih =>
      by_cases hek : e.1 = k <;> by_cases hj : j = k <;> grind
  have hany : (m.any fun e => e.1 = k) = true ↔ (m.lookup k).isSome = true := by
    induction m with
    | nil => simp
    | cons e m ih => grind
  rw [bump]
  split
  · next h =>
    rw [hmap]
    obtain ⟨v,hv⟩ := Option.isSome_iff_exists.mp (hany.mp h)
    rw [hv,Option.map_some,Option.getD_some]
  · next h =>
    have hnone : m.lookup k = none := by
      cases hl : m.lookup k with
      | none => rfl
      | some v => exact absurd (hany.mpr (by rw [hl]; rfl)) h
    rw [List.lookup_append,hnone,Option.getD_none]
    split
    · next hj =>
      subst hj
      rw [hnone,List.lookup_cons_self]
      rfl
    · next hj =>
      have hbeq : (j == k) = false := beq_eq_false_iff_ne.mpr hj
      rw [List.lookup_cons,hbeq,List.lookup_nil]
      exact Option.or_none

/-- What one more value does to the total of a key. -/
theorem total_bump {T : Type} {total : T → N} {add : N → T → T}
    (hadd : ∀ v e, total (add v e) = total e+v) (m : List (N × T)) (k j v : N) {fresh : T}
    (hfresh : total fresh = ofInt 0) :
    ((bump m k fresh (add v)).lookup j).map total =
      if j = k then some (((m.lookup j).map total).getD (ofInt 0)+v)
      else (m.lookup j).map total := by
  rw [lookup_bump]
  split
  · next hj =>
    subst hj
    rw [Option.map_some,hadd]
    cases m.lookup j with
    | none => rw [Option.getD_none,hfresh]; rfl
    | some e => rfl
  · rfl

theorem totalOf_concat {α : Type} (key : α → Option N) (value : α → N) (xs : List α) (x : α)
    (j : N) : totalOf key value (xs++[x]) j =
      if key x = some j then some ((totalOf key value xs j).getD (ofInt 0)+value x)
      else totalOf key value xs j := by
  rw [totalOf,totalOf,List.filter_append,List.map_append]
  by_cases hx : key x = some j
  · rw [if_pos hx]
    cases hvs : (xs.filter fun x => key x = some j).map value with
    | nil => simp [hx,sumOf]
    | cons v vs => simp [hx,sumOf]
  · rw [if_neg hx]
    simp [hx]

def FoldedLine.pid (line : FoldedLine N) : Option N := line.p.map PT.num

def FoldedLine.tid (line : FoldedLine N) : Option N := line.t.map PT.num

/-- What the parser has of the lines that it has kept. -/
structure Sums (ls : List (FoldedLine N)) (out : Parsed N) : Prop where
  lines : out.lines = ls
  total : out.total = sumOf (ls.map FoldedLine.value)
  pids : ∀ k, (out.pids.lookup k).map PidTotal.total =
    totalOf FoldedLine.pid FoldedLine.value ls k
  tids : ∀ k, (out.tids.lookup k).map TidTotal.total =
    totalOf FoldedLine.tid FoldedLine.value ls k

theorem Sums.addLine {ls : List (FoldedLine N)} {out : Parsed N} (h : Sums ls out)
    (line : FoldedLine N) : Sums (ls++[line]) (addLine out line) where
  lines := by rw [FoldedText.addLine,h.lines]
  total := by
    rw [FoldedText.addLine,h.total,sumOf,sumOf,List.map_append,List.foldl_append]
    rfl
  pids := by
    intro k
    rw [totalOf_concat,← h.pids,FoldedText.addLine,FoldedLine.pid]
    cases hp : line.p with
    | none => simp
    | some p =>
      rw [total_bump PidTotal.total_add out.pids p.num k line.value rfl]
      simp [eq_comm]
  tids := by
    intro k
    rw [totalOf_concat,← h.tids,FoldedText.addLine,FoldedLine.tid]
    cases ht : line.t with
    | none => simp
    | some t =>
      rw [total_bump TidTotal.total_add out.tids t.num k line.value rfl]
      simp [eq_comm]

theorem sums_run (ls : List (FoldedLine N)) : Sums ls (ls.foldl addLine ⟨[],[],[],ofInt 0⟩) := by
  induction ls using List.reverseRecOn with
  | nil => exact ⟨rfl,rfl,fun _ => rfl,fun _ => rfl⟩
  | append_singleton ls line ih =>
    rw [List.foldl_append]
    exact ih.addLine line

end Tables

/-! ## Lines -/

/-- What follows the last newline. -/
def lastPiece (line : List Char) : List Char := line.rtakeWhile (· ≠ '\n')

theorem ne_of_mem_reverse {c : Char} {back : List Char} (h : c ∉ back) :
    ∀ x ∈ back.reverse, decide (x ≠ c) = true :=
  fun _ hx => decide_eq_true fun heq => h (heq ▸ List.mem_reverse.mp hx)

theorem rtakeWhile_last {c : Char} (front : List Char) {back : List Char} (h : c ∉ back) :
    (front++c::back).rtakeWhile (· ≠ c) = back := by
  rw [List.rtakeWhile,List.reverse_append,List.reverse_cons,List.append_assoc,
    List.takeWhile_append_of_pos (ne_of_mem_reverse h)]
  simp

theorem rdropWhile_last {c : Char} (front : List Char) {back : List Char} (h : c ∉ back) :
    (front++c::back).rdropWhile (· ≠ c) = front++[c] := by
  rw [List.rdropWhile,List.reverse_append,List.reverse_cons,List.append_assoc,
    List.dropWhile_append_of_pos (ne_of_mem_reverse h)]
  simp

theorem lastPiece_of_notMem {line : List Char} (h : '\n' ∉ line) : lastPiece line = line :=
  List.rtakeWhile_eq_self_iff.mpr fun _ hx => decide_eq_true fun heq => h (heq ▸ hx)

/-- The pieces of a line with a text behind it that holds no newline. -/
theorem splitOn_line (line : List Char) {rest : List Char} (hrest : '\n' ∉ rest) :
    ∃ pieces, (line++rest).splitOn '\n' = pieces++[lastPiece line++rest] ∧
      ∀ piece ∈ pieces, ∀ x ∈ piece, x ∈ line := by
  by_cases hline : '\n' ∈ line
  · obtain ⟨back,front,hrev,hback⟩ := List.eq_append_cons_of_mem (List.mem_reverse.mpr hline)
    have hback : '\n' ∉ back.reverse := fun h => hback (List.mem_reverse.mp h)
    obtain rfl : line = front.reverse++ '\n'::back.reverse := by
      rw [← List.reverse_reverse line,hrev]
      simp
    refine ⟨front.reverse.splitOn '\n',?_,fun piece hp x hx =>
      List.mem_append_left _ (TextPieces.mem_of_mem_splitOn hp hx).1⟩
    have hlast : '\n' ∉ back.reverse++rest := fun h => (List.mem_append.mp h).elim hback hrest
    rw [lastPiece,rtakeWhile_last _ hback,List.append_assoc,List.cons_append,
      List.splitOn_append_cons_self,List.splitOn_eq_singleton hlast]
  · refine ⟨[],?_,by simp⟩
    rw [lastPiece_of_notMem hline,List.nil_append,List.splitOn_eq_singleton]
    exact fun h => (List.mem_append.mp h).elim hline hrest

/-- An entry of the profile and its line. -/
structure Entry where
  line : List Char
  pid : Option UInt32
  tid : UInt32
  value : UInt64

/-- The counts that a double can hold. -/
def Entry.Valued (e : Entry) : Prop := 1 ≤ e.value.toNat ∧ e.value.toNat < 2^53

/-- The line of an entry in the text. -/
def Entry.text (e : Entry) : List Char :=
  e.line++(' '::(toString e.value.toNat).toList)++['\n']

def idOf (n : UInt32) : N := ofInt n.toNat

theorem not_mem_toDigits {c : Char} (hc : c.isDigit = false) (n : ℕ) :
    c ∉ Nat.toDigits 10 n := by
  intro h
  rw [Nat.isDigit_of_mem_toDigits (by decide) (by decide) h] at hc
  cases hc

theorem not_mem_decimal {c : Char} (hc : c.isDigit = false) (n : ℕ) :
    c ∉ (toString n).toList := by
  have hdigits : (toString n).toList = Nat.toDigits 10 n := Nat.toList_repr
  rw [hdigits]
  exact not_mem_toDigits hc n

/-- What the parser makes of the piece with the value. -/
theorem parseLine_valued (piece : List Char) {n : ℕ} (h1 : 1 ≤ n) (h2 : n < 2^53) :
    (parseLine (piece++ ' '::(toString n).toList) : Option (FoldedLine N)) =
      if framesOf piece = [] then none
      else some ⟨framesOf piece,ofInt n,pOf (framesOf piece),tOf (framesOf piece)⟩ := by
  have hdigits : ' ' ∉ (toString n).toList := not_mem_decimal (by decide) n
  have hframes : ((piece++ ' '::(toString n).toList).rdropWhile (· ≠ ' ')).dropLast = piece := by
    rw [rdropWhile_last _ hdigits,List.dropLast_concat]
  have hfinite : finite (ofInt n : N) = true := finite_ofInt _ (by omega) (by omega)
  simp only [parseLine,rtakeWhile_last _ hdigits,hframes,FoldedNumber.scan_decimal n h2,hfinite,
    FoldedNumber.ge_zero_ofInt n h1 h2]
  simp

/-- The line of an entry as the parser keeps it, when it keeps one. -/
def Entry.read (e : Entry) : Option (FoldedLine N) :=
  if framesOf (lastPiece e.line) = [] then none
  else some ⟨framesOf (lastPiece e.line),ofInt e.value.toNat,pOf (framesOf (lastPiece e.line)),
    tOf (framesOf (lastPiece e.line))⟩

theorem parse_text (es : List Entry) (hvalued : ∀ e ∈ es, e.Valued)
    (hblank : ∀ e ∈ es, ' ' ∉ e.line) :
    ((es.flatMap Entry.text).splitOn '\n').filterMap parseLine =
      (es.filterMap Entry.read : List (FoldedLine N)) := by
  induction es with
  | nil => rfl
  | cons e es ih =>
    have hdigits : '\n' ∉ ' '::(toString e.value.toNat).toList := fun h =>
      (List.mem_cons.mp h).elim (by decide) (not_mem_decimal (by decide) _)
    obtain ⟨pieces,hsplit,hpieces⟩ := splitOn_line e.line hdigits
    -- what stands before a newline of a name holds no blank, so it counts as no line
    have hskip : pieces.filterMap (parseLine : List Char → Option (FoldedLine N)) = [] := by
      rw [List.filterMap_eq_nil_iff]
      intro piece hpiece
      exact if_pos fun hmem => hblank e List.mem_cons_self (hpieces piece hpiece _ hmem)
    have hvalue := hvalued e List.mem_cons_self
    rw [List.flatMap_cons,Entry.text,List.append_assoc,List.singleton_append,
      List.splitOn_append_cons_self,hsplit,List.filterMap_append,List.filterMap_append,hskip,
      ih (fun d hd => hvalued d (List.mem_cons_of_mem e hd))
        (fun d hd => hblank d (List.mem_cons_of_mem e hd)),List.filterMap_cons,List.filterMap_cons,
      parseLine_valued _ hvalue.1 hvalue.2,Entry.read]
    split <;> simp_all

/-! ## The round trip -/

/-- A frame reads as a letter, a colon and a number, up to the first slash. -/
def Names (N : Type) [FoldedNumber N] (c : Char) (n : UInt32) (frame : List Char) : Prop :=
  [c,':'].isPrefixOf frame = true ∧
    (FoldedNumber.scan ((frame.takeWhile (· ≠ '/')).drop 2) : N) = idOf n

/-- The first frames of a line name its process and its thread. -/
inductive Heads (N : Type) [FoldedNumber N] (tid : UInt32) :
    Option UInt32 → List (List Char) → Prop
  | known {pid : UInt32} {first second : List Char} {rest : List (List Char)}
    (hp : Names N 'p' pid first) (ht : Names N 't' tid second) :
    Heads N tid (some pid) (first::second::rest)
  | unknown {first : List Char} {rest : List (List Char)} (ht : Names N 't' tid first)
    (hother : ∀ second ∈ rest.head?, ['t',':'].isPrefixOf second = false) :
    Heads N tid none (first::rest)
  | second {first second : List Char} {rest : List (List Char)}
    (hp : ['p',':'].isPrefixOf first = false) (ht : Names N 't' tid second) :
    Heads N tid none (first::second::rest)

/-- What the viewer finds behind the last newline in the line of an entry still names its process
and its thread. -/
def Legible (N : Type) [FoldedNumber N] (e : Entry) : Prop :=
  Heads N e.tid e.pid (framesOf (lastPiece e.line))

def Entry.number (e : Entry) : N := ofInt e.value.toNat

theorem not_p_of_t {frame : List Char} (h : ['t',':'].isPrefixOf frame = true) :
    ['p',':'].isPrefixOf frame = false := by
  cases frame with
  | nil => rfl
  | cons c frame => grind [List.isPrefixOf]

/-- What the parser reads of an entry, in terms of its frames. -/
def Entry.fields (e : Entry) : Option (Option N × Option N × N) :=
  (e.read : Option (FoldedLine N)).map fun l => (l.pid,l.tid,l.value)

/-- The frames name what the parser reads in them. -/
theorem heads_iff (tid : UInt32) (pid : Option UInt32) (frames : List (List Char)) :
    Heads N tid pid frames ↔ (pOf frames).map PT.num = pid.map (idOf : UInt32 → N) ∧
      (tOf frames).map PT.num = some (idOf tid : N) := by
  constructor
  · intro h
    cases h with
    | known hp ht =>
      rw [pOf,if_pos hp.1,tOf,if_pos ht.1]
      exact ⟨congrArg some hp.2,congrArg some ht.2⟩
    | second hp ht =>
      rw [pOf,hp,tOf,if_pos ht.1]
      exact ⟨rfl,congrArg some ht.2⟩
    | @unknown first rest ht hother =>
      have htid : tOf (first::rest) = some (parsePT first : PT N) := by
        cases rest with
        | nil => exact if_pos ht.1
        | cons second rest =>
          rw [tOf,hother second rfl,if_pos ht.1]
          rfl
      rw [pOf,not_p_of_t ht.1,htid]
      exact ⟨rfl,congrArg some ht.2⟩
  · rintro ⟨hpid,htid⟩
    match frames with
    | [] => cases htid
    | [first] =>
      cases ht : ['t',':'].isPrefixOf first with
      | false => simp only [tOf,ht,Bool.false_eq_true,if_false,Option.map_none,reduceCtorEq] at htid
      | true =>
        rw [pOf,not_p_of_t ht] at hpid
        rw [tOf,if_pos ht] at htid
        cases pid with
        | none => exact .unknown ⟨ht,Option.some.inj htid⟩ nofun
        | some n => cases hpid
    | first::second::rest =>
      cases hp : ['p',':'].isPrefixOf first with
      | true =>
        -- a frame with a process is none with a thread, so the second frame has it
        have hfirst : ['t',':'].isPrefixOf first = false := by
          cases ht : ['t',':'].isPrefixOf first with
          | false => rfl
          | true => rw [not_p_of_t ht] at hp; cases hp
        rw [pOf,if_pos hp] at hpid
        rw [tOf,hfirst] at htid
        cases pid with
        | none => cases hpid
        | some n =>
          cases ht : ['t',':'].isPrefixOf second with
          | false => rw [ht] at htid; cases htid
          | true =>
            rw [if_pos ht] at htid
            exact .known ⟨hp,Option.some.inj hpid⟩ ⟨ht,Option.some.inj htid⟩
      | false =>
        rw [pOf,hp] at hpid
        cases pid with
        | some n => cases hpid
        | none =>
          cases ht : ['t',':'].isPrefixOf second with
          | true =>
            rw [tOf,if_pos ht] at htid
            exact .second hp ⟨ht,Option.some.inj htid⟩
          | false =>
            cases hfirst : ['t',':'].isPrefixOf first with
            | false =>
              rw [tOf,ht,hfirst] at htid
              cases htid
            | true =>
              rw [tOf,ht,if_pos hfirst] at htid
              refine .unknown ⟨hfirst,Option.some.inj htid⟩ fun other hother => ?_
              rw [← Option.some.inj hother]
              exact ht

theorem legible_iff (e : Entry) : Legible N e ↔
    e.fields = some (e.pid.map idOf,some (idOf e.tid : N),e.number) := by
  rw [Legible,heads_iff,Entry.fields,Entry.read]
  cases framesOf (lastPiece e.line) with
  | nil => exact iff_of_false nofun nofun
  | cons first rest =>
    rw [if_neg (List.cons_ne_nil first rest),Option.map_some,Option.some_inj,Prod.mk.injEq,
      Prod.mk.injEq]
    exact ⟨fun h => ⟨h.1,h.2,rfl⟩,fun h => ⟨h.1,h.2.1⟩⟩

section

variable {α β K : Type} [DecidableEq K] {key : α → Option K} {value : α → N} {xs : List α}

theorem totalOf_eq_of_pairs {key' : β → Option K} {value' : β → N} {ys : List β}
    (h : xs.map (fun x => (key x,value x)) = ys.map fun y => (key' y,value' y)) (k : K) :
    totalOf key value xs k = totalOf key' value' ys k := by
  have hvalues : ∀ {γ : Type} (f : γ → Option K) (g : γ → N) (zs : List γ),
      (zs.filter fun z => f z = some k).map g =
        ((zs.map fun z => (f z,g z)).filter fun z => z.1 = some k).map Prod.snd := by
    intro γ f g zs
    rw [List.filter_map,List.map_map]
    rfl
  rw [totalOf,totalOf,hvalues,hvalues key',h]

theorem totalOf_map {J : Type} [DecidableEq J] {f : K → J} (hf : Function.Injective f) (k : K) :
    totalOf (fun x => (key x).map f) value xs (f k) = totalOf key value xs k := by
  have hkey : ∀ x, (key x).map f = some (f k) ↔ key x = some k := fun x => by
    cases key x with
    | none => simp
    | some j => simp [hf.eq_iff]
  simp only [totalOf,hkey]

theorem exists_of_totalOf {k : K} (h : (totalOf key value xs k).isSome) :
    ∃ x ∈ xs, key x = some k := by
  cases hfilter : xs.filter fun x => key x = some k with
  | nil => simp [totalOf,hfilter] at h
  | cons x rest =>
    have hmem : x ∈ xs.filter fun x => key x = some k := by simp [hfilter]
    exact ⟨x,List.mem_of_mem_filter hmem,by simpa using (List.mem_filter.mp hmem).2⟩

end

theorem idOf_injective : Function.Injective (idOf : UInt32 → N) := by
  intro a b h
  have hlt : ∀ n : UInt32, n.toNat < 2^53 := fun n => n.toNat_lt.trans (by decide)
  exact UInt32.toNat_inj.mp (FoldedNumber.ofInt_inj _ _ (hlt a) (hlt b) h)

/-- The sum is exact while a double can hold it. -/
theorem sumOf_ofInt (ns : List ℕ) (h : ns.sum < 2^53) :
    sumOf (ns.map fun n : ℕ => (ofInt n : N)) = ofInt ns.sum := by
  induction ns using List.reverseRecOn with
  | nil => rfl
  | append_singleton ns n ih =>
    rw [List.sum_append,List.sum_singleton] at h ⊢
    rw [← FoldedNumber.add_ofInt _ _ h,← ih (by omega),sumOf,List.map_append,List.foldl_append]
    rfl

variable [DecidableEq N]

/-- A table holds the totals of the ids that the entries have, and nothing else. -/
structure HoldsTotals {T : Type} (total : T → N) (key : Entry → Option UInt32) (es : List Entry)
    (m : List (N × T)) : Prop where
  totals : ∀ n : UInt32, (m.lookup (idOf n)).map total = totalOf key Entry.number es n
  ids : ∀ k, (m.lookup k).isSome → ∃ n : UInt32, k = idOf n

/-- One line for each entry with its process, its thread and its value, and their totals. -/
structure RoundTrips (es : List Entry) (out : Parsed N) : Prop where
  lines : out.lines.map (fun l => (l.pid,l.tid,l.value)) =
    es.map fun e => (e.pid.map idOf,some (idOf e.tid),e.number)
  pids : HoldsTotals PidTotal.total Entry.pid es out.pids
  tids : HoldsTotals TidTotal.total (fun e => some e.tid) es out.tids
  total : out.total = sumOf (es.map Entry.number)

/-- The totals of the lines are those of the entries that they show. -/
theorem holdsTotals_of_pairs {T : Type} {total : T → N} {field : FoldedLine N → Option N}
    {key : Entry → Option UInt32} {es : List Entry} {ls : List (FoldedLine N)} {m : List (N × T)}
    (hpairs : ls.map (fun l => (field l,l.value)) = es.map fun e => ((key e).map idOf,e.number))
    (hm : ∀ k, (m.lookup k).map total = totalOf field FoldedLine.value ls k) :
    HoldsTotals total key es m where
  totals n := (hm (idOf n)).trans ((totalOf_eq_of_pairs hpairs _).trans
    (totalOf_map idOf_injective n))
  ids := by
    intro k hk
    have htotal : (totalOf field FoldedLine.value ls k).isSome := by
      rw [← hm,Option.isSome_map]
      exact hk
    rw [totalOf_eq_of_pairs hpairs] at htotal
    obtain ⟨e,-,he⟩ := exists_of_totalOf htotal
    obtain ⟨n,-,rfl⟩ := Option.map_eq_some_iff.mp he
    exact ⟨n,rfl⟩

/-- The text gives the entries back exactly when every line is legible. -/
theorem roundTrips_iff (es : List Entry) (hvalued : ∀ e ∈ es, e.Valued)
    (hblank : ∀ e ∈ es, ' ' ∉ e.line) :
    RoundTrips es (parseFolded (es.flatMap Entry.text) : Parsed N) ↔ ∀ e ∈ es, Legible N e := by
  rw [parseFolded,parse_text es hvalued hblank]
  obtain ⟨hlines,htotal,hpids,htids⟩ := sums_run (es.filterMap Entry.read : List (FoldedLine N))
  generalize (es.filterMap Entry.read).foldl addLine ⟨[],[],[],(ofInt 0 : N)⟩ = out at *
  have hiff : out.lines.map (fun l => (l.pid,l.tid,l.value)) =
        es.map (fun e => (e.pid.map idOf,some (idOf e.tid),e.number)) ↔
      ∀ e ∈ es, Legible N e := by
    rw [hlines,List.map_filterMap,List.filterMap_eq_map_iff_forall_eq_some]
    exact forall₂_congr fun e _ => (legible_iff e).symm
  refine ⟨fun h => hiff.mp h.lines,fun h => ?_⟩
  have hfields := hiff.mpr h
  have hpairs := hfields
  rw [hlines] at hpairs
  have hpid := congrArg (List.map fun x => (x.1,x.2.2)) hpairs
  have htid := congrArg (List.map fun x => (x.2.1,x.2.2)) hpairs
  have hvalue := congrArg (List.map fun x => x.2.2) hpairs
  rw [List.map_map,List.map_map] at hpid htid hvalue
  refine ⟨hfields,holdsTotals_of_pairs hpid hpids,holdsTotals_of_pairs htid htids,?_⟩
  rw [htotal]
  exact congrArg sumOf hvalue

end FoldedText
end ETraceDiag
