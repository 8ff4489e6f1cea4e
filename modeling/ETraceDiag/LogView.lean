import ETraceDiag.LoggerSink
import Mathlib.Data.List.Induction
import Mathlib.Data.List.TakeWhile

/-!
# The log lines in the viewer

`loadSession` of `js/main.js` takes the rows of the logs table apart with a regular expression
and adds a row that does not match to the entry before it. The rows are the lines of the logger.
-/

namespace ETraceDiag
namespace LogView

open LoggerSink

/-! ## loadSession -/

/-- What the dot of a regular expression does not match. -/
def terminator (c : Char) : Bool :=
  c = '\n' || c = '\r' || c = '\u2028' || c = '\u2029'

/-- `\w`. -/
def wordChar (c : Char) : Bool := c.isAlphanum || c = '_'

structure Header where
  time : List Char
  level : List Char
  msg : List Char
  deriving DecidableEq,Repr

/-- `\] \[(\w+)\] (.*)$` at the start of `r`. -/
def matchTail (r : List Char) : Option (List Char × List Char) :=
  let level := (r.drop 3).takeWhile wordChar
  let rest := (r.drop 3).dropWhile wordChar
  if "] [".toList <+: r ∧ level ≠ [] ∧ "] ".toList <+: rest ∧ (rest.drop 2).all (!terminator ·) then
    some (level,rest.drop 2)
  else none

/-- `(.*?)\] \[(\w+)\] (.*)$`: the time is as short as it can be. -/
def matchTime : List Char → Option Header
  | [] => none
  | c::r =>
    match matchTail (c::r) with
    | some t => some ⟨[],t.1,t.2⟩
    | none =>
      if terminator c then none
      else (matchTime r).map fun h => { h with time := c::h.time }

def matchLine : List Char → Option Header
  | '['::r => matchTime r
  | _ => none

structure Entry where
  seq : ℕ
  line : List Char
  time : Option (List Char)
  level : List Char
  msg : List Char
  deriving DecidableEq,Repr

/-- One row of the table. -/
def addRow (logs : List Entry) (r : ℕ × List Char) : List Entry :=
  match matchLine r.2 with
  | some h => logs++[⟨r.1,r.2,some h.time,h.level,h.msg⟩]
  | none =>
    match logs.getLast? with
    | some last =>
      logs.dropLast++[{ last with msg := last.msg++ '\n'::r.2, line := last.line++ '\n'::r.2 }]
    | none => [⟨r.1,r.2,none,"INFO".toList,r.2⟩]

def loadLogs (rows : List (ℕ × List Char)) : List Entry := rows.foldl addRow []

/-- The rows of a table with these lines, in the order of `seq`. -/
def rowsOf (lines : List String) : List (ℕ × List Char) :=
  lines.zipIdx.map fun e => (e.2+1,e.1.toList)

/-! ## The regular expression -/

/-- No part of the text ends a line. -/
def Single (cs : List Char) : Prop := ∀ c ∈ cs, terminator c = false

instance (cs : List Char) : Decidable (Single cs) := inferInstanceAs (Decidable (∀ _ ∈ _, _))

theorem terminator_of_wordChar {c : Char} (h : wordChar c = true) : terminator c = false := by
  by_contra hc
  simp only [terminator,Bool.not_eq_false,Bool.or_eq_true,decide_eq_true_eq] at hc
  rcases hc with ((rfl | rfl) | rfl) | rfl <;> revert h <;> decide

theorem single_append {cs ds : List Char} (hc : Single cs) (hd : Single ds) :
    Single (cs++ds) := fun c hmem => (List.mem_append.mp hmem).elim (hc c) (hd c)

theorem single_takeWhile (cs : List Char) : Single (cs.takeWhile wordChar) :=
  fun _ hc => terminator_of_wordChar (List.mem_takeWhile_imp hc)

theorem single_iff_all (cs : List Char) : cs.all (!terminator ·) = true ↔ Single cs := by
  simp [Single]

/-- What matches is one line. -/
theorem single_of_matchTail {r : List Char} (h : (matchTail r).isSome) : Single r := by
  unfold matchTail at h
  dsimp only at h
  split_ifs at h with hr
  · obtain ⟨⟨rest,hstart⟩,_,⟨more,hmid⟩,hmsg⟩ := hr
    have hdrop : r.drop 3 = rest := by
      rw [← hstart]
      rfl
    rw [hdrop] at hmid hmsg
    rw [← hmid,single_iff_all] at hmsg
    have hrest : r = "] [".toList++(rest.takeWhile wordChar++("] ".toList++more)) := by
      rw [hmid,List.takeWhile_append_dropWhile,hstart]
    rw [hrest]
    exact single_append ((single_iff_all _).mp rfl) (single_append (single_takeWhile rest)
      (single_append ((single_iff_all _).mp rfl) hmsg))
  · cases h

theorem matchTime_eq_none {r : List Char} (h : ¬ Single r) : matchTime r = none := by
  induction r with
  | nil => rfl
  | cons c r ih =>
    have htail : matchTail (c::r) = none := by
      by_contra hne
      exact h (single_of_matchTail (Option.isSome_iff_ne_none.mpr hne))
    simp only [matchTime,htail]
    split
    · rfl
    · rename_i hc
      have hr : ¬ Single r := fun hr => h (List.forall_mem_cons.mpr ⟨by simpa using hc,hr⟩)
      rw [ih hr,Option.map_none]

/-- A line as the logger writes it. -/
structure Logged where
  stamp : String
  lvl : LogLevel
  msg : String

def Logged.line (m : Logged) : String := "["++m.stamp++"] ["++m.lvl.name++"] "++m.msg

def Logged.header (m : Logged) : Header := ⟨m.stamp.toList,m.lvl.name.toList,m.msg.toList⟩

/-- A time stamp, which has no closing bracket. -/
def Stamp (cs : List Char) : Prop := ']' ∉ cs ∧ Single cs

theorem toList_line (m : Logged) : m.line.toList = '['::(m.stamp.toList++("] [".toList++
    (m.lvl.name.toList++("] ".toList++m.msg.toList)))) := by
  simp [Logged.line]

theorem name_word (lvl : LogLevel) : ∀ c ∈ lvl.name.toList, wordChar c = true := by
  cases lvl <;> exact List.all_eq_true.mp rfl

theorem matchTail_eq (lvl : LogLevel) {msg : List Char} (h : Single msg) :
    matchTail ("] [".toList++(lvl.name.toList++("] ".toList++msg))) =
      some (lvl.name.toList,msg) := by
  have hdrop : ("] [".toList++(lvl.name.toList++("] ".toList++msg))).drop 3 =
      lvl.name.toList++("] ".toList++msg) := rfl
  have htake : (lvl.name.toList++("] ".toList++msg)).takeWhile wordChar = lvl.name.toList := by
    rw [List.takeWhile_append_of_pos (name_word lvl)]
    have hstop : ("] ".toList++msg).takeWhile wordChar = [] := rfl
    rw [hstop,List.append_nil]
  have hrest : (lvl.name.toList++("] ".toList++msg)).dropWhile wordChar = "] ".toList++msg := by
    rw [List.dropWhile_append_of_pos (name_word lvl)]
    rfl
  have hname : lvl.name.toList ≠ [] := by cases lvl <;> decide
  have hall : (("] ".toList++msg).drop 2).all (!terminator ·) = true := (single_iff_all msg).mpr h
  rw [matchTail]
  simp only [hdrop,htake,hrest]
  rw [if_pos ⟨List.prefix_append _ _,hname,List.prefix_append _ _,hall⟩]
  rfl

theorem matchTail_of_ne {c : Char} (h : c ≠ ']') (r : List Char) : matchTail (c::r) = none := by
  have hno : ¬ "] [".toList <+: c::r := fun hpre => h (List.cons_prefix_cons.mp hpre).1.symm
  rw [matchTail]
  simp only [hno,false_and,if_false]

theorem matchTime_stamp {stamp tail : List Char} {t : List Char × List Char} (h : Stamp stamp)
    (htail : matchTail tail = some t) : matchTime (stamp++tail) = some ⟨stamp,t.1,t.2⟩ := by
  induction stamp with
  | nil =>
    cases tail with
    | nil => cases htail
    | cons c tail => simp only [List.nil_append,matchTime,htail]
  | cons c stamp ih =>
    obtain ⟨hc,hstamp⟩ := List.ne_and_not_mem_of_not_mem_cons h.1
    obtain ⟨hterm,hsingle⟩ := List.forall_mem_cons.mp h.2
    simp only [List.cons_append,matchTime,matchTail_of_ne (Ne.symm hc),hterm,
      Bool.false_eq_true,if_false,ih ⟨hstamp,hsingle⟩,Option.map_some]

/-- A line of the logger matches exactly when its message is one line, and gives its parts
back. -/
theorem matchLine_line {m : Logged} (h : Stamp m.stamp.toList) : matchLine m.line.toList =
    if Single m.msg.toList then some m.header else none := by
  rw [toList_line,matchLine]
  split
  · rename_i hmsg
    exact matchTime_stamp h (matchTail_eq m.lvl hmsg)
  · rename_i hmsg
    refine matchTime_eq_none fun hs => hmsg fun c hc => hs c ?_
    simp only [List.mem_append]
    exact .inr (.inr (.inr (.inr hc)))

/-! ## The entries -/

/-- Lines one below the other. -/
def text (ls : List (List Char)) : List Char := List.intercalate ['\n'] ls

theorem text_concat {ls : List (List Char)} (h : ls ≠ []) (l : List Char) :
    text (ls++[l]) = text ls++ '\n'::l := by
  induction ls with
  | nil => exact absurd rfl h
  | cons a ls ih =>
    cases ls with
    | nil => simp [text,List.intercalate]
    | cons b ls =>
      have hrest := ih (List.cons_ne_nil b ls)
      simp only [text,List.intercalate,List.cons_append,List.intersperse_cons_cons,
        List.flatten_cons] at hrest ⊢
      rw [hrest]
      simp

theorem text_concat_append {ls : List (List Char)} (l more : List Char) :
    text (ls++[l++more]) = text (ls++[l])++more := by
  cases ls with
  | nil => simp [text,List.intercalate]
  | cons a ls =>
    rw [text_concat (List.cons_ne_nil a ls),text_concat (List.cons_ne_nil a ls)]
    simp

theorem text_addRow (logs : List Entry) (r : ℕ × List Char) :
    text ((addRow logs r).map Entry.line) =
      if logs = [] then r.2 else text (logs.map Entry.line)++ '\n'::r.2 := by
  rcases List.eq_nil_or_concat logs with rfl | ⟨front,last,rfl⟩
  · cases hm : matchLine r.2 <;> simp [addRow,hm,text,List.intercalate]
  · rw [List.concat_eq_append,if_neg (by simp)]
    cases hm : matchLine r.2 with
    | some h =>
      simp only [addRow,hm,List.map_append,List.map_singleton]
      exact text_concat (by simp) r.2
    | none =>
      simp only [addRow,hm,List.getLast?_concat,List.dropLast_concat,List.map_append,
        List.map_singleton]
      exact text_concat_append last.line _

/-- No text is lost, and its order stays. -/
theorem text_loadLogs (rows : List (ℕ × List Char)) :
    text ((loadLogs rows).map Entry.line) = text (rows.map Prod.snd) ∧
      (loadLogs rows = [] ↔ rows = []) := by
  induction rows using List.reverseRecOn with
  | nil => exact ⟨rfl,iff_of_true rfl rfl⟩
  | append_singleton rows r ih =>
    obtain ⟨htext,hempty⟩ := ih
    have hstep : loadLogs (rows++[r]) = addRow (loadLogs rows) r := by
      rw [loadLogs,List.foldl_append]
      rfl
    have hne : addRow (loadLogs rows) r ≠ [] := by
      unfold addRow
      split
      · simp
      · split <;> simp
    rw [hstep]
    refine ⟨?_,iff_of_false hne (by simp)⟩
    rw [text_addRow,List.map_append]
    by_cases h : rows = []
    · rw [if_pos (hempty.mpr h),h]
      simp [text,List.intercalate]
    · rw [if_neg fun hl => h (hempty.mp hl),htext]
      exact (text_concat (by simpa using h) r.2).symm

/-- The headers of the entries that have a time. -/
def headers (logs : List Entry) : List (Option Header) :=
  logs.map fun e => e.time.map fun t => ⟨t,e.level,e.msg⟩

/-- The number of entries with a time. -/
def timed (logs : List Entry) : ℕ := (logs.filter fun e => e.time.isSome).length

theorem timed_addRow (logs : List Entry) (r : ℕ × List Char) :
    timed (addRow logs r) = timed logs+if (matchLine r.2).isSome then 1 else 0 := by
  cases hm : matchLine r.2 with
  | some h => simp [addRow,hm,timed]
  | none =>
    rcases List.eq_nil_or_concat logs with rfl | ⟨front,last,rfl⟩
    · simp [addRow,hm,timed]
    · rw [List.concat_eq_append]
      simp only [addRow,hm,List.getLast?_concat,List.dropLast_concat,timed,List.filter_append,
        List.length_append,Option.isSome_none,Bool.false_eq_true,if_false,Nat.add_zero]
      congr 1
      cases ht : last.time <;> simp [ht]

theorem timed_loadLogs (rows : List (ℕ × List Char)) :
    timed (loadLogs rows) = (rows.filter fun r => (matchLine r.2).isSome).length := by
  induction rows using List.reverseRecOn with
  | nil => rfl
  | append_singleton rows r ih =>
    have hstep : loadLogs (rows++[r]) = addRow (loadLogs rows) r := by
      rw [loadLogs,List.foldl_append]
      rfl
    rw [hstep,timed_addRow,ih,List.filter_append,List.length_append]
    congr 1
    cases hm : matchLine r.2 <;> simp [hm]

/-- Where every row matches, the entries are the rows. -/
theorem headers_loadLogs {rows : List (ℕ × List Char)}
    (h : ∀ r ∈ rows, (matchLine r.2).isSome) :
    headers (loadLogs rows) = rows.map fun r => matchLine r.2 := by
  induction rows using List.reverseRecOn with
  | nil => rfl
  | append_singleton rows r ih =>
    have hstep : loadLogs (rows++[r]) = addRow (loadLogs rows) r := by
      rw [loadLogs,List.foldl_append]
      rfl
    obtain ⟨hd,hm⟩ := Option.isSome_iff_exists.mp (h r (by simp))
    rw [hstep,List.map_append,← ih fun r' hr' => h r' (List.mem_append_left _ hr')]
    simp [addRow,hm,headers]

theorem rowsOf_snd (lines : List String) :
    (rowsOf lines).map Prod.snd = lines.map String.toList := by
  rw [rowsOf,List.map_map]
  have hfst : lines.zipIdx.map Prod.fst = lines := by simp
  conv_rhs => rw [← hfst]
  rw [List.map_map]
  rfl

/-- The viewer shows what was logged, one entry for each line with its time, its level and its
message, exactly when every message is one line. -/
theorem headers_eq_iff {ms : List Logged} (h : ∀ m ∈ ms, Stamp m.stamp.toList) :
    headers (loadLogs (rowsOf (ms.map Logged.line))) = ms.map (fun m => some m.header) ↔
      ∀ m ∈ ms, Single m.msg.toList := by
  have hrows : ((rowsOf (ms.map Logged.line)).map Prod.snd).map matchLine =
      ms.map fun m => if Single m.msg.toList then some m.header else none := by
    rw [rowsOf_snd,List.map_map,List.map_map]
    exact List.map_congr_left fun m hm => matchLine_line (h m hm)
  rw [List.map_map] at hrows
  constructor
  · intro heq
    have htimed : timed (loadLogs (rowsOf (ms.map Logged.line))) = ms.length := by
      have hall : ∀ e ∈ loadLogs (rowsOf (ms.map Logged.line)), e.time.isSome = true := by
        intro e he
        have hmem : (e.time.map fun t => (⟨t,e.level,e.msg⟩ : Header)) ∈
            ms.map fun m => some m.header := heq ▸ List.mem_map_of_mem he
        obtain ⟨m,_,hm⟩ := List.mem_map.mp hmem
        cases ht : e.time with
        | none => rw [ht] at hm; cases hm
        | some t => rfl
      rw [timed,List.filter_eq_self.mpr hall]
      simpa [headers] using congrArg List.length heq
    have hcount : ((ms.map fun m => if Single m.msg.toList then some m.header else none).filter
        Option.isSome).length = ms.length := by
      rw [← hrows,List.filter_map,List.length_map,← htimed,timed_loadLogs]
      rfl
    have hfull := (List.filter_sublist (p := Option.isSome)).eq_of_length
      (hcount.trans (List.length_map _).symm)
    intro m hm
    by_contra hno
    have hmem : (none : Option Header) ∈
        ms.map fun m => if Single m.msg.toList then some m.header else none :=
      List.mem_map.mpr ⟨m,hm,if_neg hno⟩
    rw [← hfull] at hmem
    simpa using (List.mem_filter.mp hmem).2
  · intro hsingle
    have hone : (rowsOf (ms.map Logged.line)).map (matchLine ∘ Prod.snd) =
        ms.map fun m => some m.header := by
      rw [hrows]
      exact List.map_congr_left fun m hm => if_pos (hsingle m hm)
    rw [headers_loadLogs]
    · exact hone
    · intro r hr
      have hmem : matchLine r.2 ∈ ms.map fun m => some m.header :=
        hone ▸ List.mem_map_of_mem (f:=matchLine ∘ Prod.snd) hr
      obtain ⟨m,_,hm⟩ := List.mem_map.mp hmem
      rw [← hm]
      rfl

/-! ## The rows of the logger -/

section Run

variable (env : Env)

/-- The rows are lines of the logger, under stamps of its clock. -/
def Written (s : State) : Prop :=
  ∃ ms : List Logged, s.logs = ms.map Logged.line ∧ ∀ m ∈ ms, ∃ n, m.stamp = env.stamp n

/-- The function keeps the rows what they are. -/
def KeepsLogs {α : Type} (state : α → State) (f : State → Option α) : Prop :=
  ∀ s a, f s = some a → Written env s → Written env (state a)

variable {env} {log : LogLevel → String → State → Option State}
  (hlog : ∀ lvl msg, KeepsLogs env id (log lvl msg))
include hlog

theorem keepsLogs_checked (lvl : LogLevel) (message : String → String) :
    KeepsLogs env Prod.snd (checked env log lvl message) := by
  intro s a h hs
  unfold checked at h
  split at h
  · cases h
    exact hs
  · obtain ⟨s',hs',rfl⟩ := Option.map_eq_some_iff.mp h
    exact hlog _ _ _ _ hs' hs

theorem keepsLogs_prep (idx : Stmt) : KeepsLogs env Prod.snd (prep env log idx) := by
  intro s a h hs
  unfold prep at h
  split_ifs at h
  · cases h
    exact hs
  · cases h
    exact hs
  · obtain ⟨r,hr,rfl⟩ := Option.map_eq_some_iff.mp h
    have hchecked := keepsLogs_checked hlog .error _ _ _ hr hs
    exact hchecked

theorem keepsLogs_step (idx : Stmt) (table : String) :
    KeepsLogs env Prod.snd (LoggerSink.step env log idx table) := by
  intro s a h hs
  obtain ⟨r,hr,h⟩ := Option.bind_eq_some_iff.mp h
  have hprep := keepsLogs_prep hlog idx _ _ hr hs
  split at h
  · exact keepsLogs_checked hlog .error _ _ _ h hprep
  · cases h
    exact hprep

theorem keepsLogs_writeLogLine (m : Logged) {n : ℕ} (hm : m.stamp = env.stamp n) :
    KeepsLogs env id (writeLogLine env log m.line) := by
  intro s s' h hs
  unfold writeLogLine at h
  split_ifs at h
  · cases h
    exact hs
  · obtain ⟨r,hr,h⟩ := Option.bind_eq_some_iff.mp h
    have hprep := keepsLogs_prep hlog _ _ _ hr hs
    split_ifs at h
    · obtain ⟨t,ht,rfl⟩ := Option.map_eq_some_iff.mp h
      have hstep := keepsLogs_step hlog _ _ _ _ ht hprep
      dsimp only [id_eq]
      split_ifs
      · obtain ⟨ms,hlogs,hstamps⟩ := hstep
        refine ⟨ms++[m],by simp [hlogs],fun m' hm' => ?_⟩
        rcases List.mem_append.mp hm' with hm' | hm'
        · exact hstamps m' hm'
        · exact ⟨n,List.mem_singleton.mp hm' ▸ hm⟩
      · exact hstep
    · cases h
      exact hprep

theorem keepsLogs_logWith (lvl : LogLevel) (msg : String) :
    KeepsLogs env id (logWith env log lvl msg) := by
  intro s s' h hs
  unfold logWith at h
  dsimp only at h
  split_ifs at h
  · cases h
    exact hs
  · obtain ⟨t,ht,rfl⟩ := Option.map_eq_some_iff.mp h
    have hwritten := keepsLogs_writeLogLine hlog ⟨env.stamp s.stderr.length,lvl,msg⟩ rfl _ _ ht hs
    exact hwritten
  · cases h
    exact hs

end Run

variable (env : Env)

theorem keepsLogs_log (lvl : LogLevel) (msg : String) : KeepsLogs env id (log env lvl msg) :=
  keepsLogs_logWith (keepsLogs_logWith fun _ _ _ _ h => by cases h) lvl msg

theorem keepsLogs_execute (op : Op) : KeepsLogs env id fun s => execute env s op := by
  intro s s' h hs
  have hlog := keepsLogs_log env
  cases op with
  | log lvl msg => exact hlog lvl msg s s' h hs
  | prep idx =>
    obtain ⟨r,hr,rfl⟩ := Option.map_eq_some_iff.mp h
    exact keepsLogs_prep hlog idx _ _ hr hs
  | step idx table =>
    obtain ⟨r,hr,rfl⟩ := Option.map_eq_some_iff.mp h
    exact keepsLogs_step hlog idx table _ _ hr hs
  | exec sql =>
    obtain ⟨r,hr,rfl⟩ := Option.map_eq_some_iff.mp h
    exact keepsLogs_checked hlog .error _ _ _ hr hs
  | metaRow =>
    obtain ⟨r,hr,rfl⟩ := Option.map_eq_some_iff.mp h
    exact keepsLogs_checked hlog .error _ _ _ hr hs
  | evidencePrep =>
    obtain ⟨r,hr,rfl⟩ := Option.map_eq_some_iff.mp h
    exact keepsLogs_checked hlog .warn _ _ _ hr hs
  | setLevel lvl => cases h; exact hs
  | setSink => cases h; exact hs
  | opened => cases h; exact hs
  | closed => cases h; exact hs

theorem written_run (ops : List Op) : ∀ {s s' : State}, Written env s →
    Transition.run (next env) (some s) ops = some s' → Written env s' := by
  induction ops with
  | nil => intro s s' hs h; exact Option.some.inj h ▸ hs
  | cons op ops ih =>
    intro s s' hs h
    rw [Transition.run_cons] at h
    cases hop : next env (some s) op with
    | none => rw [hop,run_none] at h; cases h
    | some t =>
      rw [hop] at h
      exact ih (keepsLogs_execute env op s t hop hs) h

/-- Whatever the collector does, what it has stored are lines that were logged; the viewer
shows all their text, and each as an entry of its own if and only if no message of them is
broken into lines. -/
theorem logs_shown (hstamp : ∀ n, Stamp (env.stamp n).toList) (ops : List Op) {s : State}
    (h : Transition.run (next env) (some {}) ops = some s) :
    ∃ ms : List Logged, s.logs = ms.map Logged.line ∧
      text ((loadLogs (rowsOf s.logs)).map Entry.line) = text (s.logs.map String.toList) ∧
      (headers (loadLogs (rowsOf s.logs)) = ms.map (fun m => some m.header) ↔
        ∀ m ∈ ms, Single m.msg.toList) := by
  obtain ⟨ms,hlogs,hstamps⟩ := written_run env ops ⟨[],rfl,nofun⟩ h
  refine ⟨ms,hlogs,?_,?_⟩
  · rw [(text_loadLogs (rowsOf s.logs)).1,rowsOf_snd]
  · rw [hlogs]
    refine headers_eq_iff fun m hm => ?_
    obtain ⟨n,hn⟩ := hstamps m hm
    exact hn ▸ hstamp n

/-- SQLite always succeeds. -/
def quietDisk : Env where
  sqlite _ := none
  stamp _ := "2026-01-01T00:00:00.000Z"

theorem quietDisk_stamp (n : ℕ) : Stamp (quietDisk.stamp n).toList := by
  change Stamp "2026-01-01T00:00:00.000Z".toList
  exact ⟨by simp,(single_iff_all _).mp rfl⟩

theorem logs_shown_quietDisk : ∃ ms : List Logged,
    ["[2026-01-01T00:00:00.000Z] [WARN] ws roundtrip: recv failed"] = ms.map Logged.line ∧
      (headers (loadLogs (rowsOf ["[2026-01-01T00:00:00.000Z] [WARN] ws roundtrip: recv failed"])) =
        ms.map (fun m => some m.header) ↔ ∀ m ∈ ms, Single m.msg.toList) := by
  obtain ⟨ms,hms,-,hiff⟩ := logs_shown quietDisk quietDisk_stamp
    [.opened,.setSink,.log .warn "ws roundtrip: recv failed"] rfl
  exact ⟨ms,hms,hiff⟩

end LogView
end ETraceDiag
