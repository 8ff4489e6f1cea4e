import ETraceDiag.TextScan

/-!
# The process table

`task_iter` prints three lines per task, `ReadProcessTable` reads them back from the chunks
that `read` returns. The decoder keeps the rows it has; an A line appends a row, the B and C
lines patch the last one or, when they do not scan, take it away.
-/

namespace ETraceDiag
namespace ProcessTable

open TextScan

/-- What the iterator program reads of one task. -/
structure Task where
  pid : UInt32
  tgid : UInt32
  comm : List UInt8
  state : UInt32
  startTime : UInt64
  utime : UInt64
  stime : UInt64
  nvcsw : UInt64
  nivcsw : UInt64
  minFlt : UInt64
  majFlt : UInt64
  totalVm : UInt64
  rchar : UInt64
  wchar : UInt64
  syscr : UInt64
  syscw : UInt64
  rdBytes : UInt64
  wrBytes : UInt64
  sumExec : UInt64
  runDelay : UInt64
  comm_length : comm.length ≤ 15
  comm_bytes : ∀ c ∈ comm, c ≠ 0 ∧ c ≠ 10

def u32 (n : UInt32) : Value := .num n.toNat

def u64 (n : UInt64) : Value := .num n.toNat

def lineA (t : Task) : List UInt8 :=
  printFields 65 [u32 t.pid,u32 t.tgid,.str t.comm,u32 t.state,u64 t.startTime,u64 t.utime,
    u64 t.stime,u64 t.nvcsw,u64 t.nivcsw,u64 t.minFlt,u64 t.majFlt]

def lineB (t : Task) : List UInt8 :=
  printFields 66 [u32 t.pid,u64 t.totalVm,u64 t.rchar,u64 t.wchar,u64 t.syscr,u64 t.syscw,
    u64 t.rdBytes,u64 t.wrBytes,u64 t.sumExec,u64 t.runDelay]

/-- The rss and swap counts stay at their initial zero. -/
def lineC (t : Task) : List UInt8 := printFields 67 [u32 t.pid,.num 0,.num 0,.num 0,.num 0]

/-- The text `task_iter` prints for a task. -/
def taskIter (t : Task) : List UInt8 := lineA t++10::(lineB t++10::(lineC t++[10]))

structure ProcessRow where
  pid : UInt32 := 0
  tgid : UInt32 := 0
  state : UInt8 := 0
  startTime : UInt64 := 0
  utime : UInt64 := 0
  stime : UInt64 := 0
  nvcsw : UInt64 := 0
  nivcsw : UInt64 := 0
  minflt : UInt64 := 0
  majflt : UInt64 := 0
  totalVm : UInt64 := 0
  rchar : UInt64 := 0
  wchar : UInt64 := 0
  syscr : UInt64 := 0
  syscw : UInt64 := 0
  readBytes : UInt64 := 0
  writeBytes : UInt64 := 0
  sumExecRuntimeNs : UInt64 := 0
  runDelayNs : UInt64 := 0
  rssAnonPages : UInt64 := 0
  rssFilePages : UInt64 := 0
  rssShmemPages : UInt64 := 0
  swapEnts : UInt64 := 0
  rssKb : UInt64 := 0
  rssValid : Bool := false
  ioacValid : Bool := false
  schedValid : Bool := false
  comm : List UInt8 := []
  deriving DecidableEq,Repr

def formatA : List Conv := [.u,.u,.s 15,.hhu,.llu,.llu,.llu,.llu,.llu,.llu,.llu]

def formatB : List Conv := [.u,.llu,.llu,.llu,.llu,.llu,.llu,.llu,.llu,.llu]

def formatC : List Conv := [.u,.llu,.llu,.llu,.llu]

/-- The row of an A line with all eleven conversions. -/
def scanA (line : List UInt8) : Option ProcessRow :=
  match sscanf 65 formatA line with
  | [.num pid,.num tgid,.str comm,.num state,.num startTime,.num utime,.num stime,.num nvcsw,
      .num nivcsw,.num minflt,.num majflt] =>
    some { pid := UInt32.ofNat pid, tgid := UInt32.ofNat tgid, comm := comm,
           state := UInt8.ofNat state, startTime := UInt64.ofNat startTime,
           utime := UInt64.ofNat utime, stime := UInt64.ofNat stime,
           nvcsw := UInt64.ofNat nvcsw, nivcsw := UInt64.ofNat nivcsw,
           minflt := UInt64.ofNat minflt, majflt := UInt64.ofNat majflt,
           ioacValid := true, schedValid := true }
  | _ => none

/-- The last row as a B line leaves it. -/
def scanB (line : List UInt8) (last : ProcessRow) : Option ProcessRow :=
  match sscanf 66 formatB line with
  | [.num pid,.num totalVm,.num rchar,.num wchar,.num syscr,.num syscw,.num readBytes,
      .num writeBytes,.num sumExec,.num runDelay] =>
    some { last with
           pid := UInt32.ofNat pid, totalVm := UInt64.ofNat totalVm,
           rchar := UInt64.ofNat rchar, wchar := UInt64.ofNat wchar,
           syscr := UInt64.ofNat syscr, syscw := UInt64.ofNat syscw,
           readBytes := UInt64.ofNat readBytes, writeBytes := UInt64.ofNat writeBytes,
           sumExecRuntimeNs := UInt64.ofNat sumExec, runDelayNs := UInt64.ofNat runDelay }
  | _ => none

/-- The last row as a C line leaves it. -/
def scanC (line : List UInt8) (last : ProcessRow) : Option ProcessRow :=
  match sscanf 67 formatC line with
  | [.num pid,.num anon,.num file,.num shmem,.num swap] =>
    let pages := UInt64.ofNat anon + UInt64.ofNat file + UInt64.ofNat shmem
    some { last with
           pid := UInt32.ofNat pid, rssAnonPages := UInt64.ofNat anon,
           rssFilePages := UInt64.ofNat file, rssShmemPages := UInt64.ofNat shmem,
           swapEnts := UInt64.ofNat swap, rssKb := pages*4, rssValid := 0 < pages }
  | _ => none

/-- Patch the last row, or take it away when the line does not scan. -/
def patchLast (scan : ProcessRow → Option ProcessRow) (out : List ProcessRow) :
    List ProcessRow :=
  match out.getLast? with
  | none => out
  | some last => out.dropLast++(scan last).toList

def readLine (line : List UInt8) (out : List ProcessRow) : List ProcessRow :=
  match line.headD 0 with
  | 65 => out++(scanA line).toList
  | 66 => patchLast (scanB line) out
  | 67 => patchLast (scanC line) out
  | _ => out

/-- The `read` loop: a chunk is appended as a C string, an empty one ends the loop. -/
def readLoop : List (List UInt8) → List UInt8 × List ProcessRow → List ProcessRow
  | [], st => st.2
  | chunk::chunks, st =>
    if chunk = [] then st.2
    else readLoop chunks (takeLines readLine (st.1++chunk.takeWhile (· ≠ 0)) st.2)

/-- `ReadProcessTable`: the result flag and the rows; `none` when the iterator program is
missing or cannot be attached or opened. -/
def readProcessTable : Option (List (List UInt8)) → Bool × List ProcessRow
  | none => (false,[])
  | some chunks =>
    let out := readLoop chunks ([],[])
    (!out.isEmpty,out)

/-- The row a task stands for. -/
def Task.row (t : Task) : ProcessRow where
  pid := t.pid
  tgid := t.tgid
  state := UInt8.ofNat t.state.toNat
  startTime := t.startTime
  utime := t.utime
  stime := t.stime
  nvcsw := t.nvcsw
  nivcsw := t.nivcsw
  minflt := t.minFlt
  majflt := t.majFlt
  totalVm := t.totalVm
  rchar := t.rchar
  wchar := t.wchar
  syscr := t.syscr
  syscw := t.syscw
  readBytes := t.rdBytes
  writeBytes := t.wrBytes
  sumExecRuntimeNs := t.sumExec
  runDelayNs := t.runDelay
  ioacValid := true
  schedValid := true
  comm := t.comm

/-- `r` carries the fields of `t`, its state included, which the row has only a byte for. -/
def RowOf (t : Task) (r : ProcessRow) : Prop := r = t.row ∧ r.state.toNat = t.state.toNat

/-- The task's fields survive the text: `%s` must find a token and `%hhu` a byte. -/
structure Task.Scannable (t : Task) : Prop where
  comm_ne_nil : t.comm ≠ []
  comm_no_space : ∀ c ∈ t.comm, isSpace c = false
  state_lt : t.state.toNat < 256

/-! ## One task -/

theorem lineA_fits {t : Task} (h : t.Scannable) :
    List.Forall₂ Conv.Fits formatA [u32 t.pid,u32 t.tgid,.str t.comm,u32 t.state,
      u64 t.startTime,u64 t.utime,u64 t.stime,u64 t.nvcsw,u64 t.nivcsw,u64 t.minFlt,
      u64 t.majFlt] := by
  have h32 : ∀ n : UInt32, n.toNat < 2^32 := fun n => n.toNat_lt
  have h64 : ∀ n : UInt64, n.toNat < 2^64 := fun n => n.toNat_lt
  simp only [formatA,List.forall₂_cons,List.forall₂_nil_left_iff,u32,u64,Conv.Fits,Conv.bits,
    h32,h64,h.comm_ne_nil,t.comm_length,ne_eq,not_false_eq_true,true_and,and_true]
  exact ⟨h.comm_no_space,h.state_lt⟩

theorem lineB_fits (t : Task) :
    List.Forall₂ Conv.Fits formatB [u32 t.pid,u64 t.totalVm,u64 t.rchar,u64 t.wchar,
      u64 t.syscr,u64 t.syscw,u64 t.rdBytes,u64 t.wrBytes,u64 t.sumExec,u64 t.runDelay] := by
  have h32 : ∀ n : UInt32, n.toNat < 2^32 := fun n => n.toNat_lt
  have h64 : ∀ n : UInt64, n.toNat < 2^64 := fun n => n.toNat_lt
  simp only [formatB,List.forall₂_cons,List.forall₂_nil_left_iff,u32,u64,Conv.Fits,Conv.bits,
    h32,h64,and_true]

theorem lineC_fits (t : Task) :
    List.Forall₂ Conv.Fits formatC [u32 t.pid,.num 0,.num 0,.num 0,.num 0] := by
  have h32 : t.pid.toNat < 2^32 := t.pid.toNat_lt
  simpa [formatC,u32,Conv.Fits,Conv.bits] using h32

@[simp] theorem lineA_headD (t : Task) : (lineA t).headD 0 = 65 := rfl

@[simp] theorem lineB_headD (t : Task) : (lineB t).headD 0 = 66 := rfl

@[simp] theorem lineC_headD (t : Task) : (lineC t).headD 0 = 67 := rfl

theorem patchLast_concat (scan : ProcessRow → Option ProcessRow) (out : List ProcessRow)
    (r : ProcessRow) : patchLast scan (out++[r]) = out++(scan r).toList := by
  simp [patchLast]

/-- The three lines of a scannable task append its row. -/
theorem readLine_task {t : Task} (h : t.Scannable) (out : List ProcessRow) :
    readLine (lineC t) (readLine (lineB t) (readLine (lineA t) out)) = out++[t.row] := by
  have hA := sscanf_printFields 65 (lineA_fits h)
  have hB := sscanf_printFields 66 (lineB_fits t)
  have hC := sscanf_printFields 67 (lineC_fits t)
  simp only [u32,u64] at hA hB hC
  have hrow : ∃ a, scanA (lineA t) = some a ∧
      ∃ b, scanB (lineB t) a = some b ∧ scanC (lineC t) b = some t.row := by
    simp only [scanA,scanB,scanC,lineA,lineB,lineC,hA,hB,hC,u32,u64,Option.some.injEq,
      exists_eq_left',UInt32.ofNat_toNat,UInt64.ofNat_toNat]
    rfl
  obtain ⟨a,ha,b,hb,hc⟩ := hrow
  simp only [readLine,lineA_headD,lineB_headD,lineC_headD,ha,hb,hc,Option.toList_some,
    patchLast_concat]

/-! ## Rows carry scanned fields -/

/-- Whatever the lines are, a row's name is a token. -/
def Tokens (out : List ProcessRow) : Prop :=
  ∀ r ∈ out, r.comm ≠ [] ∧ ∀ c ∈ r.comm, isSpace c = false

theorem scanA_comm {line : List UInt8} {r : ProcessRow} (h : scanA line = some r) :
    r.comm ≠ [] ∧ ∀ c ∈ r.comm, isSpace c = false := by
  unfold scanA at h
  split at h
  case h_1 pid tgid comm state _ _ _ _ _ _ _ heq =>
    have hfit := sscanf_fits heq (.s 15,.str comm) (by simp [formatA])
    simp only [Option.some.injEq] at h
    subst h
    exact ⟨hfit.1,hfit.2.2⟩
  case h_2 => cases h

theorem scanB_comm {line : List UInt8} {last r : ProcessRow} (h : scanB line last = some r) :
    r.comm = last.comm := by
  unfold scanB at h
  split at h
  · simp only [Option.some.injEq] at h
    rw [← h]
  · cases h

theorem scanC_comm {line : List UInt8} {last r : ProcessRow} (h : scanC line last = some r) :
    r.comm = last.comm := by
  unfold scanC at h
  split at h
  · simp only [Option.some.injEq] at h
    rw [← h]
  · cases h

theorem patchLast_tokens {scan : ProcessRow → Option ProcessRow}
    (hs : ∀ last r, scan last = some r → r.comm = last.comm) {out : List ProcessRow}
    (h : Tokens out) : Tokens (patchLast scan out) := by
  rcases List.eq_nil_or_concat out with rfl | ⟨init,last,rfl⟩
  · exact h
  · rw [List.concat_eq_append] at h ⊢
    rw [patchLast_concat]
    intro r hr
    rcases List.mem_append.mp hr with hr | hr
    · exact h r (by simp [hr])
    · have hcomm := hs last r (by simpa using hr)
      rw [hcomm]
      exact h last (by simp)

theorem readLine_tokens (line : List UInt8) {out : List ProcessRow} (h : Tokens out) :
    Tokens (readLine line out) := by
  unfold readLine
  split
  · intro r hr
    rcases List.mem_append.mp hr with hr | hr
    · exact h r hr
    · exact scanA_comm (by simpa using hr)
  · exact patchLast_tokens (fun _ _ => scanB_comm) h
  · exact patchLast_tokens (fun _ _ => scanC_comm) h
  · exact h

/-! ## Chunks -/

/-- No byte of the text ends a string or a line early. -/
def Clean (text : List UInt8) : Prop := ∀ b ∈ text, b ≠ 0 ∧ b ≠ 10

theorem decimal_clean (n : ℕ) : Clean (decimal n) := by
  intro b hb
  have hd := decimal_digits n b hb
  constructor
  · rintro rfl
    exact absurd hd (by decide)
  · rintro rfl
    exact absurd hd (by decide)

theorem printFields_clean {tag : UInt8} (ht : tag ≠ 0 ∧ tag ≠ 10) {xs : List Value}
    (h : ∀ x ∈ xs, Clean x.render) : Clean (printFields tag xs) := by
  intro b hb
  rcases mem_printFields hb with rfl | rfl | ⟨x,hx,hb⟩
  · exact ht
  · decide
  · exact h x hx b hb

theorem lineA_clean (t : Task) : Clean (lineA t) := by
  apply printFields_clean (by decide)
  simp only [List.forall_mem_cons,u32,u64,Value.render,decimal_clean,true_and]
  exact ⟨t.comm_bytes,by simp⟩

theorem lineB_clean (t : Task) : Clean (lineB t) := by
  apply printFields_clean (by decide)
  simp [u32,u64,Value.render,decimal_clean]

theorem lineC_clean (t : Task) : Clean (lineC t) := by
  apply printFields_clean (by decide)
  simp [u32,Value.render,decimal_clean]

theorem takeLines_taskIter (t : Task) (rest : List UInt8) (out : List ProcessRow) :
    takeLines readLine (taskIter t++rest) out =
      takeLines readLine rest (readLine (lineC t) (readLine (lineB t) (readLine (lineA t) out))) := by
  have hA : 10 ∉ lineA t := fun h => (lineA_clean t 10 h).2 rfl
  have hB : 10 ∉ lineB t := fun h => (lineB_clean t 10 h).2 rfl
  have hC : 10 ∉ lineC t := fun h => (lineC_clean t 10 h).2 rfl
  simp only [taskIter,List.append_assoc,List.cons_append,List.nil_append,
    takeLines_line readLine hA,takeLines_line readLine hB,takeLines_line readLine hC]

theorem taskIter_ne_nul (t : Task) : 0 ∉ taskIter t := by
  intro h
  simp only [taskIter,List.mem_append,List.mem_cons,List.not_mem_nil,or_false] at h
  rcases h with h | h | h | h | h | h
  · exact (lineA_clean t 0 h).1 rfl
  · exact absurd h (by decide)
  · exact (lineB_clean t 0 h).1 rfl
  · exact absurd h (by decide)
  · exact (lineC_clean t 0 h).1 rfl
  · exact absurd h (by decide)

theorem takeLines_tasks {tasks : List Task} (h : ∀ t ∈ tasks, t.Scannable) :
    ∀ out : List ProcessRow, takeLines readLine (tasks.flatMap taskIter) out =
      ([],out++tasks.map Task.row) := by
  induction tasks with
  | nil => intro out; simp [takeLines,lineLoop]
  | cons t tasks ih =>
    intro out
    rw [List.flatMap_cons,takeLines_taskIter,readLine_task (h t (by simp)),
      ih (fun u hu => h u (by simp [hu]))]
    simp

theorem takeLines_tokens (tasks : List Task) : ∀ out : List ProcessRow, Tokens out →
    Tokens (takeLines readLine (tasks.flatMap taskIter) out).2 := by
  induction tasks with
  | nil => intro out h; simpa [takeLines,lineLoop] using h
  | cons t tasks ih =>
    intro out h
    rw [List.flatMap_cons,takeLines_taskIter]
    exact ih _ (readLine_tokens _ (readLine_tokens _ (readLine_tokens _ h)))

theorem readLoop_eq (chunks : List (List UInt8)) : ∀ st : List UInt8 × List ProcessRow,
    (∀ c ∈ chunks, c ≠ [] ∧ 0 ∉ c) → takeLines readLine st.1 st.2 = st →
    readLoop chunks st = (takeLines readLine (st.1++chunks.flatten) st.2).2 := by
  induction chunks with
  | nil =>
    intro st _ hst
    simp [readLoop,hst]
  | cons chunk chunks ih =>
    intro st hc hst
    obtain ⟨hne,hnul⟩ := hc chunk (by simp)
    have hstr : chunk.takeWhile (· ≠ 0) = chunk := by
      rw [List.takeWhile_eq_self_iff]
      intro c hmem
      have hc0 : c ≠ 0 := fun heq => hnul (heq ▸ hmem)
      simpa using hc0
    have hfix := takeLines_idem readLine (st.1++chunk) st.2
    rw [readLoop,if_neg hne,hstr,ih _ (fun c h => hc c (by simp [h])) hfix,List.flatten_cons,
      ← List.append_assoc,← takeLines_append readLine chunks.flatten _ _ _ (le_refl _)]

/-- The rows do not depend on where `read` cuts the text. -/
theorem readProcessTable_rows {tasks : List Task} {chunks : List (List UInt8)}
    (hne : ∀ c ∈ chunks, c ≠ []) (htext : chunks.flatten = tasks.flatMap taskIter) :
    (readProcessTable (some chunks)).2 =
      (takeLines readLine (tasks.flatMap taskIter) []).2 := by
  have hnul : ∀ c ∈ chunks, c ≠ [] ∧ 0 ∉ c := by
    intro c hc
    refine ⟨hne c hc,fun h0 => ?_⟩
    have hmem : (0 : UInt8) ∈ tasks.flatMap taskIter := by
      rw [← htext]
      exact List.mem_flatten.mpr ⟨c,hc,h0⟩
    obtain ⟨t,_,ht⟩ := List.mem_flatMap.mp hmem
    exact taskIter_ne_nul t ht
  have hloop := readLoop_eq chunks ([],[]) hnul rfl
  rw [readProcessTable,hloop,List.nil_append,htext]

theorem RowOf.exists_row {tasks : List Task} {rows : List ProcessRow}
    (h : List.Forall₂ RowOf tasks rows) : ∀ t ∈ tasks, ∃ r ∈ rows, RowOf t r := by
  induction h with
  | nil => simp
  | cons hd _ ih =>
    intro t ht
    rcases List.mem_cons.mp ht with rfl | ht
    · exact ⟨_,by simp,hd⟩
    · obtain ⟨r,hr,hrow⟩ := ih t ht
      exact ⟨r,by simp [hr],hrow⟩

/-- The table holds one faithful row per task, in order, exactly when every task scans. -/
theorem readProcessTable_iff {tasks : List Task} {chunks : List (List UInt8)}
    (hne : ∀ c ∈ chunks, c ≠ []) (htext : chunks.flatten = tasks.flatMap taskIter) :
    List.Forall₂ RowOf tasks (readProcessTable (some chunks)).2 ↔ ∀ t ∈ tasks, t.Scannable := by
  rw [readProcessTable_rows hne htext]
  constructor
  · intro h t ht
    have htok := takeLines_tokens tasks [] (by simp [Tokens])
    obtain ⟨r,hr,hrow,hstate⟩ := RowOf.exists_row h t ht
    have hr' := htok r hr
    have hcomm : r.comm = t.comm := by rw [hrow]; rfl
    rw [hcomm] at hr'
    refine ⟨hr'.1,hr'.2,?_⟩
    rw [← hstate]
    exact r.state.toNat_lt
  · intro h
    rw [takeLines_tasks h,List.nil_append,List.forall₂_map_right_iff,List.forall₂_same]
    intro t ht
    refine ⟨rfl,?_⟩
    have hlt := (h t ht).state_lt
    change (UInt8.ofNat t.state.toNat).toNat = t.state.toNat
    rw [UInt8.toNat_ofNat',Nat.mod_eq_of_lt hlt]

/-- A task of pid 1 with the given name and state, all of its counters zero. -/
def plainTask (comm : List UInt8) (state : UInt32) (hl : comm.length ≤ 15)
    (hb : ∀ c ∈ comm, c ≠ 0 ∧ c ≠ 10) : Task :=
  ⟨1,1,comm,state,0,0,0,0,0,0,0,0,0,0,0,0,0,0,0,0,hl,hb⟩

/-- The name `a b`, running. -/
def blankTask : Task := plainTask [97,32,98] 0 (by decide) (by simp)

/-- The name `ab`, running. -/
def shTask : Task := plainTask [97,98] 0 (by decide) (by simp)

theorem readProcessTable_shTask :
    List.Forall₂ RowOf [shTask]
      (readProcessTable (some [(taskIter shTask).take 20,(taskIter shTask).drop 20])).2 :=
  (readProcessTable_iff (by decide) (by decide)).mpr (by
    intro t ht
    rw [List.mem_singleton.mp ht]
    exact ⟨by decide,by simp [shTask,plainTask,isSpace],by decide⟩)

theorem blankTask_lost :
    ¬ List.Forall₂ RowOf [blankTask] (readProcessTable (some [taskIter blankTask])).2 := by
  have hrows : (readProcessTable (some [taskIter blankTask])).2 = [] := by decide
  rw [hrows]
  exact fun h => nomatch h

end ProcessTable
end ETraceDiag
