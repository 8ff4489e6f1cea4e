import ETraceDiag.FeatureJson
import ETraceDiag.HostRows

/-!
# The two lines of a pressure file

`ParsePsi` and the way of its averages into the host table and into the features. A pressure file
has a `some` line and a `full` line, and the window that they are read into has one triple of
averages for both.
-/

namespace ETraceDiag
namespace PsiLines

open SqlTable Metrics HostRows FeatureJson

/-- `sscanf` with `%lf`. -/
class ScanDouble (F : Type) extends Double F where
  scan : List UInt8 → Option F

variable {F : Type}

/-- The bytes of `"some "` and of `"full "`. -/
def someTag : List UInt8 := [115,111,109,101,32]

def fullTag : List UInt8 := [102,117,108,108,32]

/-- The bytes of `"avg10="`, `"avg60="` and `"avg300="`. -/
def avg10Key : List UInt8 := [97,118,103,49,48,61]

def avg60Key : List UInt8 := [97,118,103,54,48,61]

def avg300Key : List UInt8 := [97,118,103,51,48,48,61]

/-- The lines that `getline` returns: nothing comes after the last newline. -/
def getlines (text : List UInt8) : List (List UInt8) :=
  let pieces := text.splitOn 10
  if pieces.getLast? = some [] then pieces.dropLast else pieces

/-- The text behind the first occurrence of a key. -/
def findAfter (key : List UInt8) : List UInt8 → Option (List UInt8)
  | [] => none
  | b::line =>
    if key.isPrefixOf (b::line) then some ((b::line).drop key.length) else findAfter key line

section Parser

variable [ScanDouble F]

/-- `readv`: zero when the key is not there or no number is behind it. -/
def readv (line key : List UInt8) : F :=
  match findAfter key line with
  | none => Double.zero
  | some rest => (ScanDouble.scan (rest.takeWhile (· ≠ 0))).getD Double.zero

/-- A line into the window; both kinds of line go to the same averages. -/
def readLine (w : PsiWindow F) (line : List UInt8) : PsiWindow F :=
  let read : PsiWindow F := { w with
    avg10 := readv line avg10Key, avg60 := readv line avg60Key, avg300 := readv line avg300Key }
  if someTag.isPrefixOf line then { read with someValid := true }
  else if fullTag.isPrefixOf line then { read with fullValid := true }
  else w

def parsePsi (text : List UInt8) : PsiWindow F :=
  (getlines text).foldl readLine
    { avg10 := Double.zero, avg60 := Double.zero, avg300 := Double.zero }

end Parser

/-! ## What goes out -/

inductive Kind
  | cpu
  | io
  | memory
  deriving DecidableEq,Repr

def Kind.window : Kind → PsiSnapshot F → PsiWindow F
  | .cpu, psi => psi.cpu
  | .io, psi => psi.io
  | .memory, psi => psi.memory

def Kind.someCols : Kind → List String
  | .cpu => ["psi_cpu_s10","psi_cpu_s60","psi_cpu_s300","psi_cpu_s_valid"]
  | .io => ["psi_io_s10","psi_io_s60","psi_io_s300","psi_io_s_valid"]
  | .memory => ["psi_mem_s10","psi_mem_s60","psi_mem_s300","psi_mem_s_valid"]

def Kind.fullCols : Kind → List String
  | .cpu => ["psi_cpu_f10","psi_cpu_f60","psi_cpu_f300","psi_cpu_f_valid"]
  | .io => ["psi_io_f10","psi_io_f60","psi_io_f300","psi_io_f_valid"]
  | .memory => ["psi_mem_f10","psi_mem_f60","psi_mem_f300","psi_mem_f_valid"]

def Kind.name : Kind → String
  | .cpu => "cpu"
  | .io => "io"
  | .memory => "memory"

/-- The window of a kind in a request. -/
def sentWindow (k : Kind) (f : AnomalyFeatures F) : Option (ByteJson F) :=
  (((featuresJson f).get? "host").bind (ByteJson.get? "psi")).bind (ByteJson.get? k.name)

/-- The averages that a window in a request states under a flag. -/
def averagesUnder (flag : String) (j : ByteJson F) : Option (F × F × F) :=
  match j.get? "avg10", j.get? "avg60", j.get? "avg300", j.get? flag with
  | some (.float a), some (.float b), some (.float c), some (.bool true) => some (a,b,c)
  | _, _, _, _ => none

/-! ## What should go out -/

/-- The columns of a line: NULL and 0 without it. -/
def columnsOf [Double F] : Option (F × F × F) → List (Value F)
  | none => [.null,.null,.null,bindBool false]
  | some (a,b,c) => [bindDouble a,bindDouble b,bindDouble c,bindBool true]

section Lines

variable [ScanDouble F]

/-- The line of a kind; of several the last one counts. -/
def lastWith (tag text : List UInt8) : Option (List UInt8) :=
  ((getlines text).filter tag.isPrefixOf).getLast?

/-- The averages of a line. -/
def averages (line : List UInt8) : F × F × F :=
  (readv line avg10Key,readv line avg60Key,readv line avg300Key)

/-- Whatever the rest of the snapshot is, the table and the features state for each of the two
levels the averages of its own line, or that there are none. -/
structure Independent (k : Kind) (text : List UInt8) : Prop where
  table : ∀ (s : HostSnapshot F) net gpu, k.window s.psi = parsePsi text →
    k.someCols.map (get ((Insert.host : Insert F).row s net gpu)) =
        columnsOf ((lastWith someTag text).map averages) ∧
      k.fullCols.map (get ((Insert.host : Insert F).row s net gpu)) =
        columnsOf ((lastWith fullTag text).map averages)
  features : ∀ f : AnomalyFeatures F, k.window f.host.psi = parsePsi text →
    (sentWindow k f).bind (averagesUnder "some_valid") =
        (lastWith someTag text).map averages ∧
      (sentWindow k f).bind (averagesUnder "full_valid") =
        (lastWith fullTag text).map averages

end Lines

/-! ## What goes out is the window -/

/-- The averages of a window under one of its flags. -/
def under (flag : Bool) (w : PsiWindow F) : Option (F × F × F) :=
  if flag then some (w.avg10,w.avg60,w.avg300) else none

/-- The host row under the columns of a kind. -/
theorem psiCols_row [Double F] (k : Kind) (s : HostSnapshot F) (net : NetworkSnapshot)
    (gpu : GpuSnapshot F) :
    k.someCols.map (get ((Insert.host : Insert F).row s net gpu)) =
        columnsOf (under (k.window s.psi).someValid (k.window s.psi)) ∧
      k.fullCols.map (get ((Insert.host : Insert F).row s net gpu)) =
        columnsOf (under (k.window s.psi).fullValid (k.window s.psi)) := by
  have hrow : (Insert.host : Insert F).row s net gpu =
      SqlTable.insert hostCols (hostBinds s) := rfl
  rw [hrow]
  simp only [hostBinds,bindPsi_eq,List.cons_append,List.nil_append]
  constructor
  · cases k
    · cases h : s.psi.cpu.someValid <;> simp only [Kind.window,h] <;> rfl
    · cases h : s.psi.io.someValid <;> simp only [Kind.window,h] <;> rfl
    · cases h : s.psi.memory.someValid <;> simp only [Kind.window,h] <;> rfl
  · cases k
    · cases h : s.psi.cpu.fullValid <;> simp only [Kind.window,h] <;> rfl
    · cases h : s.psi.io.fullValid <;> simp only [Kind.window,h] <;> rfl
    · cases h : s.psi.memory.fullValid <;> simp only [Kind.window,h] <;> rfl

theorem sentWindow_eq (k : Kind) (f : AnomalyFeatures F) :
    sentWindow k f = some (psiWindow (k.window f.host.psi)) := by
  cases k <;> rfl

theorem averagesUnder_psiWindow (w : PsiWindow F) :
    averagesUnder "some_valid" (psiWindow w) = under w.someValid w ∧
      averagesUnder "full_valid" (psiWindow w) = under w.fullValid w := by
  obtain ⟨a,b,c,some,full⟩ := w
  constructor
  · cases some <;> rfl
  · cases full <;> rfl

/-- Features with one window everywhere. -/
def onlyPsi (w : PsiWindow F) : AnomalyFeatures F where
  host := { load := ⟨w.avg10,w.avg60,w.avg300,0,0⟩, psi := ⟨w,w,w⟩ }
  cgroup := { cpuPsi := w, memoryPsi := w }

section Lines

variable [ScanDouble F]

/-- Both ways out state the window under its two flags. -/
theorem independent_iff_window (k : Kind) (text : List UInt8) : Independent (F:=F) k text ↔
    under (parsePsi (F:=F) text).someValid (parsePsi text) =
        (lastWith someTag text).map (averages (F:=F)) ∧
      under (parsePsi (F:=F) text).fullValid (parsePsi text) =
        (lastWith fullTag text).map (averages (F:=F)) := by
  constructor
  · intro h
    have hf := h.features (onlyPsi (parsePsi text)) (by cases k <;> rfl)
    simp only [sentWindow_eq,Option.bind_some,averagesUnder_psiWindow] at hf
    cases k <;> exact hf
  · rintro ⟨hsome,hfull⟩
    refine ⟨fun s net gpu hs => ?_,fun f hf => ?_⟩
    · have hcols := psiCols_row k s net gpu
      rwa [hs,hsome,hfull] at hcols
    · simp only [sentWindow_eq,Option.bind_some,averagesUnder_psiWindow,hf]
      exact ⟨hsome,hfull⟩

/-! ## One window for two lines -/

/-- What the window knows of the lines read so far: a flag for each kind of line, and the
averages of one of the two. -/
structure Holds (w : PsiWindow F) (some full : Option (List UInt8)) : Prop where
  someValid : w.someValid = some.isSome
  fullValid : w.fullValid = full.isSome
  averages : ∀ line, (some = .some line ∧ full = none) ∨ (some = none ∧ full = .some line) →
    (w.avg10,w.avg60,w.avg300) = averages line
  either : ∀ a b, some = .some a → full = .some b →
    (w.avg10,w.avg60,w.avg300) = PsiLines.averages a ∨
      (w.avg10,w.avg60,w.avg300) = PsiLines.averages b

theorem tags_disjoint {line : List UInt8} (h : someTag.isPrefixOf line = true) :
    fullTag.isPrefixOf line = false := by
  cases line with
  | nil => cases h
  | cons b line =>
    simp only [someTag,fullTag,List.isPrefixOf_cons_cons,Bool.and_eq_true,beq_iff_eq] at h ⊢
    simp [← h.1]

theorem holds_foldl (lines : List (List UInt8)) : ∀ w : PsiWindow F,
    w.someValid = false → w.fullValid = false →
      Holds (lines.foldl readLine w) (lines.filter someTag.isPrefixOf).getLast?
        (lines.filter fullTag.isPrefixOf).getLast? := by
  intro w hs hf
  induction lines using List.reverseRecOn with
  | nil => exact ⟨hs,hf,by simp,by simp⟩
  | append_singleton lines line ih =>
    rw [List.foldl_append,List.foldl_cons,List.foldl_nil,List.filter_append,List.filter_append]
    by_cases hsome : someTag.isPrefixOf line = true
    · have hfull := tags_disjoint hsome
      simp only [readLine,hsome,if_true,List.filter_cons,hfull,Bool.false_eq_true,if_false,
        List.filter_nil,List.append_nil,List.getLast?_concat]
      refine ⟨rfl,ih.fullValid,?_,?_⟩
      · rintro l (⟨h,_⟩ | ⟨h,_⟩)
        · cases h
          rfl
        · cases h
      · rintro a b h _
        cases h
        exact .inl rfl
    · by_cases hfull : fullTag.isPrefixOf line = true
      · simp only [readLine,hsome,hfull,if_true,List.filter_cons,Bool.false_eq_true,if_false,
          List.filter_nil,List.append_nil,List.getLast?_concat]
        refine ⟨ih.someValid,rfl,?_,?_⟩
        · rintro l (⟨_,h⟩ | ⟨_,h⟩)
          · cases h
          · cases h
            rfl
        · rintro a b _ h
          cases h
          exact .inr rfl
      · simpa only [readLine,hsome,hfull,Bool.false_eq_true,if_false,List.filter_cons,
          List.filter_nil,List.append_nil] using ih

/-- The two lines are independent exactly when the text does not have both of them, or they
state the same averages. -/
theorem parsePsi_independent_iff (k : Kind) (text : List UInt8) :
    Independent (F:=F) k text ↔ ∀ a b, lastWith someTag text = some a →
      lastWith fullTag text = some b → averages (F:=F) a = averages b := by
  have hw : Holds (parsePsi (F:=F) text) (lastWith someTag text) (lastWith fullTag text) :=
    holds_foldl (getlines text) _ rfl rfl
  rw [independent_iff_window]
  unfold under
  rw [hw.someValid,hw.fullValid]
  cases hs : lastWith someTag text with
  | none =>
    cases hf : lastWith fullTag text with
    | none => simp
    | some b => simp [hw.averages b (.inr ⟨hs,hf⟩)]
  | some a =>
    cases hf : lastWith fullTag text with
    | none => simp [hw.averages a (.inl ⟨hs,hf⟩)]
    | some b =>
      simp only [Option.isSome_some,if_true,Option.map_some,Option.some.injEq]
      rcases hw.either a b hs hf with h | h <;> rw [h] <;> grind

/-- Of two such texts with one and the same `some` line, the `some` columns are the same. -/
theorem Independent.some_noninterference {k : Kind} {text text' : List UInt8}
    (h : Independent (F:=F) k text) (h' : Independent (F:=F) k text')
    (hline : lastWith someTag text = lastWith someTag text') {s s' : HostSnapshot F}
    (hs : k.window s.psi = parsePsi text) (hs' : k.window s'.psi = parsePsi text')
    (net net' : NetworkSnapshot) (gpu gpu' : GpuSnapshot F) :
    k.someCols.map (get ((Insert.host : Insert F).row s net gpu)) =
      k.someCols.map (get ((Insert.host : Insert F).row s' net' gpu')) := by
  rw [(h.table s net gpu hs).1,(h'.table s' net' gpu' hs').1,hline]

end Lines

/-! ## An I/O pressure file -/

def isDigit (b : UInt8) : Bool := 48 ≤ b ∧ b ≤ 57

/-- The number a text of digits with a decimal point begins with. -/
def scanDecimal (text : List UInt8) : Option ℚ :=
  let whole := text.takeWhile isDigit
  let frac := match text.drop whole.length with
    | 46::rest => rest.takeWhile isDigit
    | _ => []
  if whole = [] then none
  else some (mkRat ((whole++frac).foldl (fun n b => 10*n+(b.toNat-48 : ℤ)) 0) (10^frac.length))

local instance scanRat : ScanDouble ℚ where
  scan := scanDecimal

/-- `some avg10=3.00 avg60=2.00 avg300=1.00` and `full avg10=0.00 avg60=0.00 avg300=0.00`. -/
def ioPressure : List UInt8 :=
  someTag++avg10Key++[51,46,48,48,32]++avg60Key++[50,46,48,48,32]++avg300Key++[49,46,48,48,10]++
  fullTag++avg10Key++[48,46,48,48,32]++avg60Key++[48,46,48,48,32]++avg300Key++[48,46,48,48,10]

/-- The `some` averages of the first line are lost. -/
theorem ioPressure_not_independent : ¬ Independent (F:=ℚ) .io ioPressure := by
  rw [independent_iff_window]
  decide

end PsiLines
end ETraceDiag
