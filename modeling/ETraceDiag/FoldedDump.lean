import ETraceDiag.FoldedStacks
import ETraceDiag.FoldedText

/-!
# The folded text of a dump

The viewer joins the rows of `deep_folded` of one kind to a text (`tools/viz/js/ui.js`) and reads
it with `V.parseFolded`. What the writer replaces in names keeps blanks and semicolons out of the
lines, but not newlines. A byte of the text is a character.
-/

namespace ETraceDiag
namespace FoldedText

open ScriptNumber DeepMaps DeepDump SqlTable FoldedStacks Symbolizer

variable {N : Type} [FoldedNumber N] {F : Type} {ncpus : ℕ}

/-! ## The rows of the dump -/

/-- A column in a text of the viewer. -/
def shown [Double F] (v : Value F) : List Char := (v.toText.getD "null").toList

/-- `r.frames+' '+r.value+'\n'`. -/
def rowText [Double F] (r : Row F) : List Char :=
  shown (get r "frames")++ ' '::shown (get r "value")++['\n']

/-- `kinds[kind]` when all rows are read. -/
def kindText [Double F] (kind : String) (rows : List (Row F)) : List Char :=
  (rows.filter fun r => (get r "kind").toText = some kind).flatMap rowText

def oncpuLine (env : Env) (ms : EpisodeMaps ncpus) (k : OncpuKey) : String :=
  oncpuTask env k.pid k.tid++shownFrames env ms k

def offcpuLine (env : Env) (k : OffcpuKey) : String :=
  offcpuTask env k.tid++";"++FoldedStacks.text env (stackCall k)

def entriesOf {κ : Type} (line : κ → String) (pid : κ → Option UInt32) (tid : κ → UInt32)
    (es : List (κ × List UInt8)) : List Entry :=
  es.map fun e => ⟨(line e.1).toList,pid e.1,tid e.1,u64At U64Val e.2⟩

def oncpuEntries (env : Env) (ms : EpisodeMaps ncpus) : List Entry :=
  entriesOf (oncpuLine env ms) (fun k => some k.pid) OncpuKey.tid (forEachOf ms .oncpuCount)

def offcpuEntries (env : Env) (ms : EpisodeMaps ncpus) : List Entry :=
  entriesOf (offcpuLine env) (fun k => env.tidTgid k.tid) OffcpuKey.tid (forEachOf ms .offcpuTime)

theorem rowText_foldedRow [Double F] (n : Int32) (kind frames : String) {v : UInt64}
    (hv : v.toNat < 2^53) : rowText (foldedRow n kind frames v : Row F) =
      frames.toList++(' '::(toString v.toNat).toList)++['\n'] := by
  have hint : v.toInt64.toInt = v.toNat :=
    (EvidenceStore.toInt_toInt64_eq_iff v).mpr (by omega)
  have hvalue : (get (foldedRow n kind frames v : Row F) "value").toText =
      some (toString v.toNat) := by
    change some (toString v.toInt64.toInt) = _
    rw [hint]
    rfl
  rw [rowText,shown,shown,hvalue]
  rfl

theorem kindText_append [Double F] (kind : String) (a b : List (Row F)) :
    kindText kind (a++b) = kindText kind a++kindText kind b := by
  simp [kindText]

theorem kindText_folded [Double F] {κ : Type} (n : Int32) (kind kind' : String)
    (line : κ → String) (es : List (κ × List UInt8)) :
    kindText kind (es.map fun e =>
        (foldedRow n kind' (line e.1) (u64At U64Val e.2) : Row F)) =
      if kind' = kind then es.flatMap fun e =>
        rowText (foldedRow n kind' (line e.1) (u64At U64Val e.2) : Row F)
      else [] := by
  have hkind : ∀ e : κ × List UInt8, (get (foldedRow n kind' (line e.1) (u64At U64Val e.2) :
      Row F) "kind").toText = some kind' := fun _ => rfl
  rw [kindText,List.filter_map,List.flatMap_map]
  split
  · next h => rw [List.filter_eq_self.mpr fun e _ => by
      rw [Function.comp_apply,hkind,h]
      exact decide_eq_true rfl]
  · next h => rw [List.filter_eq_nil_iff.mpr fun e _ => by simp [hkind,h],List.flatMap_nil]

/-- The rows of `deep_folded`. -/
def foldedRows [DumpFloat F] (env : Env) (y : Symbols) (n : Int32) (ms : EpisodeMaps ncpus) :
    List (Row F) :=
  (dumpDeepMaps (withSymbols env y) n ms : DeepTables F).deepFolded.map Prod.snd

theorem foldedRows_eq [DumpFloat F] (env : Env) (y : Symbols) (n : Int32)
    (ms : EpisodeMaps ncpus) : (foldedRows env y n ms : List (Row F)) =
      ((forEachOf ms .oncpuCount).map fun e => foldedRow n "on_cpu"
        (oncpuLine (withSymbols env y) ms e.1) (u64At U64Val e.2))++
      (forEachOf ms .offcpuTime).map fun e => foldedRow n "off_cpu"
        (offcpuLine (withSymbols env y) e.1) (u64At U64Val e.2) := by
  rw [foldedRows,deepFolded_eq,List.map_append,List.map_map,List.map_map]
  rfl

theorem flatMap_rowText [Double F] {κ : Type} (n : Int32) (kind : String) {line : κ → String}
    {pid : κ → Option UInt32} {tid : κ → UInt32} {es : List (κ × List UInt8)}
    (h : ∀ e ∈ entriesOf line pid tid es, e.Valued) :
    (es.flatMap fun e => rowText (foldedRow n kind (line e.1) (u64At U64Val e.2) : Row F)) =
      (entriesOf line pid tid es).flatMap Entry.text := by
  rw [entriesOf,List.forall_mem_map] at h
  rw [entriesOf,List.flatMap_map]
  refine List.flatMap_congr fun e he => ?_
  rw [rowText_foldedRow n _ _ (h e he).2,Entry.text]

theorem kindText_oncpu [DumpFloat F] (env : Env) (y : Symbols) (n : Int32)
    (ms : EpisodeMaps ncpus) (h : ∀ e ∈ oncpuEntries (withSymbols env y) ms, e.Valued) :
    kindText "on_cpu" (foldedRows env y n ms : List (Row F)) =
      (oncpuEntries (withSymbols env y) ms).flatMap Entry.text := by
  rw [foldedRows_eq,kindText_append,kindText_folded n _ _ (oncpuLine (withSymbols env y) ms),
    kindText_folded n _ _ (offcpuLine (withSymbols env y)),if_pos rfl,if_neg (by decide),
    List.append_nil]
  exact flatMap_rowText n _ h

theorem kindText_offcpu [DumpFloat F] (env : Env) (y : Symbols) (n : Int32)
    (ms : EpisodeMaps ncpus) (h : ∀ e ∈ offcpuEntries (withSymbols env y) ms, e.Valued) :
    kindText "off_cpu" (foldedRows env y n ms : List (Row F)) =
      (offcpuEntries (withSymbols env y) ms).flatMap Entry.text := by
  rw [foldedRows_eq,kindText_append,kindText_folded n _ _ (oncpuLine (withSymbols env y) ms),
    kindText_folded n _ _ (offcpuLine (withSymbols env y)),if_neg (by decide),if_pos rfl,
    List.nil_append]
  exact flatMap_rowText n _ h

/-! ## What the writer replaces -/

/-- The characters that `SanitizeCommStr` replaces. -/
def separators : List Char := [';','/',' ','\t']

theorem sanitizeCommStr_clean {c : Char} (hc : c ∈ separators) (comm : List UInt8) :
    c ∉ (sanitizeCommStr comm).toList := by
  rw [sanitizeCommStr,String.toList_ofList,List.mem_map]
  rintro ⟨b,-,rfl⟩
  split at hc
  · exact absurd hc (by decide)
  · next h => exact h (by simpa [separators] using hc)

theorem tidComm_clean {c : Char} (hc : c ∈ separators) (env : Env) (t : UInt32) :
    c ∉ ((env.tidComm t).getD "").toList := by
  have hall : ∀ (tasks : List (UInt32 × UInt32 × List UInt8)) (f : UInt32 → Option String),
      (∀ t s, f t = some s → c ∉ s.toList) → ∀ (t : UInt32) (s : String),
        (tasks.foldl (fun (g : UInt32 → Option String) e =>
          Function.update g e.1 (some (sanitizeCommStr e.2.2))) f) t = some s → c ∉ s.toList := by
    intro tasks
    induction tasks with
    | nil => exact fun f h => h
    | cons e tasks ih =>
      refine fun f h => ih _ fun t s hs => ?_
      dsimp only at hs
      by_cases ht : t = e.1
      · subst ht
        rw [Function.update_self] at hs
        rw [← Option.some.inj hs]
        exact sanitizeCommStr_clean hc _
      · rw [Function.update_of_ne ht] at hs
        exact h t s hs
  cases hcomm : env.tidComm t with
  | none => simp
  | some s => exact hall env.taskMeta (fun _ => none) nofun t s hcomm

theorem blank_not_mem_resolve (y : Symbols) (pid : UInt32) (ips : List UInt64) (user : Bool) :
    32 ∉ y.resolve pid ips user := by
  rw [Symbols.resolve]
  have hsanitize : ∀ name : List UInt8, 32 ∉ name.map sanitize := by
    intro name hmem
    obtain ⟨b,-,hb⟩ := List.mem_map.mp hmem
    rw [sanitize] at hb
    split at hb
    · cases hb
    · next h => exact h (Or.inr (Or.inl hb))
  generalize ips.reverse = rest
  suffices hall : ∀ out : List UInt8, 32 ∉ out → 32 ∉ rest.foldl _ out from hall [] (by simp)
  induction rest with
  | nil => exact fun out h => h
  | cons ip rest ih =>
    refine fun out h => ih _ ?_
    dsimp only
    by_cases hip : ip = 0
    · rwa [if_pos hip]
    · rw [if_neg hip]
      refine fun hmem => (List.mem_append.mp hmem).elim (fun hout => ?_) (hsanitize _)
      split at hout
      · exact (List.mem_append.mp hout).elim h (by decide)
      · exact h hout

theorem blank_not_mem_text (env : Env) (y : Symbols) (c : Call) :
    ' ' ∉ (FoldedStacks.text (withSymbols env y) c).toList := by
  rw [FoldedStacks.text]
  split
  · intro hmem
    change ' ' ∈ (textOf (y.resolve c.pid _ c.user)).toList at hmem
    rw [textOf,String.toList_ofList] at hmem
    obtain ⟨b,hb,hblank⟩ := List.mem_map.mp hmem
    obtain rfl : b = 32 := charOf_injective hblank
    exact blank_not_mem_resolve y _ _ _ hb
  · simp

theorem blank_not_mem_task (env : Env) (pid tid t u : UInt32) :
    ' ' ∉ (task pid ((env.tidComm t).getD "") tid ((env.tidComm u).getD "")).toList := by
  have hcomm := tidComm_clean (c := ' ') (by decide) env
  have hdigits := not_mem_toDigits (c := ' ') (by decide)
  simp [task,hcomm,hdigits]

theorem blank_not_mem_oncpu (env : Env) (y : Symbols) (ms : EpisodeMaps ncpus) :
    ∀ e ∈ oncpuEntries (withSymbols env y) ms, ' ' ∉ e.line := by
  rw [oncpuEntries,entriesOf,List.forall_mem_map]
  intro e _
  have htask := blank_not_mem_task env e.1.pid e.1.tid e.1.pid e.1.tid
  have htext := blank_not_mem_text env y
  simp only [oncpuLine,shownFrames,frames,String.toList_append,List.mem_append,not_or]
  refine ⟨htask,?_,?_⟩
  · split <;> simp [htext]
  · split <;> simp [htext]

theorem blank_not_mem_offcpu (env : Env) (y : Symbols) (ms : EpisodeMaps ncpus) :
    ∀ e ∈ offcpuEntries (withSymbols env y) ms, ' ' ∉ e.line := by
  rw [offcpuEntries,entriesOf,List.forall_mem_map]
  intro e _
  have htext := blank_not_mem_text env y (stackCall e.1)
  have hdigits := not_mem_toDigits (c := ' ') (by decide)
  have htask : ' ' ∉ (offcpuTask (withSymbols env y) e.1.tid).toList := by
    rw [offcpuTask]
    split
    · exact blank_not_mem_task env _ _ _ _
    · simp [hdigits]
  simp [offcpuLine,htask,htext]

/-! ## Lines without a newline -/

theorem framesOf_cons {piece : List Char} (hne : piece ≠ []) (hpiece : ';' ∉ piece)
    (rest : List Char) : framesOf (piece++ ';'::rest) = piece::framesOf rest := by
  rw [framesOf,List.splitOn_append_cons_self,List.splitOn_eq_singleton hpiece]
  simp [framesOf,hne]

theorem framesOf_single {piece : List Char} (hne : piece ≠ []) (hpiece : ';' ∉ piece) :
    framesOf piece = [piece] := by
  rw [framesOf,List.splitOn_eq_singleton hpiece]
  simp [hne]

/-- The frame of a process or of a thread. -/
def idFrame (c : Char) (n : UInt32) (comm : List Char) : List Char :=
  [c,':']++(toString n.toNat).toList++ '/'::comm

theorem semicolon_not_mem_idFrame {c : Char} (hc : c ≠ ';') (n : UInt32) {comm : List Char}
    (hcomm : ';' ∉ comm) : ';' ∉ idFrame c n comm := by
  have hdigits := not_mem_toDigits (c := ';') (by decide) n.toNat
  simp [idFrame,hcomm,hdigits,hc.symm]

theorem names_idFrame {c : Char} (hc : c ≠ '/') (n : UInt32) (comm : List Char) :
    Names N c n (idFrame c n comm) := by
  have hdigits := not_mem_toDigits (c := '/') (by decide) n.toNat
  have hslash : '/' ∉ [c,':']++(toString n.toNat).toList := by simp [hc.symm,hdigits]
  have hid : ∀ x ∈ [c,':']++(toString n.toNat).toList, decide (x ≠ '/') = true :=
    fun x hx => decide_eq_true fun heq => hslash (heq ▸ hx)
  have hlt : n.toNat < 2^53 := n.toNat_lt.trans (by decide)
  refine ⟨by simp [idFrame],?_⟩
  rw [idFrame,List.takeWhile_append_of_pos hid,idOf,← FoldedNumber.scan_decimal n.toNat hlt]
  simp

theorem toList_task (pid : UInt32) (pc : String) (tid : UInt32) (tc : String) :
    (task pid pc tid tc).toList =
      idFrame 'p' pid pc.toList++ ';'::idFrame 't' tid tc.toList := by
  simp [task,idFrame]

theorem heads_task {line rest : List Char} {pid tid : UInt32} {pc tc : String}
    (hline : line = (task pid pc tid tc).toList++rest) (hrest : rest = [] ∨ ∃ r, rest = ';'::r)
    (hpc : ';' ∉ pc.toList) (htc : ';' ∉ tc.toList) (hnewline : '\n' ∉ line) :
    Heads N tid (some pid) (framesOf (lastPiece line)) := by
  have hp := semicolon_not_mem_idFrame (c := 'p') (by decide) pid hpc
  have ht := semicolon_not_mem_idFrame (c := 't') (by decide) tid htc
  obtain ⟨more,hframes⟩ : ∃ more, framesOf (lastPiece line) =
      idFrame 'p' pid pc.toList::idFrame 't' tid tc.toList::more := by
    rw [lastPiece_of_notMem hnewline,hline,toList_task,List.append_assoc,List.cons_append,
      framesOf_cons (by simp [idFrame]) hp]
    rcases hrest with rfl | ⟨r,rfl⟩
    · exact ⟨[],by rw [List.append_nil,framesOf_single (by simp [idFrame]) ht]⟩
    · exact ⟨_,by rw [framesOf_cons (by simp [idFrame]) ht]⟩
  rw [hframes]
  exact .known (names_idFrame (by decide) pid _) (names_idFrame (by decide) tid _)

theorem heads_unknown {line ks : List Char} {tid : UInt32}
    (hline : line = idFrame 't' tid []++ ';'::ks) (hnewline : '\n' ∉ line)
    (hsecond : ∀ frame ∈ (framesOf line)[1]?, ['t',':'].isPrefixOf frame = false) :
    Heads N tid none (framesOf (lastPiece line)) := by
  have ht : ';' ∉ idFrame 't' tid [] := semicolon_not_mem_idFrame (by decide) tid (by simp)
  have hframes : framesOf line = idFrame 't' tid []::framesOf ks := by
    rw [hline,framesOf_cons (by simp [idFrame]) ht]
  rw [hframes,List.getElem?_cons_succ,← List.head?_eq_getElem?] at hsecond
  rw [lastPiece_of_notMem hnewline,hframes]
  exact .unknown (names_idFrame (by decide) tid []) hsecond

theorem frames_head (ks us : String) : (frames ks us).toList = [] ∨
    ∃ r, (frames ks us).toList = ';'::r := by
  by_cases hks : ks = "" <;> by_cases hus : us = "" <;> simp [frames,hks,hus]

theorem legible_oncpu (env : Env) (ms : EpisodeMaps ncpus) :
    ∀ e ∈ oncpuEntries env ms, '\n' ∉ e.line → Legible N e := by
  have hcomm := tidComm_clean (c := ';') (by decide) env
  rw [oncpuEntries,entriesOf,List.forall_mem_map]
  intro e _ hnewline
  dsimp only at hnewline
  have hline : (oncpuLine env ms e.1).toList = (task e.1.pid ((env.tidComm e.1.pid).getD "")
      e.1.tid ((env.tidComm e.1.tid).getD "")).toList++(shownFrames env ms e.1).toList := by
    rw [oncpuLine,oncpuTask,String.toList_append]
  rw [Legible]
  dsimp only
  exact heads_task hline (frames_head _ _) (hcomm e.1.pid) (hcomm e.1.tid) hnewline

/-- The line of an unknown process must not have a kernel frame that looks like a thread behind
the thread, besides. -/
theorem legible_offcpu (env : Env) (ms : EpisodeMaps ncpus) :
    ∀ e ∈ offcpuEntries env ms, '\n' ∉ e.line →
      (e.pid = none → ∀ frame ∈ (framesOf e.line)[1]?, ['t',':'].isPrefixOf frame = false) →
      Legible N e := by
  rw [offcpuEntries,entriesOf,List.forall_mem_map]
  intro e _ hnewline hsecond
  dsimp only at hnewline hsecond
  have hcomm := tidComm_clean (c := ';') (by decide) env e.1.tid
  rw [Legible]
  dsimp only
  cases htgid : env.tidTgid e.1.tid with
  | some tgid =>
    have hline : (offcpuLine env e.1).toList = (task tgid ((env.tidComm e.1.tid).getD "")
        e.1.tid ((env.tidComm e.1.tid).getD "")).toList++
          ';'::(FoldedStacks.text env (stackCall e.1)).toList := by
      simp [offcpuLine,offcpuTask,htgid]
    exact heads_task hline (Or.inr ⟨_,rfl⟩) hcomm hcomm hnewline
  | none =>
    have hline : (offcpuLine env e.1).toList =
        idFrame 't' e.1.tid []++ ';'::(FoldedStacks.text env (stackCall e.1)).toList := by
      simp [offcpuLine,offcpuTask,htgid,idFrame]
    exact heads_unknown hline hnewline (hsecond htgid)

/-- Both texts of the dump give the entries of the profile back exactly when every line is
legible. -/
theorem dump_roundTrips_iff [DecidableEq N] [DumpFloat F] (env : Env) (y : Symbols) (n : Int32)
    (ms : EpisodeMaps ncpus)
    (hvalued : ∀ e ∈ oncpuEntries (withSymbols env y) ms++offcpuEntries (withSymbols env y) ms,
      e.Valued) :
    (RoundTrips (oncpuEntries (withSymbols env y) ms)
        (parseFolded (kindText "on_cpu" (foldedRows env y n ms : List (Row F))) : Parsed N) ∧
      RoundTrips (offcpuEntries (withSymbols env y) ms)
        (parseFolded (kindText "off_cpu" (foldedRows env y n ms : List (Row F))) : Parsed N)) ↔
      ∀ e ∈ oncpuEntries (withSymbols env y) ms++offcpuEntries (withSymbols env y) ms,
        Legible N e := by
  rw [List.forall_mem_append] at hvalued ⊢
  obtain ⟨honcpu,hoffcpu⟩ := hvalued
  rw [kindText_oncpu env y n ms honcpu,kindText_offcpu env y n ms hoffcpu,
    roundTrips_iff _ honcpu (blank_not_mem_oncpu env y ms),
    roundTrips_iff _ hoffcpu (blank_not_mem_offcpu env y ms)]

/-! ## A name with a newline -/

/-- Decimal digits; other numerals are left out. -/
instance exactNumber : FoldedNumber (Option ℚ) where
  scan cs := if cs.all Char.isDigit then some (Nat.ofDigitChars 10 cs 0 : ℕ) else none
  scan_decimal n _ := by
    have hdigits : (toString n).toList = Nat.toDigits 10 n := Nat.toList_repr
    have hall : (Nat.toDigits 10 n).all Char.isDigit = true := List.all_eq_true.mpr fun c hc =>
      Nat.isDigit_of_mem_toDigits (by decide) (by decide) hc
    rw [hdigits,if_pos hall,Nat.ofDigitChars_toDigits (by decide) (by decide)]
    rfl
  ge_zero_ofInt n h _ := by
    change decide (((n : ℤ) : ℚ) ≤ ((0 : ℤ) : ℚ)) = false
    have hne : n ≠ 0 := Nat.pos_iff_ne_zero.mp h
    simpa using hne
  ofInt_inj a b _ _ h := by
    have hcast : ((a : ℤ) : ℚ) = ((b : ℤ) : ℚ) := Option.some.inj h
    exact_mod_cast hcast
  add_ofInt a b _ := by
    change some (((a : ℤ) : ℚ)+((b : ℤ) : ℚ)) = some (((a+b : ℕ) : ℤ) : ℚ)
    push_cast
    rfl

/-- A task with one sample and no stacks. -/
def namedEnv (comm : List UInt8) : Env where
  taskMeta := [(10,10,comm)]
  stackmap _ := none
  resolve _ _ _ := ""
  kernelSym _ := ""
  lockHot := []
  lockHotBase _ := none

def sampleMaps : EpisodeMaps 1 :=
  EpisodeMaps.empty.set .oncpuCount [(⟨10,10,0,0⟩,[[1,0,0,0,0,0,0,0]])]
    ⟨by decide,by decide,by
      intro e he
      rw [List.mem_singleton.mp he]
      refine ⟨rfl,fun slot hslot => ?_⟩
      rw [List.mem_singleton.mp hslot]
      rfl⟩

theorem oncpuEntries_sampleMaps (env : Env) : oncpuEntries env sampleMaps =
    [⟨(oncpuLine env sampleMaps ⟨10,10,0,0⟩).toList,some 10,10,1⟩] := by
  rw [oncpuEntries,entriesOf,forEachOf_eq,sampleMaps,EpisodeMaps.set_self]
  rfl

theorem offcpuEntries_sampleMaps (env : Env) : offcpuEntries env sampleMaps = [] := by
  rw [offcpuEntries,entriesOf,forEachOf_eq,sampleMaps,EpisodeMaps.set_of_ne _ _ _ (by decide)]
  rfl

theorem sampleMaps_valued (env : Env) :
    ∀ e ∈ oncpuEntries env sampleMaps++offcpuEntries env sampleMaps, e.Valued := by
  rw [oncpuEntries_sampleMaps,offcpuEntries_sampleMaps,List.append_nil]
  intro e he
  rw [List.mem_singleton.mp he,Entry.Valued]
  dsimp only
  decide

def noSymbols : Symbols := ⟨[],0,fun _ => none,fun _ => some [],fun _ => []⟩

/-- There is no stack, so that the line has the task only. -/
theorem oncpuLine_named (comm : List UInt8) :
    oncpuLine (withSymbols (namedEnv comm) noSymbols) sampleMaps ⟨10,10,0,0⟩ =
      task 10 (sanitizeCommStr comm) 10 (sanitizeCommStr comm) := by
  have hframes : shownFrames (withSymbols (namedEnv comm) noSymbols) sampleMaps ⟨10,10,0,0⟩ =
      "" := rfl
  rw [oncpuLine,hframes,String.append_empty]
  rfl

/-- A task `a` with one sample is found again. -/
theorem dump_roundTrips_plain :
    RoundTrips (oncpuEntries (withSymbols (namedEnv [97]) noSymbols) sampleMaps)
        (parseFolded (kindText "on_cpu"
          (foldedRows (namedEnv [97]) noSymbols 1 sampleMaps : List (Row ℚ))) :
            Parsed (Option ℚ)) ∧
      RoundTrips (offcpuEntries (withSymbols (namedEnv [97]) noSymbols) sampleMaps)
        (parseFolded (kindText "off_cpu"
          (foldedRows (namedEnv [97]) noSymbols 1 sampleMaps : List (Row ℚ))) :
            Parsed (Option ℚ)) := by
  refine (dump_roundTrips_iff _ _ _ _ (sampleMaps_valued _)).mpr fun e he => ?_
  rw [List.mem_append,offcpuEntries_sampleMaps,or_iff_left List.not_mem_nil] at he
  refine legible_oncpu _ _ e he ?_
  rw [oncpuEntries_sampleMaps] at he
  rw [List.mem_singleton.mp he]
  dsimp only
  rw [oncpuLine_named]
  decide

theorem newline_not_roundTrips : ¬∀ (env : Env) (y : Symbols) (n : Int32) (ms : EpisodeMaps 1),
    (∀ e ∈ oncpuEntries (withSymbols env y) ms++offcpuEntries (withSymbols env y) ms, e.Valued) →
    RoundTrips (oncpuEntries (withSymbols env y) ms)
        (parseFolded (kindText "on_cpu" (foldedRows env y n ms : List (Row ℚ))) :
          Parsed (Option ℚ)) ∧
      RoundTrips (offcpuEntries (withSymbols env y) ms)
        (parseFolded (kindText "off_cpu" (foldedRows env y n ms : List (Row ℚ))) :
          Parsed (Option ℚ)) := by
  intro h
  have hvalued := sampleMaps_valued (withSymbols (namedEnv [97,10,98]) noSymbols)
  have honcpu := (List.forall_mem_append.mp hvalued).1
  have htrip := (h (namedEnv [97,10,98]) noSymbols 1 sampleMaps hvalued).1
  rw [kindText_oncpu _ _ _ _ honcpu,
    roundTrips_iff _ honcpu (blank_not_mem_oncpu _ _ _),oncpuEntries_sampleMaps] at htrip
  have hlegible := htrip _ List.mem_cons_self
  rw [Legible] at hlegible
  dsimp only at hlegible
  have hframes : framesOf (lastPiece (task 10 (sanitizeCommStr [97,10,98]) 10
      (sanitizeCommStr [97,10,98])).toList) = [['b']] := by decide
  rw [oncpuLine_named,hframes] at hlegible
  cases hlegible

end FoldedText
end ETraceDiag
