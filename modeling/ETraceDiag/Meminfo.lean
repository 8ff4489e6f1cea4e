import ETraceDiag.Metrics
import ETraceDiag.TextSearch

/-!
# The memory fields of a snapshot

`MeminfoValue` looks for the name of a field anywhere in `/proc/meminfo` and takes the number
behind the next colon. The line that it meets is the first one whose key holds the name, which
need not be the line of the field.
-/

namespace ETraceDiag
namespace Meminfo

open Metrics TextScan TextSearch

/-- The number behind the colon that follows the first occurrence of the name. -/
def meminfoValue (text name : List UInt8) : Option UInt64 :=
  ((find name text).bind (find [58])).bind fun rest =>
    (scanNumber (skipSpace (rest.drop 1))).map fun r => UInt64.ofNat r.1

/-! ## The fields -/

inductive Field
  | memTotal | memAvailable | memFree | buffers | cached | swapTotal | swapFree | anonPages
  | sreclaimable | shmem | dirty | writeback | commitLimit | committedAs
  deriving DecidableEq

namespace Field

def key : Field → String
  | memTotal => "MemTotal"
  | memAvailable => "MemAvailable"
  | memFree => "MemFree"
  | buffers => "Buffers"
  | cached => "Cached"
  | swapTotal => "SwapTotal"
  | swapFree => "SwapFree"
  | anonPages => "AnonPages"
  | sreclaimable => "SReclaimable"
  | shmem => "Shmem"
  | dirty => "Dirty"
  | writeback => "Writeback"
  | commitLimit => "CommitLimit"
  | committedAs => "Committed_AS"

def name (f : Field) : List UInt8 := f.key.toUTF8.toList

def bit : Field → UInt32
  | memTotal => 0
  | memAvailable => 1
  | memFree => 2
  | buffers => 3
  | cached => 4
  | swapTotal => 5
  | swapFree => 6
  | anonPages => 7
  | sreclaimable => 8
  | shmem => 9
  | dirty => 10
  | writeback => 11
  | commitLimit => 12
  | committedAs => 13

def value : Field → MemInfo → UInt64
  | memTotal => MemInfo.memTotalKb
  | memAvailable => MemInfo.memAvailableKb
  | memFree => MemInfo.memFreeKb
  | buffers => MemInfo.buffersKb
  | cached => MemInfo.cachedKb
  | swapTotal => MemInfo.swapTotalKb
  | swapFree => MemInfo.swapFreeKb
  | anonPages => MemInfo.anonPagesKb
  | sreclaimable => MemInfo.sreclaimableKb
  | shmem => MemInfo.shmemKb
  | dirty => MemInfo.dirtyKb
  | writeback => MemInfo.writebackKb
  | commitLimit => MemInfo.commitLimitKb
  | committedAs => MemInfo.committedAsKb

def set (v : UInt64) (m : MemInfo) : Field → MemInfo
  | memTotal => { m with memTotalKb := v }
  | memAvailable => { m with memAvailableKb := v }
  | memFree => { m with memFreeKb := v }
  | buffers => { m with buffersKb := v }
  | cached => { m with cachedKb := v }
  | swapTotal => { m with swapTotalKb := v }
  | swapFree => { m with swapFreeKb := v }
  | anonPages => { m with anonPagesKb := v }
  | sreclaimable => { m with sreclaimableKb := v }
  | shmem => { m with shmemKb := v }
  | dirty => { m with dirtyKb := v }
  | writeback => { m with writebackKb := v }
  | commitLimit => { m with commitLimitKb := v }
  | committedAs => { m with committedAsKb := v }

/-- The order in which `Snapshot` asks for them. -/
def all : List Field :=
  [memTotal,memAvailable,memFree,buffers,cached,swapTotal,swapFree,anonPages,sreclaimable,shmem,
    dirty,writeback,commitLimit,committedAs]

theorem mem_all (f : Field) : f ∈ all := by cases f <;> decide

theorem nodup_all : all.Nodup := by decide

theorem value_set (f g : Field) (v : UInt64) (m : MemInfo) :
    f.value (g.set v m) = if f = g then v else f.value m := by
  cases g <;> cases f <;> rfl

theorem bit_shift (f g : Field) : Metrics.bit (1 <<< g.bit) f.bit = decide (f = g) := by
  cases g <;> cases f <;> decide

end Field

/-- `get` of the snapshot. -/
def get (text : List UInt8) (m : MemInfo) (f : Field) : MemInfo :=
  match meminfoValue text f.name with
  | none => m
  | some v => { f.set v m with validMask := m.validMask ||| 1 <<< f.bit }

def snapshot (text : List UInt8) : MemInfo := Field.all.foldl (get text) {}

theorem bit_or (m n i : UInt32) :
    Metrics.bit (m ||| n) i = (Metrics.bit m i || Metrics.bit n i) := by
  have hdistrib : (m ||| n) &&& 1 <<< i = m &&& 1 <<< i ||| n &&& 1 <<< i := by
    rw [← UInt32.toBitVec_inj]
    simp only [UInt32.toBitVec_and,UInt32.toBitVec_or,BitVec.and_or_distrib_right]
  simp only [Metrics.bit,hdistrib,Ne,UInt32.or_eq_zero_iff]
  by_cases hm : m &&& 1 <<< i = 0 <;> simp [hm]

theorem value_get (text : List UInt8) (m : MemInfo) (f g : Field) :
    f.value (get text m g) = if f = g then (meminfoValue text f.name).getD (f.value m)
      else f.value m := by
  have hmask (n : MemInfo) (mask : UInt32) :
      f.value { n with validMask := mask } = f.value n := by cases f <;> rfl
  rw [get]
  by_cases h : f = g
  · subst h
    cases hv : meminfoValue text f.name with
    | none => simp
    | some v => simp [hmask,Field.value_set]
  · cases hv : meminfoValue text g.name with
    | none => simp [h]
    | some v => simp [hmask,Field.value_set,h]

theorem bit_get (text : List UInt8) (m : MemInfo) (f g : Field) :
    Metrics.bit (get text m g).validMask f.bit = (Metrics.bit m.validMask f.bit ||
      (decide (f = g) && (meminfoValue text f.name).isSome)) := by
  rw [get]
  by_cases h : f = g
  · subst h
    cases hv : meminfoValue text f.name with
    | none => simp
    | some v => simp [bit_or,Field.bit_shift]
  · cases hv : meminfoValue text g.name with
    | none => simp [h]
    | some v => simp [bit_or,Field.bit_shift,h]

theorem value_foldl (text : List UInt8) (f : Field) (fs : List Field) : ∀ m : MemInfo,
    f.value (fs.foldl (get text) m) =
      if f ∈ fs then (meminfoValue text f.name).getD (f.value m) else f.value m := by
  induction fs with
  | nil => intro m; rfl
  | cons g fs ih =>
    intro m
    rw [List.foldl_cons,ih,value_get]
    by_cases h : f = g
    · cases meminfoValue text f.name <;> simp [h]
    · simp [h]

theorem bit_foldl (text : List UInt8) (f : Field) (fs : List Field) : ∀ m : MemInfo,
    Metrics.bit (fs.foldl (get text) m).validMask f.bit = (Metrics.bit m.validMask f.bit ||
      (decide (f ∈ fs) && (meminfoValue text f.name).isSome)) := by
  induction fs with
  | nil => intro m; simp
  | cons g fs ih =>
    intro m
    rw [List.foldl_cons,ih,bit_get]
    by_cases h : f = g
    · cases meminfoValue text f.name <;> simp [h]
    · simp [h]

/-- Every field is what `MeminfoValue` finds under its name; without that it is zero and its bit
is not set. -/
theorem snapshot_field (text : List UInt8) (f : Field) :
    f.value (snapshot text) = (meminfoValue text f.name).getD 0 ∧
      Metrics.bit (snapshot text).validMask f.bit = (meminfoValue text f.name).isSome := by
  have hzero : f.value {} = 0 := by cases f <;> rfl
  have hbit : Metrics.bit ({} : MemInfo).validMask f.bit = false := by cases f <;> decide
  rw [snapshot,value_foldl,bit_foldl,hzero,hbit,if_pos f.mem_all]
  simp [f.mem_all]

/-! ## Lines -/

/-- A line `Key: value kB` with any number of blanks in front of the value. -/
structure Line where
  key : List UInt8
  blanks : ℕ
  value : UInt64
  colon : 58 ∉ key
  newline : 10 ∉ key

def Line.render (l : Line) : List UInt8 :=
  l.key++58::(List.replicate l.blanks 32++(decimal l.value.toNat++[32,107,66,10]))

def render (lines : List Line) : List UInt8 := lines.flatMap Line.render

/-- A word that no number and no separator is part of. -/
structure Word (name : List UInt8) : Prop where
  length : 2 < name.length
  letters : ∀ b ∈ name, b ≠ 58 ∧ b ≠ 32 ∧ b ≠ 10 ∧ isDigit b = false

theorem Field.word (f : Field) : Word f.name := by
  cases f <;> exact ⟨by decide +kernel,by decide +kernel⟩

theorem Word.ne_nil {name : List UInt8} (h : Word name) : name ≠ [] := by
  rintro rfl
  exact absurd h.length (by decide)

theorem Word.not_mem {name : List UInt8} (h : Word name) {b : UInt8}
    (hb : b = 58 ∨ b = 32 ∨ b = 10 ∨ isDigit b = true) : b ∉ name := by
  intro hmem
  obtain ⟨h58,h32,h10,hdigit⟩ := h.letters b hmem
  rcases hb with hb | hb | hb | hb
  · exact h58 hb
  · exact h32 hb
  · exact h10 hb
  · rw [hb] at hdigit
    cases hdigit

/-- What stands behind the key of a line. -/
def Line.tail (l : Line) (rest : List UInt8) : List UInt8 :=
  List.replicate l.blanks 32++(decimal l.value.toNat++32::107::66::10::rest)

theorem Line.render_append (l : Line) (rest : List UInt8) :
    l.render++rest = l.key++58::l.tail rest := by
  simp [Line.render,Line.tail]

/-- Behind the key there is no place for a word. -/
theorem find_tail {name : List UInt8} (h : Word name) (l : Line) (rest : List UInt8) :
    find name (l.tail rest) = find name rest := by
  have hsplit : l.tail rest = (List.replicate l.blanks 32++(decimal l.value.toNat++[32]))++
      ([107,66]++10::rest) := by
    simp [Line.tail]
  have hpass : ∀ x ∈ List.replicate l.blanks 32++(decimal l.value.toNat++[32]), x ∉ name := by
    intro x hx
    rcases List.mem_append.mp hx with hx | hx
    · exact h.not_mem (.inr (.inl (List.eq_of_mem_replicate hx)))
    · rcases List.mem_append.mp hx with hx | hx
      · exact h.not_mem (.inr (.inr (.inr (decimal_digits _ x hx))))
      · exact h.not_mem (.inr (.inl (List.mem_singleton.mp hx)))
  have hunit : find name [107,66] = none := by
    rw [← Option.not_isSome_iff_eq_none,find_isSome_iff]
    intro hin
    exact absurd hin.length_le (by simpa using h.length)
  rw [hsplit,find_append_of_not_mem h.ne_nil _ hpass,
    find_append_sep h.ne_nil (h.not_mem (.inr (.inr (.inl rfl)))),hunit]

theorem scan_tail (l : Line) (rest : List UInt8) :
    (scanNumber (skipSpace (l.tail rest))).map (fun r => UInt64.ofNat r.1) = some l.value := by
  have hends : Ends (32::107::66::10::rest) := by simp [Ends,isSpace]
  have hblank : ∀ n : ℕ, ∀ cs : List UInt8,
      skipSpace (List.replicate n 32++cs) = skipSpace cs := by
    intro n cs
    rw [skipSpace,List.dropWhile_append_of_pos (by
      intro c hc
      rw [List.eq_of_mem_replicate hc]
      decide),skipSpace]
  have hskip : skipSpace (decimal l.value.toNat++32::107::66::10::rest) =
      decimal l.value.toNat++32::107::66::10::rest :=
    skipSpace_field (v:=.llu) (x:=.num l.value.toNat) l.value.toNat_lt _
  rw [Line.tail,hblank,hskip,scanNumber_decimal _ l.value.toNat_lt hends,Option.map_some,
    UInt64.ofNat_toNat]

/-- The first line whose key holds the name. -/
def meets (name : List UInt8) (lines : List Line) : Option Line :=
  lines.find? fun l => (find name l.key).isSome

theorem meminfoValue_render {name : List UInt8} (h : Word name) (lines : List Line) :
    meminfoValue (render lines) name = (meets name lines).map Line.value := by
  induction lines with
  | nil =>
    have hnil : find name (render []) = none := if_neg (by simpa using h.ne_nil)
    rw [meminfoValue,hnil]
    rfl
  | cons l lines ih =>
    have hsep := find_append_sep h.ne_nil (h.not_mem (b:=58) (.inl rfl)) (l.tail (render lines))
      l.key
    rw [← Line.render_append] at hsep
    rw [meminfoValue,render,List.flatMap_cons]
    rw [render] at hsep
    rw [hsep,meets,List.find?_cons]
    cases hk : find name l.key with
    | none =>
      rw [Option.isSome_none]
      change ((find name (l.tail _)).bind _).bind _ = _
      rw [find_tail h]
      exact ih
    | some ys =>
      have hys : ∀ x ∈ ys, x ∉ [(58 : UInt8)] := by
        intro x hx hx58
        rw [List.mem_singleton.mp hx58] at hx
        exact l.colon ((find_suffix hk).subset hx)
      have hcolon : find [58] (ys++58::l.tail (render lines)) =
          some (58::l.tail (render lines)) := by
        rw [find_append_of_not_mem (by simp) _ hys]
        exact find_of_head (by simp)
      rw [render] at hcolon
      rw [Option.isSome_some,Option.bind_some,hcolon]
      exact scan_tail l _

/-! ## The line of the field -/

/-- Every field has the value of its own line, and its bit says whether there is one. -/
def Exact (lines : List Line) (m : MemInfo) : Prop :=
  ∀ f : Field, (∀ l ∈ lines, l.key = f.name → f.value m = l.value) ∧
    (Metrics.bit m.validMask f.bit = true ↔ ∃ l ∈ lines, l.key = f.name)

/-- The first line whose key holds the name states the value of the line of the field, or there
is no line of either kind. -/
structure Unshadowed (lines : List Line) (f : Field) : Prop where
  value : ∀ l ∈ lines, l.key = f.name → ∀ l' ∈ meets f.name lines, l'.value = l.value
  absent : (∀ l ∈ lines, l.key ≠ f.name) → ∀ l ∈ lines, ¬ f.name <:+: l.key

theorem meets_isSome_iff (name : List UInt8) (lines : List Line) :
    (meets name lines).isSome = true ↔ ∃ l ∈ lines, name <:+: l.key := by
  rw [meets,List.find?_isSome]
  exact exists_congr fun l => and_congr_right fun _ => find_isSome_iff name l.key

/-- The snapshot is exact exactly when no other key stands in front of a key that it holds. -/
theorem snapshot_exact_iff (lines : List Line) :
    Exact lines (snapshot (render lines)) ↔ ∀ f : Field, Unshadowed lines f := by
  refine forall_congr' fun f => ?_
  have hfield := snapshot_field (render lines) f
  rw [meminfoValue_render f.word] at hfield
  have hown : ∀ l ∈ lines, l.key = f.name → (meets f.name lines).isSome = true := fun l hl hk =>
    (meets_isSome_iff f.name lines).mpr ⟨l,hl,hk ▸ List.infix_rfl⟩
  rw [hfield.1,hfield.2,Option.isSome_map]
  constructor
  · rintro ⟨hvalue,hbit⟩
    refine ⟨fun l hl hk l' hl' => ?_,fun hno l hl hin => ?_⟩
    · have hv := hvalue l hl hk
      rwa [hl',Option.map_some,Option.getD_some] at hv
    · obtain ⟨l',hl',hk⟩ := hbit.mp ((meets_isSome_iff f.name lines).mpr ⟨l,hl,hin⟩)
      exact hno l' hl' hk
  · intro h
    refine ⟨fun l hl hk => ?_,fun hsome => ?_,fun ⟨l,hl,hk⟩ => hown l hl hk⟩
    · obtain ⟨l',hl'⟩ := Option.isSome_iff_exists.mp (hown l hl hk)
      rw [hl',Option.map_some,Option.getD_some]
      exact h.value l hl hk l' hl'
    · by_contra hno
      obtain ⟨l,hl,hin⟩ := (meets_isSome_iff f.name lines).mp hsome
      exact h.absent (fun l' hl' hk => hno ⟨l',hl',hk⟩) l hl hin

def swapCached : Line where
  key := "SwapCached".toUTF8.toList
  blanks := 1
  value := 3
  colon := by decide +kernel
  newline := by decide +kernel

def cached : Line where
  key := Field.cached.name
  blanks := 1
  value := 5
  colon := by decide +kernel
  newline := by decide +kernel

/-- The cache of the swap is reported as the page cache. -/
theorem swapCached_first_not_exact :
    ¬ Exact [swapCached,cached] (snapshot (render [swapCached,cached])) := by
  intro h
  have hvalue := (h .cached).1 cached (by simp) rfl
  have hmeets : meets Field.cached.name [swapCached,cached] = some swapCached := by
    have hin : (find Field.cached.name swapCached.key).isSome = true := by decide +kernel
    rw [meets,List.find?_cons,hin]
  rw [(snapshot_field _ .cached).1,meminfoValue_render Field.cached.word,hmeets] at hvalue
  cases hvalue

end Meminfo
end ETraceDiag
