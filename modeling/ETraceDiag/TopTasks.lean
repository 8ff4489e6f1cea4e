import ETraceDiag.FeatureTick

/-!
# The rows of the processes

`BuildTopTasks` folds the rows of the threads of a process into one: a counter is to be the sum
over the threads, what the threads share is to be the value of the process. Some counters are in
the row and in the JSON, and the fold leaves them out.
-/

namespace ETraceDiag
namespace TopTasks

open FeatureJson FeatureTick GroupFold
open ProcessTable (ProcessRow)

variable {F : Type}

/-! ## The fields -/

/-- The counters that a thread has for itself. -/
inductive Counter
  | utime | stime | nvcsw | nivcsw | minflt | majflt | rchar | wchar | syscr | syscw
  | readBytes | writeBytes | sumExecRuntimeNs | runDelayNs
  deriving DecidableEq

namespace Counter

def field : Counter → ProcessRow → UInt64
  | utime => ProcessRow.utime
  | stime => ProcessRow.stime
  | nvcsw => ProcessRow.nvcsw
  | nivcsw => ProcessRow.nivcsw
  | minflt => ProcessRow.minflt
  | majflt => ProcessRow.majflt
  | rchar => ProcessRow.rchar
  | wchar => ProcessRow.wchar
  | syscr => ProcessRow.syscr
  | syscw => ProcessRow.syscw
  | readBytes => ProcessRow.readBytes
  | writeBytes => ProcessRow.writeBytes
  | sumExecRuntimeNs => ProcessRow.sumExecRuntimeNs
  | runDelayNs => ProcessRow.runDelayNs

def key : Counter → String
  | utime => "utime"
  | stime => "stime"
  | nvcsw => "nvcsw"
  | nivcsw => "nivcsw"
  | minflt => "minflt"
  | majflt => "majflt"
  | rchar => "rchar"
  | wchar => "wchar"
  | syscr => "syscr"
  | syscw => "syscw"
  | readBytes => "read_bytes"
  | writeBytes => "write_bytes"
  | sumExecRuntimeNs => "sum_exec_runtime_ns"
  | runDelayNs => "run_delay_ns"

/-- The counters that `BuildTopTasks` has a line for. -/
def folded : Counter → Bool
  | utime | stime | nvcsw | nivcsw | minflt | majflt => true
  | _ => false

end Counter

/-- What the threads of a process share. -/
inductive Space
  | totalVm | rss | rssAnon | rssFile | rssShmem
  deriving DecidableEq

namespace Space

/-- The value as it is sent; the resident size may be missing. -/
def value : Space → ProcessRow → Option UInt64
  | totalVm, r => some r.totalVm
  | rss, r => if r.rssValid then some r.rssKb else none
  | rssAnon, r => some (r.rssAnonPages*4)
  | rssFile, r => some (r.rssFilePages*4)
  | rssShmem, r => some (r.rssShmemPages*4)

def key : Space → String
  | totalVm => "total_vm"
  | rss => "rss_kb"
  | rssAnon => "rss_anon_kb"
  | rssFile => "rss_file_kb"
  | rssShmem => "rss_shmem_kb"

/-- The kinds of resident pages. -/
def Pages (s : Space) : Prop := s = rssAnon ∨ s = rssFile ∨ s = rssShmem

end Space

/-! ## What a row is to say -/

def threads (table : List ProcessRow) (g : UInt32) : List ProcessRow :=
  table.filter (group · = g)

def total (c : Counter) (rows : List ProcessRow) : ℕ := (rows.map fun r => (c.field r).toNat).sum

/-- The threads share the value; rows that were read at different moments may not. -/
def Shared (s : Space) (rows : List ProcessRow) (v : Option UInt64) : Prop :=
  ∀ r ∈ rows, s.value r = v

/-- The row of a process whose threads have the rows. -/
structure RowOf (rows : List ProcessRow) (a : ProcessRow) : Prop where
  pid : a.pid = a.tgid
  counter : ∀ c, (Counter.field c a).toNat = total c rows
  space : ∀ s v, Shared s rows v → s.value a = v

/-- One row for each process of `procs` that occurs in the table. -/
structure Aggregates (table : List ProcessRow) (procs : List UInt32) (out : List ProcessRow) :
    Prop where
  once : (out.map ProcessRow.tgid).Nodup
  occurs : ∀ g, g ∈ out.map ProcessRow.tgid ↔ g ∈ procs ∧ ∃ r ∈ table, group r = g
  row : ∀ a ∈ out, RowOf (threads table a.tgid) a

/-- The JSON has the values of the rows. -/
structure Sent (out : List ProcessRow) (j : ByteJson F) : Prop where
  rows : j.get? "top_tasks" = some (.arr (out.map processJson))
  pid : ∀ a ∈ out, (processJson a).get? "pid" = some (ByteJson.u32 (F:=F) a.pid)
  tgid : ∀ a ∈ out, (processJson a).get? "tgid" = some (ByteJson.u32 (F:=F) a.tgid)
  counter : ∀ a ∈ out, ∀ c : Counter,
    (processJson a).get? c.key = some (ByteJson.u64 (F:=F) (c.field a))
  space : ∀ a ∈ out, ∀ s : Space,
    (processJson a).get? s.key = some ((s.value a).elim (ByteJson.null (F:=F)) ByteJson.u64)

theorem featuresJson_sent (f : AnomalyFeatures F) : Sent f.topTasks (featuresJson f) where
  rows := rfl
  pid _ _ := rfl
  tgid _ _ := rfl
  counter _ _ c := by cases c <;> rfl
  space a _ s := by
    cases s with
    | rss =>
      have hget : (processJson a).get? "rss_kb" =
          some (if a.rssValid then ByteJson.u64 (F:=F) a.rssKb else .null) := rfl
      rw [Space.key,hget,Space.value]
      cases a.rssValid <;> rfl
    | _ => rfl

/-! ## One row more -/

theorem addRow_tgid (a r : ProcessRow) :
    (addRow a r).tgid = if a.tgid = 0 then group r else a.tgid := by
  by_cases ht : a.tgid = 0 <;> by_cases hr : r.pid = group r <;> simp [addRow,ht,hr]

theorem addRow_pid (a r : ProcessRow) :
    (addRow a r).pid = if a.tgid = 0 then group r else a.pid := by
  by_cases ht : a.tgid = 0 <;> by_cases hr : r.pid = group r <;> simp [addRow,ht,hr]

theorem addRow_rss (a r : ProcessRow) :
    Space.rss.value (addRow a r) = Space.rss.value (if a.tgid = 0 then r else a) := by
  by_cases ht : a.tgid = 0 <;> by_cases hr : r.pid = group r <;> simp [addRow,Space.value,ht,hr]

theorem addRow_totalVm (a r : ProcessRow) : (addRow a r).totalVm = a.totalVm+r.totalVm := by
  by_cases ht : a.tgid = 0 <;> by_cases hr : r.pid = group r <;> simp [addRow,ht,hr]

theorem addRow_pages {s : Space} (h : s.Pages) (a r : ProcessRow) :
    s.value (addRow a r) = s.value a := by
  rcases h with rfl | rfl | rfl <;> by_cases ht : a.tgid = 0 <;>
    by_cases hr : r.pid = group r <;> simp [addRow,Space.value,ht,hr]

theorem addRow_counter (c : Counter) (a r : ProcessRow) :
    c.field (addRow a r) = if c.folded then c.field a+c.field r else c.field a := by
  by_cases ht : a.tgid = 0 <;> by_cases hr : r.pid = group r <;> cases c <;>
    simp [addRow,Counter.field,Counter.folded,ht,hr]

/-! ## All rows of a process -/

theorem toNat_foldl_addRow {field : ProcessRow → UInt64}
    (h : ∀ a r, field (addRow a r) = field a+field r) (rows : List ProcessRow) :
    ∀ a, (field (rows.foldl addRow a)).toNat =
      ((field a).toNat+(rows.map fun r => (field r).toNat).sum)%2^64 := by
  induction rows with
  | nil => intro a; simp [Nat.mod_eq_of_lt (field a).toNat_lt]
  | cons r rows ih =>
    intro a
    rw [List.foldl_cons,ih,h,UInt64.toNat_add,List.map_cons,List.sum_cons]
    omega

theorem foldl_addRow_eq {α : Type} {field : ProcessRow → α}
    (h : ∀ a r, field (addRow a r) = field a) (rows : List ProcessRow) :
    ∀ a, field (rows.foldl addRow a) = field a := by
  induction rows with
  | nil => intro a; rfl
  | cons r rows ih => intro a; rw [List.foldl_cons,ih,h]

/-- The row of a process after some of its threads: it is named, and its resident size is that
of one of them. -/
structure Started (rows : List ProcessRow) (g : UInt32) (a : ProcessRow) : Prop where
  tgid : a.tgid = g
  pid : a.pid = g
  rss : ∃ r ∈ rows, Space.rss.value a = Space.rss.value r

theorem Started.addRow {rows : List ProcessRow} {g : UInt32} {a r : ProcessRow}
    (h : Started rows g a) (hr : group r = g) : Started (r::rows) g (addRow a r) := by
  obtain ⟨r',hr',hrss⟩ := h.rss
  refine ⟨?_,?_,?_⟩
  · rw [addRow_tgid,h.tgid,hr,ite_self]
  · rw [addRow_pid,h.pid,hr,ite_self]
  · rw [addRow_rss]
    by_cases ht : a.tgid = 0
    · exact ⟨r,List.mem_cons_self ..,by rw [if_pos ht]⟩
    · exact ⟨r',List.mem_cons_of_mem _ hr',by rw [if_neg ht,hrss]⟩

theorem started_foldl {rows : List ProcessRow} {g : UInt32} (hne : rows ≠ [])
    (h : ∀ r ∈ rows, group r = g) : Started rows g (rows.foldl addRow {}) := by
  induction rows using List.reverseRecOn with
  | nil => exact absurd rfl hne
  | append_singleton rows r ih =>
    rw [List.foldl_append,List.foldl_cons,List.foldl_nil]
    have hr := h r (by simp)
    by_cases hnil : rows = []
    · subst hnil
      refine ⟨?_,?_,r,by simp,?_⟩
      · rw [List.foldl_nil,addRow_tgid,if_pos rfl,hr]
      · rw [List.foldl_nil,addRow_pid,if_pos rfl,hr]
      · rw [List.foldl_nil,addRow_rss,if_pos rfl]
    · have hstart := (ih hnil fun r' hr' => h r' (by simp [hr'])).addRow hr
      exact ⟨hstart.tgid,hstart.pid,by simpa [or_comm] using hstart.rss⟩

/-! ## When the row is right -/

/-- The fold loses nothing: the sums fit, the counters that it leaves out are zero, and so is
whatever the threads share and the fold adds up or leaves out. -/
structure Lossless (rows : List ProcessRow) : Prop where
  fits : ∀ c : Counter, c.folded = true → total c rows < 2^64
  idle : ∀ c : Counter, c.folded = false → ∀ r ∈ rows, c.field r = 0
  totalVm : ∀ v, Shared .totalVm rows (some v) → (rows.length-1)*v.toNat%2^64 = 0
  pages : ∀ s : Space, s.Pages → ∀ v, Shared s rows v → v = some 0

theorem foldl_counter (c : Counter) (rows : List ProcessRow) :
    (c.field (rows.foldl addRow {})).toNat = if c.folded then total c rows%2^64 else 0 := by
  have hzero : c.field {} = 0 := by cases c <;> rfl
  cases hc : c.folded with
  | true =>
    have hadd (a r : ProcessRow) : c.field (addRow a r) = c.field a+c.field r := by
      rw [addRow_counter,if_pos hc]
    rw [toNat_foldl_addRow hadd,hzero,UInt64.toNat_zero,Nat.zero_add,if_pos rfl,total]
  | false =>
    have hsame (a r : ProcessRow) : c.field (addRow a r) = c.field a := by
      rw [addRow_counter,if_neg (by simp [hc])]
    rw [foldl_addRow_eq hsame,hzero,if_neg Bool.false_ne_true,UInt64.toNat_zero]

theorem counter_iff (c : Counter) (rows : List ProcessRow) :
    (c.field (rows.foldl addRow {})).toNat = total c rows ↔
      if c.folded then total c rows < 2^64 else ∀ r ∈ rows, c.field r = 0 := by
  rw [foldl_counter]
  cases c.folded with
  | true => simp only [if_true]; omega
  | false =>
    rw [if_neg Bool.false_ne_true,if_neg Bool.false_ne_true,eq_comm,total,
      List.sum_eq_zero_iff_forall_eq_nat,
      List.forall_mem_map]
    exact forall₂_congr fun r _ => by rw [← UInt64.toNat_inj,UInt64.toNat_zero]

/-- A size that the threads share, added up once for each of them. -/
theorem totalVm_iff {rows : List ProcessRow} (hne : rows ≠ []) {v : UInt64}
    (h : Shared .totalVm rows (some v)) :
    (rows.foldl addRow {}).totalVm = v ↔ (rows.length-1)*v.toNat%2^64 = 0 := by
  have hmap : (rows.map fun r => r.totalVm.toNat) = List.replicate rows.length v.toNat := by
    refine List.eq_replicate_iff.mpr ⟨List.length_map .., ?_⟩
    intro x hx
    obtain ⟨r,hr,rfl⟩ := List.mem_map.mp hx
    rw [Option.some.inj (h r hr)]
  obtain ⟨n,hn⟩ : ∃ n, rows.length = n+1 :=
    Nat.exists_eq_succ_of_ne_zero fun h0 => hne (List.eq_nil_of_length_eq_zero h0)
  have hfold := toNat_foldl_addRow addRow_totalVm rows {}
  have hlt := v.toNat_lt
  rw [hmap,List.sum_replicate_nat,hn,Nat.succ_mul] at hfold
  rw [← UInt64.toNat_inj,hfold,hn,Nat.add_sub_cancel]
  change (0+(n*v.toNat+v.toNat))%2^64 = _ ↔ _
  omega

theorem rowOf_iff {rows : List ProcessRow} {g : UInt32} (hne : rows ≠ [])
    (h : ∀ r ∈ rows, group r = g) : RowOf rows (rows.foldl addRow {}) ↔ Lossless rows := by
  have hstart := started_foldl hne h
  have hpages {s : Space} (hs : s.Pages) : s.value (rows.foldl addRow {}) = some 0 := by
    rw [foldl_addRow_eq (addRow_pages hs)]
    rcases hs with rfl | rfl | rfl <;> rfl
  constructor
  · intro hrow
    refine ⟨fun c hc => ?_,fun c hc => ?_,fun v hv => ?_,fun s hs v hv => ?_⟩
    · simpa [hc] using (counter_iff c rows).mp (hrow.counter c)
    · simpa [hc] using (counter_iff c rows).mp (hrow.counter c)
    · exact (totalVm_iff hne hv).mp (Option.some.inj (hrow.space .totalVm _ hv))
    · exact (hrow.space s v hv).symm.trans (hpages hs)
  · intro hl
    refine ⟨by rw [hstart.pid,hstart.tgid],fun c => (counter_iff c rows).mpr ?_,
      fun s v hv => ?_⟩
    · cases hc : c.folded with
      | true => exact hl.fits c hc
      | false => exact hl.idle c hc
    · cases s with
      | totalVm =>
        obtain ⟨r,hr⟩ := List.exists_mem_of_ne_nil rows hne
        obtain rfl := hv r hr
        exact congrArg some ((totalVm_iff hne hv).mpr (hl.totalVm _ hv))
      | rss =>
        obtain ⟨r,hr,hrss⟩ := hstart.rss
        exact hrss.trans (hv r hr)
      | rssAnon => rw [hpages (.inl rfl),hl.pages _ (.inl rfl) v hv]
      | rssFile => rw [hpages (.inr (.inl rfl)),hl.pages _ (.inr (.inl rfl)) v hv]
      | rssShmem => rw [hpages (.inr (.inr rfl)),hl.pages _ (.inr (.inr rfl)) v hv]

/-! ## The table -/

theorem threads_filter {table : List ProcessRow} {procs : List UInt32} {g : UInt32}
    (hg : g ∈ procs) : threads (table.filter fun r => group r ∈ procs) g = threads table g := by
  rw [threads,List.filter_filter,threads]
  refine List.filter_congr fun r _ => ?_
  by_cases hr : group r = g <;> simp [hr,hg]

/-- The rows are the folds of the threads of the processes that occur. -/
theorem mem_buildTopTasks (σ : CpuSort) (table : List ProcessRow) (procs : List UInt32)
    (a : ProcessRow) : a ∈ buildTopTasks σ table procs ↔
      ∃ g ∈ procs, threads table g ≠ [] ∧ (threads table g).foldl addRow {} = a := by
  rw [buildTopTasks,(σ.perm _).mem_iff,List.mem_map]
  simp only [Prod.exists,exists_eq_right,mem_groupFold]
  refine exists_congr fun g => ?_
  constructor
  · rintro ⟨⟨r,hr,rfl⟩,hfold⟩
    obtain ⟨hr,hg⟩ := List.mem_filter.mp hr
    have hg : group r ∈ procs := by simpa using hg
    refine ⟨hg,List.ne_nil_of_mem (List.mem_filter.mpr ⟨hr,by simp⟩),?_⟩
    rw [← threads_filter hg]
    exact hfold
  · rintro ⟨hg,hne,hfold⟩
    obtain ⟨r,hr⟩ := List.exists_mem_of_ne_nil _ hne
    obtain ⟨hr,heq⟩ := List.mem_filter.mp hr
    have heq : group r = g := by simpa using heq
    refine ⟨⟨r,List.mem_filter.mpr ⟨hr,by simp [heq,hg]⟩,heq⟩,?_⟩
    rw [← threads_filter hg] at hfold
    exact hfold

theorem group_of_mem_threads {table : List ProcessRow} {g : UInt32} :
    ∀ r ∈ threads table g, group r = g := fun r hr => by
  simpa using (List.mem_filter.mp hr).2

theorem tgid_fold {table : List ProcessRow} {g : UInt32} (hne : threads table g ≠ []) :
    ((threads table g).foldl addRow {}).tgid = g :=
  (started_foldl hne group_of_mem_threads).tgid

theorem threads_ne_nil_iff {table : List ProcessRow} {g : UInt32} :
    threads table g ≠ [] ↔ ∃ r ∈ table, group r = g := by
  simp [threads,List.filter_eq_nil_iff]

theorem nodup_tgids (σ : CpuSort) (table : List ProcessRow) (procs : List UInt32) :
    ((buildTopTasks σ table procs).map ProcessRow.tgid).Nodup := by
  rw [buildTopTasks,((σ.perm _).map _).nodup_iff,List.map_map]
  have hkeys : ∀ p ∈ (groupFold compare group addRow {}
      (table.filter fun r => group r ∈ procs)).toList, (ProcessRow.tgid ∘ Prod.snd) p = p.1 := by
    rintro ⟨g,a⟩ hmem
    obtain ⟨hex,rfl⟩ := (mem_groupFold ..).mp hmem
    exact tgid_fold (threads_ne_nil_iff.mpr hex)
  rw [List.map_congr_left hkeys]
  exact nodup_keys_toList _

theorem aggregates_iff (σ : CpuSort) (table : List ProcessRow) (procs : List UInt32) :
    Aggregates table procs (buildTopTasks σ table procs) ↔
      ∀ g ∈ procs, threads table g ≠ [] → Lossless (threads table g) := by
  constructor
  · intro h g hg hne
    have hrow := h.row _ ((mem_buildTopTasks σ table procs _).mpr ⟨g,hg,hne,rfl⟩)
    rw [tgid_fold hne] at hrow
    exact (rowOf_iff hne group_of_mem_threads).mp hrow
  · intro h
    refine ⟨nodup_tgids σ table procs,fun g => ?_,fun a ha => ?_⟩
    · rw [← threads_ne_nil_iff,List.mem_map]
      constructor
      · rintro ⟨a,ha,rfl⟩
        obtain ⟨g,hg,hne,rfl⟩ := (mem_buildTopTasks σ table procs a).mp ha
        rw [tgid_fold hne]
        exact ⟨hg,hne⟩
      · rintro ⟨hg,hne⟩
        exact ⟨_,(mem_buildTopTasks σ table procs _).mpr ⟨g,hg,hne,rfl⟩,tgid_fold hne⟩
    · obtain ⟨g,hg,hne,rfl⟩ := (mem_buildTopTasks σ table procs a).mp ha
      rw [tgid_fold hne]
      exact (rowOf_iff hne group_of_mem_threads).mpr (h g hg hne)

/-- The features have the right rows and the JSON sends them exactly when the fold loses nothing
of any process that the tick is about. -/
theorem topTasks_sent_iff (σ : CpuSort) (t : Tick F) :
    Aggregates t.table t.want (t.features σ).topTasks ∧
        Sent (t.features σ).topTasks (featuresJson (t.features σ)) ↔
      ∀ g ∈ t.want, threads t.table g ≠ [] → Lossless (threads t.table g) := by
  rw [and_iff_left (featuresJson_sent _)]
  exact aggregates_iff σ t.table t.want

/-- One thread, which has read a page. -/
def reader : Tick ℤ where
  host := { load := ⟨0,0,0,1,1⟩, psi := ⟨restPsi,restPsi,restPsi⟩ }
  cgroup := { cpuPsi := restPsi, memoryPsi := restPsi }
  table := [{ pid := 7, tgid := 7, readBytes := 4096 }]
  procs := [7]

theorem reader_not_sent :
    ¬ (Aggregates reader.table reader.want (reader.features stableSort).topTasks ∧
      Sent (reader.features stableSort).topTasks (featuresJson (reader.features stableSort))) := by
  intro h
  have hl := (aggregates_iff stableSort reader.table reader.want).mp h.1 7 (by decide) (by decide)
  have hzero := hl.idle .readBytes rfl { pid := 7, tgid := 7, readBytes := 4096 } (by decide)
  cases hzero

end TopTasks
end ETraceDiag
