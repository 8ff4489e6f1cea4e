import ETraceDiag.RecordSeqlock
import ETraceDiag.SeriesFrame

/-!
# The series of an episode

From the commits of the recorder to the telemetry frame of the diagnosis: `Enter` and the
drains take the records out of the ring, write them as pre and post rows of `deep_series`, and
`BuildEvidence` reads these back. Both producer modes share the ring; only the merging differs.
-/

namespace ETraceDiag
namespace EpisodeSeries

open SeqLock Transition RecordSeqlock PerCpuMerge SqlTable JsonValue PyValue EvidenceStore
  CausalInput SeriesFrame
open FlightRecorder (Capacity Job)

/-- The name up to its first zero byte. -/
def commText (v : Snapshot) : String :=
  String.ofList ((((List.finRange 16).map fun i => v (.comm i)).takeWhile (· ≠ 0)).map
    fun byte => Char.ofNat byte.toNat)

/-- A slot of the ring as the collector's record. -/
def kernelRec (b : Rec) : KernelSnapshotRec where
  seq := UInt64.ofNat b.seq
  tsNs := b.val .tsNs
  tgid := b.val .tgid
  tid := b.val .tid
  comm := commText b.val
  wide := fun w => b.val (.wide w)
  narrow := fun n => b.val (.narrow n)
  hist := fun h i => b.val (.hist h i)
  flags := b.val .flags

/-- The ring, the producer mode and the two sample intervals. -/
structure Setup where
  capacity : Capacity
  perCpu : Bool
  preIntervalMs : UInt64
  postIntervalMs : UInt64

def Setup.intervalMs (setup : Setup) : Job → UInt64
  | .pre => setup.preIntervalMs
  | .post _ => setup.postIntervalMs

def sortRecs (recs : List KernelSnapshotRec) : List KernelSnapshotRec :=
  recs.insertionSort fun a b => a.tsNs ≤ b.tsNs

/-- The rows that a loop over the ring writes. -/
def Setup.rows (setup : Setup) (job : Job) (recs : List Rec) : List CanonicalSnapshot :=
  let recs := recs.map kernelRec
  (if setup.perCpu then mergePerCpu recs (setup.intervalMs job) else sortRecs recs).map
    decodeSnapshot

variable {F : Type}

/-- `seam` is history: the `prev_head_` of `Enter`. -/
structure Episode (F : Type) where
  recorder : State
  writer : OutputWriter F
  seam : ℕ := 0

/-- The other writes of the main loop and of `FinalizeDeep`. -/
def aside : Op F → Bool
  | .openDeep _ | .closeDeep | .writeSeries _ _ => false
  | _ => true

inductive Input (F : Type)
  | recorder (a : Action)
  | write (op : Op F)

/-- The phase column of the rows. -/
def phase : Job → Bool
  | .pre => false
  | .post _ => true

/-- A loop that has ended writes its rows. -/
def Setup.writes (setup : Setup) (s : State) : Action → List (Op F)
  | .advance =>
    match s.pc with
    | .scan job i stop recs =>
      if i < stop then [] else (setup.rows job recs).map (.writeSeries (phase job))
    | _ => []
  | _ => []

def seamAfter (e : Episode F) (a : Action) : ℕ :=
  match a,e.recorder.pc with
  | .enter _ _,.base => e.recorder.ring.head
  | _,_ => e.seam

def Setup.step [Double F] (setup : Setup) (e : Episode F) : Input F → Episode F
  | .recorder a =>
    { recorder := RecordSeqlock.step setup.capacity e.recorder a
      writer := (setup.writes e.recorder a).foldl EvidenceStore.step e.writer
      seam := seamAfter e a }
  | .write op => if aside op then { e with writer := EvidenceStore.step e.writer op } else e

/-- What the database was written before, and the new ordinal of the episode. -/
structure Opening (F : Type) where
  history : List (Op F)
  ordinal : Int32
  fresh : ofEpisode ordinal (history.foldl Ledger.step {}).series = []

def Opening.episode [Double F] (o : Opening F) : Episode F where
  recorder := {}
  writer := EvidenceStore.step (o.history.foldl EvidenceStore.step {}) (.openDeep o.ordinal)

/-- The thread and the time of a record. -/
def sampleKey (v : Snapshot) : UInt32 × UInt64 := (v .tid,v .tsNs)

/-- The lookups lose no race, no record numbered above the `prev_head_` of `Enter` repeats the
thread and the time of one that is not, and `ExtractPre` takes no record above `prev_head_`. -/
def Setup.StepOk (setup : Setup) (e : Episode F) : Input F → Prop
  | .recorder a => RecordSeqlock.StepOk setup.capacity e.recorder a ∧
    match a with
    | .reserve now deep scr => e.recorder.pc ≠ .base → e.seam < e.recorder.ring.head →
      ∀ i v, i ≤ e.seam → e.recorder.ring.items[i]? = some v →
        sampleKey v ≠ sampleKey (stamped now deep scr)
    | .advance =>
      match e.recorder.pc with
      | .copy .pre i _ aSeq b [] _ => e.recorder.prevHead < i →
        accepts .pre e.recorder.cutoff i aSeq b = false
      | _ => True
    | _ => True
  | .write _ => True

/-- The series tells no row twice, and the decoder gets its frame. -/
def Decodable [Micros F] [Python F] (ctx : PhaseManager.CausalContext F) (ev : Evidence F) :
    Prop :=
  (ev.series.map rowId).Nodup ∧
    ∃ f, evidenceFrame (wire Python.finite (evidenceBody ctx ev)) = .ok f

/-! ## What is stored -/

/-- The episode's rows, each with a thread and a time that are on its side. -/
structure Stored [Double F] (n : Int32) (side : Bool → UInt32 × UInt64 → Prop)
    (w : OutputWriter F) (l : Ledger F) : Prop where
  refines : Refines w l
  ordinal : l.ordinal = n
  keys : l.series.Pairwise fun a b => seriesKey a ≠ seriesKey b
  memory : w.db.memoryEvents.Pairwise fun a b => key "ts_ns" a ≠ key "ts_ns" b
  sides : ∀ e ∈ ofEpisode n l.series, side e.1 (e.2.tid,e.2.tsNs)

theorem insertUnique_pairwise [Double F] {col : String} {row : Row F} {table : List (Row F)}
    (h : table.Pairwise fun a b => key col a ≠ key col b) :
    (insertUnique [col] row table).Pairwise fun a b => key col a ≠ key col b := by
  unfold insertUnique
  split
  · exact h
  · next hany =>
    refine List.pairwise_append.mpr ⟨h,List.pairwise_singleton _ _,fun a ha b hb heq => hany ?_⟩
    rw [List.mem_singleton.mp hb] at heq
    exact List.any_eq_true.mpr ⟨a,ha,by simp [sameKey,heq]⟩

theorem memory_step [Double F] {w : OutputWriter F}
    (h : w.db.memoryEvents.Pairwise fun a b => key "ts_ns" a ≠ key "ts_ns" b) (op : Op F) :
    (EvidenceStore.step w op).db.memoryEvents.Pairwise fun a b =>
      key "ts_ns" a ≠ key "ts_ns" b := by
  have hdeep : ∀ write : Db F → Db F, (write w.db).memoryEvents = w.db.memoryEvents →
      (w.deep write).db.memoryEvents = w.db.memoryEvents := by
    intro write hwrite
    unfold OutputWriter.deep
    split
    · rfl
    · exact hwrite
  cases op with
  | writeMemoryEvent ts kswapdActive directReclaim nrReclaimed => exact insertUnique_pairwise h
  | openDeep ordinal => exact h
  | closeDeep => exact h
  | writeOomEvent ts pid comm => exact h
  | writeSeries post s => rwa [EvidenceStore.step,hdeep _ rfl]
  | writeDeepSyscall r => rwa [EvidenceStore.step,hdeep _ rfl]
  | writeDeepLock r => rwa [EvidenceStore.step,hdeep _ rfl]
  | writeDeepRunq r => rwa [EvidenceStore.step,hdeep _ rfl]
  | writeDeepIoFile r => rwa [EvidenceStore.step,hdeep _ rfl]

theorem series_deep {l : Ledger F} {write : Ledger F → Ledger F}
    (h : (write l).series = l.series ∧ (write l).ordinal = l.ordinal) :
    (l.deep write).series = l.series ∧ (l.deep write).ordinal = l.ordinal := by
  unfold Ledger.deep
  split
  · exact ⟨rfl,rfl⟩
  · exact h

/-- The other writes leave the series alone. -/
theorem series_aside (l : Ledger F) {op : Op F} (h : aside op = true) :
    (l.step op).series = l.series ∧ (l.step op).ordinal = l.ordinal := by
  cases op with
  | openDeep ordinal => cases h
  | closeDeep => cases h
  | writeSeries post s => cases h
  | writeMemoryEvent ts kswapdActive directReclaim nrReclaimed => exact ⟨rfl,rfl⟩
  | writeOomEvent ts pid comm => exact ⟨rfl,rfl⟩
  | writeDeepSyscall r => exact series_deep ⟨rfl,rfl⟩
  | writeDeepLock r => exact series_deep ⟨rfl,rfl⟩
  | writeDeepRunq r => exact series_deep ⟨rfl,rfl⟩
  | writeDeepIoFile r => exact series_deep ⟨rfl,rfl⟩

/-- A row is refused or comes last, with a key of its own. -/
theorem series_writeSeries (l : Ledger F) (post : Bool) (s : CanonicalSnapshot) :
    (l.step (.writeSeries post s)).ordinal = l.ordinal ∧
      ((l.step (.writeSeries post s)).series = l.series ∨
        (l.step (.writeSeries post s)).series = l.series++[(l.ordinal,post,s)] ∧
          ∀ e ∈ l.series, seriesKey e ≠ seriesKey (l.ordinal,post,s)) := by
  simp only [Ledger.step,Ledger.deep]
  split
  · exact ⟨rfl,Or.inl rfl⟩
  · split
    · exact ⟨rfl,Or.inl rfl⟩
    · next hany =>
      refine ⟨rfl,Or.inr ⟨rfl,fun e he heq => hany ?_⟩⟩
      exact List.any_eq_true.mpr ⟨e,he,by simp [heq]⟩

theorem pairwise_step {l : Ledger F}
    (h : l.series.Pairwise fun a b => seriesKey a ≠ seriesKey b) (op : Op F) :
    (l.step op).series.Pairwise fun a b => seriesKey a ≠ seriesKey b := by
  cases haside : aside op with
  | true =>
    rw [(series_aside l haside).1]
    exact h
  | false =>
    cases op with
    | openDeep ordinal => exact h
    | closeDeep => exact h
    | writeSeries post s =>
      rcases (series_writeSeries l post s).2 with hsame | ⟨hrow,hnew⟩
      · rw [hsame]
        exact h
      · rw [hrow]
        refine List.pairwise_append.mpr ⟨h,List.pairwise_singleton _ _,fun e he b hb => ?_⟩
        rw [List.mem_singleton.mp hb]
        exact hnew e he
    | _ => cases haside

theorem tables_run [Double F] (ops : List (Op F)) : ∀ {w : OutputWriter F} {l : Ledger F},
    (l.series.Pairwise fun a b => seriesKey a ≠ seriesKey b) →
    (w.db.memoryEvents.Pairwise fun a b => key "ts_ns" a ≠ key "ts_ns" b) →
    ((ops.foldl Ledger.step l).series.Pairwise fun a b => seriesKey a ≠ seriesKey b) ∧
      (ops.foldl EvidenceStore.step w).db.memoryEvents.Pairwise fun a b =>
        key "ts_ns" a ≠ key "ts_ns" b := by
  induction ops with
  | nil => exact fun h hmemory => ⟨h,hmemory⟩
  | cons op ops ih => exact fun h hmemory => ih (pairwise_step h op) (memory_step hmemory op)

section Stored

variable [Double F] {n : Int32} {side side' : Bool → UInt32 × UInt64 → Prop}
  {w : OutputWriter F} {l : Ledger F}

theorem Stored.mono (h : Stored n side w l) (hside : ∀ post k, side post k → side' post k) :
    Stored n side' w l :=
  ⟨h.refines,h.ordinal,h.keys,h.memory,fun e he => hside _ _ (h.sides e he)⟩

theorem Stored.aside (h : Stored n side w l) {op : Op F} (hop : aside op = true) :
    Stored n side (EvidenceStore.step w op) (l.step op) := by
  obtain ⟨hseries,hordinal⟩ := series_aside l hop
  refine ⟨refines_step h.refines op,hordinal.trans h.ordinal,pairwise_step h.keys op,
    memory_step h.memory op,?_⟩
  rw [hseries]
  exact h.sides

theorem Stored.writeSeries (h : Stored n side w l) {post : Bool} {s : CanonicalSnapshot}
    (hs : side post (s.tid,s.tsNs)) :
    Stored n side (EvidenceStore.step w (.writeSeries post s)) (l.step (.writeSeries post s)) := by
  obtain ⟨hordinal,hseries⟩ := series_writeSeries l post s
  refine ⟨refines_step h.refines _,hordinal.trans h.ordinal,pairwise_step h.keys _,
    memory_step h.memory _,?_⟩
  rcases hseries with hsame | ⟨hrow,_⟩
  · rw [hsame]
    exact h.sides
  · intro e he
    rw [hrow,ofEpisode,List.filter_append,List.map_append] at he
    rcases List.mem_append.mp he with he | he
    · exact h.sides e he
    · obtain ⟨r,hr,rfl⟩ := List.mem_map.mp he
      rw [List.mem_singleton.mp (List.mem_filter.mp hr).1]
      exact hs

theorem Stored.writes (post : Bool) (rows : List CanonicalSnapshot) :
    ∀ {w : OutputWriter F} {l : Ledger F}, Stored n side w l →
      (∀ s ∈ rows, side post (s.tid,s.tsNs)) →
      Stored n side ((rows.map (.writeSeries post)).foldl EvidenceStore.step w)
        ((rows.map (.writeSeries post)).foldl Ledger.step l) := by
  induction rows with
  | nil => exact fun h _ => h
  | cons s rows ih =>
    intro w l h hrows
    exact ih (h.writeSeries (hrows s List.mem_cons_self))
      fun s hs => hrows s (List.mem_cons_of_mem _ hs)

/-- Where the two phases have no thread and time in common, no thread has two rows of one
time. -/
theorem Stored.points_nodup (h : Stored n side w l)
    (hapart : ∀ k, ¬ (side true k ∧ side false k)) (tid : UInt32) :
    (((l.points n).filter (·.tid = tid)).map SeriesPoint.ts).Nodup := by
  have hrows : (ofEpisode n l.series).Pairwise fun a b =>
      (a.2.tid,a.2.tsNs) ≠ (b.2.tid,b.2.tsNs) := by
    have hphases : (ofEpisode n l.series).Pairwise fun a b =>
        (a.1,a.2.tsNs,a.2.tid) ≠ (b.1,b.2.tsNs,b.2.tid) := by
      rw [ofEpisode,List.pairwise_map,List.pairwise_filter]
      refine h.keys.imp fun {a b} hne ha hb heq => hne ?_
      rw [seriesKey,seriesKey,of_decide_eq_true ha,of_decide_eq_true hb,heq]
    refine hphases.imp_of_mem fun {a b} ha hb hne heq => ?_
    obtain ⟨htid,hts⟩ := Prod.mk.inj heq
    have hsideA := h.sides a ha
    have hsideB := h.sides b hb
    rw [← heq] at hsideB
    cases hpostA : a.1 <;> cases hpostB : b.1
    · exact hne (by rw [hpostA,hpostB,htid,hts])
    · exact hapart _ ⟨hpostB ▸ hsideB,hpostA ▸ hsideA⟩
    · exact hapart _ ⟨hpostA ▸ hsideA,hpostB ▸ hsideB⟩
    · exact hne (by rw [hpostA,hpostB,htid,hts])
  rw [Ledger.points,List.filter_map,List.map_map,List.Nodup,List.pairwise_map,
    List.pairwise_filter]
  refine hrows.imp fun {a b} hne ha hb hts => hne ?_
  have htidA : a.2.tid = tid := of_decide_eq_true ha
  have htidB : b.2.tid = tid := of_decide_eq_true hb
  exact Prod.ext (htidA.trans htidB.symm) hts

end Stored

theorem Stored.decodable [Micros F] [Python F] (hfloat : FloatsWords F) {n : Int32}
    {side : Bool → UInt32 × UInt64 → Prop} {w : OutputWriter F} {l : Ledger F}
    (h : Stored n side w l) (hapart : ∀ k, ¬ (side true k ∧ side false k))
    (ctx : PhaseManager.CausalContext F) : Decodable ctx (buildEvidence w.db n) := by
  have hnodup : ((buildEvidence w.db n).series.map rowId).Nodup := by
    refine (nodup_series_iff h.memory n).mpr fun tid _ => ?_
    have hperm := ((points_perm h.refines n).filter (·.tid = tid)).map SeriesPoint.ts
    exact hperm.nodup_iff.mpr (h.points_nodup hapart tid)
  exact ⟨hnodup,(evidenceFrame_iff hfloat ctx w.db n).mpr hnodup⟩

/-! ## Along a run -/

/-- A record on this side of the seam has the thread and the time. -/
def Side (items : List Snapshot) (seam : ℕ) (post : Bool) (k : UInt32 × UInt64) : Prop :=
  ∃ i v, items[i]? = some v ∧ sampleKey v = k ∧ (post = true ↔ seam < i)

def Episode.Side (e : Episode F) (post : Bool) (k : UInt32 × UInt64) : Prop :=
  e.recorder.pc ≠ .base ∧ EpisodeSeries.Side e.recorder.ring.items e.seam post k

/-- The loop is on its side of the seam, and so are the records it has taken. -/
def Episode.Loop (e : Episode F) (job : Job) (i stop : ℕ) (recs : List Rec) : Prop :=
  (match job with
    | .pre => e.recorder.prevHead = e.seam
    | .post _ => e.seam < i ∧ e.seam < stop) ∧
  ∀ b ∈ recs, EpisodeSeries.Side e.recorder.ring.items e.seam (phase job) (sampleKey b.val)

def Episode.Phase (e : Episode F) : Prop :=
  match e.recorder.pc with
  | .base => True
  | .entered => e.recorder.prevHead = e.seam
  | .scan job i stop recs => e.Loop job i stop recs
  | .stamp job i stop _ recs => e.Loop job i stop recs
  | .copy job i stop _ _ _ recs => e.Loop job i stop recs
  | .ready => e.seam ≤ e.recorder.prevHead
  | .done => True

/-- No thread and time is on both sides of the seam, and all that has been taken or stored is on
its own. -/
structure Inv [Double F] (setup : Setup) (n : Int32) (e : Episode F) : Prop where
  seqlock : RecordSeqlock.Inv setup.capacity e.recorder
  seam : e.recorder.pc ≠ .base → e.seam ≤ e.recorder.ring.head
  apart : ∀ k, ¬ (e.Side true k ∧ e.Side false k)
  phase : e.Phase
  stored : ∃ l, Stored n e.Side e.writer l

theorem ne_base {p : Pc} (h : p.started = true) : p ≠ .base := by
  rintro rfl
  cases h

theorem Side.mono {items rest : List Snapshot} {seam : ℕ} {post : Bool} {k : UInt32 × UInt64}
    (h : Side items seam post k) : Side (items++rest) seam post k := by
  obtain ⟨i,v,hv,hk,hpost⟩ := h
  refine ⟨i,v,?_,hk,hpost⟩
  rwa [List.getElem?_append_left (List.getElem?_eq_some_iff.mp hv).1]

theorem Episode.Loop.succ {e : Episode F} {job : Job} {i stop : ℕ} {recs : List Rec}
    (h : e.Loop job i stop recs) : e.Loop job (i+1) stop recs := by
  refine ⟨?_,h.2⟩
  cases job with
  | pre => exact h.1
  | post final => exact ⟨Nat.lt_succ_of_lt h.1.1,h.1.2⟩

theorem mem_rows {setup : Setup} {job : Job} {recs : List Rec} {s : CanonicalSnapshot}
    (h : s ∈ setup.rows job recs) : ∃ b ∈ recs, (s.tid,s.tsNs) = sampleKey b.val := by
  obtain ⟨r,hr,rfl⟩ := List.mem_map.mp h
  have hsource : ∃ t ∈ recs.map kernelRec, t.tid = r.tid ∧ t.tsNs = r.tsNs := by
    split at hr
    · exact mem_mergePerCpu hr
    · exact ⟨r,(List.perm_insertionSort _ _).mem_iff.mp hr,rfl,rfl⟩
  obtain ⟨t,ht,htid,hts⟩ := hsource
  obtain ⟨b,hb,rfl⟩ := List.mem_map.mp ht
  exact ⟨b,hb,Prod.ext htid.symm hts.symm⟩

section Steps

variable [Double F] {setup : Setup} {n : Int32} {e : Episode F}

/-- The producers number at most one record, and it keeps to its side. -/
theorem Inv.produce (h : Inv setup n e) {r : SeqLock.Ring Field.Val} (rest : List Snapshot)
    (hring : RecordSeqlock.Inv setup.capacity { e.recorder with ring := r })
    (hitems : r.items = e.recorder.ring.items++rest) (hone : rest.length ≤ 1)
    (hnew : e.recorder.pc ≠ .base → e.seam < e.recorder.ring.head → ∀ v ∈ rest, ∀ j w,
      j ≤ e.seam → e.recorder.ring.items[j]? = some w → sampleKey w ≠ sampleKey v) :
    Inv setup n { e with recorder := { e.recorder with ring := r } } := by
  have hmono : ∀ post k, EpisodeSeries.Side e.recorder.ring.items e.seam post k →
      EpisodeSeries.Side r.items e.seam post k := by
    intro post k hk
    rw [hitems]
    exact hk.mono
  refine ⟨hring,fun hpc => ?_,?_,?_,?_⟩
  · refine Nat.le_trans (h.seam hpc) ?_
    show e.recorder.ring.items.length ≤ r.items.length
    rw [hitems,List.length_append]
    exact Nat.le_add_right _ _
  · rintro k ⟨⟨hpc,i,v,hv,hkv,hi⟩,_,j,w,hw,hkw,hj⟩
    have hseam : e.seam < i := hi.mp rfl
    have hle : j ≤ e.seam := Nat.not_lt.mp fun hlt => Bool.false_ne_true (hj.mpr hlt)
    change r.items[i]? = some v at hv
    change r.items[j]? = some w at hw
    have hlen : i < e.recorder.ring.items.length+rest.length := by
      rw [← List.length_append,← hitems]
      exact (List.getElem?_eq_some_iff.mp hv).1
    have hjold : j < e.recorder.ring.items.length := by omega
    rw [hitems,List.getElem?_append_left hjold] at hw
    by_cases hold : i < e.recorder.ring.items.length
    · rw [hitems,List.getElem?_append_left hold] at hv
      exact h.apart k ⟨⟨hpc,i,v,hv,hkv,hi⟩,hpc,j,w,hw,hkw,hj⟩
    · rw [hitems,List.getElem?_append_right (Nat.not_lt.mp hold)] at hv
      have hhead : e.seam < e.recorder.ring.head := by
        show e.seam < e.recorder.ring.items.length
        omega
      exact hnew hpc hhead v (List.mem_of_getElem? hv) j w hle hw (hkw.trans hkv.symm)
  · have hphase := h.phase
    unfold Episode.Phase at hphase ⊢
    show match e.recorder.pc with | _ => _
    cases hpc : e.recorder.pc with
    | scan job i stop recs =>
      simp only [hpc] at hphase ⊢
      exact ⟨hphase.1,fun b hb => hmono _ _ (hphase.2 b hb)⟩
    | stamp job i stop aSeq recs =>
      simp only [hpc] at hphase ⊢
      exact ⟨hphase.1,fun b hb => hmono _ _ (hphase.2 b hb)⟩
    | copy job i stop aSeq b rest recs =>
      simp only [hpc] at hphase ⊢
      exact ⟨hphase.1,fun b hb => hmono _ _ (hphase.2 b hb)⟩
    | base => trivial
    | entered => simpa only [hpc] using hphase
    | ready => simpa only [hpc] using hphase
    | done => trivial
  · obtain ⟨l,hl⟩ := h.stored
    exact ⟨l,hl.mono fun post k hk => ⟨hk.1,hmono post k hk.2⟩⟩

theorem inv_reserve (h : Inv setup n e) {now : UInt64} {deep : Bool} {scr : Snapshot}
    (hok : setup.StepOk e (.recorder (.reserve now deep scr))) :
    Inv setup n (setup.step e (.recorder (.reserve now deep scr))) := by
  refine h.produce [stamped now deep scr]
    (RecordSeqlock.inv_step _ _ h.seqlock hok.1) rfl (Nat.le_refl 1) ?_
  intro hpc hhead v hv j w hj hw
  rw [List.mem_singleton.mp hv]
  exact hok.2 hpc hhead j w hj hw

theorem inv_store (h : Inv setup n e) {i : ℕ} (hok : setup.StepOk e (.recorder (.store i))) :
    Inv setup n (setup.step e (.recorder (.store i))) := by
  refine h.produce [] (RecordSeqlock.inv_step _ _ h.seqlock hok.1) ?_ (Nat.zero_le 1) ?_
  · rw [List.append_nil]
    exact items_store
  · exact fun _ _ v hv => absurd hv List.not_mem_nil

/-- The consumer goes on in the same ring. -/
theorem Inv.consume (h : Inv setup n e) (hpc : e.recorder.pc.started = true) {s : State}
    (hinv : RecordSeqlock.Inv setup.capacity s) (hring : s.ring = e.recorder.ring)
    (hbase : s.pc.started = true) (hphase : Episode.Phase { e with recorder := s }) {w : OutputWriter F}
    (hstored : ∃ l, Stored n e.Side w l) : Inv setup n ⟨s,w,e.seam⟩ := by
  have hside : ∀ post k, Episode.Side ⟨s,w,e.seam⟩ post k ↔ e.Side post k := by
    intro post k
    show (s.pc ≠ .base ∧ EpisodeSeries.Side s.ring.items e.seam post k) ↔ _
    rw [hring]
    exact and_congr_left fun _ => iff_of_true (ne_base hbase) (ne_base hpc)
  refine ⟨hinv,fun _ => ?_,fun k => ?_,hphase,?_⟩
  · show e.seam ≤ s.ring.head
    rw [hring]
    exact h.seam (ne_base hpc)
  · rw [hside,hside]
    exact h.apart k
  · obtain ⟨l,hl⟩ := hstored
    exact ⟨l,hl.mono fun post k => (hside post k).mpr⟩

theorem inv_enter (h : Inv setup n e) {anomalyStartNs preAnomalySeconds : UInt64}
    (hok : setup.StepOk e (.recorder (.enter anomalyStartNs preAnomalySeconds))) :
    Inv setup n (setup.step e (.recorder (.enter anomalyStartNs preAnomalySeconds))) := by
  have hinv := RecordSeqlock.inv_step _ _ h.seqlock hok.1
  by_cases hpc : e.recorder.pc = .base
  · have hseam : seamAfter e (.enter anomalyStartNs preAnomalySeconds) = e.recorder.ring.head := by
      simp only [seamAfter,hpc]
    simp only [RecordSeqlock.step,State.enter,hpc] at hinv
    simp only [Setup.step,Setup.writes,RecordSeqlock.step,State.enter,hpc,hseam,List.foldl_nil]
    refine ⟨hinv,fun _ => Nat.le_refl _,?_,rfl,?_⟩
    · rintro k ⟨⟨_,i,v,hv,_,hi⟩,_⟩
      exact absurd (List.getElem?_eq_some_iff.mp hv).1 (Nat.lt_asymm (hi.mp rfl))
    · obtain ⟨l,hl⟩ := h.stored
      exact ⟨l,hl.mono fun post k hk => absurd hpc hk.1⟩
  · have hrecorder : e.recorder.enter anomalyStartNs preAnomalySeconds = e.recorder := by
      unfold State.enter
      split
      · next hbase => exact absurd hbase hpc
      · rfl
    have hseam : seamAfter e (.enter anomalyStartNs preAnomalySeconds) = e.seam := by
      unfold seamAfter
      split
      · next hbase => exact absurd hbase hpc
      · rfl
    have hsame : setup.step e (.recorder (.enter anomalyStartNs preAnomalySeconds)) = e := by
      simp only [Setup.step,Setup.writes,RecordSeqlock.step,hrecorder,hseam,List.foldl_nil]
    rw [hsame]
    exact h

theorem inv_drainPost (h : Inv setup n e) {final : Bool}
    (hok : setup.StepOk e (.recorder (.drainPost final))) :
    Inv setup n (setup.step e (.recorder (.drainPost final))) := by
  have hinv := RecordSeqlock.inv_step _ _ h.seqlock hok.1
  have hphase := h.phase
  by_cases hpc : e.recorder.pc = .ready
  · have hbase : e.recorder.pc.started = true := by rw [hpc]; rfl
    simp only [Episode.Phase,hpc] at hphase
    simp only [RecordSeqlock.step,State.drainPost,hpc] at hinv
    simp only [Setup.step,Setup.writes,RecordSeqlock.step,State.drainPost,hpc,List.foldl_nil]
    refine h.consume hbase hinv rfl rfl ?_ h.stored
    refine ⟨⟨Nat.lt_succ_of_le hphase,Nat.lt_succ_of_le (h.seam (ne_base hbase))⟩,?_⟩
    exact fun b hb => absurd hb List.not_mem_nil
  · have hrecorder : e.recorder.drainPost setup.capacity final = e.recorder := by
      unfold State.drainPost
      split
      · next hready => exact absurd hready hpc
      · rfl
    have hsame : setup.step e (.recorder (.drainPost final)) = e := by
      simp only [Setup.step,Setup.writes,RecordSeqlock.step,hrecorder,seamAfter,List.foldl_nil]
    rw [hsame]
    exact h

/-- The rows that a loop writes when it has ended are on its side. -/
theorem inv_finish (h : Inv setup n e) {job : Job} {i stop : ℕ} {recs : List Rec}
    (hpc : e.recorder.pc = .scan job i stop recs)
    (hinv : RecordSeqlock.Inv setup.capacity (e.recorder.finish job stop recs)) :
    Inv setup n ⟨e.recorder.finish job stop recs,
      ((setup.rows job recs).map (.writeSeries (phase job))).foldl EvidenceStore.step e.writer,
      e.seam⟩ := by
  have hbase : e.recorder.pc.started = true := by rw [hpc]; rfl
  have hloop : e.Loop job i stop recs := by
    have hphase := h.phase
    simpa only [Episode.Phase,hpc] using hphase
  have hrows : ∀ s ∈ setup.rows job recs, e.Side (phase job) (s.tid,s.tsNs) := by
    intro s hs
    obtain ⟨b,hb,hkey⟩ := mem_rows hs
    rw [hkey]
    exact ⟨ne_base hbase,hloop.2 b hb⟩
  obtain ⟨l,hl⟩ := h.stored
  have hstored := hl.writes (phase job) _ hrows
  cases job with
  | pre => exact h.consume hbase hinv rfl rfl (Nat.le_of_eq hloop.1.symm) ⟨_,hstored⟩
  | post final =>
    refine h.consume hbase hinv rfl ?_ ?_ ⟨_,hstored⟩
    · cases final <;> rfl
    · cases final with
      | true => trivial
      | false => exact Nat.le_sub_one_of_lt hloop.1.2

theorem inv_copied (h : Inv setup n e) {job : Job} {i stop aSeq : ℕ} {b : Rec}
    {recs : List Rec} (hpc : e.recorder.pc = .copy job i stop aSeq b [] recs)
    (hok : job = .pre → e.recorder.prevHead < i →
      accepts job e.recorder.cutoff i aSeq b = false) :
    e.Loop job (i+1) stop (if accepts job e.recorder.cutoff i aSeq b then recs++[b] else recs) := by
  have hloop : e.Loop job i stop recs := by
    have hphase := h.phase
    simpa only [Episode.Phase,hpc] using hphase
  cases hacc : accepts job e.recorder.cutoff i aSeq b with
  | false => exact hloop.succ
  | true =>
    obtain ⟨v,hv,rfl⟩ := h.seqlock.accepted hpc hacc
    refine ⟨hloop.succ.1,fun r hr => ?_⟩
    rcases List.mem_append.mp hr with hr | hr
    · exact hloop.2 r hr
    · rw [List.mem_singleton.mp hr]
      refine ⟨i,v,hv.1,rfl,?_⟩
      cases job with
      | pre =>
        have hle : i ≤ e.seam := by
          rw [← hloop.1]
          by_contra hlt
          rw [hok rfl (Nat.not_le.mp hlt)] at hacc
          exact Bool.false_ne_true hacc
        exact iff_of_false Bool.false_ne_true (Nat.not_lt.mpr hle)
      | post final => exact iff_of_true rfl hloop.1.1

theorem inv_advance (h : Inv setup n e) (hok : setup.StepOk e (.recorder .advance)) :
    Inv setup n (setup.step e (.recorder .advance)) := by
  have hinv := RecordSeqlock.inv_step _ _ h.seqlock hok.1
  have hphase := h.phase
  have hrace := hok.2
  have hstep : setup.step e (.recorder .advance) = ⟨e.recorder.advance setup.capacity,
      (setup.writes e.recorder .advance).foldl EvidenceStore.step e.writer,e.seam⟩ := rfl
  change RecordSeqlock.Inv setup.capacity (e.recorder.advance setup.capacity) at hinv
  rw [hstep]
  cases hpc : e.recorder.pc with
  | base =>
    simp only [Setup.writes,State.advance,hpc,List.foldl_nil]
    exact h
  | entered =>
    simp only [Episode.Phase,hpc] at hphase
    simp only [Setup.writes,State.advance,hpc,List.foldl_nil] at hinv ⊢
    refine h.consume (by rw [hpc]; rfl) hinv rfl rfl ⟨hphase,?_⟩ h.stored
    exact fun b hb => absurd hb List.not_mem_nil
  | scan job i stop recs =>
    have hbase : e.recorder.pc.started = true := by rw [hpc]; rfl
    simp only [Episode.Phase,hpc] at hphase
    simp only [Setup.writes,State.advance,hpc] at hinv ⊢
    by_cases hi : i < stop
    · simp only [if_pos hi,List.foldl_nil] at hinv ⊢
      by_cases hodd : (e.recorder.ring.slots (setup.capacity.ix i)).seq % 2 = 1
      · simp only [if_pos hodd] at hinv ⊢
        exact h.consume hbase hinv rfl rfl hphase.succ h.stored
      · simp only [if_neg hodd] at hinv ⊢
        exact h.consume hbase hinv rfl rfl hphase h.stored
    · simp only [if_neg hi] at hinv ⊢
      exact inv_finish h hpc hinv
  | stamp job i stop aSeq recs =>
    simp only [Episode.Phase,hpc] at hphase
    simp only [Setup.writes,State.advance,hpc,List.foldl_nil] at hinv ⊢
    exact h.consume (by rw [hpc]; rfl) hinv rfl rfl hphase h.stored
  | copy job i stop aSeq b rest recs =>
    have hbase : e.recorder.pc.started = true := by rw [hpc]; rfl
    cases rest with
    | cons f rest =>
      simp only [Episode.Phase,hpc] at hphase
      simp only [Setup.writes,State.advance,hpc,List.foldl_nil] at hinv ⊢
      exact h.consume hbase hinv rfl rfl hphase h.stored
    | nil =>
      have hloop := inv_copied h hpc ?_
      · simp only [Setup.writes,State.advance,hpc,List.foldl_nil] at hinv ⊢
        exact h.consume hbase hinv rfl rfl hloop h.stored
      · rintro rfl
        simpa only [hpc] using hrace
  | ready =>
    simp only [Setup.writes,State.advance,hpc,List.foldl_nil]
    exact h
  | done =>
    simp only [Setup.writes,State.advance,hpc,List.foldl_nil]
    exact h

theorem inv_step (e : Episode F) (a : Input F) (h : Inv setup n e) (hok : setup.StepOk e a) :
    Inv setup n (setup.step e a) := by
  cases a with
  | recorder a =>
    cases a with
    | reserve now deep scr => exact inv_reserve h hok
    | store i => exact inv_store h hok
    | enter anomalyStartNs preAnomalySeconds => exact inv_enter h hok
    | advance => exact inv_advance h hok
    | drainPost final => exact inv_drainPost h hok
  | write op =>
    obtain ⟨l,hl⟩ := h.stored
    cases hop : aside op with
    | true =>
      simp only [Setup.step,hop,if_true]
      exact ⟨h.seqlock,h.seam,h.apart,h.phase,_,hl.aside hop⟩
    | false =>
      simp only [Setup.step,hop,Bool.false_eq_true,if_false]
      exact h

theorem inv_opening (setup : Setup) (o : Opening F) : Inv setup o.ordinal o.episode := by
  obtain ⟨hkeys,hmemory⟩ := tables_run (w:=({} : OutputWriter F)) (l:={}) o.history
    List.Pairwise.nil List.Pairwise.nil
  refine ⟨RecordSeqlock.inv_init _,nofun,fun k hk => hk.1.1 rfl,trivial,
    (o.history.foldl Ledger.step {}).step (.openDeep o.ordinal),?_⟩
  refine ⟨refines_step (refines_run o.history refines_init) (.openDeep o.ordinal),rfl,hkeys,hmemory,?_⟩
  show ∀ e ∈ ofEpisode o.ordinal (o.history.foldl Ledger.step {}).series,_
  rw [o.fresh]
  exact fun e he => absurd he List.not_mem_nil

end Steps

/-! ### Stretches of a run that write nothing -/

def recording (as : List Action) : List (Input F) := as.map .recorder

def Quiet (setup : Setup) (s : State) (a : Action) : Prop :=
  setup.writes (F:=F) s a = [] ∧ ∀ anomalyStartNs preAnomalySeconds,
    a ≠ .enter anomalyStartNs preAnomalySeconds

theorem step_quiet [Double F] {setup : Setup} {e : Episode F} {a : Action}
    (h : Quiet (F:=F) setup e.recorder a) : setup.step e (.recorder a) =
      ⟨RecordSeqlock.step setup.capacity e.recorder a,e.writer,e.seam⟩ := by
  have hseam : seamAfter e a = e.seam := by
    cases a with
    | enter anomalyStartNs preAnomalySeconds => exact absurd rfl (h.2 _ _)
    | _ => rfl
  simp only [Setup.step,h.1,hseam,List.foldl_nil]

theorem run_quiet [Double F] {setup : Setup} (as : List Action) : ∀ {e : Episode F},
    Along (RecordSeqlock.step setup.capacity) (Quiet (F:=F) setup) e.recorder as →
    run setup.step e (recording as) =
      ⟨run (RecordSeqlock.step setup.capacity) e.recorder as,e.writer,e.seam⟩ := by
  induction as with
  | nil => exact fun _ => rfl
  | cons a as ih =>
    intro e h
    rw [recording,List.map_cons,run_cons,step_quiet h.1]
    exact ih h.2

theorem along_quiet [Double F] {setup : Setup} {P : State → Action → Prop}
    (hquiet : ∀ s a, P s a → Quiet (F:=F) setup s a)
    (hP : ∀ (e : Episode F) a, P e.recorder a → setup.StepOk e (.recorder a)) (as : List Action) :
    ∀ {e : Episode F}, Along (RecordSeqlock.step setup.capacity) P e.recorder as →
      Along setup.step setup.StepOk e (recording as) := by
  induction as with
  | nil => exact fun _ => trivial
  | cons a as ih =>
    intro e h
    refine ⟨hP e a h.1,?_⟩
    change Along setup.step setup.StepOk (setup.step e (.recorder a)) (recording as)
    rw [step_quiet (hquiet _ _ h.1)]
    exact ih h.2

theorem quiet_store (setup : Setup) (i : ℕ) (s : State) (a : Action) (h : a = .store i) :
    Quiet (F:=F) setup s a := by
  rw [h]
  exact ⟨rfl,nofun⟩

theorem stores_commit (c : Capacity) (i : ℕ) (s : State) :
    Along (RecordSeqlock.step c) (fun _ a => a = .store i) s (commit i) := by
  refine (along_inputs _ _ _ _).mpr fun a ha => ?_
  simp only [commit,List.mem_cons,List.mem_append,List.mem_map,List.not_mem_nil,or_false] at ha
  rcases ha with rfl | ⟨f,_,rfl⟩ | rfl <;> rfl

theorem quiet_of_looking {s₀ s : State} {job : Job} {i stop : ℕ} {recs : List Rec} {a : Action}
    (h : Looking s₀ job i stop recs s a) (hi : i < stop) (setup : Setup) :
    Quiet (F:=F) setup s a := by
  rw [h.advance]
  refine ⟨?_,nofun⟩
  rcases h.pc with hpc | ⟨aSeq,hpc⟩ | ⟨aSeq,b,rest,hpc⟩
  · simp only [Setup.writes,hpc,if_pos hi]
  · simp only [Setup.writes,hpc]
  · simp only [Setup.writes,hpc]

/-- A commit that nobody disturbs writes nothing. -/
theorem run_recCommit [Double F] {setup : Setup} {e : Episode F} {i : ℕ} {v : Snapshot}
    (hpc : e.recorder.pc = .base ∨ e.recorder.pc = .entered)
    (hv : e.recorder.ring.items[i]? = some v) (hstage : e.recorder.ring.stage i = some .reserved) :
    Along setup.step setup.StepOk e (recording (commit i)) ∧ ∃ stage,
      run setup.step e (recording (commit i)) = ⟨{ e.recorder with
        ring := ⟨Function.update e.recorder.ring.slots (setup.capacity.ix i) ⟨2*i,v⟩,
          e.recorder.ring.items,stage⟩ },e.writer,e.seam⟩ ∧ stage i = none := by
  obtain ⟨hok,stage,hrun,hnone⟩ := run_commit setup.capacity hpc hv hstage
  have hstores := stores_commit setup.capacity i e.recorder
  refine ⟨along_quiet (fun s a hs => quiet_store setup i s a hs.2) (fun e a hs => ?_) _
    (Along.and _ _ _ hok hstores),stage,?_,hnone⟩
  · obtain ⟨hstep,rfl⟩ := hs
    exact ⟨hstep,trivial⟩
  · rw [run_quiet _ (hstores.mono _ (quiet_store setup i) _ _),hrun]

theorem stepOk_of_looking {s₀ : State} {job : Job} {i stop : ℕ} {recs : List Rec} {a : Action}
    {setup : Setup} {e : Episode F} (h : Looking s₀ job i stop recs e.recorder a)
    (hzero : i = 0 → ∃ v, s₀.ring.Committed 0 v) (hseam : job = .pre → i ≤ s₀.prevHead) :
    setup.StepOk e (.recorder a) := by
  refine ⟨h.stepOk hzero,?_⟩
  have hle : job = .pre → ¬ e.recorder.prevHead < i := fun hjob => by
    rw [h.prevHead]
    exact Nat.not_lt.mpr (hseam hjob)
  rw [h.advance]
  rcases h.pc with hpc | ⟨aSeq,hpc⟩ | ⟨aSeq,b,rest,hpc⟩
  · simp only [hpc]
  · simp only [hpc]
  · cases job with
    | pre =>
      cases rest with
      | nil => simp only [hpc,hle rfl,false_implies]
      | cons f rest => simp only [hpc]
    | post final => simp only [hpc]

theorem run_lookup [Double F] {setup : Setup} {e : Episode F} {job : Job} {i stop k : ℕ}
    {v : Snapshot} {recs taken : List Rec} (hpc : e.recorder.pc = .scan job i stop recs)
    (hi : i < stop) (hslot : e.recorder.ring.slots (setup.capacity.ix i) = ⟨2*k,v⟩)
    (htaken : (if accepts job e.recorder.cutoff i (2*k) ⟨2*k,v⟩ then recs++[⟨2*k,v⟩] else recs) =
      taken) :
    run setup.step e (recording lookup) =
      ⟨{ e.recorder with pc := .scan job (i+1) stop taken },e.writer,e.seam⟩ := by
  obtain ⟨hlookup,hrun⟩ := run_take setup.capacity hpc hi hslot
  rw [run_quiet lookup (hlookup.mono _ (fun _ _ hs => quiet_of_looking hs hi setup) _ _),hrun]
  simp only [htaken]

/-- In a run that loses none of the races, every state that is reached has a decodable
bundle. -/
theorem run_decodable [Micros F] [Python F] (hfloat : FloatsWords F) (setup : Setup)
    (o : Opening F) (ctx : PhaseManager.CausalContext F) (as : List (Input F))
    (h : Along setup.step setup.StepOk o.episode as) :
    Along setup.step (fun e a =>
      Decodable ctx (buildEvidence (setup.step e a).writer.db o.ordinal)) o.episode as := by
  refine (Along.of_invariant setup.step inv_step (fun e a he hok => ?_) as _
    (inv_opening setup o) h).1
  have hinv := inv_step e a he hok
  obtain ⟨l,hl⟩ := hinv.stored
  exact hl.decodable hfloat hinv.apart ctx

/-- A scratch record of thread 7. -/
def sampled : Snapshot
  | .tid => 7
  | f => Snapshot.zero f

def timerSetup : Setup := ⟨.default,false,100,50⟩

def firstEpisode : Opening ℚ := ⟨[],1,rfl⟩

/-- A record of the pre-window is committed and taken, the host reclaims memory, and the final
drain finds nothing. -/
def calmRun : List (Input ℚ) :=
  Input.recorder (.reserve 99000000000 false sampled)::(recording (commit 0)++
  (recording [.enter 100000000000 10,.advance]++(recording lookup++
  [Input.recorder .advance,Input.write (.writeMemoryEvent 100000000000 1 0 3),
    Input.recorder (.drainPost true),Input.recorder .advance])))

theorem calmRun_decodable : Along timerSetup.step (fun e a => Decodable
    ⟨1,90000000000,0,100000000000,0,1,[],0⟩
      (buildEvidence (timerSetup.step e a).writer.db 1)) firstEpisode.episode calmRun := by
  have hfloat : FloatsWords ℚ := fun i _ _ => ⟨mkRat i 1,rfl⟩
  refine run_decodable hfloat timerSetup firstEpisode _ calmRun
    ⟨⟨trivial,fun hbase => absurd rfl hbase⟩,?_⟩
  let v := stamped 99000000000 false sampled
  let e₁ := timerSetup.step firstEpisode.episode (.recorder (.reserve 99000000000 false sampled))
  have hcommitted : Along timerSetup.step timerSetup.StepOk e₁ (recording (commit 0)) ∧ _ :=
    run_recCommit (i:=0) (v:=v) (Or.inl rfl) rfl rfl
  obtain ⟨hcommit,stage,hrun₂,hnone⟩ := hcommitted
  refine (along_append _ _ _ _ _).mpr ⟨hcommit,?_⟩
  let slots := Function.update e₁.recorder.ring.slots (Capacity.default.ix 0) ⟨2*0,v⟩
  let e₂ : Episode ℚ := ⟨{ e₁.recorder with ring := ⟨slots,e₁.recorder.ring.items,stage⟩ },
    e₁.writer,e₁.seam⟩
  let e₃ := run timerSetup.step e₂ (recording [.enter 100000000000 10,.advance])
  have hpc : e₃.recorder.pc = .scan .pre 0 1 [] := rfl
  have hslot : e₃.recorder.ring.slots (Capacity.default.ix 0) = ⟨2*0,v⟩ :=
    Function.update_self (Capacity.default.ix 0) _ e₁.recorder.ring.slots
  have hlookup := (run_take .default hpc Nat.one_pos hslot).1
  have hrun₄ : run timerSetup.step e₃ (recording lookup) = _ :=
    run_lookup hpc Nat.one_pos hslot rfl
  rw [hrun₂]
  change Along _ _ e₂ _
  refine (along_append _ _ _ _ _).mpr ⟨⟨⟨trivial,trivial⟩,⟨trivial,trivial⟩,trivial⟩,?_⟩
  refine (along_append _ _ _ _ _).mpr ⟨?_,?_⟩
  · refine along_quiet (fun s a hs => quiet_of_looking hs Nat.one_pos timerSetup)
      (fun e a hs => stepOk_of_looking hs (fun _ => ⟨v,rfl,hnone⟩) fun _ => Nat.zero_le _) _
      (e:=e₃) hlookup
  · change Along _ _ (run timerSetup.step e₃ _) _
    rw [hrun₄]
    exact ⟨⟨trivial,trivial⟩,trivial,⟨trivial,trivial⟩,⟨trivial,trivial⟩,trivial⟩

/-- Both records get their numbers after `prev_head_` was read as 0, and the second is committed
before `ExtractPre` reads the head. -/
def seamRun : List (Input ℚ) :=
  recording [.enter 100000000000 10,.reserve 100000000000 true sampled,
    .reserve 100050000000 true sampled]++
  (recording (commit 1)++(recording [.advance]++(recording lookup++(recording lookup++
  (recording [.advance,.drainPost false]++(recording lookup++(recording lookup++
  recording [.advance])))))))

/-- The second record becomes a pre row and a post row. -/
theorem seamRun_writer : ∃ row : CanonicalSnapshot, row.tid ∈ rankedTids [row.point,row.point] ∧
    (run timerSetup.step firstEpisode.episode seamRun).writer =
      ([.openDeep 1,.writeSeries false row,.writeSeries true row] : List (Op ℚ)).foldl
        EvidenceStore.step {} := by
  let v := stamped 100050000000 true sampled
  let row := decodeSnapshot (kernelRec ⟨2*1,v⟩)
  let e₁ := run timerSetup.step firstEpisode.episode (recording [.enter 100000000000 10,
    .reserve 100000000000 true sampled,.reserve 100050000000 true sampled])
  have hcommitted : Along timerSetup.step timerSetup.StepOk e₁ (recording (commit 1)) ∧ _ :=
    run_recCommit (i:=1) (v:=v) (Or.inr rfl) rfl rfl
  obtain ⟨-,stage,hrun₁,-⟩ := hcommitted
  let slots := Function.update e₁.recorder.ring.slots (Capacity.default.ix 1) ⟨2*1,v⟩
  have hslot₀ : slots (Capacity.default.ix 0) = ⟨2*0,Snapshot.zero⟩ :=
    Function.update_of_ne (by decide) _ _
  have hslot₁ : slots (Capacity.default.ix 1) = ⟨2*1,v⟩ := Function.update_self _ _ _
  have hslot₂ : slots (Capacity.default.ix 2) = ⟨2*0,Snapshot.zero⟩ :=
    Function.update_of_ne (by decide) _ _
  let at_ (pc : Pc) (prevHead : ℕ) (preRows : List Rec) (w : OutputWriter ℚ) : Episode ℚ :=
    ⟨⟨⟨slots,e₁.recorder.ring.items,stage⟩,pc,prevHead,90000000000,preRows,[]⟩,w,0⟩
  have hrun₂ : run timerSetup.step (at_ (.scan .pre 0 2 []) 0 [] e₁.writer) (recording lookup) =
      at_ (.scan .pre 1 2 []) 0 [] e₁.writer := run_lookup rfl Nat.two_pos hslot₀ rfl
  have hrun₃ : run timerSetup.step (at_ (.scan .pre 1 2 []) 0 [] e₁.writer) (recording lookup) =
      at_ (.scan .pre 2 2 [⟨2,v⟩]) 0 [] e₁.writer := run_lookup rfl Nat.one_lt_two hslot₁ rfl
  let w := EvidenceStore.step e₁.writer (.writeSeries false row)
  have hrun₄ : run timerSetup.step (at_ (.scan (.post false) 1 3 []) 0 [⟨2,v⟩] w)
      (recording lookup) = at_ (.scan (.post false) 2 3 [⟨2,v⟩]) 0 [⟨2,v⟩] w :=
    run_lookup rfl (by omega : 1 < 3) hslot₁ rfl
  have hrun₅ : run timerSetup.step (at_ (.scan (.post false) 2 3 [⟨2,v⟩]) 0 [⟨2,v⟩] w)
      (recording lookup) = at_ (.scan (.post false) 3 3 [⟨2,v⟩]) 0 [⟨2,v⟩] w :=
    run_lookup rfl (by omega : 2 < 3) hslot₂ rfl
  refine ⟨row,by decide +kernel,?_⟩
  rw [seamRun,run_append,run_append]
  change (run _ (run timerSetup.step e₁ _) _).writer = _
  rw [hrun₁,run_append,run_append]
  change (run _ (run _ (at_ (.scan .pre 0 2 []) 0 [] e₁.writer) _) _).writer = _
  rw [hrun₂,run_append,hrun₃,run_append,run_append]
  change (run _ (run _ (at_ (.scan (.post false) 1 3 []) 0 [⟨2,v⟩] w) _) _).writer = _
  rw [hrun₄,run_append,hrun₅]
  rfl

theorem seamRun_not_decodable : ¬ ∀ (setup : Setup) (o : Opening ℚ)
    (ctx : PhaseManager.CausalContext ℚ) (as : List (Input ℚ)),
    Decodable ctx (buildEvidence (run setup.step o.episode as).writer.db o.ordinal) := by
  intro h
  obtain ⟨row,hrank,hwriter⟩ := seamRun_writer
  have hdecodable := h timerSetup firstEpisode ⟨1,90000000000,0,100000000000,0,1,[],0⟩ seamRun
  rw [hwriter] at hdecodable
  let ops : List (Op ℚ) := [.openDeep 1,.writeSeries false row,.writeSeries true row]
  have hperm := points_perm (refines_run ops refines_init) 1
  have hpoints : (ops.foldl Ledger.step {} : Ledger ℚ).points 1 = [row.point,row.point] := rfl
  rw [hpoints] at hperm
  have hmemory := (tables_run (w:={}) (l:={}) ops List.Pairwise.nil List.Pairwise.nil).2
  have hnodup := (nodup_series_iff hmemory 1).mp hdecodable.1 row.tid
    (by rw [storedPoints,rankedTids_perm hperm]; exact hrank)
  have htwice := ((hperm.filter (·.tid = row.tid)).map SeriesPoint.ts).nodup_iff.mp hnodup
  have htid : decide (row.point.tid = row.tid) = true := decide_eq_true rfl
  simp [htid] at htwice

end EpisodeSeries
end ETraceDiag
