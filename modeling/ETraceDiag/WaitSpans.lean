import ETraceDiag.CausalInput

/-!
# Waits as spans

The spans that `evidence_to_inputs` makes of the lock, run queue and file rows of a bundle: how
long they are, against the waits that the rows store, and how they are told apart.
-/

namespace ETraceDiag
namespace WaitSpans

open JsonValue PyValue SqlTable EvidenceStore CausalInput

variable {F : Type} [Python F]

/-- The spans of a body, as `evidence_to_inputs` collects them. -/
def evidenceSpans (body : JsonValue F) : Except Raise (List TraceSpan) := do
  let spans ← spanKinds.mapM fun k => do (← eventRows k.1 body).mapM (traceSpan k.1 k.2)
  pure spans.flatten

theorem evidenceToInputs_spans [OfScientific F] {body : JsonValue F} {inputs : CausalInputs F}
    (h : evidenceToInputs body = .ok inputs) : evidenceSpans body = .ok inputs.traces := by
  unfold evidenceToInputs at h
  obtain ⟨_,-,h⟩ := bind_eq_ok h
  obtain ⟨_,-,h⟩ := bind_eq_ok h
  obtain ⟨_,-,h⟩ := bind_eq_ok h
  obtain ⟨_,-,h⟩ := bind_eq_ok h
  obtain ⟨_,-,h⟩ := bind_eq_ok h
  obtain ⟨_,-,h⟩ := bind_eq_ok h
  obtain ⟨_,-,h⟩ := bind_eq_ok h
  obtain ⟨spans,hspans,h⟩ := bind_eq_ok h
  obtain ⟨_,-,h⟩ := bind_eq_ok h
  obtain ⟨_,-,h⟩ := bind_eq_ok h
  obtain ⟨_,-,h⟩ := bind_eq_ok h
  obtain ⟨_,-,h⟩ := bind_eq_ok h
  rw [evidenceSpans,hspans,← Except.ok.inj h]
  rfl

def duration (sp : TraceSpan) : ℕ := sp.endTsNs-sp.startTsNs

/-- What a span is known by. -/
def spanKey (sp : TraceSpan) : String × String := (sp.traceId.text,sp.spanId.text)

/-! ## The span of one object -/

theorem name_eq_ok {text : String} (h : text.toList.all isSpace = false) :
    name text = .ok ⟨text,h⟩ := dif_pos h

theorem name_cons (c : Char) (cs : List Char) {text : String} (h : text.toList = c::cs)
    (hc : isSpace c = false) : text.toList.all isSpace = false := by
  rw [h,List.all_cons,hc,Bool.false_and]

/-- An object without time and id: the span starts at 0 and lasts as long as the object says. -/
theorem traceSpan_event {kind status entity : String} {e : JsonValue F} {w : ℕ}
    (hts : get? "ts_ns" e = none) (hid : get? "span_id" e = none)
    (hentity : get? "entity" e = some (.str entity))
    (hname : entity.toList.all isSpace = false)
    (hwait : pyInt (pyOr (field "wait_ns" (field "dur_ns" (.int 0) e) e) (.int 0)) = .ok (w : ℤ)) :
    ∃ sp, traceSpan kind status e = .ok sp ∧ spanKey sp = ("deep-"++kind++"-0","0") ∧
      duration sp = w := by
  have hstart : pyInt (field "ts_ns" (.int 0) e) = .ok 0 := pyInt_ts_zero hts
  have hzero : toString (0 : ℤ) = "0" := rfl
  have htrace : ("deep-"++kind++"-"++toString (0 : ℤ)).toList.all isSpace = false := by
    refine name_cons 'd' ("eep-".toList++kind.toList++"-0".toList) ?_ rfl
    simp [hzero]
  have hspan : ("0" : String).toList.all isSpace = false := rfl
  have hfield : pyStr (field "span_id" (.int 0) e) = "0" := by
    rw [field,hid]
    exact hzero
  have hservice : pyStr (field "entity" (.str "host") e) = entity := by
    rw [field,hentity]
    rfl
  let errors := if truthy (field "errors" (.int 0) e) then "ERR" else status
  let sp : TraceSpan := ⟨⟨_,htrace⟩,⟨_,hspan⟩,⟨_,hname⟩,0,0+(w : ℤ).toNat,
    Nat.le_add_right _ _,errors⟩
  have hbuilt : traceSpan kind status e = .ok sp := by
    unfold traceSpan
    rw [hstart,hwait]
    change (nonneg 0 >>= fun startTs => _) = _
    simp only [hfield,hservice,name_eq_ok htrace,name_eq_ok hspan,name_eq_ok hname]
    rfl
  refine ⟨sp,hbuilt,?_,?_⟩
  · simp only [spanKey,sp,hzero,String.append_assoc]
    rfl
  · simp [duration,sp]

section Rows

variable [Micros F]

/-- The waits that a row stores, in nanoseconds. -/
def totalWait (row : Row F) : UInt64 := (key "total_wait_ns" row).toUInt64

def avgWait (row : Row F) : UInt64 := (key "avg_wait_ns" row).toUInt64

def p99Wait (row : Row F) : UInt64 := Micros.usToNs (get row "p99_us").toDouble

/-- The object of a row as the decoder sees it. -/
def sent (event : Row F → JsonValue F) (row : Row F) : JsonValue F :=
  wire Python.finite (event row)

theorem thread_name (tid : UInt32) : ("t"++toString tid.toNat).toList.all isSpace = false :=
  name_cons 't' (toString tid.toNat).toList (by simp) rfl

theorem device_name (dev : UInt32) : (devEntity dev).toList.all isSpace = false := by
  refine name_cons 'd' ("ev".toList++(toString (dev >>> 20).toNat).toList++
    "m".toList++(toString (dev &&& 0xFFFFF).toNat).toList) ?_ rfl
  simp [devEntity]

omit [Micros F] in
/-- An `or` that ends in 0 keeps an integer. -/
theorem pyInt_or_zero (n : ℕ) :
    pyInt (pyOr (.int n) (.int 0) : JsonValue F) = .ok (n : ℤ) := by
  cases n <;> rfl

/-- A lock row has no `wait_ns`, whatever it stores. -/
theorem lockSpan (row : Row F) : ∃ sp, traceSpan "lock" "ERR" (sent lockEvent row) = .ok sp ∧
    spanKey sp = ("deep-lock-0","0") ∧ duration sp = 0 :=
  traceSpan_event (w:=0) rfl rfl rfl rfl rfl

theorem runqSpan (row : Row F) : ∃ sp, traceSpan "runq" "OK" (sent runqEvent row) = .ok sp ∧
    spanKey sp = ("deep-runq-0","0") ∧ duration sp = (p99Wait row).toNat :=
  traceSpan_event rfl rfl rfl (thread_name _) (pyInt_or_zero _)

/-- The wait of a file row is that of a p99 of zero. -/
theorem ioFileSpan (row : Row F) : ∃ sp, traceSpan "iofile" "OK" (sent ioFileEvent row) = .ok sp ∧
    spanKey sp = ("deep-iofile-0","0") ∧
      duration sp = (Micros.usToNs (Double.zero : F)).toNat :=
  traceSpan_event rfl rfl rfl (device_name _) (pyInt_or_zero _)

/-! ## The spans of a bundle -/

theorem map_spanKey {α : Type} {P : α → TraceSpan → Prop} {k : String × String} {xs : List α}
    {spans : List TraceSpan} (h : List.Forall₂ P xs spans)
    (hk : ∀ x sp, P x sp → spanKey sp = k) :
    spans.map spanKey = List.replicate xs.length k := by
  induction h with
  | nil => rfl
  | cons hx _ ih => rw [List.map_cons,ih,hk _ _ hx,List.length_cons,List.replicate_succ]

/-- The waits of the rows come through, and no two spans are taken for one. -/
structure WaitsSurvive [OfScientific F] (ctx : PhaseManager.CausalContext F) (db : Db F)
    (n : Int32) (spans : List TraceSpan) : Prop where
  built : evidenceSpans (wire Python.finite (evidenceBody ctx (buildEvidence db n))) = .ok spans
  traces : ∀ inputs : CausalInputs F, evidenceToInputs
    (wire Python.finite (evidenceBody ctx (buildEvidence db n))) = .ok inputs →
      inputs.traces = spans
  runq : ∀ row ∈ ofOrdinal n db.deepRunq, ∃ sp ∈ spans,
    traceSpan "runq" "OK" (sent runqEvent row) = .ok sp ∧ duration sp = (p99Wait row).toNat
  lock : ∀ row ∈ ofOrdinal n db.deepLock, ∃ sp ∈ spans,
    traceSpan "lock" "ERR" (sent lockEvent row) = .ok sp ∧
      (duration sp = (totalWait row).toNat ∨ duration sp = (avgWait row).toNat)
  iofile : ∀ row ∈ ofOrdinal n db.deepIofile, ∃ sp ∈ spans,
    traceSpan "iofile" "OK" (sent ioFileEvent row) = .ok sp ∧ duration sp = (p99Wait row).toNat
  distinct : (spans.map spanKey).Nodup

theorem rows_of_kind (ctx : PhaseManager.CausalContext F) (db : Db F) (n : Int32)
    (k : DeepKind) (event : Row F → JsonValue F)
    (hevents : k.events (buildEvidence db n) = (k.table n db).map event)
    (status : String) : (eventRows k.name (wire Python.finite
      (evidenceBody ctx (buildEvidence db n))) >>= fun rows => rows.mapM (traceSpan k.name status)) =
        (k.table n db).mapM fun row => traceSpan k.name status (sent event row) := by
  have hdict : ∀ e ∈ (k.events (buildEvidence db n)).map (wire Python.finite), isDict e = true := by
    intro e he
    obtain ⟨e',he',rfl⟩ := List.mem_map.mp he
    exact DeepKind.isDict_events Python.finite n db he'
  rw [eventRows_wire,List.filter_eq_self.mpr hdict,hevents,List.map_map]
  change List.mapM _ (List.map _ _) = _
  rw [List.mapM_map]
  rfl

/-- The spans of a bundle are built, one for each row. -/
theorem evidenceSpans_buildEvidence (ctx : PhaseManager.CausalContext F) (db : Db F)
    (n : Int32) : ∃ runq lock iofile,
      evidenceSpans (wire Python.finite (evidenceBody ctx (buildEvidence db n))) =
        .ok (runq++lock++iofile) ∧
      List.Forall₂ (fun row sp => traceSpan "runq" "OK" (sent runqEvent row) = .ok sp ∧
        spanKey sp = ("deep-runq-0","0") ∧ duration sp = (p99Wait row).toNat)
        (ofOrdinal n db.deepRunq) runq ∧
      List.Forall₂ (fun row sp => traceSpan "lock" "ERR" (sent lockEvent row) = .ok sp ∧
        spanKey sp = ("deep-lock-0","0") ∧ duration sp = 0) (ofOrdinal n db.deepLock) lock ∧
      List.Forall₂ (fun row sp => traceSpan "iofile" "OK" (sent ioFileEvent row) = .ok sp ∧
        spanKey sp = ("deep-iofile-0","0") ∧ duration sp = (Micros.usToNs (Double.zero : F)).toNat)
        (ofOrdinal n db.deepIofile) iofile := by
  obtain ⟨runq,hrunq,hrunqs⟩ := exists_mapM_ok (ofOrdinal n db.deepRunq)
    fun row _ => runqSpan (F:=F) row
  obtain ⟨lock,hlock,hlocks⟩ := exists_mapM_ok (ofOrdinal n db.deepLock)
    fun row _ => lockSpan (F:=F) row
  obtain ⟨iofile,hiofile,hiofiles⟩ := exists_mapM_ok (ofOrdinal n db.deepIofile)
    fun row _ => ioFileSpan (F:=F) row
  have hr := rows_of_kind ctx db n .runq runqEvent rfl "OK"
  have hl := rows_of_kind ctx db n .lock lockEvent rfl "ERR"
  have hi := rows_of_kind ctx db n .iofile ioFileEvent rfl "OK"
  refine ⟨runq,lock,iofile,?_,hrunqs,hlocks,hiofiles⟩
  have hspans : spanKinds.mapM (fun k => do
      (← eventRows k.1 (wire Python.finite (evidenceBody ctx (buildEvidence db n)))).mapM
        (traceSpan k.1 k.2)) = .ok [runq,lock,iofile] :=
    (mapM_eq_ok_iff spanKinds).mpr (.cons (hr.trans hrunq) (.cons (hl.trans hlock)
      (.cons (hi.trans hiofile) .nil)))
  rw [evidenceSpans,hspans]
  change Except.ok (runq++(lock++(iofile++[]))) = _
  rw [List.append_nil,List.append_assoc]

theorem nodup_kinds {r l i : ℕ} : (List.replicate r ("deep-runq-0","0")++
    (List.replicate l ("deep-lock-0","0")++List.replicate i ("deep-iofile-0","0"))).Nodup ↔
      r ≤ 1 ∧ l ≤ 1 ∧ i ≤ 1 := by
  have hne : ("deep-runq-0","0") ≠ ("deep-lock-0","0") ∧
      ("deep-runq-0","0") ≠ ("deep-iofile-0","0") ∧
      ("deep-lock-0","0") ≠ ("deep-iofile-0","0") := by decide
  simp only [List.nodup_append,List.nodup_replicate,List.mem_append,List.mem_replicate]
  constructor
  · rintro ⟨hr,⟨hl,hi,-⟩,-⟩
    exact ⟨hr,hl,hi⟩
  · rintro ⟨hr,hl,hi⟩
    refine ⟨hr,⟨hl,hi,?_⟩,?_⟩
    · rintro a ⟨-,rfl⟩ b ⟨-,rfl⟩
      exact hne.2.2
    · rintro a ⟨-,rfl⟩ b (⟨-,rfl⟩ | ⟨-,rfl⟩)
      · exact hne.1
      · exact hne.2.1

omit [Python F] [Micros F] in
theorem exists_span {P : Row F → TraceSpan → Prop} {rows : List (Row F)} {spans : List TraceSpan}
    (h : List.Forall₂ P rows spans) {row : Row F} (hrow : row ∈ rows) : ∃ sp ∈ spans, P row sp := by
  induction h with
  | nil => cases hrow
  | cons hx _ ih =>
    rcases List.mem_cons.mp hrow with rfl | hrow
    · exact ⟨_,List.mem_cons_self,hx⟩
    · obtain ⟨sp,hsp,hP⟩ := ih hrow
      exact ⟨sp,List.mem_cons_of_mem _ hsp,hP⟩

/-- The waits of a bundle survive exactly when its locks and files have not waited and every
kind has one row at most. -/
theorem waitsSurvive_iff [OfScientific F] (ctx : PhaseManager.CausalContext F) (db : Db F)
    (n : Int32) :
    (∃ spans, WaitsSurvive ctx db n spans) ↔
      (∀ row ∈ ofOrdinal n db.deepLock, totalWait row = 0 ∨ avgWait row = 0) ∧
      (∀ row ∈ ofOrdinal n db.deepIofile, p99Wait row = Micros.usToNs (Double.zero : F)) ∧
      (ofOrdinal n db.deepRunq).length ≤ 1 ∧ (ofOrdinal n db.deepLock).length ≤ 1 ∧
        (ofOrdinal n db.deepIofile).length ≤ 1 := by
  obtain ⟨runq,lock,iofile,hbuilt,hrunq,hlock,hiofile⟩ :=
    evidenceSpans_buildEvidence ctx db n
  have hkeys : (runq++lock++iofile).map spanKey =
      List.replicate (ofOrdinal n db.deepRunq).length ("deep-runq-0","0")++
        (List.replicate (ofOrdinal n db.deepLock).length ("deep-lock-0","0")++
          List.replicate (ofOrdinal n db.deepIofile).length ("deep-iofile-0","0")) := by
    rw [List.map_append,List.map_append,map_spanKey hrunq fun _ _ h => h.2.1,
      map_spanKey hlock fun _ _ h => h.2.1,map_spanKey hiofile fun _ _ h => h.2.1,
      List.append_assoc]
  have hzero : ∀ x : UInt64, 0 = x.toNat ↔ x = 0 := fun x => by
    rw [eq_comm,← UInt64.toNat_inj]
    rfl
  constructor
  · rintro ⟨spans,h⟩
    obtain rfl : runq++lock++iofile = spans := Except.ok.inj (hbuilt.symm.trans h.built)
    refine ⟨fun row hrow => ?_,fun row hrow => ?_,nodup_kinds.mp (hkeys ▸ h.distinct)⟩
    · obtain ⟨sp,-,hsp,hwait⟩ := h.lock row hrow
      obtain ⟨sp',-,hsp',-,hdur⟩ := exists_span hlock hrow
      rw [Except.ok.inj (hsp.symm.trans hsp'),hdur,hzero,hzero] at hwait
      exact hwait
    · obtain ⟨sp,-,hsp,hwait⟩ := h.iofile row hrow
      obtain ⟨sp',-,hsp',-,hdur⟩ := exists_span hiofile hrow
      rw [Except.ok.inj (hsp.symm.trans hsp'),hdur,UInt64.toNat_inj] at hwait
      exact hwait.symm
  · rintro ⟨hlocks,hfiles,hone⟩
    refine ⟨runq++lock++iofile,hbuilt,fun inputs h => ?_,fun row hrow => ?_,
      fun row hrow => ?_,fun row hrow => ?_,?_⟩
    · exact Except.ok.inj ((evidenceToInputs_spans h).symm.trans hbuilt)
    · obtain ⟨sp,hsp,hbuilt,-,hdur⟩ := exists_span hrunq hrow
      exact ⟨sp,by simp [hsp],hbuilt,hdur⟩
    · obtain ⟨sp,hsp,hbuilt,-,hdur⟩ := exists_span hlock hrow
      refine ⟨sp,by simp [hsp],hbuilt,?_⟩
      rw [hdur,hzero,hzero]
      exact hlocks row hrow
    · obtain ⟨sp,hsp,hbuilt,-,hdur⟩ := exists_span hiofile hrow
      exact ⟨sp,by simp [hsp],hbuilt,by rw [hdur,hfiles row hrow]⟩
    · rw [hkeys]
      exact nodup_kinds.mpr hone

end Rows

/-- A lock on which two waits took three milliseconds. -/
def waitedLock : Db ℚ := { deepLock := [lockRow 1 ⟨0xffffffff81a2b3c0,2,3000000,none⟩] }

theorem waitedLock_lost : ¬ ∀ (ctx : PhaseManager.CausalContext ℚ) (db : Db ℚ) (n : Int32),
    ∃ spans, WaitsSurvive ctx db n spans := by
  intro h
  obtain ⟨spans,hspans⟩ := h futexContext waitedLock 1
  have hrow : lockRow 1 ⟨0xffffffff81a2b3c0,2,3000000,none⟩ ∈ ofOrdinal 1 waitedLock.deepLock :=
    List.mem_singleton.mpr rfl
  obtain ⟨sp,-,hsp,hwait⟩ := hspans.lock _ hrow
  obtain ⟨sp',hsp',-,hdur⟩ := lockSpan (lockRow 1 ⟨0xffffffff81a2b3c0,2,3000000,none⟩ : Row ℚ)
  rw [Except.ok.inj (hsp.symm.trans hsp'),hdur] at hwait
  exact absurd hwait (by decide)

end WaitSpans
end ETraceDiag
