import ETraceDiag.TransactionLog
import ETraceDiag.Transition

/-!
# Batches of rows

`OutputWriter` as the collector calls it: `BeginBatch` and `CommitBatch` nest, and only the
outermost pair is a transaction of the database. A row of `Step` that fails is logged and left
out, and so is a `COMMIT` that fails; the line in the log is a row of a later call.
-/

namespace ETraceDiag
namespace BatchWriter

open Transition TransactionLog

variable {ρ : Type*}

structure OutputWriter (ρ : Type*) where
  /-- `db_` is there. -/
  opened : Bool := true
  batchDepth : ℕ := 0
  db : Database ρ := {}

def OutputWriter.beginBatch (r : Reply) (w : OutputWriter ρ) : OutputWriter ρ :=
  if w.opened then
    { w with
      batchDepth := w.batchDepth+1
      db := if w.batchDepth = 0 then w.db.begin r else w.db }
  else w

def OutputWriter.commitBatch (r : Reply) (w : OutputWriter ρ) : OutputWriter ρ :=
  if w.opened then
    if w.batchDepth = 0 then w
    else
      { w with
        batchDepth := w.batchDepth-1
        db := if w.batchDepth-1 = 0 then w.db.commit r else w.db }
  else w

/-- A writer of rows: `Prep` and `Step`. -/
def OutputWriter.step (r : Reply) (row : ρ) (w : OutputWriter ρ) : OutputWriter ρ :=
  if w.opened then { w with db := w.db.insert r row } else w

/-- `sqlite3_close` rolls back what is still open. -/
def OutputWriter.close (r : Reply) (w : OutputWriter ρ) : OutputWriter ρ :=
  if w.opened then
    { opened := false
      batchDepth := 0
      db := (if 0 < w.batchDepth then w.db.rollback r else w.db).undo }
  else w

inductive Call (ρ : Type*)
  | beginBatch (r : Reply)
  | commitBatch (r : Reply)
  | step (r : Reply) (row : ρ)
  | close (r : Reply)

def OutputWriter.call (w : OutputWriter ρ) : Call ρ → OutputWriter ρ
  | .beginBatch r => w.beginBatch r
  | .commitBatch r => w.commitBatch r
  | .step r row => w.step r row
  | .close r => w.close r

/-! ## What the callers mean -/

/-- The rows that were taken, by outermost batches; a row outside of one stands alone. Nothing of
the database is in it. -/
structure Ticks (ρ : Type*) where
  opened : Bool := true
  depth : ℕ := 0
  pieces : Pieces ρ := {}

def Ticks.call (t : Ticks ρ) : Call ρ → Ticks ρ
  | .beginBatch _ =>
    if t.opened then
      { t with depth := t.depth+1, pieces := if t.depth = 0 then t.pieces.start else t.pieces }
    else t
  | .commitBatch _ =>
    if t.opened && t.depth ≠ 0 then
      { t with depth := t.depth-1, pieces := if t.depth = 1 then t.pieces.close else t.pieces }
    else t
  | .step .done row => if t.opened then { t with pieces := t.pieces.add row } else t
  | .step _ _ => t
  | .close _ => { t with opened := false }

structure Sys (ρ : Type*) where
  writer : OutputWriter ρ := {}
  ticks : Ticks ρ := {}

def step (s : Sys ρ) (c : Call ρ) : Sys ρ := ⟨s.writer.call c,s.ticks.call c⟩

/-- A crash at this point leaves whole batches, the first ones. Until the database is closed no
row is lost, and outside of a transaction nothing is left to lose. -/
structure Whole (s : Sys ρ) : Prop where
  durable : ∃ k, s.writer.db.durable = (s.ticks.pieces.closed.take k).flatten
  kept : s.writer.opened = true → s.writer.db.rows = s.ticks.pieces.rows
  settled : s.writer.db.held = none → s.writer.opened = true →
    s.writer.db.durable = s.ticks.pieces.closed.flatten

/-- No error rolls a transaction back, and a `BEGIN` outside of one is not refused. Rows may fail,
and so may a `COMMIT`. -/
def StepOk (s : Sys ρ) : Call ρ → Prop
  | .beginBatch r => s.writer.batchDepth = 0 → s.writer.db.held = none → r = .done
  | .commitBatch r => r ≠ .aborted
  | .step r _ => r ≠ .aborted
  | .close _ => True

structure Inv (s : Sys ρ) : Prop where
  opened : s.ticks.opened = s.writer.opened
  durable : ∃ k, s.writer.db.durable = (s.ticks.pieces.closed.take k).flatten
  keeps : s.writer.opened = true → Keeps s.writer.db s.ticks.pieces
  depth : s.writer.opened = true → s.ticks.depth = s.writer.batchDepth
  outside : s.writer.opened = true → s.writer.batchDepth = 0 → s.ticks.pieces.current = none

theorem Inv.whole {s : Sys ρ} (h : Inv s) : Whole s :=
  ⟨h.durable,fun hopen => (h.keeps hopen).rows,fun hheld hopen => (h.keeps hopen).durable_eq hheld⟩

theorem inv_start : Inv ({} : Sys ρ) :=
  ⟨rfl,⟨0,rfl⟩,fun _ => keeps_empty,fun _ => rfl,fun _ _ => rfl⟩

/-- Nothing happens behind `Close`. -/
theorem call_of_closed {w : OutputWriter ρ} (h : w.opened = false) (c : Call ρ) :
    w.call c = w := by
  cases c <;> simp [OutputWriter.call,OutputWriter.beginBatch,OutputWriter.commitBatch,
    OutputWriter.step,OutputWriter.close,h]

theorem ticks_of_closed {t : Ticks ρ} (h : t.opened = false) (c : Call ρ) :
    (t.call c).pieces = t.pieces ∧ (t.call c).opened = false := by
  cases c with
  | step r row => cases r <;> simp [Ticks.call,h]
  | beginBatch r => simp [Ticks.call,h]
  | commitBatch r => simp [Ticks.call,h]
  | close r => simp [Ticks.call]

theorem Inv.beginBatch {s : Sys ρ} (h : Inv s) (hopen : s.writer.opened = true) {r : Reply}
    (hr : StepOk s (.beginBatch r)) : Inv (step s (.beginBatch r)) := by
  have hticks := h.opened.trans hopen
  have hdepth := h.depth hopen
  have hkeeps : Keeps (if s.writer.batchDepth = 0 then s.writer.db.begin r else s.writer.db)
      (if s.writer.batchDepth = 0 then s.ticks.pieces.start else s.ticks.pieces) := by
    by_cases hzero : s.writer.batchDepth = 0
    · rw [if_pos hzero,if_pos hzero]
      exact (h.keeps hopen).start (h.outside hopen hzero) (hr hzero)
    · rw [if_neg hzero,if_neg hzero]
      exact h.keeps hopen
  simp only [step,OutputWriter.call,OutputWriter.beginBatch,Ticks.call,hopen,hticks,hdepth,if_true]
  exact ⟨rfl,hkeeps.whole,fun _ => hkeeps,fun _ => rfl,fun _ hzero => absurd hzero (by simp)⟩

theorem Inv.commitBatch {s : Sys ρ} (h : Inv s) (hopen : s.writer.opened = true) {r : Reply}
    (hr : StepOk s (.commitBatch r)) : Inv (step s (.commitBatch r)) := by
  have hticks := h.opened.trans hopen
  have hdepth := h.depth hopen
  by_cases hzero : s.writer.batchDepth = 0
  · have hsame : step s (.commitBatch r) = s := by
      simp [step,OutputWriter.call,OutputWriter.commitBatch,Ticks.call,hopen,hzero,hdepth]
    rw [hsame]
    exact h
  · have hone : s.writer.batchDepth-1 = 0 ↔ s.writer.batchDepth = 1 := by omega
    have hkeeps : Keeps (if s.writer.batchDepth = 1 then s.writer.db.commit r else s.writer.db)
        (if s.writer.batchDepth = 1 then s.ticks.pieces.close else s.ticks.pieces) := by
      split
      · exact (h.keeps hopen).close hr
      · exact h.keeps hopen
    simp only [step,OutputWriter.call,OutputWriter.commitBatch,Ticks.call,hopen,hticks,hdepth,hzero,
      hone,if_true,if_false,ne_eq,not_false_eq_true,decide_true,Bool.and_self]
    refine ⟨rfl,hkeeps.whole,fun _ => hkeeps,fun _ => rfl,fun _ hlast => ?_⟩
    simp only [hone.mp hlast,if_true]
    rfl

theorem Inv.step {s : Sys ρ} (h : Inv s) (hopen : s.writer.opened = true) {r : Reply} {row : ρ}
    (hr : StepOk s (.step r row)) : Inv (BatchWriter.step s (.step r row)) := by
  have hticks := h.opened.trans hopen
  cases r with
  | aborted => exact absurd rfl hr
  | failed =>
    have hsame : s.writer.db.insert .failed row = s.writer.db := by
      rw [Database.insert]
      cases s.writer.db.held <;> rfl
    simp only [BatchWriter.step,OutputWriter.call,OutputWriter.step,Ticks.call,hopen,if_true,hsame]
    exact ⟨h.opened.trans hopen,h.durable,fun _ => h.keeps hopen,fun _ => h.depth hopen,
      fun _ => h.outside hopen⟩
  | done =>
    have hkeeps := (h.keeps hopen).insert row
    simp only [BatchWriter.step,OutputWriter.call,OutputWriter.step,Ticks.call,hopen,hticks,if_true]
    refine ⟨rfl,hkeeps.whole,fun _ => hkeeps,fun _ => h.depth hopen,fun _ hzero => ?_⟩
    simp [Pieces.add,h.outside hopen hzero]

theorem rollback_durable (r : Reply) (db : Database ρ) :
    (db.rollback r).durable = db.durable := by
  rw [Database.rollback]
  cases db.held with
  | none => rfl
  | some rows => cases r <;> rfl

theorem Inv.close {s : Sys ρ} (h : Inv s) (hopen : s.writer.opened = true) (r : Reply) :
    Inv (BatchWriter.step s (.close r)) := by
  obtain ⟨k,hk⟩ := h.durable
  simp only [BatchWriter.step,OutputWriter.call,OutputWriter.close,Ticks.call,hopen,if_true]
  refine ⟨rfl,⟨k,?_⟩,nofun,nofun,nofun⟩
  rw [← hk,Database.undo]
  simp only
  split
  · exact rollback_durable r s.writer.db
  · rfl

theorem Inv.next {s : Sys ρ} (h : Inv s) {c : Call ρ} (hc : StepOk s c) :
    Inv (BatchWriter.step s c) := by
  cases hopen : s.writer.opened with
  | false =>
    have hwriter := call_of_closed hopen c
    obtain ⟨hunits,hclosed⟩ := ticks_of_closed (h.opened.trans hopen) c
    simp only [BatchWriter.step,hwriter]
    refine ⟨hclosed.trans hopen.symm,?_,?_,?_,?_⟩
    · rw [hunits]
      exact h.durable
    all_goals
      intro hw
      rw [hopen] at hw
      cases hw
  | true =>
    cases c with
    | beginBatch r => exact h.beginBatch hopen hc
    | commitBatch r => exact h.commitBatch hopen hc
    | step r row => exact h.step hopen hc
    | close r => exact h.close hopen r

/-- Whatever is called and whatever fails, apart from a transaction that SQLite refuses to open
or gives up, the database has whole batches at every point of the run. -/
theorem batches_whole (cs : List (Call ρ)) (h : Along step StepOk ({} : Sys ρ) cs) :
    Whole (run step ({} : Sys ρ) cs) :=
  (Along.of_invariant step (P:=fun _ _ => True) (fun _ _ hI hC => hI.next hC)
    (fun _ _ _ _ => trivial) cs _ inv_start h).2.whole

/-- A batch in a batch, whose `COMMIT` fails at first; the next one takes its rows along. -/
def nested : List (Call ℕ) :=
  [.beginBatch .done,.step .done 1,.beginBatch .failed,.step .failed 2,.commitBatch .failed,
    .commitBatch .failed,.beginBatch .failed,.step .done 3,.commitBatch .done,.beginBatch .done,
    .step .done 4,.close .done]

theorem batches_whole_nested : Along step StepOk ({} : Sys ℕ) nested ∧
    Whole (run step ({} : Sys ℕ) nested) := by
  have h : Along step StepOk ({} : Sys ℕ) nested := by
    refine ⟨fun _ _ => rfl,?_,nofun,?_,?_,?_,fun _ hheld => ?_,?_,?_,fun _ _ => rfl,?_,trivial,
      trivial⟩
    all_goals first | exact Reply.noConfusion | cases hheld
  exact ⟨h,batches_whole nested h⟩

/-- The first two batches are durable, the third one is gone. -/
example : (run step ({} : Sys ℕ) nested).writer.db = ⟨[1,3],none⟩ := by decide

end BatchWriter
end ETraceDiag
