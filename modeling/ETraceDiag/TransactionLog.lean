import Mathlib.Data.List.Basic

/-!
# Rows in transactions

A database that rows are appended to, with at most one transaction open. What is written in it
is held back until it is committed; a row outside of one is a transaction of its own.
-/

namespace TransactionLog

variable {ρ : Type*}

/-- What the engine answers: done, refused, or refused with the open transaction rolled back. -/
inductive Reply
  | done
  | failed
  | aborted
  deriving DecidableEq,Repr

structure Database (ρ : Type*) where
  durable : List ρ := []
  held : Option (List ρ) := none
  deriving DecidableEq

def Database.undo (db : Database ρ) : Database ρ := { db with held := none }

/-- Every row that was taken. -/
def Database.rows (db : Database ρ) : List ρ := db.durable++db.held.getD []

/-- The state behind a statement that would lead to `db'`. -/
def Database.answer (r : Reply) (db db' : Database ρ) : Database ρ :=
  match r with
  | .done => db'
  | .failed => db
  | .aborted => db.undo

def Database.begin (r : Reply) (db : Database ρ) : Database ρ :=
  match db.held with
  | some _ => db
  | none => db.answer r { db with held := some [] }

def Database.commit (r : Reply) (db : Database ρ) : Database ρ :=
  match db.held with
  | some rows => db.answer r ⟨db.durable++rows,none⟩
  | none => db

def Database.rollback (r : Reply) (db : Database ρ) : Database ρ :=
  match db.held with
  | some _ => db.answer r db.undo
  | none => db

def Database.insert (r : Reply) (row : ρ) (db : Database ρ) : Database ρ :=
  match db.held with
  | some rows => db.answer r { db with held := some (rows++[row]) }
  | none => db.answer r { db with durable := db.durable++[row] }

/-- Rows in pieces, and the piece that is being written. -/
structure Pieces (ρ : Type*) where
  closed : List (List ρ) := []
  current : Option (List ρ) := none
  deriving DecidableEq

def Pieces.rows (u : Pieces ρ) : List ρ := u.closed.flatten++u.current.getD []

def Pieces.start (u : Pieces ρ) : Pieces ρ := { u with current := some [] }

def Pieces.add (row : ρ) (u : Pieces ρ) : Pieces ρ :=
  match u.current with
  | some rows => { u with current := some (rows++[row]) }
  | none => { u with closed := u.closed++[[row]] }

def Pieces.close (u : Pieces ρ) : Pieces ρ := ⟨u.closed++[u.current.getD []],none⟩

theorem Pieces.rows_add (row : ρ) (u : Pieces ρ) : (u.add row).rows = u.rows++[row] := by
  unfold Pieces.add Pieces.rows
  cases u.current with
  | some rows => simp
  | none => simp

theorem Pieces.rows_close (u : Pieces ρ) : u.close.rows = u.rows := by simp [close,rows]

/-- What is durable is whole pieces, the first ones; all rows are there, and outside of a
transaction all of them are durable. -/
structure Keeps (db : Database ρ) (u : Pieces ρ) : Prop where
  whole : ∃ k, db.durable = (u.closed.take k).flatten
  rows : db.rows = u.rows
  idle : db.held = none → u.current = none

theorem Keeps.durable_eq {db : Database ρ} {u : Pieces ρ} (h : Keeps db u) (hheld : db.held = none) :
    db.durable = u.closed.flatten := by
  have hrows := h.rows
  simpa [Database.rows,Pieces.rows,hheld,h.idle hheld] using hrows

theorem keeps_empty : Keeps ({} : Database ρ) {} := ⟨⟨0,rfl⟩,rfl,fun _ => rfl⟩

/-- More pieces behind the durable ones change nothing. -/
theorem whole_append {durable : List ρ} {pieces : List (List ρ)} (more : List (List ρ))
    (h : ∃ k, durable = (pieces.take k).flatten) :
    ∃ k, durable = ((pieces++more).take k).flatten := by
  obtain ⟨k,hk⟩ := h
  refine ⟨min k pieces.length,?_⟩
  rw [List.take_append_of_le_length (Nat.min_le_right _ _),hk,List.take_eq_take_min]

theorem whole_all {durable : List ρ} {pieces : List (List ρ)} (h : durable = pieces.flatten) :
    ∃ k, durable = (pieces.take k).flatten := ⟨pieces.length,by rw [List.take_length,h]⟩

/-- A piece starts in a transaction, a new one or one that could not be committed. -/
theorem Keeps.start {db : Database ρ} {u : Pieces ρ} (h : Keeps db u) (hu : u.current = none)
    {r : Reply} (hr : db.held = none → r = .done) : Keeps (db.begin r) u.start := by
  have hrows := h.rows
  cases hheld : db.held with
  | some rows =>
    refine ⟨?_,?_,?_⟩ <;> rw [Database.begin,hheld]
    · exact h.whole
    · simpa [Pieces.rows,Pieces.start,hu] using hrows
    · simp [hheld]
  | none =>
    obtain rfl := hr hheld
    refine ⟨?_,?_,?_⟩ <;> rw [Database.begin,hheld] <;> simp only [Database.answer]
    · exact h.whole
    · simpa [Database.rows,Pieces.rows,Pieces.start,hu,hheld] using hrows
    · nofun

theorem Keeps.insert {db : Database ρ} {u : Pieces ρ} (h : Keeps db u) (row : ρ) :
    Keeps (db.insert .done row) (u.add row) := by
  have hrows := h.rows
  cases hheld : db.held with
  | some rows =>
    refine ⟨?_,?_,?_⟩
    · rw [Database.insert,hheld]
      simp only [Database.answer,Pieces.add]
      cases u.current with
      | some c => exact h.whole
      | none => exact whole_append _ h.whole
    · rw [Pieces.rows_add,← hrows]
      simp [Database.insert,Database.answer,Database.rows,hheld]
    · simp [Database.insert,Database.answer,hheld]
  | none =>
    have hcurrent := h.idle hheld
    refine ⟨?_,?_,fun _ => ?_⟩
    · refine whole_all ?_
      simp [Database.insert,Database.answer,Pieces.add,hheld,hcurrent,h.durable_eq hheld]
    · rw [Pieces.rows_add,← hrows]
      simp [Database.insert,Database.answer,Database.rows,hheld]
    · simp [Pieces.add,hcurrent]

theorem Keeps.close {db : Database ρ} {u : Pieces ρ} (h : Keeps db u) {r : Reply}
    (hr : r ≠ .aborted) : Keeps (db.commit r) u.close := by
  have hrows := h.rows
  cases hheld : db.held with
  | none =>
    refine ⟨?_,?_,fun _ => rfl⟩ <;> rw [Database.commit,hheld]
    · exact whole_append _ h.whole
    · rw [Pieces.rows_close]
      exact hrows
  | some rows =>
    cases r with
    | aborted => exact absurd rfl hr
    | failed =>
      refine ⟨?_,?_,fun _ => rfl⟩ <;> rw [Database.commit,hheld] <;> simp only [Database.answer]
      · exact whole_append _ h.whole
      · rw [Pieces.rows_close]
        exact hrows
    | done =>
      have hall : db.durable++rows = u.close.closed.flatten := by
        simpa [Database.rows,Pieces.rows,Pieces.close,hheld] using hrows
      refine ⟨?_,?_,fun _ => rfl⟩ <;> rw [Database.commit,hheld] <;> simp only [Database.answer]
      · exact whole_all hall
      · simpa [Database.rows,Pieces.rows,Pieces.close] using hall

end TransactionLog
