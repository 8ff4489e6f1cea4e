import ETraceDiag.Transition
import Mathlib.Algebra.BigOperators.Group.List.Basic

/-!
# Counters without locks

Several executions update a cell: each reads it, adds something to what it has read and writes the
sum back, with other executions in between. An update can be lost only to another execution that
was under way when it was written.
-/

namespace RacyCounter

open Transition

/-- `flight` has what the executions under way have read and what they add. `stored` and `alone`
are history: what has been written back so far, and what of it with no other execution under
way. -/
structure Cell (α : Type*) where
  value : α
  flight : List (α × α) := []
  stored : List α := []
  alone : List α := []

inductive Access (α : Type*)
  | load (d : α)
  | store (i : ℕ)

variable {α : Type*} [AddMonoid α]

def Cell.step (s : Cell α) : Access α → Cell α
  | .load d => { s with flight := s.flight++[(s.value,d)] }
  | .store i =>
    match s.flight[i]? with
    | none => s
    | some (v,d) =>
      { value := v+d
        flight := s.flight.eraseIdx i
        stored := s.stored++[d]
        alone := if s.flight.length = 1 then s.alone++[d] else s.alone }

/-- The value counts some of the updates, all that were alone among them. -/
def Cell.Counts (s : Cell α) (v : α) : Prop :=
  ∃ sub, s.alone.Sublist sub ∧ sub.Sublist s.stored ∧ v = sub.sum

structure Cell.Wf (s : Cell α) : Prop where
  value : s.Counts s.value
  flight : ∀ f ∈ s.flight, s.Counts f.1

theorem wf_init : Cell.Wf ({ value := 0 } : Cell α) where
  value := ⟨[],List.Sublist.refl _,List.Sublist.refl _,List.sum_nil.symm⟩
  flight := List.forall_mem_nil _

theorem Cell.Wf.step {s : Cell α} (h : s.Wf) (a : Access α) : (s.step a).Wf := by
  cases a with
  | load d =>
    refine ⟨h.value,fun f hf => ?_⟩
    rcases List.mem_append.mp hf with hf | hf
    · exact h.flight f hf
    · rw [List.mem_singleton.mp hf]
      exact h.value
  | store i =>
    cases hi : s.flight[i]? with
    | none =>
      rw [Cell.step,hi]
      exact h
    | some f =>
      obtain ⟨v,d⟩ := f
      obtain ⟨sub,halone,hstored,hv⟩ := h.flight _ (List.mem_of_getElem? hi)
      rw [Cell.step,hi]
      by_cases hone : s.flight.length = 1
      · -- nobody else is left who could have read something
        have hempty : s.flight.eraseIdx i = [] := by
          refine List.length_eq_zero_iff.mp ?_
          rw [List.length_eraseIdx_of_lt (List.getElem?_eq_some_iff.mp hi).1,hone]
        refine ⟨⟨sub++[d],?_,hstored.append (List.Sublist.refl _),?_⟩,?_⟩
        · simp only [if_pos hone]
          exact halone.append (List.Sublist.refl _)
        · rw [List.sum_append,List.sum_singleton]
          exact congrArg (·+d) hv
        · simp only [hempty]
          exact List.forall_mem_nil _
      · refine ⟨⟨sub++[d],?_,hstored.append (List.Sublist.refl _),?_⟩,fun f hf => ?_⟩
        · simp only [if_neg hone]
          exact halone.trans (List.sublist_append_left _ _)
        · rw [List.sum_append,List.sum_singleton]
          exact congrArg (·+d) hv
        · obtain ⟨sub,halone,hstored,hv⟩ := h.flight f (List.mem_of_mem_eraseIdx hf)
          refine ⟨sub,?_,hstored.trans (List.sublist_append_left _ _),hv⟩
          simp only [if_neg hone]
          exact halone

/-- An execution begins when no other is under way. -/
def Cell.Serial (s : Cell α) : Access α → Prop
  | .load _ => s.flight = []
  | .store _ => True

/-- One execution at a time. -/
structure Cell.Exact (s : Cell α) : Prop where
  flight : s.flight.length ≤ 1
  alone : s.alone = s.stored

theorem exact_init : Cell.Exact ({ value := 0 } : Cell α) := ⟨Nat.zero_le 1,rfl⟩

theorem Cell.Exact.step {s : Cell α} (h : s.Exact) {a : Access α} (ha : s.Serial a) :
    (s.step a).Exact := by
  cases a with
  | load d =>
    refine ⟨?_,h.alone⟩
    rw [Cell.step,show s.flight = [] from ha]
    exact Nat.le_refl 1
  | store i =>
    cases hi : s.flight[i]? with
    | none =>
      rw [Cell.step,hi]
      exact h
    | some f =>
      have hlt := (List.getElem?_eq_some_iff.mp hi).1
      have hone : s.flight.length = 1 := by
        have hle := h.flight
        omega
      rw [Cell.step,hi]
      refine ⟨?_,?_⟩
      · rw [List.length_eraseIdx_of_lt hlt,hone]
        exact Nat.zero_le 1
      · simp only [if_pos hone,h.alone]

/-- Updates one after the other are all counted. -/
theorem Cell.Exact.eq_sum {s : Cell α} (h : s.Exact) {v : α} (hv : s.Counts v) :
    v = s.stored.sum := by
  obtain ⟨sub,halone,hstored,rfl⟩ := hv
  rw [h.alone] at halone
  rw [hstored.antisymm halone]

end RacyCounter
