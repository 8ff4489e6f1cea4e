import Mathlib.Data.List.Chain
import Mathlib.Order.Lattice

/-!
# Logs of changes

A value is looked at from time to time and written down only when it has changed. The log still
tells what was seen each time.
-/

namespace ChangeLog

variable {τ β : Type*}

/-- What was seen last. -/
def final (b : β) (l : List (τ × β)) : β := (l.getLast?.map Prod.snd).getD b

/-- What the log says of a time: the last entry up to then. -/
def valueAt [LE τ] [DecidableLE τ] (b : β) (rows : List (τ × β)) (t : τ) : β :=
  final b (rows.filter (·.1 ≤ t))

@[simp] theorem final_nil (b : β) : final b ([] : List (τ × β)) = b := rfl

@[simp] theorem final_concat (b : β) (l : List (τ × β)) (t : τ) (v : β) :
    final b (l++[(t,v)]) = v := by
  rw [final,List.getLast?_concat]
  rfl

theorem final_cons (b : β) (t : τ) (v : β) (l : List (τ × β)) :
    final b ((t,v)::l) = final v l := by
  cases l with
  | nil => rfl
  | cons p l =>
    rw [final,final,List.getLast?_cons_cons]
    cases hlast : (p::l).getLast? with
    | none => exact absurd (List.getLast?_eq_none_iff.mp hlast) (List.cons_ne_nil p l)
    | some q => rfl

variable [DecidableEq β]

/-- What is written down when `b` was seen before. -/
def log : β → List (τ × β) → List (τ × β)
  | _, [] => []
  | b, (t,v)::l => if v = b then log b l else (t,v)::log v l

theorem log_append (l l' : List (τ × β)) : ∀ b,
    log b (l++l') = log b l++log (final b l) l' := by
  induction l with
  | nil => exact fun _ => rfl
  | cons p l ih =>
    intro b
    obtain ⟨t,v⟩ := p
    rw [List.cons_append,log,log,final_cons]
    split
    · next heq => rw [ih b,heq]
    · rw [ih v,List.cons_append]

/-- An entry is never what the one before it is. -/
theorem isChain_log (l : List (τ × β)) : ∀ b, (b::(log b l).map Prod.snd).IsChain (· ≠ ·) := by
  induction l with
  | nil => exact fun b => List.isChain_singleton b
  | cons p l ih =>
    intro b
    obtain ⟨t,v⟩ := p
    rw [log]
    split
    · exact ih b
    · next hne => exact List.isChain_cons_cons.mpr ⟨Ne.symm hne,ih v⟩

theorem log_sublist (l : List (τ × β)) : ∀ b, (log b l).Sublist l := by
  induction l with
  | nil => exact fun b => List.Sublist.refl _
  | cons p l ih =>
    intro b
    obtain ⟨t,v⟩ := p
    rw [log]
    split
    · exact (ih b).cons _
    · exact (ih v).cons_cons _

theorem final_log (l : List (τ × β)) : ∀ b, final b (log b l) = final b l := by
  induction l with
  | nil => exact fun b => rfl
  | cons p l ih =>
    intro b
    obtain ⟨t,v⟩ := p
    rw [log,final_cons]
    split
    · next heq => rw [ih b,heq]
    · rw [final_cons,ih v]

/-- The log says of each look what was seen. -/
theorem valueAt_log [LinearOrder τ] (b : β) {before after : List (τ × β)} {t : τ} {v : β}
    (h : (before++(t,v)::after).Pairwise (·.1 < ·.1)) :
    valueAt b (log b (before++(t,v)::after)) t = v := by
  have hsplit : before++(t,v)::after = (before++[(t,v)])++after := List.append_cons ..
  rw [hsplit] at h ⊢
  obtain ⟨hbefore,-,hafter⟩ := List.pairwise_append.mp h
  have hearly : ∀ p ∈ log b (before++[(t,v)]), p.1 ≤ t := by
    intro p hp
    rcases List.mem_append.mp ((log_sublist _ b).subset hp) with hp | hp
    · exact le_of_lt ((List.pairwise_append.mp hbefore).2.2 p hp _ (List.mem_singleton_self _))
    · rw [List.mem_singleton.mp hp]
  have hlate : ∀ p ∈ log v after, ¬p.1 ≤ t := by
    intro p hp
    refine not_le_of_gt (hafter (t,v) ?_ p ((log_sublist _ v).subset hp))
    exact List.mem_append_right _ (List.mem_singleton_self _)
  rw [valueAt,log_append,final_concat,List.filter_append,
    List.filter_eq_self.mpr fun p hp => decide_eq_true (hearly p hp),
    List.filter_eq_nil_iff.mpr fun p hp => by simpa using hlate p hp,List.append_nil,final_log,
    final_concat]

end ChangeLog
