import Mathlib.Data.List.Basic

/-!
# Runs of a step function

A system is its step function; a run is a list of inputs fed to it one after the other. A
condition on single steps is carried along a run, and an invariant that every admissible
step keeps holds wherever the run leads.
-/

namespace Transition

variable {σ α : Type*} (step : σ → α → σ)

def run (s : σ) (as : List α) : σ := as.foldl step s

/-- `P` holds of every step of the run, as a relation of the state before it and its input. -/
def Along (P : σ → α → Prop) : σ → List α → Prop
  | _, [] => True
  | s, a::as => P s a ∧ Along P (step s a) as

@[simp] theorem run_nil (s : σ) : run step s [] = s := rfl

@[simp] theorem run_cons (s : σ) (a : α) (as : List α) :
    run step s (a::as) = run step (step s a) as := rfl

theorem run_append (s : σ) (as bs : List α) :
    run step s (as++bs) = run step (run step s as) bs := List.foldl_append

@[simp] theorem along_nil (P : σ → α → Prop) (s : σ) : Along step P s [] := trivial

@[simp] theorem along_cons (P : σ → α → Prop) (s : σ) (a : α) (as : List α) :
    Along step P s (a::as) ↔ P s a ∧ Along step P (step s a) as := Iff.rfl

theorem along_append (P : σ → α → Prop) (as : List α) : ∀ (s : σ) (bs : List α),
    Along step P s (as++bs) ↔ Along step P s as ∧ Along step P (run step s as) bs := by
  induction as with
  | nil => intro s bs; simp
  | cons a as ih => intro s bs; simp [ih,and_assoc]

/-- Along a run is at every step of it. -/
theorem along_iff_forall_step (P : σ → α → Prop) (as : List α) : ∀ s, Along step P s as ↔
    ∀ bs a cs, as = bs++a::cs → P (run step s bs) a := by
  induction as with
  | nil => exact fun s => iff_of_true trivial fun bs a cs h => by cases bs <;> cases h
  | cons a as ih =>
    intro s
    rw [along_cons,ih]
    constructor
    · rintro ⟨ha,has⟩ bs b cs h
      cases bs with
      | nil => cases h; exact ha
      | cons c bs => cases h; exact has bs b cs rfl
    · intro h
      refine ⟨h [] a as rfl,?_⟩
      rintro bs b cs rfl
      exact h (a::bs) b cs rfl

theorem Along.mono {P Q : σ → α → Prop} (h : ∀ s a, P s a → Q s a) (as : List α) :
    ∀ s, Along step P s as → Along step Q s as := by
  induction as with
  | nil => exact fun _ _ => trivial
  | cons a as ih => exact fun s hs => ⟨h s a hs.1,ih (step s a) hs.2⟩

theorem Along.and {P Q : σ → α → Prop} (as : List α) : ∀ s, Along step P s as →
    Along step Q s as → Along step (fun s a => P s a ∧ Q s a) s as := by
  induction as with
  | nil => exact fun _ _ _ => trivial
  | cons a as ih => exact fun s hp hq => ⟨⟨hp.1,hq.1⟩,ih (step s a) hp.2 hq.2⟩

theorem Along.congr {P Q : σ → α → Prop} (h : ∀ s a, P s a ↔ Q s a) (as : List α) :
    ∀ s, Along step P s as ↔ Along step Q s as := by
  induction as with
  | nil => intro s; simp
  | cons a as ih => intro s; simp only [along_cons,h,ih]

/-- A condition on the inputs alone does not depend on where the run leads. -/
theorem along_inputs (P : α → Prop) (as : List α) :
    ∀ s, Along step (fun _ a => P a) s as ↔ ∀ a ∈ as, P a := by
  induction as with
  | nil => intro s; simp
  | cons a as ih => intro s; simp only [along_cons,ih,List.forall_mem_cons]

/-- The invariant rule: every admissible step keeps `I` and then has `P`. -/
theorem Along.of_invariant {I : σ → Prop} {C P : σ → α → Prop}
    (hstep : ∀ s a, I s → C s a → I (step s a)) (hP : ∀ s a, I s → C s a → P s a)
    (as : List α) : ∀ s, I s → Along step C s as → Along step P s as ∧ I (run step s as) := by
  induction as with
  | nil => intro s hs _; exact ⟨trivial,hs⟩
  | cons a as ih =>
    intro s hs hc
    have htail := ih (step s a) (hstep s a hs hc.1) hc.2
    exact ⟨⟨hP s a hs hc.1,htail.1⟩,htail.2⟩

/-- Where the invariant makes two step conditions agree, they agree along runs that start in
it, as long as the second one keeps the invariant. -/
theorem Along.iff_of_invariant {I : σ → Prop} {P C : σ → α → Prop}
    (hPC : ∀ s a, I s → (P s a ↔ C s a)) (hstep : ∀ s a, I s → C s a → I (step s a))
    (as : List α) : ∀ s, I s → (Along step P s as ↔ Along step C s as) := by
  induction as with
  | nil => intro s _; simp
  | cons a as ih =>
    intro s hs
    rw [along_cons,along_cons,hPC s a hs]
    exact and_congr_right fun hc => ih _ (hstep s a hs hc)

end Transition
