import ETraceDiag.Transition

/-!
# A loop that answers requests

A server reads a request, and then answers it, passes over it or gives up. The peer waits for
one answer to every request before it sends the next one.
-/

namespace ReplyLoop

open Transition

variable {σ φ ρ : Type*}

/-- What the handler makes of one request. -/
inductive Served (ρ : Type*)
  | reply (r : ρ)
  | skipped
  | closed

inductive Event (φ ρ : Type*)
  | recv (f : φ)
  | send (r : ρ)

/-- The events of a connection on which these requests arrive. -/
def serve (handle : σ → φ → σ × Served ρ) : σ → List φ → List (Event φ ρ)
  | _, [] => []
  | s, f::fs =>
    match handle s f with
    | (s,.reply r) => .recv f::.send r::serve handle s fs
    | (s,.skipped) => .recv f::serve handle s fs
    | (_,.closed) => [.recv f]

/-- Every request is followed by its answer and by nothing else. -/
inductive Answered (fits : φ → ρ → Prop) : List φ → List (Event φ ρ) → Prop
  | nil : Answered fits [] []
  | cons {f r fs es} (hfits : fits f r) (hrest : Answered fits fs es) :
    Answered fits (f::fs) (.recv f::.send r::es)

/-- Nothing but an answer lets the next request be answered. -/
theorem not_answered_of_recv {fits : φ → ρ → Prop} {f : φ} {fs : List φ} {es : List (Event φ ρ)}
    (hes : ∀ r rest, es ≠ .send r::rest) : ¬ Answered fits (f::fs) (.recv f::es) := by
  intro h
  cases h with
  | cons _ _ => exact hes _ _ rfl

theorem serve_ne_send (handle : σ → φ → σ × Served ρ) (s : σ) (fs : List φ) (r : ρ)
    (rest : List (Event φ ρ)) : serve handle s fs ≠ .send r::rest := by
  intro h
  cases fs with
  | nil => cases h
  | cons f fs =>
    rw [serve] at h
    split at h <;> cases h

/-- The requests are answered one by one exactly when the handler answers each of them. -/
theorem answered_iff (handle : σ → φ → σ × Served ρ) (fits : φ → ρ → Prop) (fs : List φ) :
    ∀ s, Answered fits fs (serve handle s fs) ↔
      Along (fun s f => (handle s f).1) (fun s f => ∃ r, (handle s f).2 = .reply r ∧ fits f r)
        s fs := by
  induction fs with
  | nil => exact fun s => iff_of_true Answered.nil trivial
  | cons f fs ih =>
    intro s
    rw [along_cons,serve]
    cases hh : handle s f with
    | mk t out =>
      cases out with
      | reply r =>
        constructor
        · intro h
          cases h with
          | cons hfits hrest => exact ⟨⟨r,rfl,hfits⟩,(ih t).mp hrest⟩
        · rintro ⟨⟨r',hr',hfits⟩,hrest⟩
          obtain rfl := Served.reply.inj hr'
          exact Answered.cons hfits ((ih t).mpr hrest)
      | skipped =>
        refine iff_of_false (not_answered_of_recv fun r rest => serve_ne_send handle t fs r rest) ?_
        rintro ⟨⟨r,hr,_⟩,_⟩
        cases hr
      | closed =>
        refine iff_of_false (not_answered_of_recv fun r rest h => by cases h) ?_
        rintro ⟨⟨r,hr,_⟩,_⟩
        cases hr

end ReplyLoop
