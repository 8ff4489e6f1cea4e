import Mathlib.Algebra.BigOperators.Group.List.Basic
import Mathlib.Algebra.Order.Group.Nat
import Mathlib.Tactic.Ring

/-!
# What fits into a window of time

Instants of which any two are a gap apart, and spans of which any two are disjoint: a window
holds about one instant for each gap, and spans of no more than its own length.
-/

namespace TimeWindow

/-! ## Instants -/

/-- At `rate` to the `unit`, the instants are not too close to each other. -/
def Spaced (rate unit : ℕ) (ts : List ℕ) : Prop := ts.Pairwise fun a b => unit ≤ (b-a)*rate

/-- The instants from `lo` to `hi`. -/
def within (lo hi : ℕ) (ts : List ℕ) : List ℕ := ts.filter fun t => lo ≤ t ∧ t ≤ hi

variable {rate unit : ℕ}

theorem spaced_nil : Spaced rate unit [] := List.Pairwise.nil

theorem Spaced.mono {rate' : ℕ} {ts : List ℕ} (h : Spaced rate unit ts) (hrate : rate ≤ rate') :
    Spaced rate' unit ts :=
  List.Pairwise.imp (fun {_ _} hab => hab.trans (Nat.mul_le_mul_left _ hrate)) h

theorem Spaced.lt {ts : List ℕ} (h : Spaced rate unit ts) (hunit : 0 < unit) :
    ts.Pairwise (· < ·) := by
  refine List.Pairwise.imp (fun {a b} hab => ?_) h
  by_contra hle
  rw [Nat.sub_eq_zero_of_le (Nat.not_lt.mp hle),Nat.zero_mul] at hab
  omega

/-- An instant far enough behind the last one is far enough behind all of them. -/
theorem Spaced.concat {ts : List ℕ} (h : Spaced rate unit ts) (hunit : 0 < unit) {now : ℕ}
    (hlast : ∀ last ∈ ts.getLast?, unit ≤ (now-last)*rate) : Spaced rate unit (ts++[now]) := by
  refine List.pairwise_append.mpr ⟨h,List.pairwise_singleton _ _,fun a ha b hb => ?_⟩
  obtain rfl := List.mem_singleton.mp hb
  rcases List.eq_nil_or_concat ts with rfl | ⟨front,last,rfl⟩
  · cases ha
  · rw [List.concat_eq_append] at *
    have hgap := hlast last (by simp)
    have hale : a ≤ last := by
      rcases List.mem_append.mp ha with hfront | hsame
      · exact Nat.le_of_lt ((List.pairwise_append.mp (h.lt hunit)).2.2 a hfront last (by simp))
      · exact Nat.le_of_eq (List.mem_singleton.mp hsame)
    exact hgap.trans (Nat.mul_le_mul_right rate (Nat.sub_le_sub_left hale b))

theorem Spaced.length_le (ts : List ℕ) : ∀ {a hi : ℕ}, Spaced rate unit (a::ts) → 0 < unit →
    (∀ t ∈ a::ts, t ≤ hi) → ts.length*unit ≤ (hi-a)*rate := by
  induction ts with
  | nil => intro a hi _ _ _; simp
  | cons b ts ih =>
    intro a hi h hunit hhi
    have htail : Spaced rate unit (b::ts) := List.Pairwise.of_cons h
    have hgap : unit ≤ (b-a)*rate := List.rel_of_pairwise_cons h List.mem_cons_self
    have hab : a < b := List.rel_of_pairwise_cons (h.lt hunit) List.mem_cons_self
    have hb : b ≤ hi := hhi b (List.mem_cons_of_mem a List.mem_cons_self)
    have hsplit : hi-a = (b-a)+(hi-b) := by omega
    have hrest := ih htail hunit fun t ht => hhi t (List.mem_cons_of_mem a ht)
    calc (b::ts).length*unit = unit+ts.length*unit := by rw [List.length_cons]; ring
      _ ≤ (b-a)*rate+(hi-b)*rate := Nat.add_le_add hgap hrest
      _ = (hi-a)*rate := by rw [hsplit,Nat.add_mul]

/-- A window holds one instant, and one more for each gap that fits into it. -/
theorem Spaced.within_le {ts : List ℕ} (h : Spaced rate unit ts) (hunit : 0 < unit) (lo hi : ℕ) :
    ((within lo hi ts).length-1)*unit ≤ (hi-lo)*rate := by
  have hspaced : Spaced rate unit (within lo hi ts) := List.Pairwise.filter _ h
  have hmem : ∀ t ∈ within lo hi ts, lo ≤ t ∧ t ≤ hi := fun t ht => by
    simpa using (List.mem_filter.mp ht).2
  cases hw : within lo hi ts with
  | nil => simp
  | cons a rest =>
    rw [hw] at hspaced hmem
    have hlo : lo ≤ a := (hmem a List.mem_cons_self).1
    exact (Spaced.length_le rest hspaced hunit fun t ht => (hmem t ht).2).trans
      (Nat.mul_le_mul_right rate (Nat.sub_le_sub_left hlo hi))

/-! ## Spans -/

structure Span where
  start : ℕ
  stop : ℕ
  deriving DecidableEq,Repr

def Span.length (s : Span) : ℕ := s.stop-s.start

/-- Every span starts where the one before has stopped, or later. -/
def InOrder (ss : List Span) : Prop :=
  (∀ s ∈ ss, s.start ≤ s.stop) ∧ ss.Pairwise fun a b => a.stop ≤ b.start

theorem inOrder_nil : InOrder [] := ⟨nofun,List.Pairwise.nil⟩

theorem InOrder.concat {ss : List Span} (h : InOrder ss) {s : Span} (hs : s.start ≤ s.stop)
    (hlast : ∀ a ∈ ss, a.stop ≤ s.start) : InOrder (ss++[s]) := by
  refine ⟨?_,List.pairwise_append.mpr ⟨h.2,List.pairwise_singleton _ _,?_⟩⟩
  · intro a ha
    rcases List.mem_append.mp ha with hfront | hsame
    · exact h.1 a hfront
    · exact List.mem_singleton.mp hsame ▸ hs
  · intro a ha b hb
    obtain rfl := List.mem_singleton.mp hb
    exact hlast a ha

theorem InOrder.sublist {ss ss' : List Span} (h : InOrder ss) (hsub : ss'.Sublist ss) :
    InOrder ss' := ⟨fun s hs => h.1 s (hsub.subset hs),h.2.sublist hsub⟩

/-- Together they are no longer than the time in which they lie. -/
theorem InOrder.sum_length_le {ss : List Span} {hi : ℕ} : ∀ {lo : ℕ}, InOrder ss →
    (∀ s ∈ ss, lo ≤ s.start ∧ s.stop ≤ hi) → (ss.map Span.length).sum ≤ hi-lo := by
  induction ss with
  | nil => intro lo _ _; simp
  | cons s ss ih =>
    intro lo h hin
    obtain ⟨hlo,hhi⟩ := hin s List.mem_cons_self
    have hs := h.1 s List.mem_cons_self
    have hrest : (ss.map Span.length).sum ≤ hi-s.stop :=
      ih (h.sublist (List.sublist_cons_self s ss)) fun b hb =>
        ⟨List.rel_of_pairwise_cons h.2 hb,(hin b (List.mem_cons_of_mem s hb)).2⟩
    rw [List.map_cons,List.sum_cons,Span.length]
    omega

end TimeWindow
