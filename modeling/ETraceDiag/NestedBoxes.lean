import Mathlib.Data.List.Infix
import Mathlib.Order.Lattice

/-!
# Boxes inside boxes

Boxes that stand on a line, each under a path of labels: a box that lies behind another on a path
is inside it, and boxes on different paths do not overlap.
-/

namespace NestedBoxes

variable {α β K : Type} [LinearOrder K] {path : β → List α} {left right : β → K}

structure Laid (path : β → List α) (left right : β → K) (lo hi : K) (bs : List β) : Prop where
  within : ∀ b ∈ bs, lo ≤ left b ∧ right b ≤ hi
  inside : ∀ b ∈ bs, ∀ b' ∈ bs, path b <+: path b' → left b ≤ left b' ∧ right b' ≤ right b
  apart : ∀ b ∈ bs, ∀ b' ∈ bs, ¬ path b <+: path b' → ¬ path b' <+: path b →
    right b ≤ left b' ∨ right b' ≤ left b

theorem Laid.nil (lo hi : K) : Laid path left right lo hi [] :=
  ⟨fun _ h => absurd h List.not_mem_nil,fun _ h => absurd h List.not_mem_nil,
    fun _ h => absurd h List.not_mem_nil⟩

theorem Laid.mono {lo hi hi' : K} {bs : List β} (h : Laid path left right lo hi bs)
    (hle : hi ≤ hi') : Laid path left right lo hi' bs :=
  ⟨fun b hb => ⟨(h.within b hb).1,(h.within b hb).2.trans hle⟩,h.inside,h.apart⟩

/-- A box around others, on the way to all of them. -/
theorem Laid.cons {lo hi : K} {bs : List β} {b : β} (h : Laid path left right lo hi bs)
    (hlo : left b = lo) (hhi : right b = hi)
    (hpath : ∀ b' ∈ bs, path b <+: path b' ∧ path b' ≠ path b) :
    Laid path left right lo hi (b::bs) := by
  have hback : ∀ b' ∈ bs, ¬ path b' <+: path b := fun b' hb' hp =>
    (hpath b' hb').2 (hp.eq_of_length_le (hpath b' hb').1.length_le)
  constructor
  · rintro b' (_ | ⟨_,hb'⟩)
    · exact ⟨hlo.ge,hhi.le⟩
    · exact h.within b' hb'
  · rintro b₁ (_ | ⟨_,h₁⟩) b₂ (_ | ⟨_,h₂⟩) hp
    · exact ⟨le_rfl,le_rfl⟩
    · rw [hlo,hhi]
      exact h.within b₂ h₂
    · exact absurd hp (hback b₁ h₁)
    · exact h.inside b₁ h₁ b₂ h₂ hp
  · rintro b₁ (_ | ⟨_,h₁⟩) b₂ (_ | ⟨_,h₂⟩) hp hp'
    · exact absurd (List.prefix_refl _) hp
    · exact absurd (hpath b₂ h₂).1 hp
    · exact absurd (hpath b₁ h₁).1 hp'
    · exact h.apart b₁ h₁ b₂ h₂ hp hp'

/-- Boxes beside others, on other paths. -/
theorem Laid.append {lo mid hi : K} {bs bs' : List β} (h : Laid path left right lo mid bs)
    (h' : Laid path left right mid hi bs') (hlo : lo ≤ mid) (hhi : mid ≤ hi)
    (hpath : ∀ b ∈ bs, ∀ b' ∈ bs', ¬ path b <+: path b' ∧ ¬ path b' <+: path b) :
    Laid path left right lo hi (bs++bs') := by
  have hright : ∀ b ∈ bs, ∀ b' ∈ bs', right b ≤ left b' := fun b hb b' hb' =>
    (h.within b hb).2.trans (h'.within b' hb').1
  constructor
  · intro b hb
    rcases List.mem_append.mp hb with hb | hb
    · exact ⟨(h.within b hb).1,(h.within b hb).2.trans hhi⟩
    · exact ⟨hlo.trans (h'.within b hb).1,(h'.within b hb).2⟩
  · intro b₁ h₁ b₂ h₂ hp
    rcases List.mem_append.mp h₁ with h₁ | h₁ <;> rcases List.mem_append.mp h₂ with h₂ | h₂
    · exact h.inside b₁ h₁ b₂ h₂ hp
    · exact absurd hp (hpath b₁ h₁ b₂ h₂).1
    · exact absurd hp (hpath b₂ h₂ b₁ h₁).2
    · exact h'.inside b₁ h₁ b₂ h₂ hp
  · intro b₁ h₁ b₂ h₂ hp hp'
    rcases List.mem_append.mp h₁ with h₁ | h₁ <;> rcases List.mem_append.mp h₂ with h₂ | h₂
    · exact h.apart b₁ h₁ b₂ h₂ hp hp'
    · exact .inl (hright b₁ h₁ b₂ h₂)
    · exact .inr (hright b₂ h₂ b₁ h₁)
    · exact h'.apart b₁ h₁ b₂ h₂ hp hp'

end NestedBoxes
