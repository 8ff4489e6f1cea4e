import Mathlib.Data.List.Infix

/-!
# Searching a text

The text from the first place on where a word stands, and what a byte that is not in the word
does to the search: the word stands in front of it or behind it.
-/

namespace TextSearch

variable {α : Type} [BEq α] [LawfulBEq α]

/-- `text.find(word)`, as the rest of the text from there on. -/
@[simp] def find (word : List α) : List α → Option (List α)
  | [] => if word.isEmpty then some [] else none
  | c::text => if word.isPrefixOf (c::text) then some (c::text) else find word text

theorem find_of_head {word text : List α} (h : word <+: text) : find word text = some text := by
  cases text with
  | nil => rw [List.prefix_nil.mp h]; rfl
  | cons c text => rw [find,if_pos (List.isPrefixOf_iff_prefix.mpr h)]

theorem find_cons_of_ne {word text : List α} {c : α} (h : ¬ word <+: c::text) :
    find word (c::text) = find word text := by
  rw [find,if_neg (by rwa [List.isPrefixOf_iff_prefix])]

omit [LawfulBEq α] in
/-- What is found is a rest of the text. -/
theorem find_suffix {word text rest : List α} (h : find word text = some rest) :
    rest <:+ text := by
  induction text with
  | nil =>
    rw [find] at h
    split at h <;> cases h
    exact List.suffix_rfl
  | cons c text ih =>
    rw [find] at h
    split at h
    · cases h
      exact List.suffix_rfl
    · exact (ih h).trans (List.suffix_cons c text)

theorem find_isSome_iff (word text : List α) : (find word text).isSome = true ↔ word <:+: text := by
  induction text with
  | nil => cases word <;> simp
  | cons c text ih =>
    by_cases h : word <+: c::text
    · rw [find_of_head h]
      exact iff_of_true rfl h.isInfix
    · rw [find_cons_of_ne h,ih,List.infix_cons_iff,or_iff_right h]

omit [BEq α] [LawfulBEq α] in
theorem prefix_append_sep {word : List α} {sep : α} (h : sep ∉ word) (xs rest : List α) :
    word <+: xs++sep::rest ↔ word <+: xs := by
  constructor
  · intro hp
    rcases List.prefix_or_prefix_of_prefix hp (List.prefix_append xs (sep::rest)) with hx | hx
    · exact hx
    · obtain ⟨ys,rfl⟩ := hx
      rw [List.prefix_append_right_inj] at hp
      cases ys with
      | nil => rw [List.append_nil]
      | cons y ys =>
        obtain rfl : y = sep := (List.cons_prefix_cons.mp hp).1
        exact absurd (by simp) h
  · exact fun hp => hp.trans (List.prefix_append ..)

/-- The word stands in front of a byte that it does not hold, or the search goes on behind it. -/
theorem find_append_sep {word : List α} {sep : α} (hne : word ≠ []) (h : sep ∉ word)
    (rest : List α) : ∀ xs : List α, find word (xs++sep::rest) =
      match find word xs with
      | some ys => some (ys++sep::rest)
      | none => find word rest
  | [] => by
    have hnot : ¬ word <+: sep::rest := by
      intro hp
      exact hne (List.prefix_nil.mp ((prefix_append_sep h [] rest).mp hp))
    rw [List.nil_append,find_cons_of_ne hnot,find,if_neg (by simpa using hne)]
  | c::xs => by
    by_cases hp : word <+: c::xs
    · rw [find_of_head hp,find_of_head ((prefix_append_sep h (c::xs) rest).mpr hp)]
    · have hp' : ¬ word <+: c::(xs++sep::rest) := fun hx =>
        hp ((prefix_append_sep h (c::xs) rest).mp hx)
      rw [List.cons_append,find_cons_of_ne hp,find_cons_of_ne hp',
        find_append_sep hne h rest xs]

/-- Bytes that the word does not hold are passed over. -/
theorem find_append_of_not_mem {word : List α} (hne : word ≠ []) (rest : List α) {xs : List α}
    (h : ∀ x ∈ xs, x ∉ word) : find word (xs++rest) = find word rest := by
  induction xs with
  | nil => rfl
  | cons x xs ih =>
    have hsep := find_append_sep hne (h x (List.mem_cons_self ..)) (xs++rest) []
    rw [find,if_neg (by simpa using hne)] at hsep
    rw [List.cons_append]
    exact hsep.trans (ih fun y hy => h y (List.mem_cons_of_mem _ hy))

end TextSearch
