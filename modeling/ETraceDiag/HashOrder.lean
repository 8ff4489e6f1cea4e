import Mathlib.Data.Finset.Card
import Mathlib.Data.Finset.Dedup
import Mathlib.Data.Finset.Lattice.Fold
import Mathlib.Data.List.Sort

/-!
# Hash containers and what their order decides

A hash container is the set of its keys; a loop over it sees them in some order, which nothing
is known of. Sorting takes the order away again, as long as no two keys compare equal. Handing
out a limited number of places group by group does not.
-/

/-- An order for every set of keys. -/
structure HashOrder (α : Type) where
  enum : Finset α → List α
  nodup : ∀ s, (enum s).Nodup
  mem : ∀ s a, a ∈ enum s ↔ a ∈ s

namespace HashOrder

variable {α β : Type}

theorem perm (o o' : HashOrder α) (s : Finset α) : (o.enum s).Perm (o'.enum s) := by
  refine (List.perm_ext_iff_of_nodup (o.nodup s) (o'.nodup s)).mpr fun a => ?_
  rw [o.mem,o'.mem]

/-- Some order starts with what another one gives for one set. -/
theorem exists_enum_eq [DecidableEq α] (o : HashOrder α) (s : Finset α) {l : List α}
    (hl : l.Perm (o.enum s)) : ∃ o' : HashOrder α, o'.enum s = l := by
  refine ⟨⟨fun t => if t = s then l else o.enum t,fun t => ?_,fun t a => ?_⟩,if_pos rfl⟩
  · split
    · exact hl.nodup_iff.mpr (o.nodup s)
    · exact o.nodup t
  · split
    · next ht => rw [hl.mem_iff,o.mem,ht]
    · exact o.mem t a

/-! ## Sorting -/

section Sorting

variable [LinearOrder β]

/-- `std::sort` with the greater key first. -/
def sortDesc (key : α → β) (l : List α) : List α := l.insertionSort fun a b => key b ≤ key a

/-- `std::sort` with the smaller key first. -/
def sortAsc (key : α → β) (l : List α) : List α := l.insertionSort fun a b => key a ≤ key b

theorem sortDesc_perm (key : α → β) (l : List α) : (sortDesc key l).Perm l :=
  List.perm_insertionSort _ l

theorem sortAsc_perm (key : α → β) (l : List α) : (sortAsc key l).Perm l :=
  List.perm_insertionSort _ l

theorem sortDesc_pairwise (key : α → β) (l : List α) :
    (sortDesc key l).Pairwise fun a b => key b ≤ key a := by
  have : Std.Total fun a b : α => key b ≤ key a := ⟨fun a b => le_total (key b) (key a)⟩
  have : IsTrans α fun a b => key b ≤ key a := ⟨fun _ _ _ hab hbc => le_trans hbc hab⟩
  exact List.pairwise_insertionSort _ l

theorem sortAsc_pairwise (key : α → β) (l : List α) :
    (sortAsc key l).Pairwise fun a b => key a ≤ key b :=
  @sortDesc_pairwise α βᵒᵈ _ key l

/-- No two elements with one key: then the order before does not matter. -/
theorem sortDesc_eq_of_perm {key : α → β} {l l' : List α} (h : l.Perm l')
    (hinj : ∀ a ∈ l, ∀ b ∈ l, key a = key b → a = b) : sortDesc key l = sortDesc key l' := by
  have hperm : (sortDesc key l).Perm (sortDesc key l') :=
    (sortDesc_perm key l).trans (h.trans (sortDesc_perm key l').symm)
  refine hperm.eq_of_pairwise (fun a b ha hb hab hba => ?_) (sortDesc_pairwise key l)
    (sortDesc_pairwise key l')
  rw [(sortDesc_perm key l).mem_iff] at ha
  rw [(sortDesc_perm key l').mem_iff,← h.mem_iff] at hb
  exact hinj a ha b hb (le_antisymm hba hab)

theorem sortAsc_eq_of_perm {key : α → β} {l l' : List α} (h : l.Perm l')
    (hinj : ∀ a ∈ l, ∀ b ∈ l, key a = key b → a = b) : sortAsc key l = sortAsc key l' :=
  @sortDesc_eq_of_perm α βᵒᵈ _ key l l' h hinj

/-- The keys in ascending order, as one order of them. -/
def ascending (key : α → β) (hkey : Function.Injective key) : HashOrder α where
  enum s := Quotient.liftOn s.val (sortAsc key) fun _ _ h =>
    sortAsc_eq_of_perm h fun _ _ _ _ heq => hkey heq
  nodup := by
    rintro ⟨⟨l⟩,hl⟩
    exact (sortAsc_perm key l).nodup_iff.mpr hl
  mem := by
    rintro ⟨⟨l⟩,hl⟩ a
    exact (sortAsc_perm key l).mem_iff

end Sorting

end HashOrder
