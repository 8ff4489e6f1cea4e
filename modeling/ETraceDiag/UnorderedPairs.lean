import Mathlib.Data.List.Nodup
import Mathlib.Data.Sym.Sym2

/-!
# The unordered pairs of a list

Each two elements of a list once, the earlier one first. A double loop that writes down a text
for every two related elements, and drops what it has written twice, leaves one text for each
pair.
-/

namespace UnorderedPairs

variable {α β κ : Type*}

def pairs : List α → List (α × α)
  | [] => []
  | a::as => as.map (a,·)++pairs as

theorem mem_of_mem_pairs {p : α × α} {xs : List α} (h : p ∈ pairs xs) : p.1 ∈ xs ∧ p.2 ∈ xs := by
  induction xs with
  | nil => cases h
  | cons x xs ih =>
    rcases List.mem_append.mp h with hx | hrest
    · obtain ⟨y,hy,rfl⟩ := List.mem_map.mp hx
      exact ⟨List.mem_cons_self,List.mem_cons_of_mem _ hy⟩
    · exact ⟨List.mem_cons_of_mem _ (ih hrest).1,List.mem_cons_of_mem _ (ih hrest).2⟩

theorem rel_of_mem_pairs {R : α → α → Prop} {xs : List α} (hR : xs.Pairwise R) {p : α × α}
    (h : p ∈ pairs xs) : R p.1 p.2 := by
  induction xs with
  | nil => cases h
  | cons x xs ih =>
    obtain ⟨hx,hxs⟩ := List.pairwise_cons.mp hR
    rcases List.mem_append.mp h with hfirst | hrest
    · obtain ⟨y,hy,rfl⟩ := List.mem_map.mp hfirst
      exact hx y hy
    · exact ih hxs hrest

/-- Two different elements are a pair, one way round. -/
theorem mem_pairs_or {a b : α} {xs : List α} (ha : a ∈ xs) (hb : b ∈ xs) (hne : a ≠ b) :
    (a,b) ∈ pairs xs ∨ (b,a) ∈ pairs xs := by
  induction xs with
  | nil => cases ha
  | cons x xs ih =>
    simp only [pairs,List.mem_append,List.mem_map,Prod.mk.injEq]
    rcases List.mem_cons.mp ha with rfl | hax
    · have hbx := (List.mem_cons.mp hb).resolve_left (Ne.symm hne)
      exact .inl (.inl ⟨b,hbx,rfl,rfl⟩)
    · rcases List.mem_cons.mp hb with rfl | hbx
      · exact .inr (.inl ⟨a,hax,rfl,rfl⟩)
      · exact (ih hax hbx).imp .inr .inr

section Keys

variable {key : α → κ}

theorem nodup_keys_pairs {xs : List α} (hkeys : (xs.map key).Nodup) :
    ((pairs xs).map fun p => s(key p.1,key p.2)).Nodup := by
  induction xs with
  | nil => exact List.nodup_nil
  | cons x xs ih =>
    obtain ⟨hx,hxs⟩ := List.nodup_cons.mp hkeys
    rw [pairs,List.map_append,List.map_map,List.nodup_append]
    refine ⟨?_,ih hxs,?_⟩
    · have hmap : xs.map ((fun p : α × α => s(key p.1,key p.2)) ∘ (x,·)) =
          (xs.map key).map fun k => s(key x,k) := by
        rw [List.map_map]
        rfl
      rw [hmap]
      exact hxs.map fun _ _ h => Sym2.congr_right.mp h
    · -- the key of the first element is not that of a later one
      intro e he e' he' heq
      obtain ⟨y,-,rfl⟩ := List.mem_map.mp he
      obtain ⟨p,hp,rfl⟩ := List.mem_map.mp he'
      have hin : key x ∈ s(key p.1,key p.2) := heq ▸ Sym2.mem_mk_left (key x) (key y)
      obtain ⟨h1,h2⟩ := mem_of_mem_pairs hp
      rcases Sym2.mem_iff.mp hin with h | h
      · exact hx (h ▸ List.mem_map_of_mem h1)
      · exact hx (h ▸ List.mem_map_of_mem h2)

/-- What a double loop writes down about the related elements has one text for each pair. -/
theorem perm_pairs {xs : List α} (hkeys : (xs.map key).Nodup) {R : α → α → Prop} [DecidableRel R]
    (hsymm : ∀ a b, R a b → R b a) {text : α → α → β} (htext : ∀ a b, text a b = text b a)
    (hinj : ∀ a ∈ xs, ∀ b ∈ xs, ∀ c ∈ xs, ∀ d ∈ xs, text a b = text c d →
      s(key a,key b) = s(key c,key d)) {es : List β} (hes : es.Nodup)
    (hmem : ∀ e, e ∈ es ↔ ∃ a ∈ xs, ∃ b ∈ xs, key a ≠ key b ∧ R a b ∧ text a b = e) :
    es.Perm (((pairs xs).filter fun p => R p.1 p.2).map fun p => text p.1 p.2) := by
  have hnodup : ((pairs xs).map fun p => text p.1 p.2).Nodup := by
    refine List.pairwise_map.mpr ((List.pairwise_map.mp (nodup_keys_pairs hkeys)).imp_of_mem ?_)
    intro p q hp hq hne heq
    obtain ⟨hp1,hp2⟩ := mem_of_mem_pairs hp
    obtain ⟨hq1,hq2⟩ := mem_of_mem_pairs hq
    exact hne (hinj _ hp1 _ hp2 _ hq1 _ hq2 heq)
  refine (List.perm_ext_iff_of_nodup hes (hnodup.sublist (List.filter_sublist.map _))).mpr ?_
  intro e
  rw [hmem]
  simp only [List.mem_map,List.mem_filter,decide_eq_true_eq,Prod.exists]
  constructor
  · rintro ⟨a,ha,b,hb,hne,hR,rfl⟩
    rcases mem_pairs_or ha hb (fun h => hne (congrArg key h)) with h | h
    · exact ⟨a,b,⟨h,hR⟩,rfl⟩
    · exact ⟨b,a,⟨h,hsymm _ _ hR⟩,htext b a⟩
  · rintro ⟨a,b,⟨hp,hR⟩,rfl⟩
    obtain ⟨ha,hb⟩ := mem_of_mem_pairs hp
    exact ⟨a,ha,b,hb,rel_of_mem_pairs (List.pairwise_map.mp hkeys) hp,hR,rfl⟩

end Keys

end UnorderedPairs
