import ETraceDiag.OverlapRuns
import Mathlib.Order.Bounds.Basic
import Mathlib.Order.MinMax

/-!
# Groups of overlapping intervals

Intervals that are sorted by where they start are joined group by group, and one may contain
another. What a join keeps the greatest, or the last, of is that of its group.
-/

namespace OverlapGroups

open OverlapRuns (merge mergeFrom)

/-- The intervals of a join, of which there is a first one. -/
structure Cluster (α : Type*) where
  first : α
  rest : List α

namespace Cluster

variable {α τ : Type*}

def members (g : Cluster α) : List α := g.first::g.rest

def joined (join : α → α → α) (g : Cluster α) : α := g.rest.foldl join g.first

/-- Where the last of them ends. -/
def stop [LinearOrder τ] (stop : α → τ) (g : Cluster α) : τ :=
  g.rest.foldl (fun e x => max e (stop x)) (stop g.first)

def add (g : Cluster α) (x : α) : Cluster α := ⟨g.first,g.rest++[x]⟩

@[simp] theorem members_add (g : Cluster α) (x : α) : (g.add x).members = g.members++[x] := rfl

theorem mem_add {g : Cluster α} {x y : α} : y ∈ (g.add x).members ↔ y ∈ g.members ∨ y = x := by
  rw [members_add,List.mem_append,List.mem_singleton]

@[simp] theorem joined_add (join : α → α → α) (g : Cluster α) (x : α) :
    (g.add x).joined join = join (g.joined join) x := by
  rw [joined,add,List.foldl_append]
  rfl

@[simp] theorem stop_add [LinearOrder τ] (f : α → τ) (g : Cluster α) (x : α) :
    (g.add x).stop f = max (g.stop f) (f x) := by
  rw [stop,add,List.foldl_append]
  rfl

theorem first_mem (g : Cluster α) : g.first ∈ g.members := List.mem_cons_self

/-- Groups grow by one interval at a time. -/
theorem induction {P : Cluster α → Prop} (one : ∀ x, P ⟨x,[]⟩) (add : ∀ g x, P g → P (g.add x))
    (g : Cluster α) : P g := by
  obtain ⟨x,xs⟩ := g
  induction xs using List.reverseRecOn with
  | nil => exact one x
  | append_singleton xs y ih => exact add ⟨x,xs⟩ y ih

variable (join : α → α → α)

theorem stop_joined [LinearOrder τ] {f : α → τ} (hstop : ∀ a b, f (join a b) = max (f a) (f b))
    (g : Cluster α) : f (g.joined join) = g.stop f := by
  induction g using Cluster.induction with
  | one x => rfl
  | add g x ih => rw [joined_add,stop_add,hstop,ih]

theorem first_joined {f : α → τ} (hstart : ∀ a b, f (join a b) = f a) (g : Cluster α) :
    f (g.joined join) = f g.first := by
  induction g using Cluster.induction with
  | one x => rfl
  | add g x ih => rw [joined_add,hstart,ih]; rfl

theorem le_stop [LinearOrder τ] (f : α → τ) (g : Cluster α) : ∀ x ∈ g.members, f x ≤ g.stop f := by
  induction g using Cluster.induction with
  | one x => exact fun y hy => (congrArg f (List.mem_singleton.mp hy)).le
  | add g x ih =>
    intro y hy
    rw [stop_add]
    rcases mem_add.mp hy with hy | rfl
    · exact le_max_of_le_left (ih y hy)
    · exact le_max_right _ _

theorem exists_stop [LinearOrder τ] (f : α → τ) (g : Cluster α) :
    ∃ x ∈ g.members, f x = g.stop f := by
  induction g using Cluster.induction with
  | one x => exact ⟨x,List.mem_singleton_self x,rfl⟩
  | add g x ih =>
    obtain ⟨y,hy,heq⟩ := ih
    rw [stop_add]
    rcases max_choice (g.stop f) (f x) with hmax | hmax
    · exact ⟨y,mem_add.mpr (.inl hy),heq.trans hmax.symm⟩
    · exact ⟨x,mem_add.mpr (.inr rfl),hmax.symm⟩

/-! ## What a join keeps -/

/-- Something that a join keeps of either side is there when some interval has it. -/
theorem exists_joined {P : α → Prop} (hP : ∀ a b, P (join a b) ↔ P a ∨ P b) (g : Cluster α) :
    P (g.joined join) ↔ ∃ x ∈ g.members, P x := by
  induction g using Cluster.induction with
  | one x => simp [members,joined]
  | add g x ih =>
    rw [joined_add,hP,ih]
    simp only [mem_add,or_and_right,exists_or,exists_eq_left]

/-- The last of the values that are there. -/
theorem last_joined {ν : Type*} {f : α → Option ν}
    (hf : ∀ a b, f (join a b) = (f b).or (f a)) (g : Cluster α) :
    f (g.joined join) = (g.members.filterMap f).getLast? := by
  induction g using Cluster.induction with
  | one x =>
    change f x = ([x].filterMap f).getLast?
    cases hx : f x <;> simp [hx]
  | add g x ih =>
    rw [joined_add,hf,ih,members_add,List.filterMap_append]
    cases hx : f x <;> simp [hx]

/-- The values that are there. -/
def values {ν : Type*} (f : α → Option ν) (g : Cluster α) : Set ν :=
  {s | ∃ x ∈ g.members, f x = some s}

theorem values_add {ν : Type*} (f : α → Option ν) (g : Cluster α) (x : α) :
    (g.add x).values f = g.values f ∪ {s | f x = some s} := by
  ext s
  simp [values,or_and_right,exists_or]

/-- The greatest of the values that are there. -/
theorem greatest_joined {ν : Type*} [LinearOrder ν] {f : α → Option ν}
    (hf : ∀ a b, f (join a b) = Option.merge max (f a) (f b)) (g : Cluster α) (v : ν) :
    f (g.joined join) = some v ↔ IsGreatest (g.values f) v := by
  have hcases : (∀ v, f (g.joined join) = some v → IsGreatest (g.values f) v) ∧
      (f (g.joined join) = none → g.values f = ∅) := by
    induction g using Cluster.induction with
    | one x =>
      have hset : (⟨x,[]⟩ : Cluster α).values f = {s | f x = some s} := by simp [values,members]
      rw [hset]
      refine ⟨fun v hv => ⟨hv,fun s hs => ?_⟩,fun hnone => ?_⟩
      · exact (Option.some.inj (hs.symm.trans hv)).le
      · exact Set.eq_empty_of_forall_notMem fun s hs => by cases hs.symm.trans hnone
    | add g x ih =>
      rw [joined_add,hf,values_add]
      cases hx : f x with
      | none =>
        have hempty : {s | none = some s} = (∅ : Set ν) :=
          Set.eq_empty_of_forall_notMem fun s hs => by cases hs
        rw [hempty,Set.union_empty]
        cases hg : f (g.joined join) <;> rw [hg] at ih <;> exact ih
      | some d =>
        have hsingle : {s | some d = some s} = ({d} : Set ν) := by
          ext s
          simp [eq_comm]
        rw [hsingle]
        cases hg : f (g.joined join) with
        | none =>
          rw [ih.2 hg,Set.empty_union]
          refine ⟨fun v hv => ?_,fun hnone => by cases hnone⟩
          obtain rfl := Option.some.inj hv
          exact isGreatest_singleton
        | some c =>
          refine ⟨fun v hv => ?_,fun hnone => by cases hnone⟩
          obtain rfl := Option.some.inj hv
          exact (ih.1 c hg).union isGreatest_singleton
  refine ⟨hcases.1 v,fun h => ?_⟩
  cases hg : f (g.joined join) with
  | none =>
    have hmem := h.1
    rw [hcases.2 hg] at hmem
    cases hmem
  | some w => rw [(hcases.1 w hg).unique h]

end Cluster

/-! ## The groups of a pass -/

variable {α τ : Type*} [LinearOrder τ] (start stop : α → τ)

def groupsFrom (g : Cluster α) : List α → List (Cluster α)
  | [] => [g]
  | x::xs => if start x ≤ g.stop stop then groupsFrom (g.add x) xs else g::groupsFrom ⟨x,[]⟩ xs

def groups : List α → List (Cluster α)
  | [] => []
  | x::xs => groupsFrom start stop ⟨x,[]⟩ xs

variable {start stop}

/-- The pass gives the joins of the groups. -/
theorem merge_eq (start stop : α → τ) (join : α → α → α)
    (hstop : ∀ a b, stop (join a b) = max (stop a) (stop b)) (xs : List α) :
    merge start stop join xs = (groups start stop xs).map (Cluster.joined join) := by
  suffices h : ∀ (xs : List α) (g : Cluster α), mergeFrom start stop join (g.joined join) xs =
      (groupsFrom start stop g xs).map (Cluster.joined join) by
    cases xs with
    | nil => rfl
    | cons x xs => exact h xs ⟨x,[]⟩
  intro xs
  induction xs with
  | nil => exact fun g => rfl
  | cons x xs ih =>
    intro g
    rw [mergeFrom,groupsFrom,Cluster.stop_joined join hstop]
    split
    · rw [← ih,Cluster.joined_add]
    · rw [List.map_cons,← ih ⟨x,[]⟩]
      rfl

/-- Every interval is in one group. -/
theorem flatMap_members (start stop : α → τ) (xs : List α) :
    (groups start stop xs).flatMap Cluster.members = xs := by
  suffices h : ∀ (xs : List α) (g : Cluster α),
      (groupsFrom start stop g xs).flatMap Cluster.members = g.members++xs by
    cases xs with
    | nil => rfl
    | cons x xs => exact h xs ⟨x,[]⟩
  intro xs
  induction xs with
  | nil => exact fun g => by simp [groupsFrom]
  | cons x xs ih =>
    intro g
    rw [groupsFrom]
    split
    · rw [ih,Cluster.members_add,List.append_assoc,List.singleton_append]
    · rw [List.flatMap_cons,ih]
      rfl

variable (start stop)

/-- The intervals of the group cover all of the time from its start to its end. -/
structure Connected (g : Cluster α) : Prop where
  low : ∀ x ∈ g.members, start g.first ≤ start x
  covered : ∀ t, start g.first ≤ t → t < g.stop stop → ∃ x ∈ g.members, start x ≤ t ∧ t < stop x

variable {start stop}

theorem Connected.one (x : α) : Connected start stop ⟨x,[]⟩ where
  low _ hy := (congrArg start (List.mem_singleton.mp hy)).ge
  covered _ hlow hhigh := ⟨x,List.mem_singleton_self x,hlow,hhigh⟩

/-- An interval that starts before the group has ended leaves no hole. -/
theorem Connected.add {g : Cluster α} (h : Connected start stop g) {x : α}
    (hlow : start g.first ≤ start x) (hover : start x ≤ g.stop stop) :
    Connected start stop (g.add x) where
  low y hy := by
    rcases Cluster.mem_add.mp hy with hy | rfl
    · exact h.low y hy
    · exact hlow
  covered t hfirst ht := by
    rw [Cluster.stop_add] at ht
    rcases lt_or_ge t (g.stop stop) with hin | hout
    · obtain ⟨y,hy,hat⟩ := h.covered t hfirst hin
      exact ⟨y,Cluster.mem_add.mpr (.inl hy),hat⟩
    · refine ⟨x,Cluster.mem_add.mpr (.inr rfl),hover.trans hout,?_⟩
      exact (lt_max_iff.mp ht).resolve_left hout.not_gt

/-- Groups of intervals that are sorted by where they start are apart. -/
theorem groups_spec (stop : α → τ) {xs : List α}
    (hsorted : xs.Pairwise fun a b => start a ≤ start b) :
    (∀ g ∈ groups start stop xs, Connected start stop g) ∧
      (groups start stop xs).Pairwise fun g h => g.stop stop < start h.first := by
  suffices h : ∀ (xs : List α) (g : Cluster α), Connected start stop g →
      (∀ x ∈ xs, start g.first ≤ start x) → (xs.Pairwise fun a b => start a ≤ start b) →
      (∀ h ∈ groupsFrom start stop g xs, Connected start stop h) ∧
        (groupsFrom start stop g xs).Pairwise fun g h => g.stop stop < start h.first by
    cases xs with
    | nil => exact ⟨fun g hg => absurd hg List.not_mem_nil,List.Pairwise.nil⟩
    | cons x xs =>
      obtain ⟨hx,hrest⟩ := List.pairwise_cons.mp hsorted
      exact h xs ⟨x,[]⟩ (Connected.one x) hx hrest
  intro xs
  induction xs with
  | nil =>
    intro g hg _ _
    exact ⟨fun h hh => by rwa [List.mem_singleton.mp hh],List.pairwise_singleton _ _⟩
  | cons x xs ih =>
    intro g hg hlow hsorted
    obtain ⟨hx,hrest⟩ := List.pairwise_cons.mp hsorted
    have hxs : ∀ y ∈ xs, start g.first ≤ start y := fun y hy => hlow y (List.mem_cons_of_mem x hy)
    rw [groupsFrom]
    split
    · next hover => exact ih (g.add x) (hg.add (hlow x List.mem_cons_self) hover) hxs hrest
    · next hgap =>
      obtain ⟨hconnected,hapart⟩ := ih ⟨x,[]⟩ (Connected.one x) hx hrest
      refine ⟨fun h hh => ?_,List.pairwise_cons.mpr ⟨fun h hh => ?_,hapart⟩⟩
      · rcases List.mem_cons.mp hh with rfl | hh
        · exact hg
        · exact hconnected h hh
      · have hmem : h.first ∈ x::xs := by
          rw [← flatMap_members start stop (x::xs)]
          exact List.mem_flatMap.mpr ⟨h,hh,h.first_mem⟩
        refine (not_le.mp hgap).trans_le ?_
        rcases List.mem_cons.mp hmem with heq | hin
        · rw [heq]
        · exact hx _ hin

/-- An interval is in a group exactly when it lies within it. -/
theorem mem_members_iff {xs : List α} (hsorted : xs.Pairwise fun a b => start a ≤ start b)
    (horder : ∀ x ∈ xs, start x ≤ stop x) {g : Cluster α} (hg : g ∈ groups start stop xs) {x : α}
    (hx : x ∈ xs) : x ∈ g.members ↔ start g.first ≤ start x ∧ stop x ≤ g.stop stop := by
  obtain ⟨hconnected,hapart⟩ := groups_spec stop hsorted
  constructor
  · exact fun hmem => ⟨(hconnected g hg).low x hmem,g.le_stop stop x hmem⟩
  · rintro ⟨hlow,hhigh⟩
    have hin := hx
    rw [← flatMap_members start stop xs] at hin
    obtain ⟨h,hh,hmem⟩ := List.mem_flatMap.mp hin
    by_cases heq : g = h
    · rwa [heq]
    · exfalso
      have hgroup := (hconnected h hh).low x hmem
      have hends := h.le_stop stop x hmem
      -- one of two groups ends before the other one starts
      have hsymm : Std.Symm fun g h : Cluster α =>
          g.stop stop < start h.first ∨ h.stop stop < start g.first := ⟨fun _ _ hab => hab.symm⟩
      have heither : g.stop stop < start h.first ∨ h.stop stop < start g.first := by
        refine List.Pairwise.forall (R:=fun g h : Cluster α =>
          g.stop stop < start h.first ∨ h.stop stop < start g.first) ?_ hg hh heq
        exact hapart.imp fun hab => .inl hab
      rcases heither with hlt | hlt
      · exact absurd ((hgroup.trans (horder x hx)).trans hhigh) hlt.not_ge
      · exact absurd ((hlow.trans (horder x hx)).trans hends) hlt.not_ge

/-- The same pass over things that the intervals are made from. -/
theorem merge_map {β : Type*} (start stop : α → τ) (f : β → α) (join : α → α → α)
    (join' : β → β → β) (hjoin : ∀ a b, f (join' a b) = join (f a) (f b)) (xs : List β) :
    merge start stop join (xs.map f) = (merge (start ∘ f) (stop ∘ f) join' xs).map f := by
  suffices h : ∀ (xs : List β) (y : β), mergeFrom start stop join (f y) (xs.map f) =
      (mergeFrom (start ∘ f) (stop ∘ f) join' y xs).map f by
    cases xs with
    | nil => rfl
    | cons x xs => exact h xs x
  intro xs
  induction xs with
  | nil => exact fun y => rfl
  | cons x xs ih =>
    intro y
    rw [List.map_cons,mergeFrom,mergeFrom,← hjoin]
    simp only [Function.comp_apply]
    split
    · exact ih (join' y x)
    · rw [ih x,List.map_cons]

end OverlapGroups
