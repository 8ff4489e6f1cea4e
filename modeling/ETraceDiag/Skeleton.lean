import ETraceDiag.LevelRemoval
import Mathlib.Data.Fintype.Basic
import Mathlib.Data.Finset.Lattice.Fold
import Mathlib.Order.Lattice.Nat

/-!
# Skeletons

The skeleton discovery of `causal/psi_pc.py`: edges of a complete graph are removed when a test
finds their ends independent given a set of other nodes. What a test finds is left open; it is a
function of the two nodes and of the set.
-/

namespace ETraceDiag
namespace Skeleton

open LevelRemoval

variable {n : ℕ} {P : Type}

/-! ## The graph -/

/-- `MiniCausalGraph`, but for the data. -/
structure MiniCausalGraph (n : ℕ) (P : Type) where
  graph : Fin n → Fin n → Bool := fun x y => x ≠ y
  sepset : Fin n → Fin n → Option (List (Fin n)) := fun _ _ => none
  pValues : Fin n → Fin n → List P := fun _ _ => []
  mi : List (Fin n) := []
  citestCache : Fin n → Fin n → Finset (Fin n) → Option P := fun _ _ _ => none
  noCiTests : ℕ := 0

/-- `f[x, y] = v`. -/
def assign {β : Type} (f : Fin n → Fin n → β) (x y : Fin n) (v : β) : Fin n → Fin n → β :=
  fun a b => if a = x ∧ b = y then v else f a b

theorem assign_assign {β : Type} (f : Fin n → Fin n → β) (x y : Fin n) (v : β) (a b : Fin n) :
    assign (assign f x y v) y x v a b = if a = x ∧ b = y ∨ a = y ∧ b = x then v else f a b := by
  rw [assign,assign]
  by_cases h₁ : a = y ∧ b = x <;> by_cases h₂ : a = x ∧ b = y <;> simp [h₁,h₂]

namespace MiniCausalGraph

def neighbors (g : MiniCausalGraph n P) (i : Fin n) : List (Fin n) :=
  (List.finRange n).filter (g.graph i)

def maxDegree (g : MiniCausalGraph n P) : ℕ := Finset.univ.sup fun i => (g.neighbors i).length

def removeEdge (g : MiniCausalGraph n P) (x y : Fin n) : MiniCausalGraph n P :=
  { g with graph := assign (assign g.graph x y false) y x false }

def appendToMi (g : MiniCausalGraph n P) (node : Fin n) : MiniCausalGraph n P :=
  if node ∈ g.mi then g else { g with mi := g.mi++[node] }

def appendValue (g : MiniCausalGraph n P) (x y : Fin n) (value : P) : MiniCausalGraph n P :=
  { g with pValues := assign g.pValues x y (g.pValues x y++[value]) }

/-- The edge goes, and what separates its ends is recorded. -/
def separate (g : MiniCausalGraph n P) (x y : Fin n) (S : List (Fin n)) : MiniCausalGraph n P :=
  { g.removeEdge x y with sepset := assign (assign g.sepset x y (some S)) y x (some S) }

end MiniCausalGraph

variable [LinearOrder P] (test : Fin n → Fin n → Finset (Fin n) → P)

/-- `ci_test`: the two nodes come in order, and the set without order or repetitions. -/
def ciTest (g : MiniCausalGraph n P) (x y : Fin n) (S : List (Fin n)) :
    P × MiniCausalGraph n P :=
  let g := { g with noCiTests := g.noCiTests+1 }
  let (i,j) := if x < y then (x,y) else (y,x)
  match g.citestCache i j S.toFinset with
  | some p => (p,g)
  | none =>
    let p := test i j S.toFinset
    (p,{ g with citestCache := fun a b T =>
      if a = i ∧ b = j ∧ T = S.toFinset then some p else g.citestCache a b T })

/-- `itertools.combinations`. -/
def combinations {α : Type} : List α → ℕ → List (List α)
  | _,0 => [[]]
  | [],_+1 => []
  | x::xs,k+1 => (combinations xs k).map (x::·)++combinations xs (k+1)

/-- `while cg.max_degree() - 1 > depth`, from the depth that comes next. -/
def whileDegree (level : ℕ → MiniCausalGraph n P → MiniCausalGraph n P) (depth : ℕ)
    (g : MiniCausalGraph n P) : MiniCausalGraph n P :=
  if depth < g.maxDegree then whileDegree level (depth+1) (level depth g) else g
termination_by n-depth
decreasing_by
  have hle : g.maxDegree ≤ n := Finset.sup_le fun i _ =>
    (List.length_filter_le _ _).trans (List.length_finRange (n:=n)).le
  omega

/-- The orders that a seed, or a priority, leads to. -/
structure Orders (n : ℕ) where
  visit : ℕ → List (Fin n) → List (Fin n)
  byKey : List (Fin n) → List (Fin n)
  visit_perm : ∀ depth ns, (visit depth ns).Perm ns
  byKey_perm : ∀ ns, (byKey ns).Perm ns

/-! ## The local skeleton -/

section Local

variable (x : Fin n) (alpha : P) (depth : ℕ)

/-- The sets that are tried for a neighbour, up to the first one that separates it. -/
def tryLocal (y : Fin n) : List (List (Fin n)) → MiniCausalGraph n P → MiniCausalGraph n P
  | [],g => g
  | S::Ss,g =>
    let (p,g) := ciTest test g x y S
    if alpha < p then
      let g := g.separate x y S
      if depth = 0 then g.appendToMi y else g
    else tryLocal y Ss ((g.appendValue x y p).appendValue y x p)

def visitLocal (g : MiniCausalGraph n P) (y : Fin n) : MiniCausalGraph n P :=
  let neighY := (g.neighbors y).filter (· ≠ x)
  let neighYF := if 0 < depth then neighY.filter fun s => x ∈ g.neighbors s else []
  tryLocal test x alpha depth y (combinations neighYF depth) g

def levelLocal (orders : Orders n) (depth : ℕ) (g : MiniCausalGraph n P) : MiniCausalGraph n P :=
  (orders.visit depth (g.neighbors x)).foldl (visitLocal test x alpha depth) g

/-- The edges to nodes that are known to be independent of `x`. -/
def removeMi (mi : List (Option (Fin n))) : MiniCausalGraph n P :=
  mi.foldl (fun g i =>
    match i with
    | none => g
    | some i => if g.graph x i then g.removeEdge x i else g) {}

def localSkeletonDiscovery (orders : Orders n) (mi : List (Option (Fin n))) :
    MiniCausalGraph n P :=
  whileDegree (levelLocal test x alpha orders) 0 (removeMi x mi)

end Local

/-! ## The whole skeleton -/

section Whole

variable (alpha : P)

def tryWhole (x y : Fin n) : List (List (Fin n)) → MiniCausalGraph n P → MiniCausalGraph n P
  | [],g => g
  | S::Ss,g =>
    let (p,g) := ciTest test g x y S
    if alpha < p then
      if g.graph x y || g.graph y x then g.separate x y S else g
    else tryWhole x y Ss ((g.appendValue x y p).appendValue y x p)

/-- All neighbours of a node, as they were before the first one was looked at. -/
def visitWhole (orders : Orders n) (depth : ℕ) (g : MiniCausalGraph n P) (x : Fin n) :
    MiniCausalGraph n P :=
  let neighX := g.neighbors x
  if neighX.length < depth-1 then g
  else
    (orders.byKey neighX).foldl (fun g y =>
      tryWhole test alpha x y (combinations (orders.byKey (neighX.filter (· ≠ y))) depth) g) g

def skeletonDiscovery (orders : Orders n) : MiniCausalGraph n P :=
  whileDegree (fun depth g =>
    (orders.byKey (List.finRange n)).foldl (visitWhole test alpha orders depth) g) 0 {}

end Whole

/-! ## No loops -/

section Loopless

omit [LinearOrder P] in
theorem graph_separate (g : MiniCausalGraph n P) (x y : Fin n) (S : List (Fin n)) (a b : Fin n) :
    (g.separate x y S).graph a b =
      if a = x ∧ b = y ∨ a = y ∧ b = x then false else g.graph a b :=
  assign_assign g.graph x y false a b

/-- No node is its own neighbour. -/
def Loopless (g : MiniCausalGraph n P) : Prop := ∀ a, g.graph a a = false

variable {test} {g : MiniCausalGraph n P}

omit [LinearOrder P] in
theorem loopless_start : Loopless ({} : MiniCausalGraph n P) := fun a => by simp

omit [LinearOrder P] in
theorem Loopless.separate (h : Loopless g) (x y : Fin n) (S : List (Fin n)) :
    Loopless (g.separate x y S) := fun a => by rw [graph_separate,h a,ite_self]

omit [LinearOrder P] in
theorem Loopless.removeEdge (h : Loopless g) (x y : Fin n) : Loopless (g.removeEdge x y) :=
  h.separate x y []

omit [LinearOrder P] in
theorem Loopless.appendToMi (h : Loopless g) (y : Fin n) : Loopless (g.appendToMi y) := by
  intro a
  rw [MiniCausalGraph.appendToMi]
  split <;> exact h a

omit [LinearOrder P] in
theorem graph_ciTest (g : MiniCausalGraph n P) (x y : Fin n) (S : List (Fin n)) :
    (ciTest test g x y S).2.graph = g.graph := by
  rw [ciTest]
  generalize (if x < y then (x,y) else (y,x)) = ij
  dsimp only
  split <;> rfl

omit [LinearOrder P] in
theorem Loopless.ciTest (h : Loopless g) (x y : Fin n) (S : List (Fin n)) :
    Loopless (ciTest test g x y S).2 := fun a => by rw [graph_ciTest,h a]

theorem Loopless.tryLocal {x y : Fin n} {alpha : P} {depth : ℕ} {Ss : List (List (Fin n))} :
    ∀ {g : MiniCausalGraph n P}, Loopless g → Loopless (tryLocal test x alpha depth y Ss g) := by
  induction Ss with
  | nil => exact fun h => h
  | cons S Ss ih =>
    intro g h
    have htest : Loopless (Skeleton.ciTest test g x y S).2 := h.ciTest x y S
    rw [Skeleton.tryLocal]
    dsimp only
    split
    · have hgone := htest.separate x y S
      split
      · exact hgone.appendToMi y
      · exact hgone
    · exact ih htest

theorem Loopless.tryWhole {x y : Fin n} {alpha : P} {Ss : List (List (Fin n))} :
    ∀ {g : MiniCausalGraph n P}, Loopless g → Loopless (tryWhole test alpha x y Ss g) := by
  induction Ss with
  | nil => exact fun h => h
  | cons S Ss ih =>
    intro g h
    have htest : Loopless (Skeleton.ciTest test g x y S).2 := h.ciTest x y S
    rw [Skeleton.tryWhole]
    dsimp only
    split
    · split
      · exact htest.separate x y S
      · exact htest
    · exact ih htest

omit [LinearOrder P] in
theorem Loopless.foldl {β : Type} {f : MiniCausalGraph n P → β → MiniCausalGraph n P}
    (hf : ∀ g b, Loopless g → Loopless (f g b)) {bs : List β} :
    ∀ {g : MiniCausalGraph n P}, Loopless g → Loopless (bs.foldl f g) := by
  induction bs with
  | nil => exact fun h => h
  | cons b bs ih => exact fun h => ih (hf _ b h)

omit [LinearOrder P] in
theorem Loopless.whileDegree {level : ℕ → MiniCausalGraph n P → MiniCausalGraph n P}
    (hlevel : ∀ depth g, Loopless g → Loopless (level depth g)) (depth : ℕ)
    (g : MiniCausalGraph n P) (h : Loopless g) : Loopless (whileDegree level depth g) := by
  fun_induction Skeleton.whileDegree level depth g with
  | case1 depth g _ ih => exact ih (hlevel depth g h)
  | case2 depth g _ => exact h

theorem loopless_localSkeletonDiscovery (test : Fin n → Fin n → Finset (Fin n) → P) (x : Fin n)
    (alpha : P) (orders : Orders n) (mi : List (Option (Fin n))) :
    Loopless (localSkeletonDiscovery test x alpha orders mi) := by
  refine Loopless.whileDegree (fun depth g h => ?_) 0 _ ?_
  · exact Loopless.foldl (fun g y h => h.tryLocal) h
  · refine Loopless.foldl (fun g i h => ?_) loopless_start
    cases i with
    | none => exact h
    | some i =>
      dsimp only
      split
      · exact h.removeEdge x i
      · exact h

theorem loopless_skeletonDiscovery (test : Fin n → Fin n → Finset (Fin n) → P) (alpha : P)
    (orders : Orders n) : Loopless (skeletonDiscovery test alpha orders) := by
  refine Loopless.whileDegree (fun depth g h => Loopless.foldl (fun g x h => ?_) h) 0 _
    loopless_start
  rw [visitWhole]
  split
  · exact h
  · exact Loopless.foldl (fun g y h => h.tryWhole) h

end Loopless

/-! ## Sublists and subsets -/

theorem mem_combinations {α : Type} {l : List α} {k : ℕ} {S : List α} :
    S ∈ combinations l k ↔ S.Sublist l ∧ S.length = k := by
  induction l generalizing k S with
  | nil =>
    cases k with
    | zero => simp [combinations]
    | succ k =>
      refine iff_of_false List.not_mem_nil ?_
      rintro ⟨hsub,hlen⟩
      rw [List.sublist_nil.mp hsub] at hlen
      cases hlen
  | cons x xs ih =>
    cases k with
    | zero =>
      rw [combinations,List.mem_singleton,List.length_eq_zero_iff]
      exact ⟨fun h => ⟨h ▸ List.nil_sublist _,h⟩,And.right⟩
    | succ k =>
      rw [combinations,List.mem_append,List.mem_map,ih,List.sublist_cons_iff]
      constructor
      · rintro (⟨T,hT,rfl⟩ | ⟨hsub,hlen⟩)
        · obtain ⟨hsub,hlen⟩ := ih.mp hT
          exact ⟨.inr ⟨T,rfl,hsub⟩,congrArg (·+1) hlen⟩
        · exact ⟨.inl hsub,hlen⟩
      · rintro ⟨hsub | ⟨T,rfl,hsub⟩,hlen⟩
        · exact .inr ⟨hsub,hlen⟩
        · exact .inl ⟨T,ih.mpr ⟨hsub,Nat.succ.inj hlen⟩,rfl⟩

/-- The sets of a certain size are the combinations of the elements. -/
theorem exists_combination {α : Type} [DecidableEq α] {l : List α} (hl : l.Nodup) {k : ℕ}
    (Q : Finset α → Prop) :
    (∃ S ∈ combinations l k, Q S.toFinset) ↔ ∃ T ⊆ l.toFinset, T.card = k ∧ Q T := by
  constructor
  · rintro ⟨S,hS,hQ⟩
    obtain ⟨hsub,hlen⟩ := mem_combinations.mp hS
    refine ⟨S.toFinset,fun s hs => ?_,?_,hQ⟩
    · exact List.mem_toFinset.mpr (hsub.subset (List.mem_toFinset.mp hs))
    · rw [List.toFinset_card_of_nodup (hl.sublist hsub),hlen]
  · rintro ⟨T,hT,hcard,hQ⟩
    have hset : (l.filter (· ∈ T)).toFinset = T := by
      ext s
      rw [List.mem_toFinset,List.mem_filter,decide_eq_true_iff]
      exact and_iff_right_of_imp fun hs => List.mem_toFinset.mp (hT hs)
    refine ⟨l.filter (· ∈ T),mem_combinations.mpr ⟨List.filter_sublist,?_⟩,hset.symm ▸ hQ⟩
    rw [← List.toFinset_card_of_nodup (hl.filter _),hset,hcard]

/-! ## What holds of the local skeleton -/

/-- What the tests find for two nodes, in whatever order. -/
def pOf (x y : Fin n) (S : Finset (Fin n)) : P := if x < y then test x y S else test y x S

omit [LinearOrder P] in
theorem pOf_comm (x y : Fin n) (S : Finset (Fin n)) : pOf test x y S = pOf test y x S := by
  rw [pOf,pOf]
  rcases lt_trichotomy x y with h | rfl | h
  · rw [if_pos h,if_neg h.asymm]
  · rfl
  · rw [if_neg h.asymm,if_pos h]

variable (x : Fin n) (alpha : P) (mi : List (Option (Fin n)))

/-- What is removed is separated, `mi` gets what nothing is needed for, and what is left is
dependent whatever else is left. -/
structure Exact (g : MiniCausalGraph n P) : Prop where
  removed : ∀ a b, a ≠ b → g.graph a b = false → (a = x ∧ some b ∈ mi ∨ b = x ∧ some a ∈ mi) ∨
    ∃ S, g.sepset a b = some S ∧ alpha < pOf test a b S.toFinset
  mi_iff : ∀ y, y ∈ g.mi ↔ y ≠ x ∧ some y ∉ mi ∧ alpha < pOf test x y ∅
  mi_sepset : ∀ y, y ∈ g.mi ↔ g.sepset x y = some []
  complete : ∀ y, g.graph x y = true → ∀ S : Finset (Fin n),
    (∀ s ∈ S, s ≠ y ∧ g.graph x s = true) → pOf test x y S ≤ alpha

/-- The edges are those of a complete graph but for some of `x`, and those are accounted for. -/
structure Inv (left : Finset (Fin n)) (g : MiniCausalGraph n P) : Prop where
  edges : ∀ a b, g.graph a b = true ↔ a ≠ b ∧ (a = x → b ∈ left) ∧ (b = x → a ∈ left)
  outside : x ∉ left
  kept : ∀ y ∈ left, some y ∉ mi
  cached : ∀ i j T q, g.citestCache i j T = some q → q = test i j T
  separated : ∀ y S, g.sepset x y = some S → y ∉ left ∧ y ≠ x ∧ some y ∉ mi ∧
    alpha < pOf test x y S.toFinset ∧ (S ≠ [] → ¬ alpha < pOf test x y ∅)
  symm : ∀ a b, g.sepset a b = g.sepset b a
  recorded : ∀ y, y ≠ x → y ∉ left → some y ∉ mi → (g.sepset x y).isSome
  mi_sepset : ∀ y, y ∈ g.mi ↔ g.sepset x y = some []

variable {test x alpha mi} {left : Finset (Fin n)} {g : MiniCausalGraph n P}

theorem Inv.mem_neighbors (h : Inv test x alpha mi left g) {y : Fin n} :
    y ∈ g.neighbors x ↔ y ∈ left := by
  rw [MiniCausalGraph.neighbors,List.mem_filter,h.edges]
  constructor
  · exact fun hy => hy.2.2.1 rfl
  · intro hy
    have hne : x ≠ y := fun heq => h.outside (heq ▸ hy)
    exact ⟨List.mem_finRange y,hne,fun _ => hy,fun heq => absurd heq.symm hne⟩

omit [LinearOrder P] in
theorem nodup_neighbors (g : MiniCausalGraph n P) (i : Fin n) : (g.neighbors i).Nodup :=
  (List.nodup_finRange n).filter _

/-- A test gives what it would give without the cache. -/
theorem ciTest_spec (h : Inv test x alpha mi left g) (y : Fin n) (S : List (Fin n)) :
    (ciTest test g x y S).1 = pOf test x y S.toFinset ∧
      Inv test x alpha mi left (ciTest test g x y S).2 := by
  rw [ciTest,pOf]
  generalize hij : (if x < y then (x,y) else (y,x)) = ij
  obtain ⟨i,j⟩ := ij
  have hvalue : (if x < y then test x y S.toFinset else test y x S.toFinset) =
      test i j S.toFinset := by
    split at hij <;> obtain ⟨rfl,rfl⟩ := Prod.mk.inj hij <;> simp [*]
  rw [hvalue]
  dsimp only
  split
  · next p hp => exact ⟨h.cached _ _ _ _ hp,{ h with }⟩
  · refine ⟨rfl,{ h with cached := fun a b T q hq => ?_ }⟩
    dsimp only at hq
    split at hq
    · next heq =>
      obtain ⟨rfl,rfl,rfl⟩ := heq
      exact (Option.some.inj hq).symm
    · exact h.cached a b T q hq

theorem Inv.appendValue (h : Inv test x alpha mi left g) (a b : Fin n) (p : P) :
    Inv test x alpha mi left (g.appendValue a b p) := { h with }

section Separate

variable {y : Fin n} {S : List (Fin n)}

omit [LinearOrder P] in
theorem sepset_separate (a b : Fin n) : (g.separate x y S).sepset a b =
    if a = x ∧ b = y ∨ a = y ∧ b = x then some S else g.sepset a b :=
  assign_assign g.sepset x y (some S) a b

omit [LinearOrder P] in
theorem sepset_separate_left (hxy : x ≠ y) (z : Fin n) : (g.separate x y S).sepset x z =
    if z = y then some S else g.sepset x z := by
  rw [sepset_separate]
  by_cases hz : z = y <;> simp [hz,hxy]

omit [LinearOrder P] in
theorem mem_mi_appendToMi (g : MiniCausalGraph n P) (y z : Fin n) :
    z ∈ (g.appendToMi y).mi ↔ z = y ∨ z ∈ g.mi := by
  rw [MiniCausalGraph.appendToMi]
  split
  · next h => exact (or_iff_right_of_imp fun heq => heq ▸ h).symm
  · rw [List.mem_append,List.mem_singleton,or_comm]

theorem Inv.edges_separate (h : Inv test x alpha mi left g) (a b : Fin n) :
    (g.separate x y S).graph a b = true ↔
      a ≠ b ∧ (a = x → b ∈ left.erase y) ∧ (b = x → a ∈ left.erase y) := by
  rw [graph_separate]
  by_cases hab : a = x ∧ b = y ∨ a = y ∧ b = x
  · rw [if_pos hab]
    rcases hab with ⟨rfl,rfl⟩ | ⟨rfl,rfl⟩ <;> simp
  · rw [if_neg hab,h.edges]
    rw [not_or,not_and,not_and'] at hab
    simp only [Finset.mem_erase]
    refine and_congr_right fun _ => and_congr ?_ ?_
    · exact forall_congr' fun ha => (and_iff_right (hab.1 ha)).symm
    · exact forall_congr' fun hb => (and_iff_right (hab.2 hb)).symm

/-- On the first level, and only there, the other end is added to what depends on nothing. -/
theorem Inv.mem_mi_separate (h : Inv test x alpha mi left g) (hy : y ∈ left) (hxy : x ≠ y)
    {depth : ℕ} (hlen : S.length = depth) (z : Fin n) :
    z ∈ (if depth = 0 then (g.separate x y S).appendToMi y else g.separate x y S).mi ↔
      (g.separate x y S).sepset x z = some [] := by
  have hold := h.mi_sepset z
  rw [sepset_separate_left hxy]
  by_cases hz : z = y
  · subst hz
    have hnone : z ∉ g.mi := fun hmem => (h.separated z [] (hold.mp hmem)).1 hy
    rw [if_pos rfl,Option.some_inj,← List.length_eq_zero_iff,hlen]
    split
    · next hzero => exact iff_of_true ((mem_mi_appendToMi _ _ _).mpr (.inl rfl)) hzero
    · next hpos => exact iff_of_false hnone hpos
  · rw [if_neg hz,← hold]
    split
    · exact (mem_mi_appendToMi _ _ _).trans (or_iff_right hz)
    · rfl

/-- All but that list is the same on each level. -/
theorem Inv.of_separate (h : Inv test x alpha mi left g) (hy : y ∈ left) (hxy : x ≠ y)
    (hS : alpha < pOf test x y S.toFinset) (hempty : S ≠ [] → ¬ alpha < pOf test x y ∅)
    {g' : MiniCausalGraph n P} (hgraph : g'.graph = (g.separate x y S).graph)
    (hsepset : g'.sepset = (g.separate x y S).sepset) (hcache : g'.citestCache = g.citestCache)
    (hmi : ∀ z, z ∈ g'.mi ↔ (g.separate x y S).sepset x z = some []) :
    Inv test x alpha mi (left.erase y) g' := by
  refine ⟨fun a b => ?_,?_,?_,?_,fun z T hz => ?_,fun a b => ?_,fun z hz hleft hkept => ?_,?_⟩
  · rw [hgraph]
    exact h.edges_separate a b
  · exact fun hx => h.outside (Finset.mem_of_mem_erase hx)
  · exact fun z hz => h.kept z (Finset.mem_of_mem_erase hz)
  · rw [hcache]
    exact h.cached
  · rw [hsepset,sepset_separate_left hxy] at hz
    split at hz
    · next heq =>
      obtain rfl := Option.some.inj hz
      subst heq
      exact ⟨Finset.notMem_erase z left,hxy.symm,h.kept z hy,hS,hempty⟩
    · obtain ⟨hleft,hrest⟩ := h.separated z T hz
      exact ⟨fun hmem => hleft (Finset.mem_of_mem_erase hmem),hrest⟩
  · rw [hsepset,sepset_separate,sepset_separate,h.symm a b]
    exact if_congr (by rw [and_comm (a:=a = x),and_comm (a:=a = y),or_comm]) rfl rfl
  · rw [hsepset,sepset_separate_left hxy]
    split
    · rfl
    · next hne =>
      exact h.recorded z hz (fun hmem => hleft (Finset.mem_erase.mpr ⟨hne,hmem⟩)) hkept
  · rw [hsepset]
    exact hmi

/-- A neighbour that is separated goes. -/
theorem Inv.separate (h : Inv test x alpha mi left g) (hy : y ∈ left) {depth : ℕ}
    (hlen : S.length = depth) (hS : alpha < pOf test x y S.toFinset)
    (hempty : depth ≠ 0 → ¬ alpha < pOf test x y ∅) :
    Inv test x alpha mi (left.erase y)
      (if depth = 0 then (g.separate x y S).appendToMi y else g.separate x y S) := by
  have hxy : x ≠ y := fun heq => h.outside (heq ▸ hy)
  have hnonempty : S ≠ [] → ¬ alpha < pOf test x y ∅ := fun hne =>
    hempty fun hzero => hne (List.length_eq_zero_iff.mp (hlen.trans hzero))
  refine h.of_separate hy hxy hS hnonempty ?_ ?_ ?_ (h.mem_mi_separate hy hxy hlen)
  all_goals
    split
    · rw [MiniCausalGraph.appendToMi]
      split <;> rfl
    · rfl

end Separate

/-! ## Levels -/

/-- A neighbour goes exactly when one of the sets separates it. -/
theorem tryLocal_spec {y : Fin n} {depth : ℕ} (hy : y ∈ left)
    (hempty : depth ≠ 0 → ¬ alpha < pOf test x y ∅) (Ss : List (List (Fin n))) :
    ∀ g : MiniCausalGraph n P, Inv test x alpha mi left g → (∀ S ∈ Ss, S.length = depth) →
      (∃ S ∈ Ss, alpha < pOf test x y S.toFinset) ∧
          Inv test x alpha mi (left.erase y) (tryLocal test x alpha depth y Ss g) ∨
        (¬ ∃ S ∈ Ss, alpha < pOf test x y S.toFinset) ∧
          Inv test x alpha mi left (tryLocal test x alpha depth y Ss g) := by
  induction Ss with
  | nil => exact fun g h _ => .inr ⟨by simp,h⟩
  | cons S Ss ih =>
    intro g h hlen
    obtain ⟨hp,hinv⟩ := ciTest_spec h y S
    rw [tryLocal]
    dsimp only
    rw [hp]
    split
    · next hS =>
      refine .inl ⟨⟨S,List.mem_cons_self,hS⟩,?_⟩
      exact hinv.separate hy (hlen S List.mem_cons_self) hS hempty
    · next hS =>
      have hrest := ih _ ((hinv.appendValue x y (pOf test x y S.toFinset)).appendValue y x
        (pOf test x y S.toFinset)) fun T hT => hlen T (List.mem_cons_of_mem S hT)
      simp only [List.exists_mem_cons_iff,hS,false_or]
      exact hrest

/-- A visit is one of the abstract removal. -/
theorem visitLocal_spec (h : Inv test x alpha mi left g) {y : Fin n} (hy : y ∈ left) {depth : ℕ}
    (hempty : depth ≠ 0 → ¬ alpha < pOf test x y ∅) :
    ∃ left', Visit (fun y S => alpha < pOf test x y S) depth y left left' ∧
      Inv test x alpha mi left' (visitLocal test x alpha depth g y) := by
  have hothers : ∀ s, s ∈ ((g.neighbors y).filter (· ≠ x)).filter (fun s => x ∈ g.neighbors s) ↔
      s ∈ left.erase y := by
    intro s
    have hxy : x ≠ y := fun heq => h.outside (heq ▸ hy)
    simp only [List.mem_filter,MiniCausalGraph.neighbors,h.edges,List.mem_finRange,true_and,
      decide_eq_true_eq,Finset.mem_erase]
    constructor
    · rintro ⟨⟨⟨hys,-,-⟩,-⟩,-,-,hleft⟩
      exact ⟨hys.symm,hleft trivial⟩
    · rintro ⟨hsy,hleft⟩
      have hsx : s ≠ x := fun heq => h.outside (heq ▸ hleft)
      exact ⟨⟨⟨hsy.symm,fun heq => absurd heq.symm hxy,fun heq => absurd heq hsx⟩,hsx⟩,hsx,
        fun heq => absurd heq hsx,fun _ => hleft⟩
  have hsets : (∃ S ∈ combinations (if 0 < depth then ((g.neighbors y).filter (· ≠ x)).filter
        (fun s => x ∈ g.neighbors s) else []) depth, alpha < pOf test x y S.toFinset) ↔
      Separated (fun y S => alpha < pOf test x y S) depth left y := by
    rcases Nat.eq_zero_or_pos depth with rfl | hpos
    · simp [combinations,Separated]
    · rw [if_pos hpos,exists_combination (((nodup_neighbors g y).filter _).filter _)
        fun S => alpha < pOf test x y S,Separated]
      refine exists_congr fun S => and_congr_left fun _ => ?_
      simp only [Finset.subset_iff,List.mem_toFinset,hothers]
  rw [visitLocal]
  rcases tryLocal_spec hy hempty _ g h fun S hS => (mem_combinations.mp hS).2 with
    ⟨hsep,hinv⟩ | ⟨hsep,hinv⟩
  · exact ⟨_,.inl ⟨hsets.mp hsep,rfl⟩,hinv⟩
  · exact ⟨_,.inr ⟨fun h => hsep (hsets.mpr h),rfl⟩,hinv⟩

theorem foldl_visitLocal {depth : ℕ} {ys : List (Fin n)} : ∀ {left : Finset (Fin n)}
    {g : MiniCausalGraph n P}, Inv test x alpha mi left g → ys.Nodup → (∀ y ∈ ys, y ∈ left) →
      (depth ≠ 0 → ∀ y ∈ left, ¬ alpha < pOf test x y ∅) →
        ∃ left', Sweep (fun y S => alpha < pOf test x y S) depth ys left left' ∧
          Inv test x alpha mi left' (ys.foldl (visitLocal test x alpha depth) g) := by
  induction ys with
  | nil => exact fun h _ _ _ => ⟨_,.nil _,h⟩
  | cons y ys ih =>
    intro left g h hnodup hys hempty
    obtain ⟨hnot,hrest⟩ := List.nodup_cons.mp hnodup
    have hy := hys y List.mem_cons_self
    obtain ⟨left',hvisit,hinv⟩ := visitLocal_spec h hy fun hd => hempty hd y hy
    have hleft : ∀ z ∈ ys, z ∈ left' := by
      intro z hz
      have hold := hys z (List.mem_cons_of_mem y hz)
      rcases hvisit with ⟨-,rfl⟩ | ⟨-,rfl⟩
      · exact Finset.mem_erase.mpr ⟨fun heq => hnot (heq ▸ hz),hold⟩
      · exact hold
    obtain ⟨left'',hsweep,hlast⟩ :=
      ih hinv hrest hleft fun hd z hz => hempty hd z (hvisit.subset hz)
    exact ⟨left'',.cons hvisit hsweep,hlast⟩

/-- What has been left by the empty set is left on all further levels. -/
theorem not_empty_of_levels {depth : ℕ} {left₀ : Finset (Fin n)}
    (hlevels : Levels (fun y S => alpha < pOf test x y S) depth left₀ left) (hd : depth ≠ 0) :
    ∀ y ∈ left, ¬ alpha < pOf test x y ∅ :=
  fun _ hy hsep => hlevels.not_separated (Nat.pos_of_ne_zero hd) hy
    ⟨∅,Finset.empty_subset _,rfl,hsep⟩

/-- The loop ends when there are as many levels behind it as there are neighbours. -/
theorem whileDegree_spec (orders : Orders n) {left₀ : Finset (Fin n)} (depth : ℕ)
    (g : MiniCausalGraph n P) : ∀ {left : Finset (Fin n)}, Inv test x alpha mi left g →
      Levels (fun y S => alpha < pOf test x y S) depth left₀ left →
        ∃ left' d, left'.card ≤ d ∧ Levels (fun y S => alpha < pOf test x y S) d left₀ left' ∧
          Inv test x alpha mi left' (whileDegree (levelLocal test x alpha orders) depth g) := by
  fun_induction whileDegree (levelLocal test x alpha orders) depth g with
  | case1 depth g _ ih =>
    intro left h hlevels
    have hperm := orders.visit_perm depth (g.neighbors x)
    have hmem : ∀ y, y ∈ orders.visit depth (g.neighbors x) ↔ y ∈ left := fun y =>
      hperm.mem_iff.trans h.mem_neighbors
    obtain ⟨left',hsweep,hinv⟩ := foldl_visitLocal h (hperm.nodup_iff.mpr (nodup_neighbors g x))
      (fun y hy => (hmem y).mp hy) (not_empty_of_levels hlevels)
    exact ih hinv (hlevels.succ (fun y hy => (hmem y).mpr hy) hsweep)
  | case2 depth g hdone =>
    intro left h hlevels
    have hcard : left.card = (g.neighbors x).length := by
      rw [← List.toFinset_card_of_nodup (nodup_neighbors g x)]
      congr 1
      ext y
      rw [List.mem_toFinset,h.mem_neighbors]
    have hdegree : (g.neighbors x).length ≤ g.maxDegree :=
      Finset.le_sup (f:=fun i => (g.neighbors i).length) (Finset.mem_univ x)
    exact ⟨left,depth,by omega,hlevels,h⟩

/-! ## The start -/

/-- The complete graph but for edges from `x` to some nodes. -/
def without (x : Fin n) (mi : List (Option (Fin n))) : MiniCausalGraph n P :=
  { graph := fun a b => a ≠ b ∧ (a = x → some b ∉ mi) ∧ (b = x → some a ∉ mi) }

omit [LinearOrder P] in
theorem graph_without_comm (x : Fin n) (mi : List (Option (Fin n))) (a b : Fin n) :
    (without x mi : MiniCausalGraph n P).graph a b =
      (without x mi : MiniCausalGraph n P).graph b a := by
  rw [without,Bool.eq_iff_iff,decide_eq_true_iff,decide_eq_true_iff,ne_comm,
    and_comm (a:=a = x → some b ∉ mi)]

omit [LinearOrder P] in
theorem removeEdge_without (x i : Fin n) (mi : List (Option (Fin n))) :
    (if (without x mi : MiniCausalGraph n P).graph x i then (without x mi).removeEdge x i
      else without x mi) = (without x (mi++[some i]) : MiniCausalGraph n P) := by
  have hgraph : ∀ a b, (without x (mi++[some i]) : MiniCausalGraph n P).graph a b =
      if a = x ∧ b = i ∨ a = i ∧ b = x then false
      else (without x mi : MiniCausalGraph n P).graph a b := by
    intro a b
    rw [Bool.eq_iff_iff]
    simp only [without,decide_eq_true_eq,List.mem_append,List.mem_singleton,Option.some_inj]
    split
    · next h => rcases h with ⟨rfl,rfl⟩ | ⟨rfl,rfl⟩ <;> simp
    · next h =>
      rw [not_or,not_and,not_and'] at h
      rw [decide_eq_true_eq]
      refine and_congr_right fun _ => and_congr ?_ ?_
      · exact forall_congr' fun ha => not_congr (or_iff_left (h.1 ha))
      · exact forall_congr' fun hb => not_congr (or_iff_left (h.2 hb))
  split
  · rw [MiniCausalGraph.removeEdge,without,without,MiniCausalGraph.mk.injEq]
    refine ⟨?_,rfl,rfl,rfl,rfl,rfl⟩
    funext a b
    exact (assign_assign _ x i false a b).trans (hgraph a b).symm
  · next hnone =>
    rw [without,without,MiniCausalGraph.mk.injEq]
    refine ⟨?_,rfl,rfl,rfl,rfl,rfl⟩
    funext a b
    refine ((hgraph a b).trans ?_).symm
    split
    · next h =>
      have hfalse : (without x mi : MiniCausalGraph n P).graph x i = false := by simpa using hnone
      rcases h with ⟨rfl,rfl⟩ | ⟨rfl,rfl⟩
      · exact hfalse.symm
      · exact (hfalse.symm.trans (graph_without_comm b mi b a))
    · rfl

omit [LinearOrder P] in
theorem removeMi_eq (x : Fin n) (mi : List (Option (Fin n))) :
    (removeMi x mi : MiniCausalGraph n P) = without x mi := by
  have hloop : ∀ is done : List (Option (Fin n)), is.foldl (fun g i =>
      match i with
      | none => g
      | some i => if g.graph x i then g.removeEdge x i else g)
        (without x done : MiniCausalGraph n P) = without x (done++is) := by
    intro is
    induction is with
    | nil => exact fun done => by rw [List.append_nil]; rfl
    | cons i is ih =>
      intro done
      rw [List.foldl_cons,List.append_cons]
      cases i with
      | none =>
        have hsame : (without x (done++[none]) : MiniCausalGraph n P) = without x done := by
          simp [without]
        rw [← ih,hsame]
      | some i =>
        dsimp only
        rw [removeEdge_without,ih]
  have hstart : ({} : MiniCausalGraph n P) = without x [] := by simp [without]
  rw [removeMi,hstart]
  exact hloop mi []

theorem inv_without (test : Fin n → Fin n → Finset (Fin n) → P) (x : Fin n) (alpha : P)
    (mi : List (Option (Fin n))) :
    Inv test x alpha mi (Finset.univ.filter fun y => y ≠ x ∧ some y ∉ mi) (without x mi) where
  edges a b := by
    simp only [without,decide_eq_true_eq,Finset.mem_filter,Finset.mem_univ,true_and]
    refine and_congr_right fun hab => and_congr ?_ ?_
    · exact forall_congr' fun ha => (and_iff_right fun hb => hab (ha.trans hb.symm)).symm
    · exact forall_congr' fun hb => (and_iff_right fun ha => hab (ha.trans hb.symm)).symm
  outside := by simp
  kept y hy := (Finset.mem_filter.mp hy).2.2
  cached i j T q hq := by cases hq
  separated y S hS := by cases hS
  symm a b := rfl
  recorded y hy hleft hmi := absurd (Finset.mem_filter.mpr ⟨Finset.mem_univ y,hy,hmi⟩) hleft
  mi_sepset y := iff_of_false List.not_mem_nil fun h => by cases h

/-- The local skeleton is sound and complete, in whatever order neighbours are visited. -/
theorem localSkeletonDiscovery_exact (test : Fin n → Fin n → Finset (Fin n) → P) (x : Fin n)
    (alpha : P) (orders : Orders n) (mi : List (Option (Fin n))) :
    Exact test x alpha mi (localSkeletonDiscovery test x alpha orders mi) := by
  obtain ⟨left,d,hcard,hlevels,h⟩ :=
    whileDegree_spec orders 0 _ (inv_without test x alpha mi) (.zero _)
  rw [← removeMi_eq,← localSkeletonDiscovery] at h
  generalize localSkeletonDiscovery test x alpha orders mi = g at h
  have hedge : ∀ y, g.graph x y = true ↔ y ∈ left := fun y => by
    rw [← h.mem_neighbors,MiniCausalGraph.neighbors,List.mem_filter]
    exact (and_iff_right (List.mem_finRange y)).symm
  have hcomplete : ∀ y ∈ left, ∀ S ⊆ left.erase y, ¬ alpha < pOf test x y S := fun y hy S hS =>
    hlevels.complete hcard hy hS
  have hmi : ∀ y, y ∈ g.mi ↔ y ≠ x ∧ some y ∉ mi ∧ alpha < pOf test x y ∅ := by
    intro y
    rw [h.mi_sepset]
    constructor
    · intro hnil
      obtain ⟨-,hne,hkept,hsep,-⟩ := h.separated y [] hnil
      exact ⟨hne,hkept,hsep⟩
    · rintro ⟨hne,hkept,hsep⟩
      have hgone : y ∉ left := fun hy => hcomplete y hy ∅ (Finset.empty_subset _) hsep
      obtain ⟨S,hS⟩ := Option.isSome_iff_exists.mp (h.recorded y hne hgone hkept)
      by_cases hnil : S = []
      · rw [hS,hnil]
      · exact absurd hsep ((h.separated y S hS).2.2.2.2 hnil)
  refine ⟨fun a b hab hremoved => ?_,hmi,h.mi_sepset,fun y hy S hS => ?_⟩
  · have hno : ¬ ((a = x → b ∈ left) ∧ (b = x → a ∈ left)) := fun hyes => by
      have hset := (h.edges a b).mpr ⟨hab,hyes⟩
      rw [hremoved] at hset
      cases hset
    have hat : ∀ y, y ≠ x → y ∉ left → some y ∈ mi ∨
        ∃ S, g.sepset x y = some S ∧ alpha < pOf test x y S.toFinset := by
      intro y hne hgone
      by_cases hkept : some y ∈ mi
      · exact .inl hkept
      · obtain ⟨S,hS⟩ := Option.isSome_iff_exists.mp (h.recorded y hne hgone hkept)
        exact .inr ⟨S,hS,(h.separated y S hS).2.2.2.1⟩
    rcases Classical.not_and_iff_not_or_not.mp hno with hno | hno
    · obtain ⟨rfl,hgone⟩ := Classical.not_imp.mp hno
      exact (hat b hab.symm hgone).imp_left fun hkept => .inl ⟨rfl,hkept⟩
    · obtain ⟨rfl,hgone⟩ := Classical.not_imp.mp hno
      rcases hat a hab hgone with hkept | ⟨S,hS,hp⟩
      · exact .inl (.inr ⟨rfl,hkept⟩)
      · exact .inr ⟨S,(h.symm a b).trans hS,pOf_comm test a b _ ▸ hp⟩
  · have hleft := (hedge y).mp hy
    refine not_lt.mp (hcomplete y hleft S fun s hs => ?_)
    obtain ⟨hne,hs⟩ := hS s hs
    exact Finset.mem_erase.mpr ⟨hne,(hedge s).mp hs⟩

end Skeleton
end ETraceDiag
