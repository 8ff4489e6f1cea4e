import Mathlib.Algebra.Order.Field.Rat
import Mathlib.Algebra.Order.Floor.Semiring
import Mathlib.Data.Rat.Floor
import ETraceDiag.LabelTable
import ETraceDiag.MaxStack
import ETraceDiag.Skeleton

/-!
# The alpha sweep

The driver of `causal/psi_pc.py`: columns are ranked by the alpha at which they become neighbours
of the F-node, first in chunks, level by level, and then once more in what is left. What the tests
find, and in what order nodes are visited, is left open.
-/

namespace ETraceDiag
namespace PsiPc

open LabelTable Skeleton

/-! ## The columns of the data -/

def F_NODE : String := "F-node"

/-- `df[F_NODE] = ..`: a column of that name stays where it is. -/
def addFnode (columns : List String) : List String :=
  if F_NODE ∈ columns then columns else columns++[F_NODE]

def addFnodeAndConcat (normal anomal : List String) : List String :=
  addFnode normal++(addFnode anomal).filter (· ∉ addFnode normal)

/-- The column of the F-node is not discretized, and comes last. -/
def discretize (columns : List String) : List String :=
  if F_NODE ∈ columns then columns.filter (· ≠ F_NODE)++[F_NODE] else columns

def dataColumns (bins : Option ℕ) (normal anomal : List String) : List String :=
  let data := addFnodeAndConcat normal anomal
  if bins.isSome then discretize data else data

section Nodes

variable (names : List String)

/-- The nodes of the graph, one a column. -/
abbrev Node := Fin (names.length-1+1)

def fNode : Node names := Fin.last _

def iToLabels (i : Node names) : String := names.getD i ""

/-- The last column of a name. -/
def labelsToI (name : String) : Option (Node names) :=
  (List.finRange _).reverse.find? fun i => iToLabels names i = name

end Nodes

/-! ## One sweep -/

/-- `np.arange`. -/
def arange {K : Type} [Field K] [LinearOrder K] [FloorSemiring K] (start stop step : K) :
    List K :=
  (List.range ⌈(stop-start)/step⌉₊).map fun i : ℕ => start+i*step

section Sweep

variable {K : Type} [Field K] [LinearOrder K]

def START_ALPHA : K := 0.001

def ALPHA_STEP : K := 0.1

def ALPHA_LIMIT : K := 1

def LOCAL_ALPHA : K := 0.01

def orderNeighbors {n : ℕ} (neigh : List (Fin n)) (pValues : List K) : List (Fin n) :=
  MaxStack.push neigh pValues []

variable (names : List String) (cg : K → MiniCausalGraph (names.length-1+1) K)

/-- The last p-value that is recorded for a node and the F-node. -/
def lastP (a : K) (v : Node names) : K := ((cg a).pValues (fNode names) v).getLast?.getD 0

def newNeigh (a : K) (rc : List String) : List (Node names) :=
  ((cg a).neighbors (fNode names)).filter fun v => some v ∉ rc.map (labelsToI names)

def sweep (minNodes : ℤ) : List K → List String → ℕ → List String × ℕ
  | [],rc,noCi => (rc,noCi)
  | a::as,rc,noCi =>
    let noCi := noCi+(cg a).noCiTests
    let new := newNeigh names cg a rc
    if new = [] then sweep minNodes as rc noCi
    else
      let ordered := orderNeighbors new (new.map (lastP names cg a))
      let rc := rc++ordered.map (iToLabels names)
      if rc.length = minNodes then (rc,noCi) else sweep minNodes as rc noCi

end Sweep

/-- What the tests find in two tables, and the orders and permutations that a seed or a priority
leads to, in each level. -/
structure External (F K : Type) where
  test : Table F → Table F → (n : ℕ) → Fin n → Fin n → Finset (Fin n) → K
  orders : ℕ → List String → K → (n : ℕ) → Orders n
  permutation : ℕ → List String → List String
  permutation_perm : ∀ level columns, (permutation level columns).Perm columns

structure Options (K : Type) where
  bins : Option ℕ := none
  mi : List String := []
  localized : Bool := true
  startAlpha : Option K := none
  minNodes : ℤ := -1

section Driver

variable {F K : Type} [Field K] [LinearOrder K]

/-- The skeleton at an alpha. -/
def cgAt (ext : External F K) (opts : Options K) (level : ℕ) (normal anomal : Table F)
    (names : List String) (a : K) : MiniCausalGraph (names.length-1+1) K :=
  let test := ext.test normal anomal _
  let orders := ext.orders level normal.columns a _
  if opts.localized then
    let processedMi := opts.mi.filterMap (labelsToI names)
    localSkeletonDiscovery test (fNode names) a orders (processedMi.map some)
  else skeletonDiscovery test a orders

variable [FloorSemiring K]

def Options.alphas (opts : Options K) : List K :=
  arange (opts.startAlpha.getD START_ALPHA) ALPHA_LIMIT ALPHA_STEP

def Options.columns (opts : Options K) (normal anomal : Table F) : List String :=
  dataColumns opts.bins normal.columns anomal.columns

def Options.enough (opts : Options K) (names : List String) : ℤ :=
  if opts.minNodes = -1 then names.length-1 else opts.minNodes

def runPsiPc (ext : External F K) (opts : Options K) (level : ℕ) (normal anomal : Table F) :
    List String × ℕ :=
  if normal.columns = [] ∨ anomal.columns = [] then ([],0)
  else
    let names := opts.columns normal anomal
    sweep names (cgAt ext opts level normal anomal names) (opts.enough names) opts.alphas [] 0

/-! ## All levels -/

def createChunks (permutation : List String → List String) (columns : List String) (gamma : ℕ) :
    List (List String) :=
  let names := permutation columns
  let chunks := (List.range (columns.length/gamma+1)).map fun i =>
    (names.drop (i*gamma)).take gamma
  if chunks.getLast? = some [] then chunks.dropLast else chunks

variable (ext : External F K) (localized : Bool) (bins gamma : ℕ)

/-- In a chunk one column is enough. -/
def Options.ofChunk : Options K :=
  { bins := some bins, localized := localized, startAlpha := some LOCAL_ALPHA, minNodes := 1 }

def runLevel (level : ℕ) (normal anomal : Table F) : List String × ℕ :=
  (createChunks (ext.permutation level) normal.columns gamma).foldl (fun acc c =>
    let opts := Options.ofChunk localized bins
    let found := runPsiPc ext opts level (normal.select c) (anomal.select c)
    (acc.1++found.1,acc.2+found.2)) ([],0)

variable (normal anomal : Table F)

/-- The columns one level leaves of those before it. -/
def children (level : ℕ) (columns : List String) : List String :=
  (runLevel ext localized bins gamma level (normal.select columns) (anomal.select columns)).1

/-- The first phase; nothing when there is not enough fuel. -/
def phaseOne : ℕ → ℕ → List String → ℕ → Option (ℕ × List String)
  | 0,_,_,_ => none
  | fuel+1,i,columns,prev =>
    let union := children ext localized bins gamma normal anomal i columns
    if union.length ≤ gamma ∨ union.length = prev then some (i+1,union)
    else phaseOne fuel (i+1) union union.length

def runMultiPhase (fuel : ℕ) : Option (List String) :=
  (phaseOne ext localized bins gamma normal anomal fuel 0 normal.columns
    normal.columns.length).map fun r =>
      (runPsiPc ext { bins := some bins, localized := localized } r.1 (normal.select r.2)
        (anomal.select r.2)).1

end Driver

/-! ## Names and nodes -/

section Names

variable {names : List String}

theorem iToLabels_eq_getElem (hne : names ≠ []) (v : Node names) :
    ∃ hv : v.val < names.length, iToLabels names v = names[v.val] := by
  have hpos := List.length_pos_iff.mpr hne
  have hv : v.val < names.length := by omega
  exact ⟨hv,by rw [iToLabels,List.getD_eq_getElem?_getD,List.getElem?_eq_getElem hv]; rfl⟩

theorem iToLabels_injective (hne : names ≠ []) (hnodup : names.Nodup) :
    Function.Injective (iToLabels names) := by
  intro u v huv
  obtain ⟨hu,hnameu⟩ := iToLabels_eq_getElem hne u
  obtain ⟨hv,hnamev⟩ := iToLabels_eq_getElem hne v
  rw [hnameu,hnamev] at huv
  exact Fin.ext (hnodup.getElem_inj_iff.mp huv)

theorem labelsToI_iToLabels (hne : names ≠ []) (hnodup : names.Nodup) (v : Node names) :
    labelsToI names (iToLabels names v) = some v := by
  rw [labelsToI]
  have hsome : ((List.finRange _).reverse.find? fun i =>
      iToLabels names i = iToLabels names v).isSome := by
    rw [List.find?_isSome]
    exact ⟨v,List.mem_reverse.mpr (List.mem_finRange v),decide_eq_true rfl⟩
  obtain ⟨u,hu⟩ := Option.isSome_iff_exists.mp hsome
  have heq := List.find?_some hu
  rw [hu,iToLabels_injective hne hnodup (of_decide_eq_true heq)]

theorem nodup_addFnode {columns : List String} (h : columns.Nodup) : (addFnode columns).Nodup := by
  rw [addFnode]
  split
  · exact h
  · next hnot => exact List.nodup_append_comm.mp (List.nodup_cons.mpr ⟨hnot,h⟩)

theorem addFnodeAndConcat_self (columns : List String) :
    addFnodeAndConcat columns columns = addFnode columns := by
  have hnone : (addFnode columns).filter (· ∉ addFnode columns) = [] :=
    List.filter_eq_nil_iff.mpr fun c hc hnot => of_decide_eq_true hnot hc
  rw [addFnodeAndConcat,hnone,List.append_nil]

theorem mem_addFnode (columns : List String) : F_NODE ∈ addFnode columns := by
  rw [addFnode]
  split
  · assumption
  · exact List.mem_append_right _ List.mem_cons_self

theorem nodup_discretize {columns : List String} (h : columns.Nodup) :
    (discretize columns).Nodup := by
  rw [discretize]
  split
  · refine List.nodup_append_comm.mp (List.nodup_cons.mpr ⟨fun hmem => ?_,h.filter _⟩)
    exact of_decide_eq_true (List.mem_filter.mp hmem).2 rfl
  · exact h

/-- Without a column of its name, or when columns are discretized, the F-node comes last. -/
theorem dataColumns_self {bins : Option ℕ} {columns : List String}
    (h : bins.isSome = true ∨ F_NODE ∉ columns) :
    dataColumns bins columns columns = columns.filter (· ≠ F_NODE)++[F_NODE] := by
  have hdiscretize : discretize (addFnode columns) = columns.filter (· ≠ F_NODE)++[F_NODE] := by
    rw [discretize,if_pos (mem_addFnode columns),addFnode]
    split
    · rfl
    · rw [List.filter_append,List.filter_singleton,decide_eq_false (not_not.mpr rfl)]
      exact congrArg (·++[F_NODE]) (List.append_nil _)
  rw [dataColumns,addFnodeAndConcat_self]
  split
  · exact hdiscretize
  · next hnone =>
    have hnot := h.resolve_left hnone
    rw [addFnode,if_neg hnot,List.filter_eq_self.mpr]
    exact fun c hc => decide_eq_true fun heq => hnot (heq ▸ hc)

theorem nodup_dataColumns (bins : Option ℕ) {columns : List String} (h : columns.Nodup) :
    (dataColumns bins columns columns).Nodup := by
  rw [dataColumns,addFnodeAndConcat_self]
  split
  · exact nodup_discretize (nodup_addFnode h)
  · exact nodup_addFnode h

theorem dataColumns_ne_nil (bins : Option ℕ) (columns : List String) :
    dataColumns bins columns columns ≠ [] := by
  have hmem : F_NODE ∈ dataColumns bins columns columns := by
    rw [dataColumns,addFnodeAndConcat_self]
    split
    · rw [discretize,if_pos (mem_addFnode columns)]
      exact List.mem_append_right _ List.mem_cons_self
    · exact mem_addFnode columns
  exact List.ne_nil_of_mem hmem

theorem iToLabels_fNode {names : List String} (columns : List String) (last : String)
    (h : names = columns++[last]) : iToLabels names (fNode names) = last := by
  subst h
  simp [iToLabels,fNode]

/-- A node other than the F-node has one of the other names. -/
theorem mem_of_ne_fNode {names columns : List String} {last : String}
    (h : names = columns++[last]) {v : Node names} (hv : v ≠ fNode names) :
    iToLabels names v ∈ columns := by
  subst h
  have hlt : v.val < columns.length := by
    have hle : v.val ≤ columns.length := by simpa [Nat.lt_succ_iff] using v.isLt
    refine lt_of_le_of_ne hle fun heq => hv (Fin.ext (heq.trans ?_))
    simp [fNode]
  rw [iToLabels,List.getD_eq_getElem?_getD,List.getElem?_append_left hlt,
    List.getElem?_eq_getElem hlt]
  exact List.getElem_mem hlt

end Names

/-! ## The order of a sweep -/

section Ranking

variable {K : Type} [Field K] [LinearOrder K]

theorem pairwise_arange [IsStrictOrderedRing K] [FloorSemiring K] (start stop : K) {step : K}
    (hstep : 0 < step) : (arange start stop step).Pairwise (· < ·) := by
  rw [arange,List.pairwise_map]
  refine List.pairwise_lt_range.imp fun {i j} hij => ?_
  have hcast : (i : K) < j := Nat.cast_lt.mpr hij
  exact (add_lt_add_iff_left start).mpr (mul_lt_mul_of_pos_right hcast hstep)

variable (names : List String) (cg : K → MiniCausalGraph (names.length-1+1) K)

/-- A node is a neighbour of the F-node at an alpha. -/
def Adjacent (a : K) (v : Node names) : Prop := (cg a).graph (fNode names) v = true

/-- The nodes that come first in `seen` and then in the blocks of the alphas of `swept`. -/
structure Blocks (seen : List (Node names)) (swept : List K) (block : K → List (Node names)) :
    Prop where
  nodup : (seen++swept.flatMap block).Nodup
  mem_iff : ∀ a ∈ swept, ∀ v, v ∈ block a ↔ Adjacent names cg a v ∧ v ∉ seen ∧
    ∀ b ∈ swept, b < a → ¬ Adjacent names cg b v
  ordered : ∀ a ∈ swept, (block a).Pairwise fun u v => lastP names cg a u ≤ lastP names cg a v

variable {names cg}

omit [Field K] [LinearOrder K] in
theorem mem_newNeigh (hne : names ≠ []) (hnodup : names.Nodup) {a : K} {seen : List (Node names)}
    {v : Node names} : v ∈ newNeigh names cg a (seen.map (iToLabels names)) ↔
      Adjacent names cg a v ∧ v ∉ seen := by
  have hlabels : (seen.map (iToLabels names)).map (labelsToI names) = seen.map some := by
    rw [List.map_map]
    exact List.map_congr_left fun u _ => labelsToI_iToLabels hne hnodup u
  rw [newNeigh,hlabels,List.mem_filter,MiniCausalGraph.neighbors,List.mem_filter,Adjacent,
    decide_eq_true_iff,List.mem_map_of_injective (Option.some_injective _)]
  exact and_congr_left' (and_iff_right (List.mem_finRange v))

variable (cg) in
/-- The new neighbours come in the order of their values. -/
theorem orderNeighbors_newNeigh (a : K) (rc : List String) :
    (orderNeighbors (newNeigh names cg a rc)
        ((newNeigh names cg a rc).map (lastP names cg a))).Perm (newNeigh names cg a rc) ∧
      (orderNeighbors (newNeigh names cg a rc)
        ((newNeigh names cg a rc).map (lastP names cg a))).Pairwise
          fun u v => lastP names cg a u ≤ lastP names cg a v := by
  have hnodup : (newNeigh names cg a rc).Nodup := (nodup_neighbors _ _).filter _
  obtain ⟨hperm,hsorted⟩ := MaxStack.push_spec (lastP names cg a) [] rfl hnodup
    (fun _ _ s hs => absurd hs List.not_mem_nil) List.Pairwise.nil
  rw [List.append_nil] at hperm
  exact ⟨hperm,hsorted⟩

/-- The block of one alpha in front of those of greater ones. -/
theorem Blocks.cons {seen new : List (Node names)} {a : K} {swept : List K}
    {block : K → List (Node names)} (h : Blocks names cg (seen++new) swept block)
    (hless : ∀ b ∈ swept, a < b) (hmem : ∀ v, v ∈ new ↔ Adjacent names cg a v ∧ v ∉ seen)
    (hsorted : new.Pairwise fun u v => lastP names cg a u ≤ lastP names cg a v) :
    Blocks names cg seen (a::swept) (Function.update block a new) := by
  have hself : Function.update block a new a = new := Function.update_self a new block
  have hother : ∀ b ∈ swept, Function.update block a new b = block b := fun b hb =>
    Function.update_of_ne (hless b hb).ne' new block
  have hrest : swept.flatMap (Function.update block a new) = swept.flatMap block :=
    List.flatMap_congr hother
  refine ⟨?_,fun c hc v => ?_,fun c hc => ?_⟩
  · rw [List.flatMap_cons,hself,hrest,← List.append_assoc]
    exact h.nodup
  · rcases List.mem_cons.mp hc with rfl | hc
    · rw [hself,hmem]
      refine and_congr_right fun _ => (and_iff_left ?_).symm
      intro b hb hlt
      rcases List.mem_cons.mp hb with rfl | hb
      · exact absurd hlt (lt_irrefl b)
      · exact absurd hlt (hless b hb).asymm
    · rw [hother c hc,h.mem_iff c hc,List.mem_append,not_or,and_assoc]
      refine and_congr_right fun _ => and_congr_right fun hseen => ?_
      rw [List.forall_mem_cons,hmem,and_iff_left hseen]
      exact and_congr_left' (by rw [imp_iff_right (hless c hc)])
  · rcases List.mem_cons.mp hc with rfl | hc
    · rw [hself]
      exact hsorted
    · rw [hother c hc]
      exact h.ordered c hc

theorem Blocks.nil {seen : List (Node names)} (h : seen.Nodup) (block : K → List (Node names)) :
    Blocks names cg seen [] block where
  nodup := by rwa [List.flatMap_nil,List.append_nil]
  mem_iff a ha := absurd ha List.not_mem_nil
  ordered a ha := absurd ha List.not_mem_nil

variable (names cg) in
/-- A step of the sweep goes on with what it adds, or stops with it. -/
theorem sweep_cons (minNodes : ℤ) (a : K) (as : List K) (rc : List String) (noCi : ℕ) :
    ∃ ordered : List (Node names), ordered.Perm (newNeigh names cg a rc) ∧
      (ordered.Pairwise fun u v => lastP names cg a u ≤ lastP names cg a v) ∧
      ((sweep names cg minNodes (a::as) rc noCi).1 =
          (sweep names cg minNodes as (rc++ordered.map (iToLabels names))
            (noCi+(cg a).noCiTests)).1 ∨
        (sweep names cg minNodes (a::as) rc noCi).1 = rc++ordered.map (iToLabels names) ∧
          ((rc++ordered.map (iToLabels names)).length : ℤ) = minNodes) := by
  obtain ⟨hperm,hsorted⟩ := orderNeighbors_newNeigh cg a rc
  refine ⟨_,hperm,hsorted,?_⟩
  rw [sweep]
  dsimp only
  split
  · next hnil =>
    rw [hnil] at hperm ⊢
    rw [List.perm_nil.mp hperm,List.map_nil,List.append_nil]
    exact .inl rfl
  · split
    · next hstop => exact .inr ⟨rfl,hstop⟩
    · exact .inl rfl

theorem sweep_spec (hne : names ≠ []) (hnodup : names.Nodup) (minNodes : ℤ) {alphas : List K}
    (halphas : alphas.Pairwise (· < ·)) : ∀ (seen : List (Node names)) (noCi : ℕ), seen.Nodup →
      ∃ swept block, swept <+: alphas ∧ Blocks names cg seen swept block ∧
        (sweep names cg minNodes alphas (seen.map (iToLabels names)) noCi).1 =
          (seen++swept.flatMap block).map (iToLabels names) ∧
        (swept = alphas ∨ ((seen++swept.flatMap block).length : ℤ) = minNodes) := by
  induction alphas with
  | nil =>
    intro seen noCi hseen
    refine ⟨[],fun _ => [],List.prefix_rfl,Blocks.nil hseen _,?_,.inl rfl⟩
    rw [sweep,List.flatMap_nil,List.append_nil]
  | cons a as ih =>
    intro seen noCi hseen
    obtain ⟨hless,has⟩ := List.pairwise_cons.mp halphas
    obtain ⟨ordered,hperm,hsorted,hgo⟩ :=
      sweep_cons names cg minNodes a as (seen.map (iToLabels names)) noCi
    have hmem : ∀ v, v ∈ ordered ↔ Adjacent names cg a v ∧ v ∉ seen := fun v =>
      hperm.mem_iff.trans (mem_newNeigh hne hnodup)
    have hnew : ordered.Nodup := hperm.nodup_iff.mpr ((nodup_neighbors _ _).filter _)
    have hlater : (seen++ordered).Nodup := List.nodup_append.mpr
      ⟨hseen,hnew,fun u hu v hv heq => ((hmem v).mp hv).2 (heq ▸ hu)⟩
    have hflat : ∀ {swept : List K} {block : K → List (Node names)}, (∀ b ∈ swept, a < b) →
        seen++(a::swept).flatMap (Function.update block a ordered) =
          seen++ordered++swept.flatMap block := by
      intro swept block hless
      rw [List.flatMap_cons,Function.update_self,List.append_assoc]
      congr 2
      exact List.flatMap_congr fun b hb => Function.update_of_ne (hless b hb).ne' ordered block
    rw [← List.map_append] at hgo
    rcases hgo with hgo | ⟨hgo,hstop⟩
    · obtain ⟨swept,block,hfront,hblocks,hrc,hdone⟩ := ih has _ (noCi+(cg a).noCiTests) hlater
      have hless' : ∀ b ∈ swept, a < b := fun b hb => hless b (hfront.subset hb)
      refine ⟨a::swept,Function.update block a ordered,List.cons_prefix_cons.mpr ⟨rfl,hfront⟩,
        hblocks.cons hless' hmem hsorted,?_,?_⟩
      · rw [hgo,hrc,hflat hless']
      · rw [hflat hless']
        exact hdone.imp_left (congrArg (a::·))
    · refine ⟨[a],Function.update (fun _ => []) a ordered,
        List.cons_prefix_cons.mpr ⟨rfl,List.nil_prefix⟩,
        (Blocks.nil hlater _).cons (fun b hb => absurd hb List.not_mem_nil) hmem hsorted,?_,?_⟩
      · rw [hgo,hflat fun b hb => absurd hb List.not_mem_nil,List.flatMap_nil,List.append_nil]
      · rw [List.length_map] at hstop
        rw [hflat fun b hb => absurd hb List.not_mem_nil,List.flatMap_nil,List.append_nil]
        exact .inr hstop

end Ranking

/-! ## A run of Ψ-PC -/

section Run

variable {F K : Type} [Field K] [LinearOrder K]

omit [Field K] in
theorem not_adjacent_fNode (ext : External F K) (opts : Options K) (level : ℕ)
    (normal anomal : Table F) (names : List String) (a : K) :
    ¬ Adjacent names (cgAt ext opts level normal anomal names) a (fNode names) := by
  have hloopless : Loopless (cgAt ext opts level normal anomal names a) := by
    rw [cgAt]
    split
    · exact loopless_localSkeletonDiscovery _ _ a _ _
    · exact loopless_skeletonDiscovery _ a _
  rw [Adjacent,hloopless]
  exact Bool.false_ne_true

variable [IsStrictOrderedRing K] [FloorSemiring K]

theorem pairwise_alphas (opts : Options K) : opts.alphas.Pairwise (· < ·) :=
  pairwise_arange _ _ (by norm_num [ALPHA_STEP])

variable (ext : External F K) (opts : Options K) (level : ℕ) (t : Sides F)

omit [LinearOrder K] [Field K] [IsStrictOrderedRing K] [FloorSemiring K] in
theorem columns_sides :
    opts.columns t.normal t.anomal = dataColumns opts.bins t.columns t.columns :=
  congrArg (dataColumns opts.bins t.columns) t.columns_eq

theorem runPsiPc_blocks (h : t.columns ≠ []) :
    ∃ swept block, swept <+: opts.alphas ∧
      Blocks (opts.columns t.normal t.anomal)
        (cgAt ext opts level t.normal t.anomal (opts.columns t.normal t.anomal)) [] swept block ∧
      (runPsiPc ext opts level t.normal t.anomal).1 =
        (swept.flatMap block).map (iToLabels (opts.columns t.normal t.anomal)) ∧
      (swept = opts.alphas ∨
        ((swept.flatMap block).length : ℤ) = opts.enough (opts.columns t.normal t.anomal)) := by
  have hempty : ¬ (t.normal.columns = [] ∨ t.anomal.columns = []) := by
    rw [t.columns_eq,or_self]
    exact h
  have hne : opts.columns t.normal t.anomal ≠ [] := by
    rw [columns_sides]
    exact dataColumns_ne_nil _ _
  have hnodup : (opts.columns t.normal t.anomal).Nodup := by
    rw [columns_sides]
    exact nodup_dataColumns _ t.nodup
  rw [runPsiPc,if_neg hempty]
  exact sweep_spec hne hnodup _ (pairwise_alphas opts) [] 0 List.nodup_nil

/-- What a run ranks are some of the columns, each once, but for the F-node. -/
theorem runPsiPc_subset (h : opts.bins.isSome = true) :
    (runPsiPc ext opts level t.normal t.anomal).1.Nodup ∧
      ∀ c ∈ (runPsiPc ext opts level t.normal t.anomal).1, c ∈ t.columns ∧ c ≠ F_NODE := by
  by_cases hcols : t.columns = []
  · rw [runPsiPc,if_pos (.inl hcols)]
    exact ⟨List.nodup_nil,fun c hc => absurd hc List.not_mem_nil⟩
  · obtain ⟨swept,block,-,hblocks,hrc,-⟩ := runPsiPc_blocks ext opts level t hcols
    have hnames : opts.columns t.normal t.anomal = t.columns.filter (· ≠ F_NODE)++[F_NODE] :=
      (columns_sides opts t).trans (dataColumns_self (.inl h))
    have hne : opts.columns t.normal t.anomal ≠ [] := by simp [hnames]
    have hnodup : (opts.columns t.normal t.anomal).Nodup :=
      (columns_sides opts t).symm ▸ nodup_dataColumns opts.bins t.nodup
    rw [hrc]
    refine ⟨hblocks.nodup.map (iToLabels_injective hne hnodup),fun c hc => ?_⟩
    obtain ⟨v,hv,rfl⟩ := List.mem_map.mp hc
    obtain ⟨a,ha,hva⟩ := List.mem_flatMap.mp hv
    have hadjacent := ((hblocks.mem_iff a ha v).mp hva).1
    have hother : v ≠ fNode _ := fun heq =>
      not_adjacent_fNode ext opts level t.normal t.anomal _ a (heq ▸ hadjacent)
    obtain ⟨hmem,hnot⟩ := List.mem_filter.mp (mem_of_ne_fNode hnames hother)
    exact ⟨hmem,of_decide_eq_true hnot⟩

end Run

/-! ## Chunks -/

/-- The first slices of a certain length make up the front of a list. -/
theorem flatten_slices {α : Type} (xs : List α) (gamma k : ℕ) :
    ((List.range k).map fun i => (xs.drop (i*gamma)).take gamma).flatten = xs.take (k*gamma) := by
  induction k with
  | zero => simp
  | succ k ih =>
    rw [List.range_succ,List.map_append,List.flatten_append,ih,List.map_singleton,
      List.flatten_singleton,Nat.succ_mul,List.take_add]

theorem createChunks_spec {permutation : List String → List String} {columns : List String}
    (hperm : (permutation columns).Perm columns) {gamma : ℕ} (hgamma : 1 ≤ gamma) :
    (createChunks permutation columns gamma).flatten.Perm columns ∧
      ∀ c ∈ createChunks permutation columns gamma, c ≠ [] ∧ c.length ≤ gamma := by
  rw [createChunks,← hperm.length_eq]
  generalize permutation columns = names at hperm
  have hcover : ((List.range (names.length/gamma+1)).map fun i =>
      (names.drop (i*gamma)).take gamma).flatten = names := by
    rw [flatten_slices,List.take_of_length_le]
    exact (Nat.lt_div_mul_add hgamma).le.trans (by rw [Nat.succ_mul])
  have hshort : ∀ c ∈ (List.range (names.length/gamma+1)).map fun i =>
      (names.drop (i*gamma)).take gamma, c.length ≤ gamma := by
    intro c hc
    obtain ⟨i,-,rfl⟩ := List.mem_map.mp hc
    exact List.length_take_le _ _
  rw [List.range_succ,List.map_append,List.map_singleton] at hcover hshort ⊢
  rw [List.getLast?_concat,List.dropLast_concat]
  have hfull : ∀ c ∈ (List.range (names.length/gamma)).map fun i =>
      (names.drop (i*gamma)).take gamma, c ≠ [] := by
    intro c hc
    obtain ⟨i,hi,rfl⟩ := List.mem_map.mp hc
    have hlt : i*gamma < names.length := (Nat.mul_lt_mul_of_pos_right (List.mem_range.mp hi)
      hgamma).trans_le (Nat.div_mul_le_self _ _)
    rw [Ne,List.take_eq_nil_iff,List.drop_eq_nil_iff]
    omega
  split
  · next hlast =>
    rw [Option.some.inj hlast,List.flatten_append,List.flatten_singleton,List.append_nil] at hcover
    rw [hcover]
    exact ⟨hperm,fun c hc => ⟨hfull c hc,hshort c (List.mem_append_left _ hc)⟩⟩
  · next hlast =>
    rw [hcover]
    refine ⟨hperm,fun c hc => ⟨?_,hshort c hc⟩⟩
    rcases List.mem_append.mp hc with hc | hc
    · exact hfull c hc
    · rw [List.mem_singleton.mp hc]
      exact fun hnil => hlast (congrArg some hnil)

/-! ## Levels -/

section Levels

variable {F K : Type} [Field K] [LinearOrder K] [IsStrictOrderedRing K] [FloorSemiring K]

variable (ext : External F K) (localized : Bool) (bins : ℕ) {gamma : ℕ} (t : Sides F)

/-- What a level finds in some chunks, when they have no column twice. -/
theorem foldl_runPsiPc (opts : Options K) (hbins : opts.bins.isSome = true) (level : ℕ)
    {chunks : List (List String)} : ∀ (acc : List String × ℕ), chunks.flatten.Nodup →
      chunks.flatten ⊆ t.columns → ∃ found : List String,
        (chunks.foldl (fun acc c =>
          let found := runPsiPc ext opts level (t.normal.select c) (t.anomal.select c)
          (acc.1++found.1,acc.2+found.2)) acc).1 = acc.1++found ∧ found.Nodup ∧
        ∀ c ∈ found, c ∈ chunks.flatten ∧ c ≠ F_NODE := by
  induction chunks with
  | nil =>
    intro acc _ _
    exact ⟨[],(List.append_nil _).symm,List.nodup_nil,fun c hc => absurd hc List.not_mem_nil⟩
  | cons chunk chunks ih =>
    intro acc hnodup hsub
    rw [List.flatten_cons] at hnodup hsub
    obtain ⟨hchunk,hchunks,hdisjoint⟩ := List.nodup_append'.mp hnodup
    obtain ⟨hsubchunk,hsubchunks⟩ := List.append_subset.mp hsub
    obtain ⟨hfirst,hmem⟩ :=
      runPsiPc_subset ext opts level (t.select chunk hsubchunk hchunk) hbins
    have hcolumns : (t.select chunk hsubchunk hchunk).columns = chunk := columns_select hsubchunk
    rw [hcolumns] at hmem
    obtain ⟨found,heq,hfound,hrest⟩ := ih _ hchunks hsubchunks
    refine ⟨(runPsiPc ext opts level (t.normal.select chunk) (t.anomal.select chunk)).1++found,
      by rw [List.foldl_cons,heq,List.append_assoc],?_,fun c hc => ?_⟩
    · refine List.nodup_append'.mpr ⟨hfirst,hfound,fun c hc hc' => ?_⟩
      exact hdisjoint (hmem c hc).1 (hrest c hc').1
    · rw [List.flatten_cons,List.mem_append]
      rcases List.mem_append.mp hc with hc | hc
      · exact (hmem c hc).imp_left .inl
      · exact (hrest c hc).imp_left .inr

theorem children_spec (hgamma : 1 ≤ gamma) (level : ℕ) {columns : List String}
    (hnodup : columns.Nodup) (hsub : columns ⊆ t.columns) :
    (children ext localized bins gamma t.normal t.anomal level columns).Nodup ∧
      ∀ c ∈ children ext localized bins gamma t.normal t.anomal level columns,
        c ∈ columns ∧ c ≠ F_NODE := by
  have hcolumns : (t.normal.select columns).columns = columns := columns_select hsub
  obtain ⟨hperm,-⟩ := createChunks_spec (ext.permutation_perm level columns) hgamma
  obtain ⟨found,heq,hfound,hmem⟩ := foldl_runPsiPc ext
    (t.select columns hsub hnodup) (Options.ofChunk localized bins) rfl level ([],0)
    (hperm.nodup_iff.mpr hnodup) (by rw [Sides.columns,Sides.select,hcolumns]; exact hperm.subset)
  rw [children,runLevel,hcolumns]
  rw [List.nil_append] at heq
  have hchildren := heq
  dsimp only [Sides.select] at hchildren
  rw [hchildren]
  exact ⟨hfound,fun c hc => ⟨hperm.subset (hmem c hc).1,(hmem c hc).2⟩⟩

/-- Each level but the last leaves less than the one before. -/
theorem phaseOne_spec (hgamma : 1 ≤ gamma) : ∀ {fuel i : ℕ} {columns : List String},
    columns.Nodup → columns ⊆ t.columns → columns.length < fuel → ∃ levels found,
      (∀ fuel', fuel ≤ fuel' → phaseOne ext localized bins gamma t.normal t.anomal fuel' i columns
        columns.length = some (levels,found)) ∧ found.Nodup ∧ found ⊆ columns := by
  intro fuel
  induction fuel with
  | zero => exact fun _ _ hlt => absurd hlt (Nat.not_lt_zero _)
  | succ fuel ih =>
    intro i columns hnodup hsub hlt
    obtain ⟨hchildren,hmem⟩ := children_spec ext localized bins t hgamma i hnodup hsub
    have hfewer : children ext localized bins gamma t.normal t.anomal i columns ⊆ columns :=
      fun c hc => (hmem c hc).1
    have hlen := (hchildren.subperm hfewer).length_le
    by_cases hstop :
        (children ext localized bins gamma t.normal t.anomal i columns).length ≤ gamma ∨
          (children ext localized bins gamma t.normal t.anomal i columns).length = columns.length
    · refine ⟨i+1,_,fun fuel' hfuel => ?_,hchildren,hfewer⟩
      obtain ⟨k,rfl⟩ := Nat.exists_eq_add_of_le' hfuel
      rw [← Nat.add_assoc,phaseOne]
      exact if_pos hstop
    · have hless := lt_of_le_of_ne hlen fun heq => hstop (.inr heq)
      obtain ⟨levels,found,hgo,hfound,hsubset⟩ := ih (i:=i+1) hchildren
        (fun c hc => hsub (hfewer hc)) (by omega)
      refine ⟨levels,found,fun fuel' hfuel => ?_,hfound,fun c hc => hfewer (hsubset hc)⟩
      obtain ⟨k,rfl⟩ := Nat.exists_eq_add_of_le' hfuel
      rw [← Nat.add_assoc,phaseOne]
      exact (if_neg hstop).trans (hgo (k+fuel) (Nat.le_add_left _ _))

end Levels

/-- Tests that never find two columns independent, with nodes and columns in order. -/
def dependent : External ℚ ℚ where
  test _ _ _ _ _ _ := 0
  orders _ _ _ _ := ⟨fun _ ns => ns,id,fun _ _ => List.Perm.refl _,fun _ => List.Perm.refl _⟩
  permutation _ columns := columns
  permutation_perm _ columns := List.Perm.refl columns

def pair : Sides ℚ where
  normal := { index := [0], cols := [("a",fun _ => 0),("b",fun _ => 1)] }
  anomal := { index := [0], cols := [("a",fun _ => 1),("b",fun _ => 0)] }
  columns_eq := rfl
  nodup := by decide

end PsiPc
end ETraceDiag
