import Mathlib.Data.List.TakeWhile
import ETraceDiag.GroupFold
import ETraceDiag.Torai

/-!
# The root causes of a report

Every column of the tables belongs to an item of the input, and to the service that its name
starts with. The services are put into clusters, and the order of a cluster is one of its members
unless the refinement has been given columns of others.
-/

namespace ETraceDiag
namespace Torai

open CausalInput TimeTable LabelTable GroupFold

section Names

variable {F : Type} [Zero F] [One F] [Add F] [Numpy F]

/-! ## Names that go through -/

theorem sortDesc_perm {ι : Type} (xs : List (ι × F)) : (sortDesc xs).Perm xs :=
  List.perm_insertionSort _ xs

theorem map_fst_shares {ι : Type} (sum : F) (xs : List (ι × F)) :
    (shares sum xs).map Prod.fst = xs.map Prod.fst := by
  rw [shares,List.map_map]
  rfl

theorem mem_severityScores [PyValue.Python F] {variant : Variant} {normal anomal : Table F}
    {c : String} (h : c ∈ (severityScores variant normal anomal).map Prod.fst) :
    c ∈ normal.columns := by
  unfold severityScores at h
  split at h
  · cases h
  · dsimp only at h
    rw [map_fst_shares,((sortDesc_perm _).map Prod.fst).mem_iff] at h
    obtain ⟨r,hr,rfl⟩ := List.mem_map.mp h
    cases variant with
    | faithful =>
      obtain ⟨d,hd,hsome⟩ := List.mem_filterMap.mp hr
      obtain ⟨f,-,hf⟩ := Option.bind_eq_some_iff.mp hsome
      split at hf
      · cases hf
      · rw [← Option.some.inj hf]
        exact List.mem_map_of_mem hd
    | fast =>
      obtain ⟨i,hi,rfl⟩ := List.mem_iff_getElem.mp hr
      rw [List.getElem_zipWith]
      exact List.mem_map_of_mem (List.getElem_mem _)

/-! ## Services -/

/-- The service of an entity or of one of its columns. -/
def serviceName (name : String) : String :=
  if firstPart name = "frontendservice" then "frontend" else firstPart name

omit [Zero F] [One F] [Add F] [Numpy F] in
theorem map_fst_renameFrontend (items : List (String × F)) : (renameFrontend items).map Prod.fst =
    (items.map Prod.fst).map fun i => if i = "frontendservice" then "frontend" else i := by
  rw [renameFrontend,List.map_map,List.map_map]
  rfl

theorem firstPart_append (e m : String) : firstPart (e++"_"++m) = firstPart e := by
  have hlist : (e++"_"++m).toList = e.toList++ '_' :: m.toList := by simp
  rw [firstPart,firstPart,hlist]
  refine congrArg String.ofList ?_
  generalize e.toList = cs
  induction cs with
  | nil => simp
  | cons c cs ih =>
    by_cases hc : c = '_'
    · simp [hc]
    · simp [hc] at ih ⊢
      exact ih

/-- The names before the renaming. -/
def parts (fine : List (String × F)) : List String := fine.map fun r => firstPart r.1

theorem names_coarse (fine : Ranks F) (m : Modality) : ∃ names : List String, names.Nodup ∧
    (∀ s, s ∈ names ↔ s ∈ parts (fine m)) ∧ (coarse fine m).map Prod.fst =
      names.map fun i => if i = "frontendservice" then "frontend" else i := by
  have haddup : ∀ rs : List (String × F), ∃ names : List String, names.Nodup ∧
      (∀ s, s ∈ names ↔ s ∈ parts rs) ∧ (renameFrontend (fine2coarseAddup rs)).map Prod.fst =
        names.map fun i => if i = "frontendservice" then "frontend" else i := by
    intro rs
    refine ⟨_,?_,fun s => ?_,map_fst_renameFrontend _⟩
    · rw [fine2coarseAddup,((sortDesc_perm _).map Prod.fst).nodup_iff]
      exact nodup_keys_foldl_upsert _ _ _ _ List.nodup_nil
    · rw [fine2coarseAddup,((sortDesc_perm _).map Prod.fst).mem_iff,mem_keys_foldl_upsert]
      simp [parts]
  cases m with
  | log =>
    refine ⟨_,?_,fun s => ?_,map_fst_renameFrontend _⟩
    · rw [fine2coarseHighest,map_fst_shares,((sortDesc_perm _).map Prod.fst).nodup_iff]
      exact nodup_keys_foldl_upsert _ _ _ _ List.nodup_nil
    · rw [fine2coarseHighest,map_fst_shares,((sortDesc_perm _).map Prod.fst).mem_iff,
        mem_keys_foldl_upsert]
      simp [parts]
  | metric => exact haddup _
  | traceLat => exact haddup _
  | traceErr => exact haddup _

/-- No service is called by both of the names that become one. -/
def Apart (fine : Ranks F) : Prop :=
  ∀ m, ¬ ("frontend" ∈ parts (fine m) ∧ "frontendservice" ∈ parts (fine m))

theorem mem_coarse {fine : Ranks F} {m : Modality} {s : String} :
    s ∈ (coarse fine m).map Prod.fst ↔ ∃ r ∈ fine m, serviceName r.1 = s := by
  obtain ⟨names,-,hmem,hnames⟩ := names_coarse fine m
  rw [hnames,List.mem_map]
  constructor
  · rintro ⟨i,hi,rfl⟩
    obtain ⟨r,hr,rfl⟩ := List.mem_map.mp ((hmem i).mp hi)
    exact ⟨r,hr,rfl⟩
  · rintro ⟨r,hr,rfl⟩
    exact ⟨firstPart r.1,(hmem _).mpr (List.mem_map_of_mem hr),rfl⟩

theorem nodup_coarse {fine : Ranks F} (h : Apart fine) (m : Modality) :
    ((coarse fine m).map Prod.fst).Nodup := by
  obtain ⟨names,hnodup,hmem,hnames⟩ := names_coarse fine m
  rw [hnames]
  have hapart : ¬ ("frontend" ∈ names ∧ "frontendservice" ∈ names) := by
    rw [hmem,hmem]
    exact h m
  refine hnodup.map_on fun i hi j hj hij => ?_
  split at hij
  · next hi' =>
    split at hij
    · next hj' => rw [hi',hj']
    · exact absurd ⟨hij ▸ hj,hi' ▸ hi⟩ hapart
  · next hi' =>
    split at hij
    · next hj' => exact absurd ⟨hij ▸ hi,hj' ▸ hj⟩ hapart
    · exact hij

theorem Modality.mem_all (m : Modality) : m ∈ Modality.all := by cases m <;> decide

/-- The index of the matrix has every service of a column once. -/
theorem serviceList_coarse {fine : Ranks F} (h : Apart fine) :
    ∃ services, serviceList (coarse fine) = some services ∧ services.Nodup ∧
      ∀ s, s ∈ services ↔ ∃ m, ∃ r ∈ fine m, serviceName r.1 = s := by
  have hnodup : ∀ m ∈ Modality.all, ((coarse fine m).map Prod.fst).Nodup :=
    fun m _ => nodup_coarse h m
  simp only [serviceList,if_pos hnodup,← mem_coarse]
  split
  · next hsame =>
    refine ⟨_,rfl,nodup_coarse h .metric,fun s => ⟨fun hs => ⟨.metric,hs⟩,?_⟩⟩
    rintro ⟨m,hs⟩
    rw [← hsame m (Modality.mem_all m)]
    exact hs
  · refine ⟨_,rfl,?_,fun s => ?_⟩
    · exact (List.perm_insertionSort _ _).nodup_iff.mpr (List.nodup_dedup _)
    · rw [(List.perm_insertionSort _ _).mem_iff,List.mem_dedup,List.mem_flatMap]
      exact exists_congr fun m => and_iff_right (Modality.mem_all m)

/-! ## Clusters -/

theorem members_perm {γ : Type} {labels : List ℕ} {xs : List γ} (h : labels.length = xs.length)
    {cls : List ℕ} (hcls : cls.Nodup) (hlabels : ∀ l ∈ labels, l ∈ cls) :
    (cls.flatMap (members labels xs)).Perm xs := by
  have hmap : cls.flatMap (members labels xs) =
      (cls.flatMap fun cl => (labels.zip xs).filter (·.1 = cl)).map Prod.snd := by
    rw [List.map_flatMap]
    rfl
  have hzip : (labels.zip xs).map Prod.snd = xs := List.map_snd_zip (by omega)
  rw [hmap]
  exact ((flatMap_filter_perm hcls fun z hz =>
    hlabels _ (List.of_mem_zip hz).1).map Prod.snd).trans (List.Perm.of_eq hzip)

omit [Zero F] [One F] [Add F] [Numpy F] in
theorem mem_of_mem_members {γ : Type} {labels : List ℕ} {xs : List γ} {cl : ℕ} {x : γ}
    (h : x ∈ members labels xs cl) : x ∈ xs := by
  obtain ⟨z,hz,rfl⟩ := List.mem_map.mp h
  exact (List.of_mem_zip (List.mem_filter.mp hz).1).2

theorem clusterRank_perm (labels : List ℕ) (meanScores : List F) :
    ((clusterRank labels meanScores).map Prod.fst).Perm labels.dedup := by
  refine ((sortDesc_perm _).map Prod.fst).trans ?_
  rw [List.map_map]
  exact (List.Perm.of_eq (List.map_id _)).trans (List.perm_insertionSort _ _)

omit [Zero F] [One F] [Add F] [Numpy F] in
theorem members_zip (labels : List ℕ) (services : List String) (scores : List F)
    (h : services.length = scores.length) (cl : ℕ) :
    ((members labels services cl).zip (members labels scores cl)).map Prod.fst =
      members labels services cl := by
  refine List.map_fst_zip (Nat.le_of_eq ?_)
  induction labels generalizing services scores with
  | nil => rfl
  | cons l labels ih =>
    cases services with
    | nil =>
      obtain rfl := List.length_eq_zero_iff.mp h.symm
      rfl
    | cons s services =>
      cases scores with
      | nil => cases h
      | cons x scores =>
        have hrest := ih services scores (Nat.succ.inj h)
        simp only [members,List.zip_cons_cons,List.filter_cons] at hrest ⊢
        split
        · simpa using hrest
        · exact hrest

theorem underscore_not_mem_firstPart (name : String) : '_' ∉ (firstPart name).toList := by
  rw [firstPart,String.toList_ofList]
  intro h
  simpa using List.mem_takeWhile_imp h

theorem underscore_not_mem_serviceName (name : String) : '_' ∉ (serviceName name).toList := by
  unfold serviceName
  split
  · decide
  · exact underscore_not_mem_firstPart name

/-- Appending what is not there yet keeps every name once. -/
theorem foldl_append_new (names acc : List String) (h : acc.Nodup) :
    let out := names.foldl (fun acc s => if s ∈ acc then acc else acc++[s]) acc
    out.Nodup ∧ ∀ s, s ∈ out ↔ s ∈ acc ∨ s ∈ names := by
  induction names generalizing acc with
  | nil => exact ⟨h,fun s => by simp⟩
  | cons n names ih =>
    dsimp only
    rw [List.foldl_cons]
    by_cases hn : n ∈ acc
    · rw [if_pos hn]
      refine ⟨(ih acc h).1,fun s => ?_⟩
      rw [(ih acc h).2,List.mem_cons]
      constructor
      · rintro (hs | hs)
        · exact Or.inl hs
        · exact Or.inr (Or.inr hs)
      · rintro (hs | rfl | hs)
        · exact Or.inl hs
        · exact Or.inl hn
        · exact Or.inr hs
    · rw [if_neg hn]
      have hacc : (acc++[n]).Nodup :=
        List.nodup_append.mpr ⟨h,List.nodup_singleton n,fun a ha b hb => by
          rw [List.mem_singleton.mp hb]
          exact fun heq => hn (heq ▸ ha)⟩
      refine ⟨(ih _ hacc).1,fun s => ?_⟩
      rw [(ih _ hacc).2,List.mem_append,List.mem_singleton,List.mem_cons,or_assoc]

theorem internalOrder_nodup (refined : List String) : (internalOrder refined).Nodup :=
  (foldl_append_new _ [] List.nodup_nil).1

theorem mem_internalOrder {refined : List String} {s : String} :
    s ∈ internalOrder refined ↔ s ∈ refined.map firstPart := by
  rw [internalOrder,(foldl_append_new _ [] List.nodup_nil).2]
  simp

/-- What is listed for a cluster is a member or the first part of a column. -/
theorem mem_clusterOrder {refined : List String} {services : List (String × F)} {s : String}
    (h : s ∈ clusterOrder refined services) :
    s ∈ services.map Prod.fst ∨ ∃ c ∈ refined, firstPart c = s := by
  unfold clusterOrder at h
  split at h
  · exact Or.inl h
  · dsimp only at h
    split at h
    · exact Or.inr (List.mem_map.mp (mem_internalOrder.mp h))
    · exact Or.inl (((sortDesc_perm _).map Prod.fst).mem_iff.mp h)

/-- A list of columns gives a cluster no other names, or fewer than it has. -/
def Confined (columns services : List String) : Prop :=
  (∀ c ∈ columns, firstPart c ∈ services) ∨ (columns.map firstPart).dedup.length < services.length

/-- A list of columns that names as many services as the cluster has names its members. -/
theorem internalOrder_perm {columns refined services : List String}
    (hrefined : ∀ c ∈ refined, c ∈ columns) (h : Confined columns services)
    (hlength : (internalOrder refined).length = services.length) :
    (internalOrder refined).Perm services := by
  have hcolumn : ∀ s ∈ internalOrder refined, ∃ c ∈ columns, firstPart c = s := by
    intro s hs
    obtain ⟨c,hc,hname⟩ := List.mem_map.mp (mem_internalOrder.mp hs)
    exact ⟨c,hrefined c hc,hname⟩
  rcases h with hmembers | hfewer
  · have hsubset : internalOrder refined ⊆ services := by
      intro s hs
      obtain ⟨c,hc,rfl⟩ := hcolumn s hs
      exact hmembers c hc
    exact (List.subperm_of_subset (internalOrder_nodup _) hsubset).perm_of_length_le hlength.ge
  · have hsubset : internalOrder refined ⊆ (columns.map firstPart).dedup := by
      intro s hs
      obtain ⟨c,hc,rfl⟩ := hcolumn s hs
      exact List.mem_dedup.mpr (List.mem_map_of_mem hc)
    have hle := (List.subperm_of_subset (internalOrder_nodup _) hsubset).length_le
    omega

/-- The order of a cluster has its members when the refinement only knows confined columns. -/
theorem clusterOrder_perm {columns refined : List String} {services : List (String × F)}
    (hrefined : ∀ c ∈ refined, c ∈ columns)
    (h : 2 ≤ services.length → Confined columns (services.map Prod.fst)) :
    (clusterOrder refined services).Perm (services.map Prod.fst) := by
  unfold clusterOrder
  split
  · exact List.Perm.refl _
  · next hone =>
    dsimp only
    split
    · next hlength =>
      rcases Nat.lt_or_ge services.length 2 with hfew | hmany
      · have hnil : services = [] := List.length_eq_zero_iff.mp (by omega)
        have hinternal := List.length_eq_zero_iff.mp (hlength.trans (by rw [hnil]; rfl))
        rw [hinternal,hnil]
        rfl
      · exact internalOrder_perm hrefined (h hmany) (hlength.trans (List.length_map ..).symm)
    · exact (sortDesc_perm _).map Prod.fst

end Names

section Report

variable {F : Type} [Zero F] [One F] [Add F] [Numpy F] [PyValue.Python F]

/-! ## Entities and columns -/

/-- Some item of the input is about the entity. -/
def IsEntity (inputs : CausalInputs F) (e : String) : Prop :=
  (∃ p ∈ inputs.frame.points, p.entityId = e) ∨ (∃ l ∈ inputs.logs, l.entityId = e) ∨
    ∃ sp ∈ inputs.traces, sp.service = e

/-- The column holds what is known about the entity. -/
def Owns (inputs : CausalInputs F) (e c : String) : Modality → Prop
  | .metric => ∃ p ∈ observed inputs.frame, p.entityId = e ∧ pointColumn p = c
  | .log => ∃ l ∈ inputs.logs, l.entityId = e ∧ l.column = c
  | .traceLat => ∃ sp ∈ inputs.traces, sp.service = e ∧ sp.service++"_latency" = c
  | .traceErr => ∃ sp ∈ inputs.traces, sp.service = e ∧ sp.service++"_errors" = c

omit [Zero F] [One F] [Add F] [Numpy F] [PyValue.Python F] in
theorem Owns.isEntity {inputs : CausalInputs F} {e c : String} {m : Modality}
    (h : Owns inputs e c m) : IsEntity inputs e := by
  cases m with
  | metric =>
    obtain ⟨p,hp,he,-⟩ := h
    exact Or.inl ⟨p,(List.mem_filter.mp hp).1,he⟩
  | log =>
    obtain ⟨l,hl,he,-⟩ := h
    exact Or.inr (Or.inl ⟨l,hl,he⟩)
  | traceLat =>
    obtain ⟨sp,hsp,he,-⟩ := h
    exact Or.inr (Or.inr ⟨sp,hsp,he⟩)
  | traceErr =>
    obtain ⟨sp,hsp,he,-⟩ := h
    exact Or.inr (Or.inr ⟨sp,hsp,he⟩)

omit [Zero F] [One F] [Add F] [Numpy F] [PyValue.Python F] in
theorem Owns.firstPart_eq {inputs : CausalInputs F} {e c : String} {m : Modality}
    (h : Owns inputs e c m) : firstPart c = firstPart e := by
  have happend : ∀ suffix, firstPart (e++"_"++suffix) = firstPart e := firstPart_append e
  cases m with
  | metric =>
    obtain ⟨p,-,rfl,rfl⟩ := h
    exact happend p.metricId
  | log =>
    obtain ⟨l,-,rfl,rfl⟩ := h
    exact happend l.templateId
  | traceLat =>
    obtain ⟨sp,-,rfl,rfl⟩ := h
    have hsuffix := happend "latency"
    rwa [String.append_assoc] at hsuffix
  | traceErr =>
    obtain ⟨sp,-,rfl,rfl⟩ := h
    have hsuffix := happend "errors"
    rwa [String.append_assoc] at hsuffix

omit [Zero F] [One F] [Add F] [Numpy F] [PyValue.Python F] in
theorem Owns.serviceName_eq {inputs : CausalInputs F} {e c : String} {m : Modality}
    (h : Owns inputs e c m) : serviceName c = serviceName e := by
  rw [serviceName,serviceName,h.firstPart_eq]

omit [Zero F] [One F] [Add F] [Numpy F] [PyValue.Python F] in
theorem mem_columns_dropConstant [DecidableEq F] {f : Frame F} {c : String}
    (h : c ∈ f.dropConstant.timed.cols.map Prod.fst) : c ∈ f.cols.map Prod.fst := by
  unfold Frame.timed at h
  split at h
  · cases h
  · unfold Frame.dropConstant at h
    split at h
    · exact h
    · obtain ⟨d,hd,rfl⟩ := List.mem_map.mp h
      exact List.mem_map_of_mem (List.mem_filter.mp hd).1

omit [Zero F] [One F] [Add F] [Numpy F] [PyValue.Python F] in
theorem mem_columns_split {injectNs : ℕ} {f : Frame F} {c : String}
    (h : c ∈ (split injectNs f).normal.cols.map Prod.fst) : c ∈ f.cols.map Prod.fst := by
  simpa [split,Frame.restrict] using h

theorem mem_partsSeverity {cfg : ToraiConfig} {parts : Parts F} {c : String}
    (h : c ∈ (partsSeverity cfg parts).map Prod.fst) : c ∈ parts.normal.cols.map Prod.fst := by
  have hcolumns : (untimed parts.normal).columns = parts.normal.cols.map Prod.fst := by
    simp [untimed,Table.dropTime,ofFrame,Table.columns]
  rw [← hcolumns]
  exact mem_severityScores h

variable [DecidableEq F] (cfg : ToraiConfig) (injectNs : ℕ) (inputs : CausalInputs F)

omit [Numpy F] [DecidableEq F] in
theorem mem_columns_traces {traces : List TraceSpan} {c : String} :
    (c ∈ (tracesToTables traces : Frame F × Frame F).1.cols.map Prod.fst →
      ∃ sp ∈ traces, sp.service++"_errors" = c) ∧
    (c ∈ (tracesToTables traces : Frame F × Frame F).2.cols.map Prod.fst →
      ∃ sp ∈ traces, sp.service++"_latency" = c) := by
  have hservice : ∀ svc, svc ∈ sortedSet
      ((traces.foldl (fun d sp => upsert sp.service []
        (upsert sp.sec (0 : F) (·+sp.failed)) d) []).map Prod.fst++
      (traces.foldl (fun d sp => upsert sp.service []
        (upsert sp.sec [] (·++[(sp.endTsNs-sp.startTsNs : ℤ)])) d) []).map Prod.fst) →
      ∃ sp ∈ traces, sp.service = svc := by
    intro svc hsvc
    rw [mem_sortedSet,List.mem_append,mem_keys_foldl_upsert,mem_keys_foldl_upsert] at hsvc
    simpa using hsvc
  constructor
  · intro hc
    rw [tracesToTables,List.map_map] at hc
    obtain ⟨svc,hsvc,rfl⟩ := List.mem_map.mp hc
    obtain ⟨sp,hsp,rfl⟩ := hservice svc hsvc
    exact ⟨sp,hsp,rfl⟩
  · intro hc
    rw [tracesToTables,List.map_map] at hc
    obtain ⟨svc,hsvc,rfl⟩ := List.mem_map.mp hc
    obtain ⟨sp,hsp,rfl⟩ := hservice svc hsvc
    exact ⟨sp,hsp,rfl⟩

omit [Zero F] [One F] [Add F] [Numpy F] [PyValue.Python F] in
theorem mem_columns_traceParts {tables : Frame F × Frame F} {t : Parts F × Parts F} {c : String}
    (h : traceParts injectNs tables = some t) :
    (c ∈ t.1.normal.cols.map Prod.fst → c ∈ tables.1.cols.map Prod.fst) ∧
      (c ∈ t.2.normal.cols.map Prod.fst → c ∈ tables.2.cols.map Prod.fst) := by
  unfold traceParts at h
  split at h
  · cases h
  · obtain rfl := Option.some.inj h
    refine ⟨fun hc => ?_,fun hc => mem_columns_dropConstant (mem_columns_split hc)⟩
    dsimp only at hc
    split at hc
    · have hsplit : c ∈ (split injectNs tables.1.dropConstant.timed).normal.cols.map Prod.fst := by
        simpa [Frame.dropLastTwo] using hc
      exact mem_columns_dropConstant (mem_columns_split hsplit)
    · exact mem_columns_dropConstant (mem_columns_split hc)

omit [One F] [Add F] [Numpy F] [PyValue.Python F] [DecidableEq F] in
theorem mem_columns_sampledMetric {c : String}
    (h : c ∈ (sampledMetric cfg inputs.frame).columns) : ∃ e, Owns inputs e c .metric := by
  have hkeys : c ∈ (frameToMetric inputs.frame).cols.map Prod.fst := by
    simpa [Table.columns,sampledMetric,Table.stride,ofFrame] using h
  rw [frameToMetric,List.map_map] at hkeys
  rcases (mem_keys_foldl_upsert pointColumn _ _ _ _ _).mp hkeys with hpoint | hnil
  · obtain ⟨p,hp,hc⟩ := List.mem_map.mp hpoint
    exact ⟨p.entityId,p,hp,rfl,hc⟩
  · cases hnil

omit [Numpy F] [PyValue.Python F] in
theorem mem_columns_logs {c : String}
    (h : c ∈ (logsToTable inputs.logs : Frame F).dropConstant.timed.cols.map Prod.fst) :
    ∃ e, Owns inputs e c .log := by
  have hcol := mem_columns_dropConstant h
  rw [logsToTable,List.map_map] at hcol
  rcases (mem_keys_foldl_upsert LogEvent.column _ _ _ _ _).mp hcol with hlog | hnil
  · obtain ⟨l,hl,hc⟩ := List.mem_map.mp hlog
    exact ⟨l.entityId,l,hl,rfl,hc⟩
  · cases hnil

/-- Every column with a severity belongs to an entity. -/
theorem exists_owner {m : Modality} {r : String × F} (h : r ∈ fineRanks cfg injectNs inputs m) :
    ∃ e, Owns inputs e r.1 m := by
  have hname : r.1 ∈ (fineRanks cfg injectNs inputs m).map Prod.fst := List.mem_map_of_mem h
  cases m with
  | metric =>
    exact mem_columns_sampledMetric cfg inputs (mem_columns_metricParts (mem_severityScores hname))
  | log => exact mem_columns_logs inputs (mem_columns_split (mem_partsSeverity hname))
  | traceLat =>
    rw [fineRanks] at hname
    cases ht : traceParts (F:=F) injectNs (tracesToTables inputs.traces) with
    | none => rw [ht] at hname; cases hname
    | some t =>
      rw [ht] at hname
      have hcol := (mem_columns_traceParts injectNs ht).2 (mem_partsSeverity hname)
      obtain ⟨sp,hsp,hc⟩ := mem_columns_traces.2 hcol
      exact ⟨sp.service,sp,hsp,rfl,hc⟩
  | traceErr =>
    rw [fineRanks] at hname
    cases ht : traceParts (F:=F) injectNs (tracesToTables inputs.traces) with
    | none => rw [ht] at hname; cases hname
    | some t =>
      rw [ht] at hname
      have hcol := (mem_columns_traceParts injectNs ht).1 (mem_partsSeverity hname)
      obtain ⟨sp,hsp,hc⟩ := mem_columns_traces.1 hcol
      exact ⟨sp.service,sp,hsp,rfl,hc⟩

/-! ## The candidates -/

theorem stripSuffix_append (s : String) : stripSuffix (s++"_A") = s := by
  have hlist : (s++"_A").toList = s.toList++['_','A'] := by simp
  have hsuffix : "_A".toList.isSuffixOf (s++"_A").toList = true := by
    rw [hlist,List.isSuffixOf_iff_suffix]
    exact List.suffix_append _ _
  rw [stripSuffix,if_pos hsuffix,hlist]
  simp

variable {cfg injectNs inputs}

/-- The entity has a column with a severity. -/
def Evaluable (cfg : ToraiConfig) (injectNs : ℕ) (inputs : CausalInputs F) (e : String) : Prop :=
  ∃ m, ∃ r ∈ fineRanks cfg injectNs inputs m, Owns inputs e r.1 m

/-- The candidates are the evaluable entities, by the names that they are given, and cluster by
cluster the members of the cluster. -/
structure Lists (cfg : ToraiConfig) (injectNs : ℕ) (inputs : CausalInputs F)
    (name : String → String) (report : CausalReport F) : Prop where
  ranks : report.candidates.map (·.rank) = List.range' 1 report.candidates.length
  once : ∀ e, Evaluable cfg injectNs inputs e →
    (report.candidates.map (·.entityId)).count (name e) = 1
  known : ∀ c ∈ report.candidates, ∃ e, IsEntity inputs e ∧ name e = c.entityId
  clusters : ∃ orders : List (List String),
    report.candidates.map (·.entityId) = orders.flatten ∧
      List.Forall₂ List.Perm orders (report.clusters.map (·.members))

omit [PyValue.Python F] [DecidableEq F] in
theorem candidates_ranks (result : Result F) (names : List String) :
    (names.mapIdx fun i s => candidate result (i+1) s).map (·.rank) =
      List.range' 1 (names.mapIdx fun i s => candidate result (i+1) s).length := by
  refine List.ext_getElem (by simp) fun i hi _ => ?_
  simp [candidate,Nat.add_comm]

omit [PyValue.Python F] [DecidableEq F] in
theorem candidates_entityId (result : Result F) (order : List String) :
    ((order.map (·++"_A")).mapIdx fun i s => candidate result (i+1) s).map (·.entityId) =
      order := by
  refine List.ext_getElem (by simp) fun i hi _ => ?_
  simp [candidate,stripSuffix_append]

omit [PyValue.Python F] [DecidableEq F] in
/-- Cluster by cluster the orders are permutations of the members, so all together they are one
of the services. -/
theorem orders_perm {labels : List ℕ} {services : List String} {scores : List F}
    (hlabels : labels.length = services.length) {order : ℕ × F → List String}
    (horder : ∀ cl ∈ clusterRank labels scores, (order cl).Perm (members labels services cl.1)) :
    ((clusterRank labels scores).flatMap order).Perm services := by
  have hrank := clusterRank_perm labels scores
  have hnodup : ((clusterRank labels scores).map Prod.fst).Nodup :=
    hrank.nodup_iff.mpr (List.nodup_dedup _)
  have hall : ∀ l ∈ labels, l ∈ (clusterRank labels scores).map Prod.fst := fun l hl =>
    hrank.mem_iff.mpr (List.mem_dedup.mpr hl)
  have hmembers := members_perm hlabels hnodup hall
  rw [List.flatMap_map] at hmembers
  exact (List.Perm.flatMap_left _ horder).trans hmembers

/-- What a report consists of; an input without services has no clusters. -/
theorem analyze_eq_some (ext : External F) {incident : IncidentWindow F} {services : List String}
    (h : serviceList (coarse (fineRanks cfg incident.startTsNs inputs)) = some services)
    {x : List (List F)}
    (hx : matrix (coarse (fineRanks cfg incident.startTsNs inputs)) services = x)
    {labels : List ℕ} (hlabels : ext.cluster x = labels)
    {scores : List F} (hscores : x.map Numpy.mean = scores) :
    ∃ report, analyze ext cfg inputs incident = some report ∧
      report.candidates.map (·.rank) = List.range' 1 report.candidates.length ∧
      report.candidates.map (·.entityId) = ((clusterRank labels scores).flatMap fun cl =>
        clusterOrder (rcdMultimodal ext cfg incident.startTsNs inputs (members labels services cl.1))
          ((members labels services cl.1).zip (members labels scores cl.1))) ∧
      report.clusters.map (·.members) =
        (clusterRank labels scores).map fun cl => members labels services cl.1 := by
  rw [analyze,analyzeTables,h]
  refine ⟨_,rfl,?_⟩
  by_cases hnil : services = []
  · have hlength : labels.length = 0 := by
      rw [← hlabels,ext.cluster_length,← hx,matrix,List.length_map,hnil]
      rfl
    simp only [if_pos hnil]
    rw [List.length_eq_zero_iff.mp hlength]
    exact ⟨rfl,rfl,rfl⟩
  · simp only [if_neg hnil,hx,hlabels,hscores]
    refine ⟨candidates_ranks _ _,candidates_entityId _ _,?_⟩
    rw [List.map_map,List.map_map]
    have hnames : (Prod.fst ∘ fun s =>
        (s,severity (coarse (fineRanks cfg incident.startTsNs inputs)) s)) = id := rfl
    rw [hnames,List.map_id]
    rfl

/-- The columns that the refinement of a cluster is given. -/
def handedOn (cfg : ToraiConfig) (injectNs : ℕ) (inputs : CausalInputs F)
    (services : List String) : List String :=
  ((clusterTables cfg injectNs inputs services).map fun t => t.1.columns).getD []

omit [PyValue.Python F] in
theorem mem_columns_rcdMultimodal (ext : External F) (services : List String) :
    ∀ c ∈ rcdMultimodal ext cfg injectNs inputs services,
      c ∈ handedOn cfg injectNs inputs services := by
  intro c hc
  unfold rcdMultimodal at hc
  split at hc
  · cases hc
  · next t ht =>
    rw [handedOn,ht]
    exact ext.refine_columns t.1 t.2 c hc

omit [PyValue.Python F] in
/-- They start with a service of the cluster and belong to an entity. -/
theorem mem_handedOn {services : List String} {c : String}
    (h : c ∈ handedOn cfg injectNs inputs services) :
    startsWithAny services c = true ∧ ∃ e m, Owns inputs e c m := by
  rw [handedOn] at h
  obtain ⟨t,ht,hc⟩ : ∃ t, clusterTables cfg injectNs inputs services = some t ∧
      c ∈ t.1.columns := by
    generalize clusterTables cfg injectNs inputs services = o at h ⊢
    cases o with
    | none => cases h
    | some t => exact ⟨t,rfl,h⟩
  rcases mem_columns_rcdTables ht hc with hmetric | hlog
  · obtain ⟨d,hd,rfl⟩ := List.mem_map.mp hmetric
    obtain ⟨hcol,hstarts⟩ := List.mem_filter.mp hd
    obtain ⟨e,howns⟩ := mem_columns_sampledMetric cfg inputs (List.mem_map_of_mem hcol)
    exact ⟨hstarts,e,.metric,howns⟩
  · obtain ⟨d,hd,rfl⟩ := List.mem_map.mp hlog
    obtain ⟨hcol,hstarts⟩ := List.mem_filter.mp hd
    have hname : d.1 ∈ (logsToTable inputs.logs : Frame F).dropConstant.timed.cols.map Prod.fst := by
      have hcolumns := List.mem_map_of_mem (f:=Prod.fst) hcol
      rw [logTable,ofFrame,List.map_map] at hcolumns
      exact hcolumns
    obtain ⟨e,howns⟩ := mem_columns_logs inputs hname
    exact ⟨hstarts,e,.log,howns⟩

/-- Ids without underscores none of which begins with another. -/
structure PrefixFree (inputs : CausalInputs F) : Prop where
  plain : ∀ e, IsEntity inputs e → '_' ∉ e.toList
  frontend : ¬ IsEntity inputs "frontendservice"
  free : ∀ e e', IsEntity inputs e → IsEntity inputs e' → e.toList <+: e'.toList → e = e'

omit [Zero F] [One F] [Add F] [Numpy F] [PyValue.Python F] [DecidableEq F] in
theorem PrefixFree.firstPart_eq (h : PrefixFree inputs) {e : String} (he : IsEntity inputs e) :
    firstPart e = e := by
  have hall : e.toList.takeWhile (· ≠ '_') = e.toList :=
    List.takeWhile_eq_self_iff.mpr fun c hc => by
      simpa using fun heq : c = '_' => h.plain e he (heq ▸ hc)
  rw [firstPart,hall,String.ofList_toList]

omit [Zero F] [One F] [Add F] [Numpy F] [PyValue.Python F] [DecidableEq F] in
theorem PrefixFree.serviceName_eq (h : PrefixFree inputs) {e : String} (he : IsEntity inputs e) :
    serviceName e = e := by
  rw [serviceName,h.firstPart_eq he,if_neg]
  rintro rfl
  exact h.frontend he

omit [PyValue.Python F] in
/-- Then the columns of a cluster are those of its members. -/
theorem PrefixFree.confined (h : PrefixFree inputs) {services : List String}
    (hs : ∀ s ∈ services, IsEntity inputs s) :
    Confined (handedOn cfg injectNs inputs services) services := by
  refine Or.inl fun c hc => ?_
  obtain ⟨hstarts,e,m,howns⟩ := mem_handedOn hc
  obtain ⟨s,hmem,hpre⟩ := List.any_eq_true.mp hstarts
  obtain ⟨rest,hrest⟩ := List.isPrefixOf_iff_prefix.mp hpre
  have hfirst : (firstPart c).toList = s.toList++rest.takeWhile (· ≠ '_') := by
    rw [firstPart,String.toList_ofList,← hrest]
    refine List.takeWhile_append_of_pos fun x hx => ?_
    simpa using fun heq : x = '_' => h.plain s (hs s hmem) (heq ▸ hx)
  have hentity : firstPart c = e := howns.firstPart_eq.trans (h.firstPart_eq howns.isEntity)
  rw [hentity] at hfirst ⊢
  rw [← h.free s e (hs s hmem) howns.isEntity ⟨_,hfirst.symm⟩]
  exact hmem

omit [PyValue.Python F] in
/-- The order of a cluster with confined columns is one of its members. -/
theorem clusterOrder_members {ext : External F} {labels : List ℕ} {services : List String}
    {scores : List F} (hscores : services.length = scores.length) (cl : ℕ)
    (hconfined : 2 ≤ (members labels services cl).length →
      Confined (handedOn cfg injectNs inputs (members labels services cl))
        (members labels services cl)) :
    (clusterOrder (rcdMultimodal ext cfg injectNs inputs (members labels services cl))
      ((members labels services cl).zip (members labels scores cl))).Perm
      (members labels services cl) := by
  have hzip := members_zip labels services scores hscores cl
  have hlong := congrArg List.length hzip
  rw [List.length_map] at hlong
  refine (clusterOrder_perm (mem_columns_rcdMultimodal ext _) fun hmany => ?_).trans
    (List.Perm.of_eq hzip)
  rw [hzip]
  exact hconfined (hlong ▸ hmany)

/-- Orders of clusters with confined columns list the evaluable entities. -/
theorem lists_of_orders {ext : External F} {report : CausalReport F} {labels : List ℕ}
    {services : List String} {scores : List F} (hlength : labels.length = services.length)
    (hscores : services.length = scores.length) (hnodup : services.Nodup)
    (hmem : ∀ s, s ∈ services ↔ ∃ m, ∃ r ∈ fineRanks cfg injectNs inputs m, serviceName r.1 = s)
    (hranks : report.candidates.map (·.rank) = List.range' 1 report.candidates.length)
    (hids : report.candidates.map (·.entityId) = ((clusterRank labels scores).flatMap fun cl =>
      clusterOrder (rcdMultimodal ext cfg injectNs inputs (members labels services cl.1))
        ((members labels services cl.1).zip (members labels scores cl.1))))
    (hclusters : report.clusters.map (·.members) =
      (clusterRank labels scores).map fun cl => members labels services cl.1)
    (hconfined : ∀ cl ∈ report.clusters, 2 ≤ cl.members.length →
      Confined (handedOn cfg injectNs inputs cl.members) cl.members) :
    Lists cfg injectNs inputs serviceName report := by
  have horder : ∀ cl ∈ clusterRank labels scores,
      (clusterOrder (rcdMultimodal ext cfg injectNs inputs (members labels services cl.1))
        ((members labels services cl.1).zip (members labels scores cl.1))).Perm
        (members labels services cl.1) := by
    intro cl hcl
    have hmember : members labels services cl.1 ∈ report.clusters.map (·.members) := by
      rw [hclusters]
      exact List.mem_map_of_mem hcl
    obtain ⟨cluster,hcluster,hmembers⟩ := List.mem_map.mp hmember
    refine clusterOrder_members hscores cl.1 fun hmany => ?_
    rw [← hmembers] at hmany ⊢
    exact hconfined cluster hcluster hmany
  have hperm := orders_perm hlength horder
  rw [← hids] at hperm
  refine ⟨hranks,fun e he => ?_,fun c hc => ?_,?_⟩
  · obtain ⟨m,r,hr,howns⟩ := he
    refine List.count_eq_one_of_mem (hperm.nodup_iff.mpr hnodup) (hperm.mem_iff.mpr ?_)
    exact (hmem _).mpr ⟨m,r,hr,howns.serviceName_eq⟩
  · obtain ⟨m,r,hr,hname⟩ := (hmem _).mp (hperm.mem_iff.mp (List.mem_map_of_mem hc))
    obtain ⟨e,howns⟩ := exists_owner cfg injectNs inputs hr
    exact ⟨e,howns.isEntity,howns.serviceName_eq.symm.trans hname⟩
  · rw [hids,hclusters]
    refine ⟨_,List.flatMap_def,?_⟩
    exact List.forall₂_map_left_iff.mpr (List.forall₂_map_right_iff.mpr
      (List.forall₂_same.mpr horder))

/-- An id with an underscore is no candidate. -/
theorem underscore_not_mem_candidates {ext : External F} {incident : IncidentWindow F}
    (h : Apart (fineRanks cfg incident.startTsNs inputs)) {report : CausalReport F}
    (hreport : analyze ext cfg inputs incident = some report) :
    ∀ c ∈ report.candidates, '_' ∉ c.entityId.toList := by
  obtain ⟨services,hservices,-,hmem⟩ := serviceList_coarse h
  obtain ⟨report',hreport',-,hids,-⟩ := analyze_eq_some ext hservices rfl rfl rfl
  obtain rfl : report' = report := Option.some.inj (hreport'.symm.trans hreport)
  intro c hc
  have hid : c.entityId ∈ report'.candidates.map (·.entityId) := List.mem_map_of_mem hc
  rw [hids] at hid
  obtain ⟨cl,-,hcl⟩ := List.mem_flatMap.mp hid
  rcases mem_clusterOrder hcl with hmember | ⟨col,-,hcol⟩
  · obtain ⟨z,hz,hfst⟩ := List.mem_map.mp hmember
    obtain ⟨m,r,-,hname⟩ := (hmem _).mp (mem_of_mem_members (List.of_mem_zip hz).1)
    rw [← hfst,← hname]
    exact underscore_not_mem_serviceName r.1
  · rw [← hcol]
    exact underscore_not_mem_firstPart col

/-- The two names do not meet where no entity is called by the longer one. -/
theorem apart_of_entities (h : ∀ e, IsEntity inputs e → firstPart e ≠ "frontendservice") :
    Apart (fineRanks cfg injectNs inputs) := by
  rintro m ⟨-,hservice⟩
  obtain ⟨r,hr,hname⟩ := List.mem_map.mp hservice
  obtain ⟨e,howns⟩ := exists_owner cfg injectNs inputs hr
  exact h e howns.isEntity (howns.firstPart_eq.symm.trans hname)

/-- The members of a cluster are services of entities. -/
theorem exists_entity_of_mem_members {ext : External F} {incident : IncidentWindow F}
    (h : Apart (fineRanks cfg incident.startTsNs inputs)) {report : CausalReport F}
    (hreport : analyze ext cfg inputs incident = some report) :
    ∀ cl ∈ report.clusters, ∀ s ∈ cl.members, ∃ e, IsEntity inputs e ∧ serviceName e = s := by
  obtain ⟨services,hservices,-,hmem⟩ := serviceList_coarse h
  obtain ⟨report',hreport',-,-,hclusters⟩ := analyze_eq_some ext hservices rfl rfl rfl
  obtain rfl : report' = report := Option.some.inj (hreport'.symm.trans hreport)
  intro cl hcl s hs
  have hmembers : cl.members ∈ report'.clusters.map (·.members) := List.mem_map_of_mem hcl
  rw [hclusters] at hmembers
  obtain ⟨c,-,hc⟩ := List.mem_map.mp hmembers
  rw [← hc] at hs
  obtain ⟨m,r,hr,hname⟩ := (hmem s).mp (mem_of_mem_members hs)
  obtain ⟨e,howns⟩ := exists_owner cfg incident.startTsNs inputs hr
  exact ⟨e,howns.isEntity,howns.serviceName_eq.symm.trans hname⟩

/-- Where the ids are prefix free the clusters are confined. -/
theorem PrefixFree.confined_of_analyze (h : PrefixFree inputs) {ext : External F}
    {incident : IncidentWindow F} {report : CausalReport F}
    (hreport : analyze ext cfg inputs incident = some report) :
    ∀ cl ∈ report.clusters,
      Confined (handedOn cfg incident.startTsNs inputs cl.members) cl.members := by
  have hapart : Apart (fineRanks cfg incident.startTsNs inputs) :=
    apart_of_entities fun e he hname => h.frontend (by rw [← hname,h.firstPart_eq he]; exact he)
  intro cl hcl
  refine h.confined fun s hs => ?_
  obtain ⟨e,he,rfl⟩ := exists_entity_of_mem_members hapart hreport cl hcl s hs
  rw [h.serviceName_eq he]
  exact he

end Report

/-! ## Two processes -/

theorem tally_eq_cast (n : ℕ) : (tally n : ℚ) = n := by
  induction n with
  | zero => rfl
  | succ n ih => rw [tally,ih,Nat.cast_succ]

/-- A square root that is exact for the squares of fractions. -/
def root (q : ℚ) : ℚ := mkRat (Nat.sqrt q.num.toNat) (Nat.sqrt q.den)

def average (xs : List ℚ) : ℚ := xs.sum/xs.length

def squares (xs : List ℚ) : ℚ := (xs.map fun x => (x-average xs)*(x-average xs)).sum

/-- Exact numbers; the scaler is exact where the variance is a square. -/
instance : Numpy ℚ where
  lt a b := a < b
  differs a b := a ≠ b
  div := (·/·)
  toMb x := x/1000000
  mean := average
  var xs := squares xs/(xs.length-1)
  argsort xs := (List.range xs.length).insertionSort fun i j => xs.getD j 0 ≤ xs.getD i 0
  maxZ _ normal anomal :=
    let scale := root (squares normal/normal.length)
    let scale := if scale = 0 then 1 else scale
    (anomal.map fun x => |(x-average normal)/scale|).foldl max 0
  tally_succ n := by
    rw [tally_eq_cast]
    exact Nat.cast_ne_zero.mpr (Nat.succ_ne_zero n)
  differs_tally n := by simp
  toMb_zero := by simp
  toMb_tally n := by
    rw [tally_eq_cast]
    exact div_ne_zero (Nat.cast_ne_zero.mpr (Nat.succ_ne_zero n)) (by decide)

/-- The same metric of some processes, a value a second. -/
def everySecond (entities : List String) (values : List ℚ) : List (TelemetryPoint ℚ) :=
  (values.mapIdx fun i v => entities.map fun e =>
    { tsNs := i*1000000000, entityId := e, entityType := .process, metricId := "cpu"
      value := v, quality := .observed }).flatten

def everyRow : ToraiConfig := { resampleS := 1 }

def oneCluster : External ℚ where
  cluster x := x.map fun _ => 0
  refine n _ := n.columns
  cluster_length _ := List.length_map ..
  refine_columns _ _ _ hc := hc

def fromThirdSecond : IncidentWindow ℚ where
  incidentId := "inc"
  startTsNs := 2000000000
  endTsNs := 3000000000
  windowOrder := by decide
  detectedAtNs := 2000000000
  status := .anomaly
  severity := 1
  metricScores := []
  directions := []

def twoProcesses : CausalInputs ℚ where
  frame := ⟨everySecond ["proc7","proc8"] [1,3,5,7],by decide,by decide⟩
  logs := []
  traces := []
  incident := none

theorem isEntity_twoProcesses {e : String} (h : IsEntity twoProcesses e) :
    e = "proc7" ∨ e = "proc8" := by
  rcases h with ⟨p,hp,rfl⟩ | ⟨l,hl,-⟩ | ⟨sp,hsp,-⟩
  · revert p
    decide
  · cases hl
  · cases hsp

theorem prefixFree_twoProcesses : PrefixFree twoProcesses where
  plain e he := by rcases isEntity_twoProcesses he with rfl | rfl <;> decide
  frontend he := by rcases isEntity_twoProcesses he with h | h <;> exact absurd h (by decide)
  free e e' he he' := by
    rcases isEntity_twoProcesses he with rfl | rfl <;>
      rcases isEntity_twoProcesses he' with rfl | rfl <;> decide

/-- An id with an underscore. -/
def underscoreProcess : CausalInputs ℚ where
  frame := ⟨everySecond ["web_1"] [1,3,5,7],by decide,by decide⟩
  logs := []
  traces := []
  incident := none

theorem frameToMetric_underscoreProcess : frameToMetric underscoreProcess.frame =
    { time := some [0,1,2,3], cols := [("web_1_cpu",[1,3,5,7])] } := by
  rw [frameToMetric,sortedSet_eq [0,1,2,3] (by decide) (by decide)]
  exact congrArg (Frame.mk (some [0,1,2,3])) (by decide +kernel)

end Torai
end ETraceDiag
