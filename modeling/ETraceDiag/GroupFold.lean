import Mathlib.Data.List.Nodup

/-!
# Folding rows group by group

Every row has a key; a map from keys to accumulators takes each row into the accumulator of its
key, which starts out the first time the key is seen. The map then holds, for each key that
occurs, the fold over the rows of that key.
-/

namespace GroupFold

open Std

variable {ρ κ α : Type} {cmp : κ → κ → Ordering}

def groupStep (key : ρ → κ) (op : α → ρ → α) (init : α) (m : TreeMap κ α cmp) (r : ρ) :
    TreeMap κ α cmp :=
  m.alter (key r) fun a => some (op (a.getD init) r)

def groupFold (cmp : κ → κ → Ordering) (key : ρ → κ) (op : α → ρ → α) (init : α)
    (rows : List ρ) : TreeMap κ α cmp :=
  rows.foldl (groupStep key op init) ∅

/-- Pairs are compared by their first parts first. -/
abbrev comparePair {ι : Type} [Ord κ] [Ord ι] : κ × ι → κ × ι → Ordering :=
  compareLex (compareOn Prod.fst) (compareOn Prod.snd)

instance {ι : Type} [Ord κ] [Ord ι] [LawfulEqOrd κ] [LawfulEqOrd ι] :
    LawfulEqCmp (comparePair (κ:=κ) (ι:=ι)) where
  compare_self := by simp [comparePair,compareLex,compareOn]
  eq_of_compare := by
    rintro ⟨a,a'⟩ ⟨b,b'⟩ h
    simp only [comparePair,compareLex_eq_eq,compareOn,Std.compare_eq_iff_eq] at h
    exact Prod.ext h.1 h.2

variable [TransCmp cmp] [LawfulEqCmp cmp] [DecidableEq κ]

theorem getElem?_foldl (key : ρ → κ) (op : α → ρ → α) (init : α) (k : κ) (rows : List ρ) :
    ∀ m : TreeMap κ α cmp, (rows.foldl (groupStep key op init) m)[k]? =
      if rows.filter (key · = k) = [] then m[k]?
      else some ((rows.filter (key · = k)).foldl op (m[k]?.getD init)) := by
  induction rows with
  | nil => intro m; rfl
  | cons r rows ih =>
    intro m
    rw [List.foldl_cons,ih]
    by_cases hr : key r = k
    · have hstep : (groupStep key op init m r)[k]? = some (op (m[k]?.getD init) r) := by
        rw [groupStep,TreeMap.getElem?_alter,if_pos (by simp [hr]),hr]
      rw [hstep]
      simp only [List.filter_cons,hr,decide_true,if_true]
      split
      · next hnil => rw [hnil]; rfl
      · rfl
    · have hstep : (groupStep key op init m r)[k]? = m[k]? := by
        rw [groupStep,TreeMap.getElem?_alter,if_neg (by simpa using hr)]
      rw [hstep]
      simp only [List.filter_cons,hr,decide_false,if_false,Bool.false_eq_true]

/-- The map holds the folds of the groups, and nothing else. -/
theorem mem_groupFold (key : ρ → κ) (op : α → ρ → α) (init : α) (rows : List ρ) (k : κ) (a : α) :
    (k,a) ∈ (groupFold cmp key op init rows).toList ↔
      (∃ r ∈ rows, key r = k) ∧ (rows.filter (key · = k)).foldl op init = a := by
  have hnil : rows.filter (key · = k) = [] ↔ ¬ ∃ r ∈ rows, key r = k := by
    simp [List.filter_eq_nil_iff]
  rw [TreeMap.mem_toList_iff_getElem?_eq_some,groupFold,getElem?_foldl]
  split
  · next h =>
    refine iff_of_false (by simp) ?_
    exact fun hand => hnil.mp h hand.1
  · next h =>
    have hex : ∃ r ∈ rows, key r = k := by
      by_contra hne
      exact h (hnil.mpr hne)
    simp [hex]

omit [DecidableEq κ] in
theorem nodup_toList (m : TreeMap κ α cmp) : m.toList.Nodup := by
  refine TreeMap.distinct_keys_toList.imp ?_
  rintro a b hne rfl
  exact hne ReflCmp.compare_self

omit [DecidableEq κ] in
theorem nodup_keys_toList (m : TreeMap κ α cmp) : (m.toList.map Prod.fst).Nodup := by
  rw [List.Nodup,List.pairwise_map]
  refine TreeMap.distinct_keys_toList.imp ?_
  rintro a b hne heq
  exact hne (heq ▸ ReflCmp.compare_self)

/-! ### The groups one after the other -/

theorem flatMap_cons_perm {key : ρ → κ} {r : ρ} {ks : List κ} (hks : ks.Nodup) (hr : key r ∈ ks)
    (f : κ → List ρ) :
    (ks.flatMap fun k => if key r = k then r::f k else f k).Perm (r::ks.flatMap f) := by
  induction ks with
  | nil => cases hr
  | cons k ks ih =>
    obtain ⟨hk,hks⟩ := List.nodup_cons.mp hks
    rw [List.flatMap_cons,List.flatMap_cons]
    by_cases heq : key r = k
    · have hrest : (ks.flatMap fun k => if key r = k then r::f k else f k) = ks.flatMap f :=
        List.flatMap_congr fun k' hk' => if_neg fun h => hk (heq.symm.trans h ▸ hk')
      rw [if_pos heq,hrest]
      rfl
    · rw [if_neg heq]
      have hmem := (List.mem_cons.mp hr).resolve_left heq
      exact ((ih hks hmem).append_left (f k)).trans List.perm_middle

theorem flatMap_filter_perm {key : ρ → κ} {ks : List κ} (hks : ks.Nodup) {rows : List ρ}
    (h : ∀ r ∈ rows, key r ∈ ks) :
    (ks.flatMap fun k => rows.filter (key · = k)).Perm rows := by
  induction rows with
  | nil => simp
  | cons r rows ih =>
    have hfilter : ∀ k, (r::rows).filter (key · = k) =
        if key r = k then r::rows.filter (key · = k) else rows.filter (key · = k) := by
      intro k
      simp [List.filter_cons]
    simp only [hfilter]
    exact (flatMap_cons_perm hks (h r (List.mem_cons_self ..)) _).trans
      ((ih fun r' hr' => h r' (List.mem_cons_of_mem _ hr')).cons r)

/-! ### Folding batch by batch -/

/-- The groups of the batches, each batch folded on its own. -/
def batches (cmp : κ → κ → Ordering) (key : ρ → κ) (op : α → ρ → α) (init : α)
    (parts : List (List ρ)) : List (κ × α) :=
  parts.flatMap fun rows => (groupFold cmp key op init rows).toList

/-- No group has rows in two batches. -/
def Unsplit (key : ρ → κ) (parts : List (List ρ)) : Prop :=
  parts.Pairwise fun p q => ∀ r ∈ p, ∀ s ∈ q, key r ≠ key s

theorem mem_keys_groupFold (key : ρ → κ) (op : α → ρ → α) (init : α) (rows : List ρ) (k : κ) :
    k ∈ (groupFold cmp key op init rows).toList.map Prod.fst ↔ ∃ r ∈ rows, key r = k := by
  rw [List.mem_map]
  constructor
  · rintro ⟨⟨k',a⟩,hmem,rfl⟩
    exact ((mem_groupFold key op init rows k' a).mp hmem).1
  · exact fun h => ⟨(k,_),(mem_groupFold key op init rows k _).mpr ⟨h,rfl⟩,rfl⟩

variable (cmp) in
/-- A key comes out of one batch only exactly when no group is split. -/
theorem nodup_batches_iff (key : ρ → κ) (op : α → ρ → α) (init : α) (parts : List (List ρ)) :
    ((batches cmp key op init parts).map Prod.fst).Nodup ↔ Unsplit key parts := by
  rw [batches,List.map_flatMap,List.nodup_flatMap]
  have heach : ∀ rows ∈ parts,
      ((groupFold cmp key op init rows).toList.map Prod.fst).Nodup :=
    fun rows _ => nodup_keys_toList _
  rw [and_iff_right heach,Unsplit]
  have hpair : ∀ p q : List ρ, List.Disjoint ((groupFold cmp key op init p).toList.map Prod.fst)
      ((groupFold cmp key op init q).toList.map Prod.fst) ↔ ∀ r ∈ p, ∀ s ∈ q, key r ≠ key s := by
    intro p q
    constructor
    · intro h r hr s hs heq
      exact h ((mem_keys_groupFold key op init p (key r)).mpr ⟨r,hr,rfl⟩)
        ((mem_keys_groupFold key op init q (key r)).mpr ⟨s,hs,heq.symm⟩)
    · intro h k hp hq
      obtain ⟨r,hr,rfl⟩ := (mem_keys_groupFold key op init p k).mp hp
      obtain ⟨s,hs,heq⟩ := (mem_keys_groupFold key op init q _).mp hq
      exact h r hr s hs heq.symm
  constructor
  · exact fun h => h.imp fun {p q} hd => (hpair p q).mp hd
  · exact fun h => h.imp fun {p q} hd => (hpair p q).mpr hd

/-- In a batch that holds a row of a group the group is the one of all rows. -/
theorem filter_flatten {key : ρ → κ} {parts : List (List ρ)} (h : Unsplit key parts)
    {p : List ρ} (hp : p ∈ parts) {r : ρ} (hr : r ∈ p) :
    parts.flatten.filter (key · = key r) = p.filter (key · = key r) := by
  induction parts with
  | nil => cases hp
  | cons q parts ih =>
    obtain ⟨hq,hrest⟩ := List.pairwise_cons.mp h
    rw [List.flatten_cons,List.filter_append]
    rcases List.mem_cons.mp hp with rfl | hp
    · have hnil : parts.flatten.filter (key · = key r) = [] := by
        rw [List.filter_eq_nil_iff]
        intro s hs
        obtain ⟨p',hp',hsp⟩ := List.mem_flatten.mp hs
        simpa using (hq p' hp' r hr s hsp).symm
      rw [hnil,List.append_nil]
    · have hnil : q.filter (key · = key r) = [] := by
        rw [List.filter_eq_nil_iff]
        intro s hs
        simpa using hq p hp s hs r hr
      rw [hnil,List.nil_append]
      exact ih hrest hp

variable (cmp) in
/-- Unsplit batches give the groups of all rows. -/
theorem batches_perm {key : ρ → κ} (op : α → ρ → α) (init : α) {parts : List (List ρ)}
    (h : Unsplit key parts) :
    (batches cmp key op init parts).Perm (groupFold cmp key op init parts.flatten).toList := by
  have hn := (nodup_batches_iff cmp key op init parts).mpr h
  refine (List.perm_ext_iff_of_nodup (List.Nodup.of_map Prod.fst hn) (nodup_toList _)).mpr ?_
  rintro ⟨k,a⟩
  rw [batches,List.mem_flatMap,mem_groupFold]
  constructor
  · rintro ⟨p,hp,hmem⟩
    obtain ⟨⟨r,hr,rfl⟩,hfold⟩ := (mem_groupFold key op init p k a).mp hmem
    rw [filter_flatten h hp hr]
    exact ⟨⟨r,List.mem_flatten.mpr ⟨p,hp,hr⟩,rfl⟩,hfold⟩
  · rintro ⟨⟨r,hr,rfl⟩,hfold⟩
    obtain ⟨p,hp,hrp⟩ := List.mem_flatten.mp hr
    rw [filter_flatten h hp hrp] at hfold
    exact ⟨p,hp,(mem_groupFold key op init p (key r) a).mpr ⟨⟨r,hrp,rfl⟩,hfold⟩⟩

/-- The order of the rows does not matter where the accumulators do not see it. -/
theorem toList_groupFold_perm (key : ρ → κ) {op : α → ρ → α}
    (hop : ∀ a r r', op (op a r) r' = op (op a r') r) (init : α) {rows rows' : List ρ}
    (h : rows.Perm rows') :
    (groupFold cmp key op init rows).toList = (groupFold cmp key op init rows').toList := by
  have hperm : (groupFold cmp key op init rows).toList.Perm
      (groupFold cmp key op init rows').toList := by
    refine (List.perm_ext_iff_of_nodup (nodup_toList _) (nodup_toList _)).mpr ?_
    rintro ⟨k,a⟩
    have hgroup := h.filter (key · = k)
    rw [mem_groupFold,mem_groupFold,hgroup.foldl_eq' fun r _ r' _ a => hop a r r']
    simp only [h.mem_iff]
  exact (TreeMap.Equiv.of_toList_perm hperm).toList_eq

end GroupFold
