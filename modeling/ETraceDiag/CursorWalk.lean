import ETraceDiag.CursorMap

/-!
# A walk through a map that changes

A walk stands at a key, or before the first one; the keys behind it are still ahead. A change
of the map between two steps leaves the walk undisturbed when its key stays and no key that
stays moves across it.
-/

namespace CursorMap

variable {κ ν : Type*} [DecidableEq κ]

/-- The keys behind the one the walk stands at. -/
def ahead (m : List (κ × ν)) : Option κ → List κ
  | none => keys m
  | some c => (keys (m.dropWhile fun e => e.1 ≠ c)).tail

/-- The key that the walk stands at is in the map. -/
def Present (m : List (κ × ν)) (c : Option κ) : Prop := ∀ k ∈ c, k ∈ keys m

structure Steady (m m' : List (κ × ν)) (c : Option κ) : Prop where
  present : Present m' c
  ahead : ∀ k ∈ keys m, k ∈ keys m' → (k ∈ ahead m c ↔ k ∈ ahead m' c)

/-- An update puts the entry somewhere, wherever it was. -/
def insertAt (m : List (κ × ν)) (k : κ) (v : ν) (i : ℕ) : List (κ × ν) :=
  (erase m k).take i++(k,v)::(erase m k).drop i

theorem mem_of_mem_ahead {m : List (κ × ν)} {c : Option κ} {k : κ} (h : k ∈ ahead m c) :
    k ∈ keys m := by
  cases c with
  | none => exact h
  | some c =>
    obtain ⟨e,he,rfl⟩ := List.mem_map.mp (List.mem_of_mem_tail h)
    exact List.mem_map_of_mem ((List.dropWhile_sublist _).mem he)

theorem exists_split {m : List (κ × ν)} {k : κ} (h : k ∈ keys m) :
    ∃ pre e post, m = pre++e::post ∧ e.1 = k ∧ k ∉ keys pre := by
  induction m with
  | nil => cases h
  | cons x m ih =>
    by_cases hx : x.1 = k
    · exact ⟨[],x,m,rfl,hx,List.not_mem_nil⟩
    · rw [keys,List.map_cons,List.mem_cons] at h
      obtain ⟨pre,e,post,hm,he,hpre⟩ := ih (h.resolve_left (Ne.symm hx))
      refine ⟨x::pre,e,post,congrArg _ hm,he,?_⟩
      rw [keys,List.map_cons,List.mem_cons,not_or]
      exact ⟨Ne.symm hx,hpre⟩

theorem ahead_split {pre post : List (κ × ν)} {e : κ × ν} (h : e.1 ∉ keys pre) :
    ahead (pre++e::post) (some e.1) = keys post := by
  rw [ahead,dropWhile_split h]
  rfl

theorem nextKey_eq_head? {m : List (κ × ν)} {c : Option κ} (hc : Present m c) :
    nextKey m c = (ahead m c).head? := by
  cases c with
  | none => rw [nextKey_none,firstKey,ahead,keys,List.head?_map]
  | some c =>
    obtain ⟨pre,e,post,rfl,rfl,hpre⟩ := exists_split (hc c rfl)
    rw [nextKey_split hpre,ahead_split hpre,firstKey,keys,List.head?_map]

/-- A step of the walk leaves the rest ahead. -/
theorem ahead_step {m : List (κ × ν)} (hn : (keys m).Nodup) {c : Option κ} (hc : Present m c)
    {k : κ} {rest : List κ} (h : ahead m c = k::rest) : ahead m (some k) = rest := by
  have hsplit : ∀ pre e post, m = pre++e::post → keys (e::post) = k::rest →
      ahead m (some k) = rest := by
    rintro pre e post rfl hkeys
    obtain ⟨rfl,rfl⟩ := List.cons.inj hkeys
    refine ahead_split fun hmem => ?_
    rw [keys,List.map_append,List.nodup_append] at hn
    exact hn.2.2 _ hmem _ List.mem_cons_self rfl
  cases c with
  | none =>
    cases m with
    | nil => cases h
    | cons e post => exact hsplit [] e post rfl h
  | some c =>
    obtain ⟨pre,e,post,rfl,rfl,hpre⟩ := exists_split (hc c rfl)
    rw [ahead_split hpre] at h
    cases post with
    | nil => cases h
    | cons f post => exact hsplit (pre++[e]) f post (by simp) h

/-! ## What is ahead -/

/-- A key is ahead when it comes behind the walk's own. -/
theorem mem_ahead_some {m : List (κ × ν)} {c k : κ} :
    k ∈ ahead m (some c) ↔ [c,k].Sublist (keys m) := by
  induction m with
  | nil => simp [ahead,keys]
  | cons x m ih =>
    by_cases hx : x.1 = c
    · subst hx
      rw [show x::m = []++x::m from rfl,ahead_split (by simp [keys]),List.nil_append,keys,keys,
        List.map_cons,List.cons_sublist_cons,List.singleton_sublist]
    · have hd : ahead (x::m) (some c) = ahead m (some c) := by simp [ahead,hx]
      rw [hd,ih,keys,keys,List.map_cons]
      refine ⟨fun h => h.cons _,fun h => ?_⟩
      cases h with
      | cons _ h => exact h
      | cons_cons => exact absurd rfl hx

/-- Two maps with the same keys but one, in the same order. -/
theorem mem_ahead_congr {m m' : List (κ × ν)} {k : κ}
    (h : (keys m).filter (· ≠ k) = (keys m').filter (· ≠ k)) {c : Option κ} (hc : c ≠ some k)
    {j : κ} (hj : j ≠ k) : j ∈ ahead m c ↔ j ∈ ahead m' c := by
  cases c with
  | none =>
    have hmem : ∀ l : List (κ × ν), j ∈ ahead l none ↔ j ∈ (keys l).filter (· ≠ k) := fun l => by
      rw [ahead,List.mem_filter]
      simp [hj]
    rw [hmem,hmem,h]
  | some c =>
    have hck : c ≠ k := fun heq => hc (heq ▸ rfl)
    have hself : [c,j].filter (fun x => decide (x ≠ k)) = [c,j] := by simp [hck,hj]
    have hsub : ∀ l : List (κ × ν), [c,j].Sublist (keys l) ↔
        [c,j].Sublist ((keys l).filter (· ≠ k)) := fun l =>
      ⟨fun hl => hself ▸ hl.filter _,fun hl => hl.trans List.filter_sublist⟩
    rw [mem_ahead_some,mem_ahead_some,hsub,hsub,h]

theorem keys_erase (m : List (κ × ν)) (k : κ) : keys (erase m k) = (keys m).filter (· ≠ k) := by
  rw [keys,keys,erase,List.filter_map]
  rfl

theorem keys_insertAt (m : List (κ × ν)) (k : κ) (v : ν) (i : ℕ) : keys (insertAt m k v i) =
    (keys (erase m k)).take i++k::(keys (erase m k)).drop i := by
  simp [keys,insertAt,List.map_take,List.map_drop]

theorem notMem_keys_erase (m : List (κ × ν)) (k : κ) : k ∉ keys (erase m k) := by
  rw [keys_erase,List.mem_filter]
  simp

theorem nodup_keys_erase {m : List (κ × ν)} (hn : (keys m).Nodup) (k : κ) :
    (keys (erase m k)).Nodup := by
  rw [keys_erase]
  exact hn.filter _

theorem nodup_keys_insertAt {m : List (κ × ν)} (hn : (keys m).Nodup) (k : κ) (v : ν) (i : ℕ) :
    (keys (insertAt m k v i)).Nodup := by
  rw [keys_insertAt]
  refine List.nodup_middle.mpr ?_
  rw [List.take_append_drop,List.nodup_cons]
  exact ⟨notMem_keys_erase m k,nodup_keys_erase hn k⟩

theorem filter_keys_insertAt (m : List (κ × ν)) (k : κ) (v : ν) (i : ℕ) :
    (keys (insertAt m k v i)).filter (· ≠ k) = (keys m).filter (· ≠ k) := by
  rw [keys_insertAt,List.filter_append,List.filter_cons_of_neg (by simp),← List.filter_append,
    List.take_append_drop,keys_erase,List.filter_filter]
  simp

/-- Another entry goes. -/
theorem steady_erase {m : List (κ × ν)} {c : Option κ} (hc : Present m c) {k : κ}
    (hk : c ≠ some k) : Steady m (erase m k) c where
  present := by
    rintro j ⟨⟩
    have hne : j ≠ k := by
      rintro rfl
      exact hk rfl
    rw [keys_erase,List.mem_filter]
    exact ⟨hc j rfl,by simpa using hne⟩
  ahead := by
    intro j _ hj
    rw [keys_erase,List.mem_filter] at hj
    refine mem_ahead_congr ?_ hk (by simpa using hj.2)
    rw [keys_erase,List.filter_filter]
    simp

/-- A key that was not there comes in anywhere. -/
theorem steady_insertAt {m : List (κ × ν)} {c : Option κ} (hc : Present m c) {k : κ}
    (hk : k ∉ keys m) (v : ν) (i : ℕ) : Steady m (insertAt m k v i) c := by
  have hne : ∀ j ∈ keys m, j ≠ k := fun j hj heq => hk (heq ▸ hj)
  refine ⟨?_,fun j hj _ => ?_⟩
  · rintro j ⟨⟩
    have hmem : j ∈ (keys m).filter (· ≠ k) := List.mem_filter.mpr
      ⟨hc j rfl,by simpa using hne j (hc j rfl)⟩
    rw [← filter_keys_insertAt m k v i] at hmem
    exact (List.mem_filter.mp hmem).1
  · refine mem_ahead_congr (filter_keys_insertAt m k v i).symm ?_ (hne j hj)
    rintro rfl
    exact hne k (hc k rfl) rfl

end CursorMap
