import ETraceDiag.TimeTable
import Mathlib.Data.List.Induction
import Mathlib.Data.List.Perm.Subperm

/-!
# Dictionaries that are added to

Assigning to a key, and adding the entries of one dictionary to another. Two dictionaries are the
same when they have the same value under every key, whatever the order of their entries.
-/

namespace Dictionaries

open TimeTable

variable {κ ν : Type} [DecidableEq κ]

/-- `d[k] = v`. -/
def setKey (k : κ) (v : ν) (d : List (κ × ν)) : List (κ × ν) := upsert k v (fun _ => v) d

/-- `d.update(e)`. -/
def update (d e : List (κ × ν)) : List (κ × ν) := e.foldl (fun d x => setKey x.1 x.2 d) d

/-- A dictionary has one value for each key. -/
structure Dict (κ ν : Type) where
  entries : List (κ × ν)
  unique : (entries.map Prod.fst).Nodup

omit [DecidableEq κ] in
theorem Dict.ext {d e : Dict κ ν} (h : d.entries = e.entries) : d = e := by
  cases d
  cases e
  cases h
  rfl

def SameDict (d e : List (κ × ν)) : Prop := ∀ k, d.lookup k = e.lookup k

theorem lookup_setKey (k : κ) (v : ν) (d : List (κ × ν)) (k' : κ) :
    (setKey k v d).lookup k' = if k' = k then some v else d.lookup k' :=
  lookup_upsert k v (fun _ => v) d k'

theorem mem_keys_iff {d : List (κ × ν)} {k : κ} :
    k ∈ d.map Prod.fst ↔ ∃ v, d.lookup k = some v := by
  induction d with
  | nil => simp
  | cons e d ih =>
    obtain ⟨x,v⟩ := e
    by_cases hk : k = x
    · subst hk
      simp
    · rw [List.map_cons,List.mem_cons,ih,List.lookup_cons,beq_false_of_ne hk]
      exact or_iff_right hk

theorem lookup_eq_none {d : List (κ × ν)} {k : κ} : d.lookup k = none ↔ k ∉ d.map Prod.fst := by
  rw [mem_keys_iff,not_exists,Option.eq_none_iff_forall_ne_some]

theorem mem_of_mem_setKey {k : κ} {v : ν} {d : List (κ × ν)} {x : κ × ν}
    (hx : x ∈ setKey k v d) : x = (k,v) ∨ x ∈ d := by
  induction d with
  | nil => exact .inl (List.mem_singleton.mp hx)
  | cons e d ih =>
    rw [setKey,upsert] at hx
    split at hx
    · exact (List.mem_cons.mp hx).imp_right (List.mem_cons_of_mem e)
    · rcases List.mem_cons.mp hx with rfl | hx
      · exact .inr List.mem_cons_self
      · exact (ih hx).imp_right (List.mem_cons_of_mem e)

/-- What becomes of the values may be done before or after. -/
theorem map_upsert {μ : Type} (g : ν → μ) (k : κ) (init : ν) {f : ν → ν} {f' : μ → μ}
    (hf : ∀ v, g (f v) = f' (g v)) (d : List (κ × ν)) :
    (upsert k init f d).map (fun x => (x.1,g x.2)) =
      upsert k (g init) f' (d.map fun x => (x.1,g x.2)) := by
  induction d with
  | nil => rw [upsert,List.map_nil,upsert,List.map_cons,hf]; rfl
  | cons e d ih =>
    rw [upsert,List.map_cons,upsert]
    split
    · rw [List.map_cons,hf]
    · rw [List.map_cons,ih]

theorem mem_of_lookup {d : List (κ × ν)} {k : κ} {v : ν} (h : d.lookup k = some v) : (k,v) ∈ d := by
  obtain ⟨l₁,l₂,rfl,-⟩ := List.lookup_eq_some_iff.mp h
  exact List.mem_append_right l₁ List.mem_cons_self

/-- Entries in another order are the same dictionary. -/
theorem sameDict_of_perm {d e : List (κ × ν)} (h : d.Perm e) (hd : (d.map Prod.fst).Nodup) :
    SameDict d e := by
  intro k
  cases hk : e.lookup k with
  | none => exact lookup_eq_none.mpr fun hmem =>
      lookup_eq_none.mp hk ((h.map Prod.fst).mem_iff.mp hmem)
  | some v => exact lookup_of_mem hd (h.mem_iff.mpr (mem_of_lookup hk))

theorem update_cons (d : List (κ × ν)) (x : κ × ν) (e : List (κ × ν)) :
    update d (x::e) = update (setKey x.1 x.2 d) e := rfl

/-- What is added hides what was there. -/
theorem lookup_update (e : List (κ × ν)) (k : κ) : ∀ d : List (κ × ν),
    (update d e).lookup k = ((update [] e).lookup k).or (d.lookup k) := by
  induction e with
  | nil => intro d; rfl
  | cons x e ih =>
    intro d
    rw [update_cons,update_cons,ih (setKey x.1 x.2 d),ih (setKey x.1 x.2 []),lookup_setKey,
      lookup_setKey,Option.or_assoc]
    by_cases hk : k = x.1
    · rw [if_pos hk,if_pos hk]
      rfl
    · rw [if_neg hk,if_neg hk,List.lookup_nil,Option.none_or]

theorem mem_keys_update (d e : List (κ × ν)) (k : κ) :
    k ∈ (update d e).map Prod.fst ↔ k ∈ e.map Prod.fst ∨ k ∈ d.map Prod.fst :=
  mem_keys_foldl_upsert Prod.fst Prod.snd (fun x _ => x.2) k e d

theorem nodup_keys_update {d : List (κ × ν)} (hd : (d.map Prod.fst).Nodup) (e : List (κ × ν)) :
    ((update d e).map Prod.fst).Nodup :=
  nodup_keys_foldl_upsert Prod.fst Prod.snd (fun x _ => x.2) e hd

theorem nodup_keys_update_nil (e : List (κ × ν)) : ((update [] e).map Prod.fst).Nodup :=
  nodup_keys_foldl_upsert Prod.fst Prod.snd (fun x _ => x.2) e List.nodup_nil

theorem mem_keys_update_nil (e : List (κ × ν)) (k : κ) :
    k ∈ (update [] e).map Prod.fst ↔ k ∈ e.map Prod.fst := by
  rw [mem_keys_update,List.map_nil,or_iff_left List.not_mem_nil]

theorem SameDict.mem_keys_iff {d e : List (κ × ν)} (h : SameDict d e) (k : κ) :
    k ∈ d.map Prod.fst ↔ k ∈ e.map Prod.fst := by
  rw [Dictionaries.mem_keys_iff,Dictionaries.mem_keys_iff,h k]

/-- Nothing is left of what was there exactly when every key of it is assigned again. -/
theorem sameDict_update_iff (d e : List (κ × ν)) :
    SameDict (update d e) (update [] e) ↔ ∀ k ∈ d.map Prod.fst, k ∈ e.map Prod.fst := by
  constructor
  · intro h k hk
    exact (mem_keys_update_nil e k).mp ((h.mem_keys_iff k).mp ((mem_keys_update ..).mpr (.inr hk)))
  · intro h k
    rw [lookup_update]
    cases hd : d.lookup k with
    | none => rw [Option.or_none]
    | some v =>
      have hkey := h k (Dictionaries.mem_keys_iff.mpr ⟨v,hd⟩)
      obtain ⟨w,hw⟩ := Dictionaries.mem_keys_iff.mp ((mem_keys_update_nil e k).mpr hkey)
      rw [hw]
      rfl

/-- Of what is assigned to a key the last value stays. -/
theorem lookup_update_nil_last (e : List (κ × ν)) (k : κ) : (update [] e).lookup k =
    ((e.filter fun x => x.1 = k).getLast?).map Prod.snd := by
  induction e using List.reverseRecOn with
  | nil => rfl
  | append_singleton e x ih =>
    have hlast : update [] (e++[x]) = setKey x.1 x.2 (update [] e) := by
      rw [update,List.foldl_append]
      rfl
    rw [hlast,lookup_setKey,List.filter_append]
    by_cases hk : x.1 = k
    · rw [if_pos hk.symm,List.filter_cons_of_pos (by simpa using hk),List.filter_nil,
        List.getLast?_concat]
      rfl
    · rw [if_neg (Ne.symm hk),List.filter_cons_of_neg (by simpa using hk),List.filter_nil,
        List.append_nil,ih]

/-- On keys that are told apart nothing is assigned twice. -/
theorem lookup_update_nil {e : List (κ × ν)} (he : (e.map Prod.fst).Nodup) (k : κ) :
    (update [] e).lookup k = e.lookup k := by
  induction e with
  | nil => rfl
  | cons x e ih =>
    obtain ⟨y,v⟩ := x
    obtain ⟨hnot,hrest⟩ := List.nodup_cons.mp he
    rw [update_cons,lookup_update,ih hrest,lookup_setKey]
    by_cases hk : k = y
    · subst hk
      rw [if_pos rfl,lookup_eq_none.mpr hnot,List.lookup_cons_self]
      rfl
    · rw [if_neg hk,List.lookup_nil,Option.or_none,List.lookup_cons,beq_false_of_ne hk]

/-- A new key comes last. -/
theorem setKey_of_not_mem {k : κ} (v : ν) {d : List (κ × ν)} (hk : k ∉ d.map Prod.fst) :
    setKey k v d = d++[(k,v)] := by
  induction d with
  | nil => rfl
  | cons e d ih =>
    obtain ⟨hne,hrest⟩ := not_or.mp (fun h => hk (List.mem_cons.mpr h))
    rw [setKey,upsert,if_neg (Ne.symm hne),List.cons_append]
    exact congrArg _ (ih hrest)

/-- New keys come last, in the order in which they are assigned. -/
theorem update_of_nodup (e : List (κ × ν)) : ∀ d : List (κ × ν),
    ((d++e).map Prod.fst).Nodup → update d e = d++e := by
  induction e with
  | nil => exact fun d _ => (List.append_nil d).symm
  | cons x e ih =>
    intro d h
    have hassoc : (d++[x])++e = d++x::e := by rw [List.append_assoc]; rfl
    have hx : x.1 ∉ d.map Prod.fst := by
      rw [List.map_append,List.map_cons,List.nodup_append] at h
      exact fun hmem => h.2.2 _ hmem _ List.mem_cons_self rfl
    rw [update_cons,setKey_of_not_mem x.2 hx,ih _ (hassoc ▸ h),hassoc]

/-- The entries are some that there were, or that came. -/
theorem mem_of_mem_update (e : List (κ × ν)) : ∀ (d : List (κ × ν)) (x : κ × ν),
    x ∈ update d e → x ∈ e ∨ x ∈ d := by
  induction e with
  | nil => exact fun d x hx => .inr hx
  | cons y e ih =>
    intro d x hx
    rcases ih (setKey y.1 y.2 d) x hx with hin | hin
    · exact .inl (List.mem_cons_of_mem y hin)
    · rcases mem_of_mem_setKey hin with rfl | hin
      · exact .inl List.mem_cons_self
      · exact .inr hin

theorem map_update {μ : Type} (f : ν → μ) (e : List (κ × ν)) : ∀ d : List (κ × ν),
    (update d e).map (fun x => (x.1,f x.2)) =
      update (d.map fun x => (x.1,f x.2)) (e.map fun x => (x.1,f x.2)) := by
  induction e with
  | nil => exact fun d => rfl
  | cons y e ih =>
    intro d
    have hset : (setKey y.1 y.2 d).map (fun x => (x.1,f x.2)) =
        setKey y.1 (f y.2) (d.map fun x => (x.1,f x.2)) := map_upsert f y.1 y.2 (fun _ => rfl) d
    rw [update_cons,ih,hset]
    rfl

/-- Of entries nothing is lost exactly when their keys are told apart. -/
theorem update_nil_perm (e : List (κ × ν)) : ∃ lost, e.Perm (update [] e++lost) ∧
    (lost = [] ↔ (e.map Prod.fst).Nodup) := by
  have hnodup := nodup_keys_update_nil e
  have hsub : update [] e ⊆ e := fun x hx =>
    (mem_of_mem_update e [] x hx).resolve_right List.not_mem_nil
  obtain ⟨l,hl,hsublist⟩ := List.subperm_of_subset hnodup.of_map hsub
  obtain ⟨lost,hlost⟩ := hsublist.exists_perm_append
  have hperm : e.Perm (update [] e++lost) := hlost.trans (hl.append_right lost)
  refine ⟨lost,hperm,fun hnil => ?_,fun he => ?_⟩
  · rw [hnil,List.append_nil] at hperm
    exact (hperm.map Prod.fst).nodup_iff.mpr hnodup
  · have hkeys := (List.perm_ext_iff_of_nodup hnodup he).mpr (mem_keys_update_nil e)
    have hlength := hperm.length_eq
    have hsame := hkeys.length_eq
    rw [List.length_map,List.length_map] at hsame
    rw [List.length_append,hsame,Nat.left_eq_add] at hlength
    exact List.eq_nil_of_length_eq_zero hlength

theorem lookup_map_values {μ : Type} (f : κ → ν → μ) (d : List (κ × ν)) (k : κ) :
    (d.map fun e => (e.1,f e.1 e.2)).lookup k = (d.lookup k).map (f k) := by
  induction d with
  | nil => rfl
  | cons e d ih =>
    obtain ⟨y,v⟩ := e
    by_cases hk : k = y
    · subst hk
      simp
    · simp only [List.map_cons,List.lookup_cons,beq_false_of_ne hk,ih]

/-- Values computed from the same dictionary are the same, and hide what was there for its
keys. -/
theorem sameDict_update_map {μ : Type} {d e : List (κ × ν)} (hd : (d.map Prod.fst).Nodup)
    (he : (e.map Prod.fst).Nodup) (h : SameDict d e) (f : κ → ν → μ) {old : List (κ × μ)}
    (hold : ∀ k ∈ old.map Prod.fst, k ∈ e.map Prod.fst) :
    SameDict (update old (d.map fun x => (x.1,f x.1 x.2)))
      (update [] (e.map fun x => (x.1,f x.1 x.2))) := by
  have hkeys : ∀ xs : List (κ × ν), (xs.map fun x => (x.1,f x.1 x.2)).map Prod.fst =
      xs.map Prod.fst := fun xs => by rw [List.map_map]; rfl
  intro k
  rw [lookup_update,lookup_update_nil (by rwa [hkeys]),lookup_update_nil (by rwa [hkeys]),
    lookup_map_values,lookup_map_values,h k]
  cases hk : e.lookup k with
  | some v => rfl
  | none =>
    have hnone : old.lookup k = none :=
      lookup_eq_none.mpr fun hmem => lookup_eq_none.mp hk (hold k hmem)
    rw [hnone]
    rfl

end Dictionaries
