import Mathlib.Data.List.Basic
import Mathlib.Data.List.Nodup
import Mathlib.Data.List.TakeWhile

/-!
# Key/value maps read through a key cursor

A map is its list of entries in iteration order. A reader walks it by asking for the key
after the one it holds; asking after a key the map does not have restarts from the first.
-/

namespace CursorMap

variable {κ ν : Type*} [DecidableEq κ]

def keys (m : List (κ × ν)) : List κ := m.map Prod.fst

def firstKey (m : List (κ × ν)) : Option κ := m.head?.map Prod.fst

/-- The key after `prev` in iteration order. -/
def nextKey (m : List (κ × ν)) : Option κ → Option κ
  | none => firstKey m
  | some k =>
    match m.dropWhile (fun e => e.1 ≠ k) with
    | [] => firstKey m
    | _::rest => firstKey rest

def lookup (m : List (κ × ν)) (k : κ) : Option ν := (m.find? fun e => e.1 = k).map Prod.snd

def erase (m : List (κ × ν)) (k : κ) : List (κ × ν) := m.filter fun e => e.1 ≠ k

omit [DecidableEq κ] in
@[simp] theorem firstKey_nil : firstKey ([] : List (κ × ν)) = none := rfl

omit [DecidableEq κ] in
@[simp] theorem firstKey_cons (e : κ × ν) (m : List (κ × ν)) : firstKey (e::m) = some e.1 := rfl

@[simp] theorem nextKey_none (m : List (κ × ν)) : nextKey m none = firstKey m := rfl

/-- Walking on from a key that is not there restarts from the first key. -/
theorem nextKey_absent {m : List (κ × ν)} {k : κ} (h : k ∉ keys m) :
    nextKey m (some k) = firstKey m := by
  have hd : m.dropWhile (fun e => e.1 ≠ k) = [] := by
    rw [List.dropWhile_eq_nil_iff]
    intro e he
    have hne : e.1 ≠ k := fun heq => h (heq ▸ List.mem_map_of_mem he)
    simpa using hne
  simp only [nextKey,hd]

theorem dropWhile_split {pre post : List (κ × ν)} {e : κ × ν} (h : e.1 ∉ keys pre) :
    (pre++e::post).dropWhile (fun x => x.1 ≠ e.1) = e::post := by
  induction pre with
  | nil => simp
  | cons x pre ih =>
    have hx : x.1 ≠ e.1 := fun heq => h (by simp [keys,heq])
    have ht : e.1 ∉ keys pre := fun hm => h (by simp only [keys,List.map_cons] at hm ⊢; simp [hm])
    simpa [hx] using ih ht

/-- Walking on from an entry leads to the entry behind it. -/
theorem nextKey_split {pre post : List (κ × ν)} {e : κ × ν} (h : e.1 ∉ keys pre) :
    nextKey (pre++e::post) (some e.1) = firstKey post := by
  simp only [nextKey,dropWhile_split h]

theorem lookup_split {pre post : List (κ × ν)} {e : κ × ν} (h : e.1 ∉ keys pre) :
    lookup (pre++e::post) e.1 = some e.2 := by
  induction pre with
  | nil => simp [lookup]
  | cons x pre ih =>
    have hx : x.1 ≠ e.1 := fun heq => h (by simp [keys,heq])
    have ht : e.1 ∉ keys pre := fun hm => h (by simp only [keys,List.map_cons] at hm ⊢; simp [hm])
    simpa [lookup,hx] using ih ht

theorem lookup_of_mem {m : List (κ × ν)} (hn : (keys m).Nodup) {e : κ × ν} (he : e ∈ m) :
    lookup m e.1 = some e.2 := by
  obtain ⟨pre,post,rfl⟩ := List.append_of_mem he
  apply lookup_split
  simp only [keys,List.map_append,List.map_cons,List.nodup_append] at hn
  intro hmem
  exact hn.2.2 _ hmem _ (by simp) rfl

theorem erase_head {e : κ × ν} {m : List (κ × ν)} (h : e.1 ∉ keys m) : erase (e::m) e.1 = m := by
  have hm : ∀ x ∈ m, x.1 ≠ e.1 := fun x hx heq => h (heq ▸ List.mem_map_of_mem hx)
  simpa [erase] using hm

end CursorMap
