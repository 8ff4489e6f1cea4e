import Mathlib.Data.List.Basic

/-!
# Results remembered by a key

A function is called again and again, and its results are kept by a key of its argument. A call
with a key that was seen before returns what the first call with that key returned.
-/

namespace KeyedMemo

variable {α κ β : Type*} [BEq κ] (key : α → κ) (f : α → β)

def ask (cache : List (κ × β)) (a : α) : β × List (κ × β) :=
  match cache.lookup (key a) with
  | some b => (b,cache)
  | none => (f a,(key a,f a)::cache)

/-- The first of the calls with the key of this one. -/
def firstLike (calls : List α) (a : α) : α := (calls.find? fun c => key c == key a).getD a

/-- The cache holds the result of the first call with each key. -/
def Remembers (cache : List (κ × β)) (seen : List α) : Prop :=
  ∀ k, cache.lookup k = (seen.find? fun c => key c == k).map f

theorem remembers_nil : Remembers key f [] [] := fun _ => rfl

variable {key f} {cache : List (κ × β)} {seen : List α}

theorem firstLike_mem [LawfulBEq κ] {calls : List α} {a : α} (ha : a ∈ calls) :
    firstLike key calls a ∈ calls ∧ key (firstLike key calls a) = key a := by
  cases hfind : calls.find? fun c => key c == key a with
  | none => exact absurd (List.find?_eq_none.mp hfind a ha) (by simp)
  | some c =>
    have hkey := List.find?_some (p:=fun c => key c == key a) hfind
    rw [firstLike,hfind,Option.getD_some]
    exact ⟨List.mem_of_find?_eq_some hfind,eq_of_beq hkey⟩

/-- Later calls do not change which one was the first. -/
theorem firstLike_append [ReflBEq κ] {pre : List α} {a : α} (ha : a ∈ pre) (post : List α) :
    firstLike key (pre++post) a = firstLike key pre a := by
  have hsome : (pre.find? fun c => key c == key a).isSome := by
    rw [List.find?_isSome]
    exact ⟨a,ha,by simp⟩
  rw [firstLike,firstLike,List.find?_append,Option.or_of_isSome hsome]

theorem Remembers.ask_fst [LawfulBEq κ] (h : Remembers key f cache seen) (a : α) :
    (ask key f cache a).1 = f (firstLike key (seen++[a]) a) := by
  rw [ask,h (key a),firstLike,List.find?_append]
  cases seen.find? fun c => key c == key a with
  | none => simp
  | some c => simp

theorem Remembers.ask_snd [LawfulBEq κ] (h : Remembers key f cache seen) (a : α) :
    Remembers key f (ask key f cache a).2 (seen++[a]) := by
  intro k
  rw [ask,h (key a),List.find?_append]
  cases hfind : seen.find? fun c => key c == key a with
  | some c =>
    rw [Option.map_some,h k]
    cases hk : seen.find? fun c => key c == k with
    | some d => simp
    | none =>
      -- the key of `a` is there already, so it is not this one
      have hne : (key a == k) = false := by
        rw [beq_eq_false_iff_ne]
        rintro rfl
        rw [hfind] at hk
        cases hk
      simp [hne]
  | none =>
    rw [Option.map_none,List.lookup_cons,h k]
    cases hk : k == key a with
    | true =>
      obtain rfl := eq_of_beq hk
      simp [hfind]
    | false =>
      have hne : (key a == k) = false := by rw [BEq.comm]; exact hk
      simp [hne]

end KeyedMemo
