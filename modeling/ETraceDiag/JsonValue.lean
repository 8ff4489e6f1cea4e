import Mathlib.Data.Int.Notation
import Mathlib.Data.List.Basic

/-!
# JSON values

Numbers are integers or floats of a type `F`; an object is the list of its fields.
-/

/-- A JSON value as both ends of a connection see it. -/
inductive JsonValue (F : Type)
  | null
  | bool (b : Bool)
  | int (i : ℤ)
  | float (x : F)
  | str (s : String)
  | arr (xs : List (JsonValue F))
  | obj (fields : List (String × JsonValue F))

namespace JsonValue

variable {F : Type}

/-- The field of an object; other values have none. -/
def get? (key : String) : JsonValue F → Option (JsonValue F)
  | .obj fields => fields.lookup key
  | _ => none

mutual

/-- What the other end of a connection reads: a number that is not finite is sent as null. -/
def wire (finite : F → Bool) : JsonValue F → JsonValue F
  | .null => .null
  | .bool b => .bool b
  | .int i => .int i
  | .float x => if finite x then .float x else .null
  | .str s => .str s
  | .arr xs => .arr (wireList finite xs)
  | .obj fields => .obj (wireFields finite fields)

def wireList (finite : F → Bool) : List (JsonValue F) → List (JsonValue F)
  | [] => []
  | j::js => wire finite j::wireList finite js

def wireFields (finite : F → Bool) : List (String × JsonValue F) → List (String × JsonValue F)
  | [] => []
  | (k,j)::fields => (k,wire finite j)::wireFields finite fields

end

def u64 (x : UInt64) : JsonValue F := .int x.toNat

theorem u64_inj {x y : UInt64} : (u64 x : JsonValue F) = u64 y ↔ x = y := by
  simp only [u64,int.injEq,Int.ofNat_inj,UInt64.toNat_inj]

theorem wireList_eq_map (finite : F → Bool) (js : List (JsonValue F)) :
    wireList finite js = js.map (wire finite) := by
  induction js with
  | nil => rfl
  | cons j js ih => rw [wireList,ih,List.map_cons]

theorem lookup_wireFields (finite : F → Bool) (key : String)
    (fields : List (String × JsonValue F)) :
    (wireFields finite fields).lookup key = (fields.lookup key).map (wire finite) := by
  induction fields with
  | nil => rfl
  | cons field fields ih =>
    obtain ⟨k,j⟩ := field
    rw [wireFields]
    cases hk : key == k with
    | true => simp only [List.lookup_cons,hk,Option.map_some]
    | false => simp only [List.lookup_cons,hk,ih]

/-- Sending an object keeps its fields. -/
theorem get?_wire (finite : F → Bool) (key : String) (j : JsonValue F) :
    get? key (wire finite j) = (get? key j).map (wire finite) := by
  cases j with
  | obj fields => simp only [wire,get?,lookup_wireFields]
  | float x =>
    rw [wire]
    split <;> rfl
  | _ => rfl

end JsonValue
