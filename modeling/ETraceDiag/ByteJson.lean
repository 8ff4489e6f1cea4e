import Mathlib.Data.Int.Notation
import Mathlib.Data.List.Basic

/-!
# JSON values with byte strings

A serializer takes a value with any bytes for a string and gives up on a string that it does not
accept. Numbers are integers or floats of a type `F`.
-/

inductive ByteJson (F : Type)
  | null
  | bool (b : Bool)
  | int (i : ℤ)
  | float (x : F)
  | str (bytes : List UInt8)
  | arr (xs : List (ByteJson F))
  | obj (fields : List (String × ByteJson F))

namespace ByteJson

variable {F : Type}

def u64 (x : UInt64) : ByteJson F := .int x.toNat

def u32 (x : UInt32) : ByteJson F := .int x.toNat

/-- The field of an object; other values have none. -/
def get? (name : String) : ByteJson F → Option (ByteJson F)
  | .obj fields => fields.lookup name
  | _ => none

mutual

/-- The strings of a value; the names of fields are texts already. -/
def texts : ByteJson F → List (List UInt8)
  | .str bytes => [bytes]
  | .arr xs => textsList xs
  | .obj fields => textsFields fields
  | _ => []

def textsList : List (ByteJson F) → List (List UInt8)
  | [] => []
  | j::js => texts j++textsList js

def textsFields : List (String × ByteJson F) → List (List UInt8)
  | [] => []
  | (_,j)::fields => texts j++textsFields fields

end

mutual

/-- The serializer gets through; `ok` is what it accepts as a string. -/
def dumps (ok : List UInt8 → Bool) : ByteJson F → Bool
  | .str bytes => ok bytes
  | .arr xs => dumpsList ok xs
  | .obj fields => dumpsFields ok fields
  | _ => true

def dumpsList (ok : List UInt8 → Bool) : List (ByteJson F) → Bool
  | [] => true
  | j::js => dumps ok j && dumpsList ok js

def dumpsFields (ok : List UInt8 → Bool) : List (String × ByteJson F) → Bool
  | [] => true
  | (_,j)::fields => dumps ok j && dumpsFields ok fields

end

mutual

theorem dumps_eq (ok : List UInt8 → Bool) : ∀ j : ByteJson F, dumps ok j = (texts j).all ok
  | .null => by simp [dumps,texts]
  | .bool _ => by simp [dumps,texts]
  | .int _ => by simp [dumps,texts]
  | .float _ => by simp [dumps,texts]
  | .str bytes => by simp [dumps,texts]
  | .arr xs => by rw [dumps,texts,dumpsList_eq]
  | .obj fields => by rw [dumps,texts,dumpsFields_eq]

theorem dumpsList_eq (ok : List UInt8 → Bool) : ∀ js : List (ByteJson F),
    dumpsList ok js = (textsList js).all ok
  | [] => by simp [dumpsList,textsList]
  | j::js => by rw [dumpsList,textsList,List.all_append,dumps_eq ok j,dumpsList_eq ok js]

theorem dumpsFields_eq (ok : List UInt8 → Bool) : ∀ fields : List (String × ByteJson F),
    dumpsFields ok fields = (textsFields fields).all ok
  | [] => by simp [dumpsFields,textsFields]
  | (_,j)::fields => by
    rw [dumpsFields,textsFields,List.all_append,dumps_eq ok j,dumpsFields_eq ok fields]

end

/-- A value can be sent when each of its strings can. -/
theorem dumps_iff (ok : List UInt8 → Bool) (j : ByteJson F) :
    dumps ok j = true ↔ ∀ text ∈ texts j, ok text = true := by
  rw [dumps_eq,List.all_eq_true]

/-- The strings of values that are built from a list. -/
theorem textsList_map {α : Type} (f : α → ByteJson F) (l : List α) :
    textsList (l.map f) = l.flatMap fun a => texts (f a) := by
  induction l with
  | nil => simp [textsList]
  | cons a l ih => rw [List.map_cons,textsList,ih,List.flatMap_cons]

end ByteJson
