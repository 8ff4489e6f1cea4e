import ETraceDiag.JsonValue
import Mathlib.Data.List.Basic

/-!
# Reading JSON values as machine types

The conversions of a JSON value into a native type, and a reader that assigns the fields of an
object one after the other. An integer wraps around the width it is cast to; the casts between
floats and integers are the machine's.
-/

namespace JsonGet

/-- The casts of a floating-point type. -/
class Number (F : Type) where
  ofInt : ℤ → F
  toUInt64 : F → UInt64
  toUInt32 : F → UInt32

variable {F : Type}

/-! ## Conversions -/

def getBool : JsonValue F → Option Bool
  | .bool b => some b
  | _ => none

def getString : JsonValue F → Option String
  | .str s => some s
  | _ => none

/-- An array whose elements all convert. -/
def getList {α : Type} (get : JsonValue F → Option α) : JsonValue F → Option (List α)
  | .arr xs => xs.mapM get
  | _ => none

/-- What was written element by element is read back. -/
theorem getList_map {α : Type} {get : JsonValue F → Option α} {put : α → JsonValue F}
    (h : ∀ a, get (put a) = some a) (as : List α) : getList get (.arr (as.map put)) = some as := by
  rw [getList,List.mapM_map]
  induction as with
  | nil => rfl
  | cons a as ih => rw [List.mapM_cons,Function.comp_apply,h,ih]; rfl

section Numbers

variable [Number F]

def getDouble : JsonValue F → Option F
  | .int i => some (Number.ofInt i)
  | .float x => some x
  | _ => none

def getUInt64 : JsonValue F → Option UInt64
  | .int i => some (UInt64.ofInt i)
  | .float x => some (Number.toUInt64 x)
  | _ => none

/-- The narrow types take a truth value as well. -/
def getUInt32 : JsonValue F → Option UInt32
  | .int i => some (UInt32.ofInt i)
  | .float x => some (Number.toUInt32 x)
  | .bool b => some (if b then 1 else 0)
  | _ => none

theorem getUInt64_int (x : UInt64) : getUInt64 (.int x.toNat : JsonValue F) = some x := by
  have hx := x.toNat_lt
  have hmod : ((x.toNat : ℤ)%2^64).toNat = x.toNat := by omega
  rw [getUInt64,UInt64.ofInt,hmod,UInt64.ofNat_toNat]

theorem getUInt32_int (x : UInt32) : getUInt32 (.int x.toNat : JsonValue F) = some x := by
  have hx := x.toNat_lt
  have hmod : ((x.toNat : ℤ)%2^32).toNat = x.toNat := by omega
  rw [getUInt32,UInt32.ofInt,hmod,UInt32.ofNat_toNat]

end Numbers

/-! ## Assigning field by field -/

section Assign

variable {R α : Type}

/-- Assignments into one value; the first that fails ends them, and what has been assigned
before it stays. -/
def assignAll : List (R → R × Bool) → R → R × Bool
  | [], r => (r,true)
  | f::fs, r => if (f r).2 then assignAll fs (f r).1 else f r

/-- `if (j.contains(key)) r.key = j[key];` -/
def readInto (j : JsonValue F) (key : String) (get : JsonValue F → Option α)
    (set : R → α → R) (r : R) : R × Bool :=
  match j.get? key with
  | none => (r,true)
  | some v =>
    match get v with
    | some a => (set r a,true)
    | none => (r,false)

/-- The field is there and does not convert. -/
def fails (j : JsonValue F) (key : String) (get : JsonValue F → Option α) : Bool :=
  match j.get? key with
  | none => false
  | some v => (get v).isNone

/-- The value of the field, if it is there and converts. -/
def value? (j : JsonValue F) (key : String) (get : JsonValue F → Option α) : Option α :=
  (j.get? key).bind get

@[simp] theorem readInto_snd (j : JsonValue F) (key : String) (get : JsonValue F → Option α)
    (set : R → α → R) (r : R) : (readInto j key get set r).2 = !fails j key get := by
  unfold readInto fails
  cases j.get? key with
  | none => rfl
  | some v => cases h : get v <;> simp [h]

theorem readInto_fst (j : JsonValue F) (key : String) (get : JsonValue F → Option α)
    (set : R → α → R) (r : R) :
    (readInto j key get set r).1 = ((value? j key get).map (set r)).getD r := by
  unfold readInto value?
  cases j.get? key with
  | none => rfl
  | some v => cases h : get v <;> simp [h]

theorem readInto_frame {β : Type} {j : JsonValue F} {key : String}
    {get : JsonValue F → Option α} {set : R → α → R} (part : R → β)
    (h : ∀ r a, part (set r a) = part r) (r : R) : part (readInto j key get set r).1 = part r := by
  rw [readInto_fst]
  cases value? j key get with
  | none => rfl
  | some a => exact h r a

/-- The field of the record that the reader sets. -/
theorem readInto_part {j : JsonValue F} {key : String} {get : JsonValue F → Option α}
    {set : R → α → R} {part : R → α} (h : ∀ r a, part (set r a) = a) (r : R) :
    part (readInto j key get set r).1 = (value? j key get).getD (part r) := by
  rw [readInto_fst]
  cases value? j key get with
  | none => rfl
  | some a => exact h r a

theorem value?_of_fails {j : JsonValue F} {key : String} {get : JsonValue F → Option α}
    (h : fails j key get = true) : value? j key get = none := by
  unfold fails at h
  unfold value?
  cases hj : j.get? key with
  | none => rfl
  | some v =>
    rw [hj] at h
    exact Option.isNone_iff_eq_none.mp h

theorem assignAll_snd {ι : Type} {decode : ι → R → R × Bool} {bad : ι → Bool}
    (h : ∀ i r, (decode i r).2 = !bad i) (is : List ι) : ∀ r : R,
    (assignAll (is.map decode) r).2 = !is.any bad := by
  induction is with
  | nil => intro r; rfl
  | cons i is ih =>
    intro r
    rw [List.map_cons,assignAll,h i r,List.any_cons]
    cases hb : bad i with
    | true => rw [if_neg (by decide),h i r,hb,Bool.true_or]
    | false => rw [if_pos (by decide),ih,Bool.false_or]

/-- A part of the value that only the reader of one field touches holds, in the end, what that
field gave, if it was read before the first failure. -/
theorem assignAll_part {ι β : Type} [DecidableEq ι] {decode : ι → R → R × Bool}
    {bad : ι → Bool} (h : ∀ i r, (decode i r).2 = !bad i) (part : R → β) (own : ι) (upd : β → β)
    (hown : ∀ r, part (decode own r).1 = upd (part r)) (hbad : bad own = true → ∀ b, upd b = b)
    (hother : ∀ i r, i ≠ own → part (decode i r).1 = part r) (is : List ι) :
    is.Nodup → ∀ r : R, part (assignAll (is.map decode) r).1 =
      if own ∈ is.takeWhile fun i => !bad i then upd (part r) else part r := by
  induction is with
  | nil => intro _ r; rfl
  | cons i is ih =>
    intro hnd r
    obtain ⟨hi,hnd⟩ := List.nodup_cons.mp hnd
    rw [List.map_cons,assignAll,h i r]
    cases hb : bad i with
    | true =>
      rw [if_neg (by decide),List.takeWhile_cons_of_neg (by simp [hb]),if_neg (by simp)]
      by_cases hio : i = own
      · subst hio
        rw [hown r,hbad hb]
      · exact hother i r hio
    | false =>
      rw [if_pos (by decide),List.takeWhile_cons_of_pos (by simp [hb]),ih hnd]
      by_cases hio : i = own
      · subst hio
        have hnot : i ∉ is.takeWhile fun i => !bad i :=
          fun hmem => hi ((List.takeWhile_prefix _).subset hmem)
        rw [if_neg hnot,if_pos (List.mem_cons_self ..),hown r]
      · have hiff : own ∈ i::is.takeWhile (fun i => !bad i) ↔
            own ∈ is.takeWhile fun i => !bad i := by
          rw [List.mem_cons,or_iff_right (fun heq => hio heq.symm)]
        rw [hother i r hio,if_congr hiff rfl rfl]

end Assign

end JsonGet
