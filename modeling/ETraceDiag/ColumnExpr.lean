import Mathlib.Algebra.Order.Ring.Rat
import Mathlib.Data.List.Basic

/-!
# Expressions over the columns of two rows

A script reads columns of the current row and of the one before it. A column that the query did
not ask for is undefined, an empty one is null, and arithmetic turns both into numbers. Numbers
are a parameter with the few laws that doubles have.
-/

/-- Numbers of a script language. `truthy` is what a condition makes of a number. -/
class ScriptNumber (N : Type) extends Add N, Sub N, Mul N, Div N where
  ofInt : ℤ → N
  nan : N
  isNan : N → Bool
  lt : N → N → Bool
  ge : N → N → Bool
  truthy : N → Bool
  finite : N → Bool
  isNan_ofInt : ∀ i, isNan (ofInt i) = false
  finite_ofInt : ∀ i, -2^63 ≤ i → i < 2^63 → finite (ofInt i) = true
  finite_div_ofInt : ∀ a i, finite a = true → i ≠ 0 → finite (a/ofInt i) = true
  lt_irrefl : ∀ a, lt a a = false
  lt_asymm : ∀ a b, lt a b = true → lt b a = false
  ge_eq : ∀ a b, isNan a = false → isNan b = false → ge a b = !lt a b
  finite_div : ∀ a b, truthy b = false → finite (a/b) = false
  truthy_sub_self_div : ∀ a b, truthy ((ofInt a-ofInt a)/ofInt b) = false

namespace Exact

/-- An operation on two finite numbers. -/
def lift (f : ℚ → ℚ → Option ℚ) (a b : Option ℚ) : Option ℚ := a.bind fun x => b.bind (f x)

def div : Option ℚ → Option ℚ → Option ℚ := lift fun x y => if y = 0 then none else some (x/y)

def compare (r : ℚ → ℚ → Bool) (a b : Option ℚ) : Bool := (a.bind fun x => b.map (r x)).getD false

def truthy (a : Option ℚ) : Bool := (a.map fun x => decide (x ≠ 0)).getD false

/-- Rational numbers, and nothing for what is not finite. -/
instance number : ScriptNumber (Option ℚ) where
  add := lift fun x y => some (x+y)
  sub := lift fun x y => some (x-y)
  mul := lift fun x y => some (x*y)
  div := div
  ofInt i := some i
  nan := none
  isNan := Option.isNone
  lt := compare fun x y => decide (x < y)
  ge := compare fun x y => decide (y ≤ x)
  truthy := truthy
  finite := Option.isSome
  isNan_ofInt _ := rfl
  finite_ofInt _ _ _ := rfl
  finite_div_ofInt a i ha hi := by
    change (div a (some i)).isSome = true
    cases a <;> simp_all [div,lift]
  lt_irrefl a := by cases a <;> simp [compare]
  lt_asymm a b h := by cases a <;> cases b <;> simp_all [compare,le_of_lt]
  ge_eq a b ha hb := by cases a <;> cases b <;> simp_all [compare,← not_lt]
  finite_div a b h := by
    change (div a b).isSome = false
    cases a <;> cases b <;> simp_all [div,lift,truthy]
  truthy_sub_self_div a b := by
    change truthy (div (some ((a : ℚ)-a)) (some b)) = false
    by_cases hb : b = 0 <;> simp [div,lift,truthy,hb]

end Exact

inductive ScriptValue (N : Type)
  | undefined
  | null
  | num (x : N)

/-- An arrow function of the row before, the current row and the time between them. -/
inductive ColumnExpr
  | prev (col : String)
  | cur (col : String)
  | seconds
  | nanos
  | lit (i : ℤ)
  | null
  | add (a b : ColumnExpr)
  | sub (a b : ColumnExpr)
  | mul (a b : ColumnExpr)
  | div (a b : ColumnExpr)
  | cond (c a b : ColumnExpr)
  | ifPresent (c a b : ColumnExpr)
  deriving DecidableEq,Repr

/-- A row as the script sees it. -/
abbrev ScriptRow (N : Type) := String → ScriptValue N

namespace ScriptValue

variable {N : Type} [ScriptNumber N]

def toNumber : ScriptValue N → N
  | .undefined => ScriptNumber.nan
  | .null => ScriptNumber.ofInt 0
  | .num x => x

@[simp] theorem toNumber_null : (null : ScriptValue N).toNumber = ScriptNumber.ofInt 0 := rfl

@[simp] theorem toNumber_num (x : N) : (num x).toNumber = x := rfl

def truthy : ScriptValue N → Bool
  | .num x => ScriptNumber.truthy x
  | _ => false

/-- `v != null`. -/
def present : ScriptValue N → Bool
  | .num _ => true
  | _ => false

/-- `a < b` and `a >= b`. -/
def lt (a b : ScriptValue N) : Bool := ScriptNumber.lt a.toNumber b.toNumber

def ge (a b : ScriptValue N) : Bool := ScriptNumber.ge a.toNumber b.toNumber

/-- The value of a column is no NaN. -/
def Proper : ScriptValue N → Prop
  | .undefined => False
  | .null => True
  | .num x => ScriptNumber.isNan x = false

theorem ge_eq {a b : ScriptValue N} (ha : a.Proper) (hb : b.Proper) : ge a b = !lt a b := by
  have hnum : ∀ {v : ScriptValue N}, v.Proper → ScriptNumber.isNan v.toNumber = false := by
    intro v hv
    cases v with
    | undefined => exact hv.elim
    | null => exact ScriptNumber.isNan_ofInt 0
    | num x => exact hv
  exact ScriptNumber.ge_eq _ _ (hnum ha) (hnum hb)

end ScriptValue

namespace ScriptRow

variable {N : Type}

/-- What a query returns of a row: the columns that it names. -/
def select (cols : List String) (row : ScriptRow N) : ScriptRow N :=
  fun col => if col ∈ cols then row col else .undefined

theorem select_of_mem {cols : List String} {col : String} (row : ScriptRow N)
    (h : col ∈ cols) : select cols row col = row col := if_pos h

theorem select_of_not_mem {cols : List String} {col : String} (row : ScriptRow N)
    (h : col ∉ cols) : select cols row col = .undefined := if_neg h

end ScriptRow

namespace ColumnExpr

variable {N : Type} [ScriptNumber N]

open ScriptValue

/-- The time between two rows. -/
structure Elapsed (N : Type) where
  seconds : N
  nanos : N

def eval (p c : ScriptRow N) (t : Elapsed N) : ColumnExpr → ScriptValue N
  | .prev col => p col
  | .cur col => c col
  | .seconds => .num t.seconds
  | .nanos => .num t.nanos
  | .lit i => .num (ScriptNumber.ofInt i)
  | .null => .null
  | .add a b => .num ((eval p c t a).toNumber+(eval p c t b).toNumber)
  | .sub a b => .num ((eval p c t a).toNumber-(eval p c t b).toNumber)
  | .mul a b => .num ((eval p c t a).toNumber*(eval p c t b).toNumber)
  | .div a b => .num ((eval p c t a).toNumber/(eval p c t b).toNumber)
  | .cond d a b => if (eval p c t d).truthy then eval p c t a else eval p c t b
  | .ifPresent d a b => if (eval p c t d).present then eval p c t a else eval p c t b

/-- The columns that an expression reads. -/
def cols : ColumnExpr → List String
  | .prev col => [col]
  | .cur col => [col]
  | .add a b => cols a++cols b
  | .sub a b => cols a++cols b
  | .mul a b => cols a++cols b
  | .div a b => cols a++cols b
  | .cond d a b => cols d++(cols a++cols b)
  | .ifPresent d a b => cols d++(cols a++cols b)
  | _ => []

/-- The expression reads the current row only. -/
def curOnly : ColumnExpr → Bool
  | .prev _ => false
  | .add a b => curOnly a && curOnly b
  | .sub a b => curOnly a && curOnly b
  | .mul a b => curOnly a && curOnly b
  | .div a b => curOnly a && curOnly b
  | .cond d a b => curOnly d && (curOnly a && curOnly b)
  | .ifPresent d a b => curOnly d && (curOnly a && curOnly b)
  | .seconds => false
  | .nanos => false
  | _ => true

/-- The value depends on the columns that are read. -/
theorem eval_congr {p p' c c' : ScriptRow N} (t : Elapsed N) (e : ColumnExpr)
    (h : ∀ col ∈ e.cols, p col = p' col ∧ c col = c' col) : eval p c t e = eval p' c' t e := by
  induction e with
  | prev col => exact (h col (by simp [cols])).1
  | cur col => exact (h col (by simp [cols])).2
  | seconds => rfl
  | nanos => rfl
  | lit i => rfl
  | null => rfl
  | add a b iha ihb | sub a b iha ihb | mul a b iha ihb | div a b iha ihb =>
    simp only [eval,iha fun col hc => h col (by simp [cols,hc]),
      ihb fun col hc => h col (by simp [cols,hc])]
  | cond d a b ihd iha ihb | ifPresent d a b ihd iha ihb =>
    simp only [eval,ihd fun col hc => h col (by simp [cols,hc]),
      iha fun col hc => h col (by simp [cols,hc]),ihb fun col hc => h col (by simp [cols,hc])]

/-- An expression on a query's rows is the expression on the rows, when the query asks for what
it reads. -/
theorem eval_select {names : List String} (p c : ScriptRow N) (t : Elapsed N) {e : ColumnExpr}
    (h : e.cols ⊆ names) :
    eval (ScriptRow.select names p) (ScriptRow.select names c) t e = eval p c t e :=
  eval_congr t e fun _ hc =>
    ⟨ScriptRow.select_of_mem p (h hc),ScriptRow.select_of_mem c (h hc)⟩

/-- Neither the row before nor the time matters to it. -/
theorem eval_curOnly {p p' c : ScriptRow N} {t t' : Elapsed N} {e : ColumnExpr}
    (h : e.curOnly = true) : eval p c t e = eval p' c t' e := by
  induction e with
  | prev _ => cases h
  | cur _ => rfl
  | seconds => cases h
  | nanos => cases h
  | lit i => rfl
  | null => rfl
  | add a b iha ihb | sub a b iha ihb | mul a b iha ihb | div a b iha ihb =>
    simp only [curOnly,Bool.and_eq_true] at h
    simp only [eval,iha h.1,ihb h.2]
  | cond d a b ihd iha ihb | ifPresent d a b ihd iha ihb =>
    simp only [curOnly,Bool.and_eq_true] at h
    simp only [eval,ihd h.1,iha h.2.1,ihb h.2.2]

end ColumnExpr
