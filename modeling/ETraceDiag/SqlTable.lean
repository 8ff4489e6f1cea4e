import Mathlib.Data.Int.Notation
import Mathlib.Data.List.Basic

/-!
# Rows of dynamically typed columns

A row gives every named column a value of one of four storage classes. A statement binds values
to the columns it names and reads result columns by position, asking for the type it wants:
the classes convert silently, and a position past the last column reads as NULL. Text is a
`String` whose characters stand for its bytes.
-/

namespace SqlTable

/-- What the library does with doubles. -/
class Double (F : Type) where
  zero : F
  isNan : F → Bool
  ofInt64 : Int64 → F
  ofText : String → F
  toInt64 : F → Int64
  toText : F → String
  isNan_zero : isNan zero = false

inductive Value (F : Type)
  | null
  | integer (i : Int64)
  | real (x : F)
  | text (s : String)

variable {F : Type}

def bindInt64 (i : Int64) : Value F := .integer i

def bindText (s : String) : Value F := .text s

/-- A NaN is stored as NULL. -/
def bindDouble [Double F] (x : F) : Value F := if Double.isNan x then .null else .real x

/-- The digits in front. -/
def digitsVal (cs : List Char) : ℤ :=
  (cs.takeWhile Char.isDigit).foldl (fun a c => 10*a+(c.toNat-48)) 0

/-- The integer a text begins with; 0 when it does not begin with one. -/
def textToInt (cs : List Char) : ℤ :=
  match cs.dropWhile Char.isWhitespace with
  | '-'::rest => -digitsVal rest
  | '+'::rest => digitsVal rest
  | rest => digitsVal rest

def Value.toInt64 [Double F] : Value F → Int64
  | .null => 0
  | .integer i => i
  | .real x => Double.toInt64 x
  | .text s => Int64.ofIntClamp (textToInt s.toList)

def Value.toDouble [Double F] : Value F → F
  | .null => Double.zero
  | .integer i => Double.ofInt64 i
  | .real x => x
  | .text s => Double.ofText s

/-- NULL has no text. -/
def Value.toText [Double F] : Value F → Option String
  | .null => none
  | .integer i => some (toString i.toInt)
  | .real x => some (Double.toText x)
  | .text s => some s

abbrev Row (F : Type) := List (String × Value F)

/-- `INSERT INTO t (cols) VALUES(?,...)`. -/
def insert (cols : List String) (vals : List (Value F)) : Row F := cols.zip vals

def get (row : Row F) (col : String) : Value F := (row.lookup col).getD .null

/-- `SELECT cols`. -/
def select (cols : List String) (row : Row F) : List (Value F) := cols.map (get row)

/-- The result column at a position. -/
def column (st : List (Value F)) (i : ℕ) : Value F := st.getD i .null

/-- What comes back of a double. -/
def roundTrip [Double F] (x : F) : F := if Double.isNan x then Double.zero else x

@[simp] theorem toInt64_bindInt64 [Double F] (i : Int64) : (bindInt64 i : Value F).toInt64 = i :=
  rfl

@[simp] theorem toText_bindText [Double F] (s : String) :
    (bindText s : Value F).toText = some s := rfl

@[simp] theorem toDouble_bindDouble [Double F] (x : F) :
    (bindDouble x).toDouble = roundTrip x := by
  unfold bindDouble roundTrip
  split <;> rfl

theorem roundTrip_eq_iff [Double F] (x : F) : roundTrip x = x ↔ Double.isNan x = false := by
  unfold roundTrip
  by_cases hx : Double.isNan x = true
  · rw [if_pos hx]
    refine iff_of_false (fun heq => ?_) (by simp [hx])
    rw [← heq,Double.isNan_zero] at hx
    exact Bool.false_ne_true hx
  · rw [if_neg hx]
    exact iff_of_true rfl (by simpa using hx)

/-- A hexadecimal text is no number: its integer is the 0 in front of the `x`. -/
theorem toInt64_hex [Double F] (digits : String) :
    (bindText ("0x"++digits) : Value F).toInt64 = 0 := by
  have hlist : ("0x"++digits).toList = '0' :: 'x' :: digits.toList := by simp
  have hint : textToInt ('0' :: 'x' :: digits.toList) = 0 := rfl
  simp only [bindText,Value.toInt64,hlist,hint]
  rfl

end SqlTable
