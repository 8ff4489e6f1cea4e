import ETraceDiag.JsonValue
import Mathlib.Data.List.Forall2

/-!
# Decoded JSON in Python

The conversions that `int`, `float`, `str`, `or` and iteration make of a decoded value, and the
exceptions they raise. The interpreter's own number formats are a parameter.
-/

namespace PyValue

open JsonValue

inductive Raise
  | attributeError
  | keyError
  | overflowError
  | typeError
  | valueError
  deriving DecidableEq,Repr

/-- The interpreter's floats and number texts. -/
class Python (F : Type) where
  finite : F → Bool
  isZero : F → Bool
  toInt : F → Except Raise ℤ
  ofInt : ℤ → Except Raise F
  parseInt : String → Option ℤ
  parseFloat : String → Option F
  mean : List ℤ → F
  repr : JsonValue F → String

variable {F : Type} [Python F]

def truthy : JsonValue F → Bool
  | .null => false
  | .bool b => b
  | .int i => i ≠ 0
  | .float x => !Python.isZero x
  | .str s => s ≠ ""
  | .arr xs => !xs.isEmpty
  | .obj fields => !fields.isEmpty

/-- `a or b`. -/
def pyOr (a b : JsonValue F) : JsonValue F := if truthy a then a else b

/-- `int(x)`. -/
def pyInt : JsonValue F → Except Raise ℤ
  | .int i => .ok i
  | .bool b => .ok (if b then 1 else 0)
  | .float x => Python.toInt x
  | .str s => (Python.parseInt F s).elim (.error .valueError) .ok
  | _ => .error .typeError

/-- `float(x)`. -/
def pyFloat : JsonValue F → Except Raise F
  | .int i => Python.ofInt i
  | .bool b => Python.ofInt (if b then 1 else 0)
  | .float x => .ok x
  | .str s => (Python.parseFloat s).elim (.error .valueError) .ok
  | _ => .error .typeError

/-- `str(x)`. -/
def pyStr : JsonValue F → String
  | .null => "None"
  | .bool b => if b then "True" else "False"
  | .int i => toString i
  | .str s => s
  | j => Python.repr j

/-- What a `for` loop sees. -/
def pyIter : JsonValue F → Except Raise (List (JsonValue F))
  | .arr xs => .ok xs
  | .str s => .ok (s.toList.map fun c => .str (String.singleton c))
  | .obj fields => .ok (fields.map fun field => .str field.1)
  | _ => .error .typeError

/-- `j.get(key,default)`. -/
def pyGet (key : String) (default : JsonValue F) : JsonValue F → Except Raise (JsonValue F)
  | .obj fields => .ok ((fields.lookup key).getD default)
  | _ => .error .attributeError

/-- `j.get(key,default)` where `j` is known to be an object. -/
def field (key : String) (default j : JsonValue F) : JsonValue F := (get? key j).getD default

/-- `j[key]` of an object. -/
def item (key : String) (j : JsonValue F) : Except Raise (JsonValue F) :=
  (get? key j).elim (.error .keyError) .ok

def isDict : JsonValue F → Bool
  | .obj _ => true
  | _ => false

theorem ok_bind {α β : Type} (a : α) (f : α → Except Raise β) : (Except.ok a >>= f) = f a := rfl

/-- A block that ends has ended every statement. -/
theorem bind_eq_ok {α β : Type} {x : Except Raise α} {f : α → Except Raise β} {b : β}
    (h : x >>= f = .ok b) : ∃ a, x = .ok a ∧ f a = .ok b := by
  cases x with
  | error e => cases h
  | ok a => exact ⟨a,rfl,h⟩

theorem map_eq_ok {α β : Type} {x : Except Raise α} {f : α → β} {b : β} (h : x.map f = .ok b) :
    ∃ a, x = .ok a ∧ f a = b := by
  cases x with
  | error e => cases h
  | ok a => exact ⟨a,rfl,Except.ok.inj h⟩

/-- A loop that ends has converted every element. -/
theorem mem_of_mapM_ok {α β : Type} {f : α → Except Raise β} {x : α} (xs : List α) :
    ∀ {ys : List β}, xs.mapM f = .ok ys → x ∈ xs → ∃ y ∈ ys, f x = .ok y := by
  induction xs with
  | nil =>
    intro ys _ hx
    cases hx
  | cons a xs ih =>
    intro ys h hx
    rw [List.mapM_cons] at h
    obtain ⟨b,ha,h⟩ := bind_eq_ok h
    obtain ⟨bs,hxs,h⟩ := bind_eq_ok h
    rw [← Except.ok.inj h]
    rcases List.mem_cons.mp hx with rfl | hx
    · exact ⟨b,List.mem_cons_self,ha⟩
    · obtain ⟨y,hy,hxy⟩ := ih hxs hx
      exact ⟨y,List.mem_cons_of_mem b hy,hxy⟩

/-- A loop ends exactly when every element is converted, each to its own result. -/
theorem mapM_eq_ok_iff {α β : Type} {f : α → Except Raise β} (xs : List α) : ∀ {ys : List β},
    xs.mapM f = .ok ys ↔ List.Forall₂ (fun x y => f x = .ok y) xs ys := by
  induction xs with
  | nil =>
    intro ys
    rw [List.mapM_nil,List.forall₂_nil_left_iff]
    exact ⟨fun h => (Except.ok.inj h).symm,fun h => by rw [h]; rfl⟩
  | cons x xs ih =>
    intro ys
    rw [List.mapM_cons,List.forall₂_cons_left_iff]
    constructor
    · intro h
      obtain ⟨y,hy,h⟩ := bind_eq_ok h
      obtain ⟨ys',hys,h⟩ := bind_eq_ok h
      exact ⟨y,ys',hy,ih.mp hys,(Except.ok.inj h).symm⟩
    · rintro ⟨y,ys',hy,hys,rfl⟩
      rw [hy,ih.mpr hys]
      rfl

/-- Every result of a loop is one of an element. -/
theorem exists_of_mapM_ok {α β : Type} {f : α → Except Raise β} {y : β} (xs : List α)
    {ys : List β} (h : xs.mapM f = .ok ys) (hy : y ∈ ys) : ∃ x ∈ xs, f x = .ok y := by
  have hall := (mapM_eq_ok_iff xs).mp h
  clear h
  induction hall with
  | nil => cases hy
  | cons hx _ ih =>
    rcases List.mem_cons.mp hy with rfl | hy
    · exact ⟨_,List.mem_cons_self,hx⟩
    · obtain ⟨x,hmem,hx⟩ := ih hy
      exact ⟨x,List.mem_cons_of_mem _ hmem,hx⟩

/-- What the results have of the elements they have in the order of the elements. -/
theorem map_of_mapM_ok {α β γ : Type} {f : α → Except Raise β} {g : β → γ} {g' : α → γ}
    (xs : List α) {ys : List β} (h : xs.mapM f = .ok ys) (hg : ∀ x y, f x = .ok y → g y = g' x) :
    ys.map g = xs.map g' := by
  have hall := (mapM_eq_ok_iff xs).mp h
  clear h
  induction hall with
  | nil => rfl
  | cons hx _ ih => rw [List.map_cons,List.map_cons,hg _ _ hx,ih]

/-- Two loops one after the other convert each element twice. -/
theorem forall₂_of_mapM_ok {α β γ : Type} {f : α → Except Raise β} {g : β → Except Raise γ}
    {xs : List α} {ys : List β} (hf : xs.mapM f = .ok ys) {zs : List γ} (hg : ys.mapM g = .ok zs) :
    List.Forall₂ (fun x z => ∃ y, f x = .ok y ∧ g y = .ok z) xs zs := by
  have hall := (mapM_eq_ok_iff xs).mp hf
  have hrest := (mapM_eq_ok_iff ys).mp hg
  clear hf hg
  induction hall generalizing zs with
  | nil =>
    rw [List.forall₂_nil_left_iff.mp hrest]
    exact .nil
  | cons hx _ ih =>
    obtain ⟨z,zs',hz,hzs,rfl⟩ := List.forall₂_cons_left_iff.mp hrest
    exact .cons ⟨_,hx,hz⟩ (ih hzs)

/-- A loop ends when every element can be converted. -/
theorem exists_mapM_ok {α β : Type} {f : α → Except Raise β} {P : α → β → Prop} (xs : List α)
    (h : ∀ x ∈ xs, ∃ y, f x = .ok y ∧ P x y) :
    ∃ ys, xs.mapM f = .ok ys ∧ List.Forall₂ (fun x y => f x = .ok y ∧ P x y) xs ys := by
  induction xs with
  | nil => exact ⟨[],rfl,.nil⟩
  | cons x xs ih =>
    obtain ⟨y,hy⟩ := h x List.mem_cons_self
    obtain ⟨ys,hys,hall⟩ := ih fun z hz => h z (List.mem_cons_of_mem x hz)
    refine ⟨y::ys,?_,.cons hy hall⟩
    rw [List.mapM_cons,hy.1,hys]
    rfl

end PyValue
