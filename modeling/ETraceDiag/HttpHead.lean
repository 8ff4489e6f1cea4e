import Mathlib.Data.List.Basic

/-!
# The head of an HTTP message

A start line and the fields behind it, each on a line of its own; an empty line ends the head.
-/

namespace HttpHead

def crlf : List UInt8 := [13,10]

structure Field where
  name : List UInt8
  value : List UInt8
  deriving DecidableEq,Repr

structure Head where
  start : List UInt8
  fields : List Field
  deriving DecidableEq,Repr

def Field.render (f : Field) : List UInt8 := f.name++[58,32]++f.value++crlf

def Head.render (h : Head) : List UInt8 :=
  h.start++crlf++h.fields.flatMap Field.render++crlf

/-- A line and what follows its end. -/
def takeLine : List UInt8 → Option (List UInt8 × List UInt8)
  | 13::10::bs => some ([],bs)
  | b::bs => (takeLine bs).map fun r => (b::r.1,r.2)
  | [] => none

/-- The name ends at the first colon; spaces before the value do not belong to it. -/
def parseField (line : List UInt8) : Option Field :=
  match line.dropWhile (· ≠ 58) with
  | [] => none
  | _::value => some ⟨line.takeWhile (· ≠ 58),value.dropWhile (· = 32)⟩

/-- The fields up to the empty line, and what follows it. -/
def parseFields : ℕ → List UInt8 → Option (List Field × List UInt8)
  | 0, _ => none
  | fuel+1, bs => (takeLine bs).bind fun r =>
    if r.1 = [] then some ([],r.2)
    else (parseField r.1).bind fun f =>
      (parseFields fuel r.2).map fun t => (f::t.1,t.2)

def parse (bs : List UInt8) : Option (Head × List UInt8) :=
  (takeLine bs).bind fun r => (parseFields r.2.length r.2).map fun t => (⟨r.1,t.1⟩,t.2)

/-- A field that its line gives back. -/
structure Field.Clean (f : Field) : Prop where
  name_colon : 58 ∉ f.name
  name_cr : 13 ∉ f.name
  value_cr : 13 ∉ f.value
  value_space : f.value.head? ≠ some 32

structure Head.Clean (h : Head) : Prop where
  start_cr : 13 ∉ h.start
  fields : ∀ f ∈ h.fields, f.Clean

theorem takeLine_append {line : List UInt8} (h : 13 ∉ line) (rest : List UInt8) :
    takeLine (line++crlf++rest) = some (line,rest) := by
  induction line with
  | nil => rfl
  | cons b line ih =>
    obtain ⟨hb,hline⟩ := List.ne_and_not_mem_of_not_mem_cons h
    have hskip : takeLine (b::(line++crlf++rest)) =
        (takeLine (line++crlf++rest)).map fun r => (b::r.1,r.2) := by
      rw [takeLine]
      rintro bs rfl
      exact absurd rfl hb
    simp only [List.cons_append,hskip,ih hline,Option.map_some]

theorem dropWhile_space {value : List UInt8} (h : value.head? ≠ some 32) :
    value.dropWhile (· = 32) = value := by
  cases value with
  | nil => rfl
  | cons b value =>
    have hb : b ≠ 32 := by simpa using h
    simp [hb]

theorem parseField_line {f : Field} (h : f.Clean) :
    parseField (f.name++[58,32]++f.value) = some f := by
  have hname : ∀ b ∈ f.name, (b ≠ 58) = true := by
    intro b hb
    simp only [ne_eq,eq_iff_iff,iff_true]
    rintro rfl
    exact h.name_colon hb
  have hdrop : (f.name++[58,32]++f.value).dropWhile (· ≠ 58) = 58::32::f.value := by
    rw [List.append_assoc,List.dropWhile_append_of_pos (by simpa using hname)]
    rfl
  have htake : (f.name++[58,32]++f.value).takeWhile (· ≠ 58) = f.name := by
    rw [List.append_assoc,List.takeWhile_append_of_pos (by simpa using hname)]
    simp
  have hvalue : (32::f.value).dropWhile (· = 32) = f.value := by
    rw [List.dropWhile_cons_of_pos (by rfl),dropWhile_space h.value_space]
  rw [parseField,hdrop,htake]
  simp only [hvalue]

theorem parseFields_render {fields : List Field} (rest : List UInt8) : ∀ {fuel : ℕ},
    fields.length < fuel → (∀ f ∈ fields, f.Clean) →
      parseFields fuel (fields.flatMap Field.render++crlf++rest) = some (fields,rest) := by
  induction fields with
  | nil =>
    intro fuel hfuel _
    obtain ⟨fuel,rfl⟩ : ∃ m, fuel = m+1 := ⟨fuel-1,by simp at hfuel; omega⟩
    rfl
  | cons f fields ih =>
    intro fuel hfuel hclean
    obtain ⟨fuel,rfl⟩ : ∃ m, fuel = m+1 := ⟨fuel-1,by simp at hfuel; omega⟩
    have hf := hclean f List.mem_cons_self
    have hcr : 13 ∉ f.name++[58,32]++f.value := by
      simp [hf.name_cr,hf.value_cr]
    have hline := takeLine_append hcr (fields.flatMap Field.render++crlf++rest)
    have htext : (f::fields).flatMap Field.render++crlf++rest =
        f.name++[58,32]++f.value++crlf++(fields.flatMap Field.render++crlf++rest) := by
      simp [Field.render]
    rw [htext,parseFields,hline,Option.bind_some,if_neg (by simp),parseField_line hf,
      Option.bind_some,ih (Nat.lt_of_succ_lt_succ hfuel)
        (fun g hg => hclean g (List.mem_cons_of_mem f hg)),Option.map_some]

theorem length_le_flatMap_render (fields : List Field) :
    fields.length ≤ (fields.flatMap Field.render).length := by
  induction fields with
  | nil => simp
  | cons f fields ih =>
    simp only [List.flatMap_cons,List.length_append,List.length_cons,Field.render]
    omega

theorem parse_render {h : Head} (hclean : h.Clean) (rest : List UInt8) :
    parse (h.render++rest) = some (h,rest) := by
  have hline := takeLine_append hclean.start_cr (h.fields.flatMap Field.render++crlf++rest)
  have htext : h.render++rest = h.start++crlf++(h.fields.flatMap Field.render++crlf++rest) := by
    simp [Head.render]
  have hfuel : h.fields.length < (h.fields.flatMap Field.render++crlf++rest).length := by
    have hle := length_le_flatMap_render h.fields
    have hcrlf : crlf.length = 2 := rfl
    simp only [List.length_append,hcrlf]
    omega
  rw [htext,parse,hline,Option.bind_some,parseFields_render rest hfuel hclean.fields,
    Option.map_some]

end HttpHead
