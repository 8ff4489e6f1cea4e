import Mathlib.Data.List.DropRight
import Mathlib.Data.List.Infix

/-!
# Pieces of a text

Cutting a text at the first place where a separator stands, at blanks and at the ends of lines,
and looking for a word that is not part of a longer one. Which characters are blank and which end
a line is left open.
-/

namespace TextPieces

variable {α : Type} [DecidableEq α]

/-- `text.split(sep,1)` where the separator is found. -/
def splitOnce (sep : List α) : List α → Option (List α × List α)
  | [] => none
  | c::text =>
    if sep.isPrefixOf (c::text) then some ([],(c::text).drop sep.length)
    else (splitOnce sep text).map fun p => (c::p.1,p.2)

theorem splitOnce_cons_of_starts {sep text : List α} {c : α} (h : sep <+: c::text) :
    splitOnce sep (c::text) = some ([],(c::text).drop sep.length) := by
  rw [splitOnce,if_pos (List.isPrefixOf_iff_prefix.mpr h)]

theorem splitOnce_cons_of_not {sep text : List α} {c : α} (h : ¬ sep <+: c::text) :
    splitOnce sep (c::text) = (splitOnce sep text).map fun p => (c::p.1,p.2) := by
  rw [splitOnce,if_neg (by rwa [List.isPrefixOf_iff_prefix])]

omit [DecidableEq α] in
/-- Where a separator stands that the text goes on behind, only its last element is new. -/
theorem prefix_append_dropLast {sep a b : List α} {c : α} :
    sep <+: c::(a++sep++b) ↔ sep <+: c::(a++sep.dropLast) := by
  have hlen : sep.length ≤ (c::(a++sep.dropLast)).length := by
    rw [List.length_cons,List.length_append,List.length_dropLast]
    omega
  have hshort : c::(a++sep.dropLast) <+: c::(a++sep++b) := by
    rw [List.cons_prefix_cons,List.append_assoc,List.prefix_append_right_inj]
    exact ⟨rfl,sep.dropLast_prefix.trans (List.prefix_append ..)⟩
  exact ⟨fun h => List.prefix_of_prefix_length_le h hshort hlen,fun h => h.trans hshort⟩

/-- What is cut off in front is a text that the separator does not stand in, nor begins in. -/
theorem splitOnce_eq_some_iff {sep : List α} (hsep : sep ≠ []) {text a b : List α} :
    splitOnce sep text = some (a,b) ↔ text = a++sep++b ∧ ¬ sep <:+: a++sep.dropLast := by
  induction text generalizing a with
  | nil => simp [splitOnce,hsep]
  | cons c text ih =>
    by_cases h : sep <+: c::text
    · rw [splitOnce_cons_of_starts h]
      obtain ⟨rest,hrest⟩ := h
      cases a with
      | nil =>
        have hnot : ¬ sep <:+: []++sep.dropLast := by
          intro hin
          have hlen := hin.length_le
          rw [List.nil_append,List.length_dropLast] at hlen
          have hpos := List.length_pos_of_ne_nil hsep
          omega
        rw [← hrest,List.drop_left,Option.some.injEq,Prod.mk.injEq,List.nil_append,
          List.append_cancel_left_eq]
        exact ⟨fun heq => ⟨heq.2,hnot⟩,fun heq => ⟨rfl,heq.1⟩⟩
      | cons x a =>
        simp only [Option.some.injEq,Prod.mk.injEq,List.nil_eq,reduceCtorEq,false_and,false_iff]
        rintro ⟨heq,hnot⟩
        obtain ⟨rfl,rfl⟩ := List.cons.inj heq
        refine hnot (List.IsPrefix.isInfix ?_)
        exact prefix_append_dropLast.mp ⟨rest,hrest⟩
    · rw [splitOnce_cons_of_not h,Option.map_eq_some_iff]
      cases a with
      | nil =>
        constructor
        · rintro ⟨p,-,hp⟩
          cases hp
        · rintro ⟨heq,-⟩
          exact absurd ⟨b,by rw [heq]; rfl⟩ h
      | cons x a =>
        constructor
        · rintro ⟨⟨a',b'⟩,hp,heq⟩
          obtain ⟨ha,rfl⟩ := Prod.mk.inj heq
          obtain ⟨rfl,rfl⟩ := List.cons.inj ha
          obtain ⟨rfl,hnot⟩ := ih.mp hp
          refine ⟨rfl,fun hin => ?_⟩
          rcases List.infix_cons_iff.mp hin with hp | hin
          · exact h (prefix_append_dropLast.mpr hp)
          · exact hnot hin
        · rintro ⟨heq,hnot⟩
          obtain ⟨rfl,rfl⟩ := List.cons.inj heq
          exact ⟨(a,b),ih.mpr ⟨rfl,fun hin => hnot (List.infix_cons hin)⟩,rfl⟩

/-- Nothing is cut exactly where the separator is not found. -/
theorem splitOnce_eq_none_iff {sep : List α} (hsep : sep ≠ []) {text : List α} :
    splitOnce sep text = none ↔ ¬ sep <:+: text := by
  induction text with
  | nil => simp [splitOnce,hsep]
  | cons c text ih =>
    by_cases h : sep <+: c::text
    · simp [splitOnce_cons_of_starts h,h.isInfix]
    · rw [splitOnce_cons_of_not h,Option.map_eq_none_iff,ih,List.infix_cons_iff,or_iff_right h]

theorem splitOnce_single_iff {x : α} {text a b : List α} :
    splitOnce [x] text = some (a,b) ↔ text = a++x::b ∧ x ∉ a := by
  rw [splitOnce_eq_some_iff (List.cons_ne_nil x []),List.dropLast_singleton,List.append_nil,
    List.append_assoc,List.singleton_append,List.singleton_infix_iff]

omit [DecidableEq α] in
/-- The pieces between separators are of the text, and have none. -/
theorem mem_of_mem_splitOnP {p : α → Bool} {text : List α} {x : α} :
    ∀ piece ∈ text.splitOnP p, x ∈ piece → x ∈ text ∧ p x = false := by
  induction text with
  | nil => simp
  | cons y text ih =>
    obtain ⟨first,rest,hsplit⟩ := List.exists_cons_of_ne_nil (List.splitOnP_ne_nil p text)
    intro piece hpiece hx
    rw [List.splitOnP_cons_eq_if_modifyHead] at hpiece
    rw [hsplit] at ih hpiece
    have hlater : ∀ piece ∈ first::rest, x ∈ piece → x ∈ y::text ∧ p x = false := fun piece hp hx =>
      (ih piece hp hx).imp_left (List.mem_cons_of_mem y)
    split at hpiece
    · rcases List.mem_cons.mp hpiece with rfl | hpiece
      · cases hx
      · exact hlater piece hpiece hx
    · next hy =>
      rcases List.mem_cons.mp hpiece with rfl | hpiece
      · rcases List.mem_cons.mp hx with rfl | hx
        · exact ⟨List.mem_cons_self,Bool.eq_false_iff.mpr hy⟩
        · exact hlater first List.mem_cons_self hx
      · exact hlater piece (List.mem_cons_of_mem _ hpiece) hx

theorem mem_of_mem_splitOn {sep : α} {text piece : List α} (h : piece ∈ text.splitOn sep) {x : α}
    (hx : x ∈ piece) : x ∈ text ∧ x ≠ sep := by
  rw [List.splitOn_eq_splitOnP] at h
  exact (mem_of_mem_splitOnP piece h hx).imp_right fun hsep heq => by simp [heq] at hsep

/-! ## Whole words -/

/-- No character of a word stands in front. -/
def starts (word : α → Bool) (text : List α) : Bool := text.head?.all fun c => !word c

/-- `\b..\b` around a word, where `inside` says that a character of a word stands before. -/
def hasWord (word : α → Bool) (w : List α) : Bool → List α → Bool
  | inside,[] => !inside && w.isEmpty
  | inside,c::text =>
    (!inside && w.isPrefixOf (c::text) && starts word ((c::text).drop w.length)) ||
      hasWord word w (word c) text

omit [DecidableEq α] in
/-- A word stands somewhere and nothing goes on with it. -/
def Whole (word : α → Bool) (w text : List α) : Prop :=
  ∃ pre post, text = pre++w++post ∧ starts word pre.reverse = true ∧ starts word post = true

/-- The same behind a character of a word, or behind another one. -/
theorem hasWord_iff_from (word : α → Bool) (w : List α) : ∀ (text : List α) (inside : Bool),
    hasWord word w inside text = true ↔ ∃ pre post, text = pre++w++post ∧
      (match pre.getLast? with | none => inside = false | some c => word c = false) ∧
        starts word post = true
  | [],inside => by
    simp only [hasWord,Bool.and_eq_true,Bool.not_eq_true',List.isEmpty_iff]
    constructor
    · rintro ⟨rfl,rfl⟩
      exact ⟨[],[],rfl,rfl,rfl⟩
    · rintro ⟨pre,post,heq,hpre,-⟩
      obtain ⟨hnil,-⟩ := List.append_eq_nil_iff.mp heq.symm
      obtain ⟨rfl,rfl⟩ := List.append_eq_nil_iff.mp hnil
      exact ⟨hpre,rfl⟩
  | c::text,inside => by
    simp only [hasWord,Bool.or_eq_true,Bool.and_eq_true,Bool.not_eq_true',
      hasWord_iff_from word w text (word c),List.isPrefixOf_iff_prefix]
    constructor
    · rintro (⟨⟨hinside,⟨post,hpost⟩⟩,hstarts⟩ | ⟨pre,post,rfl,hpre,hstarts⟩)
      · rw [← hpost,List.drop_left] at hstarts
        exact ⟨[],post,hpost.symm,hinside,hstarts⟩
      · refine ⟨c::pre,post,rfl,?_,hstarts⟩
        cases pre using List.reverseRecOn with
        | nil => exact hpre
        | append_singleton pre d =>
          rw [← List.cons_append,List.getLast?_concat]
          rwa [List.getLast?_concat] at hpre
    · rintro ⟨pre,post,heq,hpre,hstarts⟩
      cases pre with
      | nil =>
        refine .inl ⟨⟨hpre,post,heq.symm⟩,?_⟩
        rw [heq,List.nil_append,List.drop_left]
        exact hstarts
      | cons d pre =>
        obtain ⟨rfl,rfl⟩ := List.cons.inj heq
        refine .inr ⟨pre,post,rfl,?_,hstarts⟩
        cases pre using List.reverseRecOn with
        | nil => exact hpre
        | append_singleton pre d =>
          rw [← List.cons_append,List.getLast?_concat] at hpre
          rwa [List.getLast?_concat]

theorem hasWord_iff (word : α → Bool) (w text : List α) :
    hasWord word w false text = true ↔ Whole word w text := by
  rw [hasWord_iff_from]
  refine exists₂_congr fun pre post => and_congr_right fun _ => and_congr_left fun _ => ?_
  rw [starts,List.head?_reverse]
  cases pre.getLast? <;> simp

/-! ## Blanks -/

section Blanks

variable {blank : α → Bool}

/-- `text.strip()`. -/
def strip (blank : α → Bool) (text : List α) : List α := (text.dropWhile blank).rdropWhile blank

/-- `text.split()`. -/
def words (blank : α → Bool) (text : List α) : List (List α) :=
  (text.splitOnP blank).filter fun w => !w.isEmpty

omit [DecidableEq α] in
theorem strip_append {a text b : List α} (ha : ∀ c ∈ a, blank c = true)
    (hb : ∀ c ∈ b, blank c = true) (hhead : ∀ c ∈ text.head?, blank c = false)
    (hlast : ∀ c ∈ text.getLast?, blank c = false) : strip blank (a++text++b) = text := by
  have hright : ∀ text : List α, (∀ c ∈ text.getLast?, blank c = false) →
      (text++b).rdropWhile blank = text := by
    intro text hlast
    rw [List.rdropWhile,List.reverse_append,List.dropWhile_append_of_pos (by simpa using hb)]
    cases htext : text.reverse with
    | nil =>
      rw [List.reverse_eq_nil_iff.mp htext]
      rfl
    | cons c rest =>
      have hc : blank c = false := hlast c (by rw [List.getLast?_eq_head?_reverse,htext]; rfl)
      rw [List.dropWhile_cons_of_neg (by simp [hc]),← htext,List.reverse_reverse]
  rw [strip,List.append_assoc,List.dropWhile_append_of_pos ha]
  cases htext : text with
  | nil =>
    rw [List.nil_append,List.dropWhile_eq_nil_iff.mpr hb]
    rfl
  | cons c rest =>
    have hc : blank c = false := hhead c (by rw [htext]; rfl)
    rw [List.cons_append,List.dropWhile_cons_of_neg (by simp [hc]),← List.cons_append,← htext]
    exact hright text hlast

omit [DecidableEq α] in
theorem strip_eq_self {text : List α} (hhead : ∀ c ∈ text.head?, blank c = false)
    (hlast : ∀ c ∈ text.getLast?, blank c = false) : strip blank text = text := by
  have h := strip_append (a:=[]) (b:=[]) (by simp) (by simp) hhead hlast
  rwa [List.nil_append,List.append_nil] at h

theorem count_strip {text : List α} {x : α} (hx : blank x = false) :
    (strip blank text).count x = text.count x := by
  have hfront : ∀ text : List α, (text.dropWhile blank).count x = text.count x := by
    intro text
    have hzero : (text.takeWhile blank).count x = 0 := List.count_eq_zero.mpr fun hmem => by
      rw [List.mem_takeWhile_imp hmem] at hx
      cases hx
    conv_rhs => rw [← List.takeWhile_append_dropWhile (p:=blank) (l:=text)]
    rw [List.count_append,hzero,Nat.zero_add]
  rw [strip,List.rdropWhile,List.count_reverse,hfront,List.count_reverse,hfront]

omit [DecidableEq α] in
theorem mem_of_mem_strip {text : List α} {c : α} (h : c ∈ strip blank text) : c ∈ text :=
  (List.dropWhile_sublist _).mem ((List.rdropWhile_prefix ..).mem h)

omit [DecidableEq α] in
theorem words_append_cons {a b : List α} {c : α} (hc : blank c = true) :
    words blank (a++c::b) = words blank a++words blank b := by
  rw [words,List.splitOnP_append_cons _ _ hc,List.filter_append]
  rfl

omit [DecidableEq α] in
theorem words_single {w : List α} (hne : w ≠ []) (hw : ∀ c ∈ w, blank c = false) :
    words blank w = [w] := by
  rw [words,List.splitOnP_eq_singleton hw,List.filter_cons_of_pos (by simpa using hne)]
  rfl

omit [DecidableEq α] in
theorem words_blank_append {a b : List α} (ha : ∀ c ∈ a, blank c = true) :
    words blank (a++b) = words blank b := by
  induction a with
  | nil => rfl
  | cons c a ih =>
    obtain ⟨hc,ha⟩ := List.forall_mem_cons.mp ha
    have hsplit := words_append_cons (a:=[]) (b:=a++b) hc
    rw [List.cons_append]
    exact hsplit.trans (ih ha)

omit [DecidableEq α] in
theorem words_word_blank {w a b : List α} (hne : w ≠ []) (hw : ∀ c ∈ w, blank c = false)
    (ha : ∀ c ∈ a, blank c = true) (hnil : a ≠ []) : words blank (w++a++b) = w::words blank b := by
  cases a with
  | nil => exact absurd rfl hnil
  | cons c a =>
    obtain ⟨hc,ha⟩ := List.forall_mem_cons.mp ha
    rw [List.append_assoc,List.cons_append,words_append_cons hc,words_single hne hw,
      words_blank_append ha]
    rfl

end Blanks

/-! ## Lines -/

/-- `text.splitlines()` where only single characters end a line. -/
def lines (ends : α → Bool) : List α → List (List α)
  | [] => []
  | c::text =>
    if ends c then []::lines ends text
    else match lines ends text with
      | [] => [[c]]
      | l::ls => (c::l)::ls

section Lines

variable {ends : α → Bool}

omit [DecidableEq α] in
/-- Nothing in a line ends a line. -/
theorem not_ends_of_mem_lines {text l : List α} (h : l ∈ lines ends text) {c : α} (hc : c ∈ l) :
    ends c = false := by
  induction text generalizing l with
  | nil => cases h
  | cons x text ih =>
    rw [lines] at h
    split at h
    · rcases List.mem_cons.mp h with rfl | h
      · cases hc
      · exact ih h hc
    · next hx =>
      have hx : ends x = false := Bool.eq_false_iff.mpr hx
      split at h
      · obtain rfl := List.mem_singleton.mp h
        obtain rfl := List.mem_singleton.mp hc
        exact hx
      · next l' ls heq =>
        rcases List.mem_cons.mp h with rfl | h
        · rcases List.mem_cons.mp hc with rfl | hc
          · exact hx
          · exact ih (heq ▸ List.mem_cons_self) hc
        · exact ih (heq ▸ List.mem_cons_of_mem _ h) hc

omit [DecidableEq α] in
theorem lines_append_end {l : List α} (hl : ∀ c ∈ l, ends c = false) {e : α} (he : ends e = true)
    (text : List α) : lines ends (l++e::text) = l::lines ends text := by
  induction l with
  | nil => rw [List.nil_append,lines,if_pos he]
  | cons c l ih =>
    obtain ⟨hc,hl⟩ := List.forall_mem_cons.mp hl
    rw [List.cons_append,lines,if_neg (by simp [hc]),ih hl]

omit [DecidableEq α] in
/-- What has been written line by line is read line by line. -/
theorem lines_flatMap {e : α} (he : ends e = true) {ls : List (List α)}
    (h : ∀ l ∈ ls, ∀ c ∈ l, ends c = false) : lines ends (ls.flatMap (·++[e])) = ls := by
  induction ls with
  | nil => rfl
  | cons l ls ih =>
    obtain ⟨hl,hls⟩ := List.forall_mem_cons.mp h
    rw [List.flatMap_cons,List.append_assoc,List.singleton_append,lines_append_end hl he,ih hls]

omit [DecidableEq α] in
theorem intercalate_append_end (e : α) (ls : List (List α)) :
    List.intercalate [e] ls++(if ls.isEmpty then [] else [e]) = ls.flatMap (·++[e]) := by
  induction ls with
  | nil => rfl
  | cons l ls ih =>
    cases ls with
    | nil => simp [List.intercalate]
    | cons l' ls =>
      rw [List.flatMap_cons,← ih]
      simp [List.intercalate]

end Lines

end TextPieces
