import Mathlib.Algebra.Ring.Nat
import Mathlib.Data.List.Basic

/-!
# Paths

Paths are texts whose parts are separated by slashes, as the `posixpath` module of Python handles
them: taken apart, normalised and joined. A name is a part that stays in its directory.
-/

namespace PosixPath

abbrev Path := List Char

/-- A part that names an entry of a directory. -/
structure Name (w : Path) : Prop where
  ne_nil : w ≠ []
  slash : '/' ∉ w
  dot : w ≠ ['.']
  dotdot : w ≠ ['.','.']

/-- `[w for w in path.split("/") if w]` -/
def words (p : Path) : List Path := (p.splitOn '/').filter (· ≠ [])

/-- The names of a path with a slash in front of each. -/
def slashed (ws : List Path) : Path := ws.flatMap ('/'::·)

/-! ## normpath -/

def normStep (rooted : Bool) (comps : List Path) (comp : Path) : List Path :=
  if comp = [] ∨ comp = ['.'] then comps
  else if comp ≠ ['.','.'] ∨ (rooted = false ∧ comps = []) ∨ comps.getLast? = some ['.','.'] then
    comps++[comp]
  else comps.dropLast

/-- Two slashes in front are kept, three count as one. -/
def initialSlashes : Path → ℕ
  | '/' :: '/' :: '/' :: _ => 1
  | '/' :: '/' :: _ => 2
  | '/' :: _ => 1
  | _ => 0

def normpath (p : Path) : Path :=
  if p = [] then ['.']
  else
    let slashes := initialSlashes p
    let comps := (p.splitOn '/').foldl (normStep (slashes ≠ 0)) []
    let path := List.replicate slashes '/'++['/'].intercalate comps
    if path = [] then ['.'] else path

/-! ## join -/

def join (a b : Path) : Path :=
  if b.head? = some '/' then b
  else if a = [] ∨ a.getLast? = some '/' then a++b
  else a++ '/'::b

def joins (base : Path) (ws : List Path) : Path := ws.foldl join base

/-- The file lies in the directory, or is the directory itself. -/
def Inside (base file : Path) : Prop := ∃ ws, (∀ w ∈ ws, Name w) ∧ file = joins base ws

theorem Name.head {w : Path} (h : Name w) : w.head? ≠ some '/' :=
  fun heq => h.slash (List.mem_of_mem_head? (Option.mem_def.mpr heq))

theorem Name.getLast {w : Path} (h : Name w) : w.getLast? ≠ some '/' :=
  fun heq => h.slash (List.mem_of_mem_getLast? (Option.mem_def.mpr heq))

/-- Names are put behind the directory. -/
theorem joins_eq {base : Path} (hne : base ≠ []) (hlast : base.getLast? ≠ some '/')
    {ws : List Path} (h : ∀ w ∈ ws, Name w) : joins base ws = base++slashed ws := by
  induction ws generalizing base with
  | nil => exact (List.append_nil _).symm
  | cons w ws ih =>
    obtain ⟨hw,hws⟩ := List.forall_mem_cons.mp h
    have hjoin : join base w = base++ '/'::w := by
      rw [join,if_neg hw.head,if_neg (not_or.mpr ⟨hne,hlast⟩)]
    have hlast' : (base++ '/'::w).getLast? ≠ some '/' := by
      obtain ⟨c,v,rfl⟩ := List.exists_cons_of_ne_nil hw.ne_nil
      have hv : (base++ '/'::c::v).getLast? = (c::v).getLast? := by
        rw [List.getLast?_append,List.getLast?_cons_cons,
          List.getLast?_eq_some_getLast (List.cons_ne_nil c v)]
        rfl
      rw [hv]
      exact hw.getLast
    rw [joins,List.foldl_cons,hjoin]
    refine (ih (by simp) hlast' hws).trans ?_
    rw [slashed,slashed,List.flatMap_cons,List.append_assoc]

/-! ## What the parts are -/

theorem notMem_of_mem_splitOn (p : Path) : ∀ w ∈ p.splitOn '/', '/' ∉ w := by
  induction p with
  | nil =>
    rw [List.splitOn_nil]
    exact List.forall_mem_singleton.mpr List.not_mem_nil
  | cons c p ih =>
    rw [List.splitOn_cons_eq_if_modifyHead]
    split
    · exact List.forall_mem_cons.mpr ⟨List.not_mem_nil,ih⟩
    · next hc =>
      obtain ⟨v,vs,hsplit⟩ := List.exists_cons_of_ne_nil (List.splitOn_ne_nil '/' p)
      rw [hsplit] at ih ⊢
      obtain ⟨hv,hvs⟩ := List.forall_mem_cons.mp ih
      refine List.forall_mem_cons.mpr ⟨?_,hvs⟩
      rw [List.mem_cons,not_or]
      exact ⟨fun heq => hc (heq ▸ beq_self_eq_true _),hv⟩

theorem mem_words {p w : Path} (h : w ∈ words p) : w ≠ [] ∧ '/' ∉ w := by
  obtain ⟨hw,hne⟩ := List.mem_filter.mp h
  exact ⟨of_decide_eq_true hne,notMem_of_mem_splitOn p w hw⟩

theorem intercalate_eq (ws : List Path) : ∀ w, ['/'].intercalate (w::ws) = w++slashed ws := by
  induction ws with
  | nil => exact fun w => by simp [slashed]
  | cons v ws ih =>
    intro w
    rw [List.intercalate_cons_cons,ih,slashed,slashed,List.flatMap_cons,List.append_assoc]
    rfl

theorem splitOn_slashed {ws : List Path} (h : ∀ w ∈ ws, Name w) :
    (slashed ws).splitOn '/' = []::ws := by
  rw [← List.nil_append (slashed ws),← intercalate_eq]
  refine List.splitOn_intercalate '/' ?_ (List.cons_ne_nil _ _)
  exact List.forall_mem_cons.mpr ⟨List.not_mem_nil,fun w hw => (h w hw).slash⟩

theorem words_slashed {ws : List Path} (h : ∀ w ∈ ws, Name w) : words (slashed ws) = ws := by
  rw [words,splitOn_slashed h,List.filter_cons]
  exact List.filter_eq_self.mpr fun w hw => decide_eq_true (h w hw).ne_nil

theorem foldl_normStep {ws : List Path} (h : ∀ w ∈ ws, Name w) (rooted : Bool) :
    ∀ comps, ws.foldl (normStep rooted) comps = comps++ws := by
  induction ws with
  | nil => exact fun _ => (List.append_nil _).symm
  | cons w ws ih =>
    intro comps
    obtain ⟨hw,hws⟩ := List.forall_mem_cons.mp h
    rw [List.foldl_cons,ih hws,normStep,if_neg (not_or.mpr ⟨hw.ne_nil,hw.dot⟩),
      if_pos (.inl hw.dotdot),List.append_assoc]
    rfl

/-- Nothing is to be normalised in a path of names. -/
theorem normpath_slashed {ws : List Path} (hne : ws ≠ []) (h : ∀ w ∈ ws, Name w) :
    normpath (slashed ws) = slashed ws := by
  obtain ⟨w,ws,rfl⟩ := List.exists_cons_of_ne_nil hne
  obtain ⟨c,v,rfl⟩ := List.exists_cons_of_ne_nil (h w List.mem_cons_self).ne_nil
  have hc : c ≠ '/' := fun heq => (h _ List.mem_cons_self).slash (heq ▸ List.mem_cons_self)
  have hslashed : slashed ((c::v)::ws) = '/'::c::(v++slashed ws) := rfl
  have hone : initialSlashes (slashed ((c::v)::ws)) = 1 := by
    rw [hslashed,initialSlashes]
    · intro rest heq
      exact hc (List.cons.inj heq).1
    · intro rest heq
      exact hc (List.cons.inj heq).1
  rw [normpath,if_neg (by rw [hslashed]; exact List.cons_ne_nil _ _),hone,splitOn_slashed h]
  have hcomps : ([]::(c::v)::ws).foldl (normStep true) [] = (c::v)::ws := by
    rw [List.foldl_cons]
    exact foldl_normStep h true []
  show (if ['/']++['/'].intercalate (([]::(c::v)::ws).foldl (normStep true) []) = [] then _ else
    ['/']++['/'].intercalate (([]::(c::v)::ws).foldl (normStep true) [])) = _
  rw [hcomps,intercalate_eq]
  rfl

end PosixPath
