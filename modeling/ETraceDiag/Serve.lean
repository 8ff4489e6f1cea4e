import ETraceDiag.PosixPath
import Mathlib.Data.List.TakeWhile

/-!
# The file server of the viewer

`tools/viz/serve.py`: the paths of requests are mapped to files below the output directory or below
the directory of the page.
-/

namespace ETraceDiag
namespace Serve

open PosixPath

/-- `urllib.parse.unquote`, which leaves a text without percent signs as it is. -/
structure Unquote where
  fn : Path → Path
  plain : ∀ p, '%' ∉ p → fn p = p

/-- The last part of `os.path.split`. -/
def splitTail (word : Path) : Path := (word.reverse.takeWhile (· ≠ '/')).reverse

/-- One round of the loop over the words. -/
def serveStep (result word : Path) : Path :=
  let word := splitTail word
  if word = ['.'] ∨ word = ['.','.'] then result else join result word

def outWord : Path := ['o','u','t']
def toolsWord : Path := ['t','o','o','l','s']
def vizWord : Path := ['v','i','z']

/-- `/tools/viz/out/...` is another name of `/out/...`. -/
def unalias (ws : List Path) : List Path :=
  match ws with
  | t::v::o::rest => if t = toolsWord ∧ v = vizWord ∧ o = outWord then outWord::rest else ws
  | _ => ws

/-- The directory and what is left of the words. -/
def select (outDir viz : Path) (ws : List Path) : Path × List Path :=
  match ws with
  | [] => (viz,ws)
  | w::rest =>
    if w = outWord then (outDir,rest)
    else
      match rest with
      | v::rest' => if w = toolsWord ∧ v = vizWord then (viz,rest') else (viz,ws)
      | [] => (viz,ws)

def translatePath (u : Unquote) (outDir viz path : Path) : Path :=
  let path := (path.takeWhile (· ≠ '?')).takeWhile (· ≠ '#')
  let picked := select outDir viz (unalias (words (normpath (u.fn path))))
  picked.2.foldl serveStep picked.1

/-! ## Nothing else is served -/

theorem select_out (outDir viz : Path) (ws : List Path) :
    select outDir viz (outWord::ws) = (outDir,ws) := by
  simp [select]

theorem mem_of_mem_select (outDir viz : Path) (ws : List Path) :
    ∀ w ∈ (select outDir viz (unalias ws)).2, w ∈ ws := by
  have hselect : ∀ ws : List Path, (select outDir viz ws).2 ⊆ ws := by
    intro ws
    unfold select
    split
    · exact List.Subset.refl _
    · next w rest =>
      split
      · exact List.subset_cons_self _ _
      · split
        · next v rest' =>
          split
          · exact fun x hx => List.mem_cons_of_mem _ (List.mem_cons_of_mem _ hx)
          · exact List.Subset.refl _
        · exact List.Subset.refl _
  unfold unalias
  split
  · next t v o rest =>
    split
    · next h =>
      rw [select_out]
      exact fun w hw => List.mem_cons_of_mem _ (List.mem_cons_of_mem _ (List.mem_cons_of_mem _ hw))
    · exact hselect _
  · exact hselect _

theorem splitTail_eq {w : Path} (h : '/' ∉ w) : splitTail w = w := by
  have hall : w.reverse.takeWhile (· ≠ '/') = w.reverse := by
    refine List.takeWhile_eq_self_iff.mpr fun c hc => decide_eq_true fun heq => h ?_
    exact heq ▸ List.mem_reverse.mp hc
  rw [splitTail,hall,List.reverse_reverse]

/-- The words that count are names. -/
theorem foldl_serveStep {ws : List Path} (h : ∀ w ∈ ws, w ≠ [] ∧ '/' ∉ w) (base : Path) :
    ∃ names, (∀ w ∈ names, Name w) ∧ ws.foldl serveStep base = joins base names := by
  induction ws generalizing base with
  | nil => exact ⟨[],List.forall_mem_nil _,rfl⟩
  | cons w ws ih =>
    obtain ⟨⟨hne,hslash⟩,hws⟩ := List.forall_mem_cons.mp h
    rw [List.foldl_cons,serveStep,splitTail_eq hslash]
    split
    · exact ih hws base
    · next hdots =>
      obtain ⟨names,hnames,heq⟩ := ih hws (join base w)
      obtain ⟨hdot,hdotdot⟩ := not_or.mp hdots
      exact ⟨w::names,List.forall_mem_cons.mpr ⟨⟨hne,hslash,hdot,hdotdot⟩,hnames⟩,heq⟩

theorem select_fst (outDir viz : Path) (ws : List Path) :
    (select outDir viz ws).1 = outDir ∨ (select outDir viz ws).1 = viz := by
  unfold select
  split
  · exact .inr rfl
  · split
    · exact .inl rfl
    · split
      · split <;> exact .inr rfl
      · exact .inr rfl

/-- Whatever is asked for, the file lies below the output directory or below the page. -/
theorem served_inside (u : Unquote) (outDir viz path : Path) :
    Inside outDir (translatePath u outDir viz path) ∨
      Inside viz (translatePath u outDir viz path) := by
  let ws := words (normpath (u.fn ((path.takeWhile (· ≠ '?')).takeWhile (· ≠ '#'))))
  have hwords : ∀ w ∈ (select outDir viz (unalias ws)).2, w ≠ [] ∧ '/' ∉ w :=
    fun w hw => mem_words (mem_of_mem_select outDir viz ws w hw)
  obtain ⟨names,hnames,heq⟩ := foldl_serveStep hwords (select outDir viz (unalias ws)).1
  have hfile : translatePath u outDir viz path =
      joins (select outDir viz (unalias ws)).1 names := heq
  rcases select_fst outDir viz (unalias ws) with h | h
  · exact .inl ⟨names,hnames,hfile.trans (by rw [h])⟩
  · exact .inr ⟨names,hnames,hfile.trans (by rw [h])⟩

/-! ## Everything there is served -/

/-- The word needs no quoting. -/
def Clean (w : Path) : Prop := '?' ∉ w ∧ '#' ∉ w ∧ '%' ∉ w

/-- What a request may carry behind its path. -/
def Query (q : Path) : Prop := q = [] ∨ q.head? = some '?' ∨ q.head? = some '#'

theorem notMem_slashed {c : Char} (hc : c ≠ '/') {ws : List Path} (h : ∀ w ∈ ws, c ∉ w) :
    c ∉ slashed ws := by
  intro hmem
  obtain ⟨w,hw,hmem⟩ := List.mem_flatMap.mp hmem
  rcases List.mem_cons.mp hmem with heq | hmem
  · exact hc heq
  · exact h w hw hmem

theorem takeWhile_query {p q : Path} (hmark : '?' ∉ p) (hhash : '#' ∉ p) (hq : Query q) :
    ((p++q).takeWhile (· ≠ '?')).takeWhile (· ≠ '#') = p := by
  have hp : ∀ c ∈ p, decide (c ≠ '?') = true := fun c hc => decide_eq_true fun h => hmark (h ▸ hc)
  have hp' : ∀ c ∈ p, decide (c ≠ '#') = true := fun c hc => decide_eq_true fun h => hhash (h ▸ hc)
  have hrest : (q.takeWhile (· ≠ '?')).takeWhile (· ≠ '#') = [] := by
    rcases hq with rfl | hq | hq
    · rfl
    · obtain ⟨q,rfl⟩ := List.head?_eq_some_iff.mp hq
      rfl
    · obtain ⟨q,rfl⟩ := List.head?_eq_some_iff.mp hq
      rfl
  rw [List.takeWhile_append_of_pos hp,List.takeWhile_append_of_pos hp',hrest,List.append_nil]

theorem foldl_serveStep_names {ws : List Path} (h : ∀ w ∈ ws, Name w) :
    ∀ base, ws.foldl serveStep base = joins base ws := by
  induction ws with
  | nil => exact fun _ => rfl
  | cons w ws ih =>
    intro base
    obtain ⟨hw,hws⟩ := List.forall_mem_cons.mp h
    rw [List.foldl_cons,serveStep,splitTail_eq hw.slash,if_neg (not_or.mpr ⟨hw.dot,hw.dotdot⟩)]
    exact ih hws _

theorem translatePath_slashed (u : Unquote) (outDir viz : Path) {ws : List Path} (hne : ws ≠ [])
    (h : ∀ w ∈ ws, Name w ∧ Clean w) {q : Path} (hq : Query q) :
    translatePath u outDir viz (slashed ws++q) =
      joins (select outDir viz (unalias ws)).1 (select outDir viz (unalias ws)).2 := by
  have hnames : ∀ w ∈ ws, Name w := fun w hw => (h w hw).1
  have hcut := takeWhile_query (notMem_slashed (by decide) fun w hw => (h w hw).2.1)
    (notMem_slashed (by decide) fun w hw => (h w hw).2.2.1) hq
  have hplain : '%' ∉ slashed ws := notMem_slashed (by decide) fun w hw => (h w hw).2.2.2
  rw [translatePath]
  simp only [hcut,u.plain _ hplain,normpath_slashed hne hnames,words_slashed hnames]
  exact foldl_serveStep_names (fun w hw => hnames w (mem_of_mem_select outDir viz ws w hw)) _

theorem clean_words : (Name outWord ∧ Clean outWord) ∧ (Name toolsWord ∧ Clean toolsWord) ∧
    Name vizWord ∧ Clean vizWord :=
  ⟨⟨⟨by decide,by decide,by decide,by decide⟩,by decide,by decide,by decide⟩,
    ⟨⟨by decide,by decide,by decide,by decide⟩,by decide,by decide,by decide⟩,
    ⟨by decide,by decide,by decide,by decide⟩,by decide,by decide,by decide⟩

theorem unalias_out (ws : List Path) : unalias (outWord::ws) = outWord::ws := by
  unfold unalias
  split
  · next heq =>
    refine if_neg fun hw => ?_
    exact absurd ((List.cons.inj heq).1.trans hw.1) (by decide)
  · rfl

end Serve
end ETraceDiag
