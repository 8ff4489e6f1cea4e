import ETraceDiag.FoldedText
import ETraceDiag.NestedBoxes
import Mathlib.Algebra.Order.BigOperators.Group.List
import Mathlib.Algebra.Order.Field.Basic
import Mathlib.Algebra.Order.Field.Rat
import Mathlib.Tactic.Linarith
import Mathlib.Tactic.Ring

/-!
# The flame graph

`V.Flame` of `flame.js`: the tree of the folded lines that pass the filter, the rectangles that are
drawn of it below a focus, and the node that is found under a point. Widths are exact numbers; a
node is known by the names on the way to it.
-/

namespace ETraceDiag
namespace FlameGraph

open FoldedText (FoldedLine)
open NestedBoxes

abbrev Frame := List Char

/-- A node; the entries of its `children` in the order of insertion. -/
inductive Node
  | mk (name : Frame) (value self : ℚ) (children : List Node)

def Node.name : Node → Frame
  | mk name _ _ _ => name

def Node.value : Node → ℚ
  | mk _ value _ _ => value

def Node.children : Node → List Node
  | mk _ _ _ children => children

@[simp] theorem Node.name_mk (name : Frame) (value self : ℚ) (children : List Node) :
    (mk name value self children).name = name := rfl

@[simp] theorem Node.value_mk (name : Frame) (value self : ℚ) (children : List Node) :
    (mk name value self children).value = value := rfl

@[simp] theorem Node.children_mk (name : Frame) (value self : ℚ) (children : List Node) :
    (mk name value self children).children = children := rfl

/-! ## _buildTree -/

/-- `children.get(name)` goes on with `f`, or a new node that is set behind the others. -/
def onChild (name : Frame) (f : Node → Node) : List Node → List Node
  | [] => [f ⟨name,0,0,[]⟩]
  | child::rest => if child.name = name then f child::rest else child::onChild name f rest

/-- A line below a node: its value counts for every frame, and as own value for the last. -/
def addLine (v : ℚ) : List Frame → Node → Node
  | [],⟨name,value,self,children⟩ => ⟨name,value+v,self+v,children⟩
  | frame::frames,⟨name,value,self,children⟩ =>
    ⟨name,value+v,self,onChild frame (addLine v frames) children⟩

/-- `{pid,tid}`; null and 0 let everything pass. -/
structure Filter where
  pid : Option ℚ
  tid : Option ℚ

/-- `!wanted || of === wanted`. -/
def passes (wanted : Option ℚ) (num : Option ℚ) : Bool :=
  wanted = none || wanted = some 0 || num = wanted

def Filter.keeps (f : Filter) (l : FoldedLine ℚ) : Bool :=
  passes f.pid (l.p.map (·.num)) && passes f.tid (l.t.map (·.num))

def emptyRoot : Node := ⟨"root".toList,0,0,[]⟩

def buildTree (lines : List (FoldedLine ℚ)) (f : Filter) : Node :=
  (lines.filter f.keeps).foldl (fun root l => addLine l.value l.frames root) emptyRoot

/-- The node at the end of a way down. -/
def Node.descend : List Frame → Node → Option Node
  | [],node => some node
  | frame::frames,node => (node.children.find? (·.name = frame)).bind (Node.descend frames)

/-! ## _drawNode and _hit -/

def rowH : ℚ := 16

/-- A rectangle that is filled, and the way from the focus to its node. -/
structure Rect where
  path : List Frame
  value : ℚ
  x : ℚ
  y : ℚ
  w : ℚ
  h : ℚ

mutual

/-- `_drawNode`. -/
def drawNode (total : ℚ) : Node → List Frame → ℚ → ℚ → ℚ → List Rect
  | ⟨_,value,_,children⟩,path,x,y,w =>
    ⟨path,value,x,y,max 0 (value/total*w),rowH-1⟩::drawChildren total children path x y w

/-- The children of a node at `y`, from `cx` on. -/
def drawChildren (total : ℚ) : List Node → List Frame → ℚ → ℚ → ℚ → List Rect
  | [],_,_,_,_ => []
  | child::rest,path,cx,y,w =>
    let cw := child.value/total*w
    if cw < 1/2 then drawChildren total rest path cx y w
    else drawNode total child (path++[child.name]) cx (y+rowH) cw++
      drawChildren total rest path (cx+cw) y w

end

mutual

/-- `_hit`. -/
def hit (total px py : ℚ) : Node → List Frame → ℚ → ℚ → ℚ → Option (List Frame)
  | ⟨_,value,_,children⟩,path,x,y,w =>
    let pw := max 0 (value/total*w)
    if y ≤ py ∧ py < y+rowH ∧ x ≤ px ∧ px < x+pw then some path
    else hitChildren total px py children path x y w

/-- The first child, from `cx` on, that the point is in. -/
def hitChildren (total px py : ℚ) : List Node → List Frame → ℚ → ℚ → ℚ → Option (List Frame)
  | [],_,_,_,_ => none
  | child::rest,path,cx,y,w =>
    let cw := child.value/total*w
    if cw < 1/2 then hitChildren total px py rest path cx y w
    else (hit total px py child (path++[child.name]) cx (y+rowH) cw).or
      (hitChildren total px py rest path (cx+cw) y w)

end

/-- The view: folded data, a filter and a focus of the tree. Values are positive, as the parser of
the folded text has them. -/
structure Flame where
  lines : List (FoldedLine ℚ)
  positive : ∀ l ∈ lines, 0 < l.value
  filter : Filter
  focusPath : List Frame
  focus : Node
  inTree : (buildTree lines filter).descend focusPath = some focus

/-- What `_render` fills of the frames. -/
def Flame.drawn (f : Flame) (clientWidth : ℕ) : List Rect :=
  if f.focus.value = 0 then [] else drawNode f.focus.value f.focus [] 0 0 clientWidth

/-- `_nodeAt`. -/
def Flame.nodeAt (f : Flame) (clientWidth : ℕ) (px py : ℚ) : Option (List Frame) :=
  if f.focus.value = 0 then none else hit f.focus.value px py f.focus [] 0 0 clientWidth

/-! ## The tree -/

/-- The value of a node is its own and those of its children, whose names are told apart. -/
inductive Node.Summed : Node → Prop
  | mk {name : Frame} {value self : ℚ} {children : List Node} (self_nonneg : 0 ≤ self)
    (value_eq : value = self+(children.map Node.value).sum)
    (names : (children.map Node.name).Nodup) (below : ∀ c ∈ children, Node.Summed c) :
    Node.Summed ⟨name,value,self,children⟩

theorem sum_nonneg {cs : List Node} (h : ∀ c ∈ cs, 0 ≤ c.value) : 0 ≤ (cs.map Node.value).sum :=
  List.sum_nonneg fun v hv => by
    obtain ⟨c,hc,rfl⟩ := List.mem_map.mp hv
    exact h c hc

theorem Node.Summed.nonneg {node : Node} (h : node.Summed) : 0 ≤ node.value := by
  induction h with
  | mk hself hvalue _ _ ih =>
    rw [Node.value_mk,hvalue]
    exact add_nonneg hself (sum_nonneg ih)

theorem Node.Summed.sum_children_le {node : Node} (h : node.Summed) :
    (node.children.map Node.value).sum ≤ node.value := by
  cases h with
  | mk hself hvalue =>
    rw [Node.value_mk,Node.children_mk,hvalue]
    exact le_add_of_nonneg_left hself

theorem Node.Summed.child {node c : Node} (h : node.Summed) (hc : c ∈ node.children) :
    c.Summed ∧ c.value ≤ node.value := by
  have hsum := h.sum_children_le
  cases h with
  | mk _ _ _ hbelow =>
    refine ⟨hbelow c hc,le_trans (List.single_le_sum (fun v hv => ?_) _ ?_) hsum⟩
    · obtain ⟨c',hc',rfl⟩ := List.mem_map.mp hv
      exact (hbelow c' hc').nonneg
    · exact List.mem_map_of_mem hc

/-- What going on with a child has to keep. -/
structure AddsTo (v : ℚ) (f : Node → Node) : Prop where
  name : ∀ node, (f node).name = node.name
  value : ∀ node, (f node).value = node.value+v
  summed : ∀ node, node.Summed → (f node).Summed

theorem summed_fresh (name : Frame) : (Node.mk name 0 0 []).Summed :=
  .mk le_rfl (by simp) (by simp) (by simp)

theorem sum_onChild {v : ℚ} {f : Node → Node} (hf : AddsTo v f) (name : Frame) (cs : List Node) :
    ((onChild name f cs).map Node.value).sum = (cs.map Node.value).sum+v := by
  induction cs with
  | nil => simp [onChild,hf.value]
  | cons c cs ih =>
    rw [onChild]
    split
    · rw [List.map_cons,List.map_cons,List.sum_cons,List.sum_cons,hf.value]
      exact add_right_comm _ _ _
    · rw [List.map_cons,List.map_cons,List.sum_cons,List.sum_cons,ih,add_assoc]

theorem names_onChild {v : ℚ} {f : Node → Node} (hf : AddsTo v f) (name : Frame) (cs : List Node) :
    (onChild name f cs).map Node.name =
      if name ∈ cs.map Node.name then cs.map Node.name else cs.map Node.name++[name] := by
  induction cs with
  | nil => simp [onChild,hf.name]
  | cons c cs ih =>
    rw [onChild]
    split
    · next hname =>
      rw [List.map_cons,List.map_cons,hf.name,if_pos (by simp [hname])]
    · next hname =>
      rw [List.map_cons,ih,List.map_cons]
      simp only [List.mem_cons,Ne.symm hname,false_or]
      split <;> rfl

theorem summed_onChild {v : ℚ} {f : Node → Node} (hf : AddsTo v f) (name : Frame) {cs : List Node}
    (h : ∀ c ∈ cs, c.Summed) : ∀ c ∈ onChild name f cs, c.Summed := by
  induction cs with
  | nil =>
    rw [onChild]
    exact List.forall_mem_singleton.mpr (hf.summed _ (summed_fresh name))
  | cons c cs ih =>
    obtain ⟨hc,hcs⟩ := List.forall_mem_cons.mp h
    rw [onChild]
    split
    · exact List.forall_mem_cons.mpr ⟨hf.summed c hc,hcs⟩
    · exact List.forall_mem_cons.mpr ⟨hc,ih hcs⟩

theorem addsTo_addLine {v : ℚ} (hv : 0 ≤ v) : ∀ frames, AddsTo v (addLine v frames)
  | [] => by
    refine ⟨fun ⟨_,_,_,_⟩ => rfl,fun ⟨_,_,_,_⟩ => rfl,?_⟩
    rintro _ ⟨hself,hvalue,hnames,hbelow⟩
    refine .mk (add_nonneg hself hv) ?_ hnames hbelow
    rw [hvalue]
    exact add_right_comm _ _ _
  | frame::frames => by
    have hf := addsTo_addLine hv frames
    refine ⟨fun ⟨_,_,_,_⟩ => rfl,fun ⟨_,_,_,_⟩ => rfl,?_⟩
    rintro _ ⟨hself,hvalue,hnames,hbelow⟩
    refine .mk hself ?_ ?_ (summed_onChild hf frame hbelow)
    · rw [sum_onChild hf,hvalue,add_assoc]
    · rw [names_onChild hf]
      split
      · exact hnames
      · next hnot => exact List.nodup_append.mpr ⟨hnames,by simp,by simpa using hnot⟩

theorem summed_buildTree {lines : List (FoldedLine ℚ)} (h : ∀ l ∈ lines, 0 < l.value) (f : Filter) :
    (buildTree lines f).Summed := by
  have hkept : ∀ l ∈ lines.filter f.keeps, 0 < l.value := fun l hl => h l (List.mem_filter.mp hl).1
  rw [buildTree]
  generalize lines.filter f.keeps = kept at hkept
  induction kept using List.reverseRecOn with
  | nil => exact summed_fresh _
  | append_singleton kept l ih =>
    rw [List.foldl_append]
    refine (addsTo_addLine (hkept l (by simp)).le l.frames).summed _ (ih fun l' hl' => ?_)
    exact hkept l' (List.mem_append_left _ hl')

theorem summed_descend : ∀ (path : List Frame) {node focus : Node}, node.Summed →
    node.descend path = some focus → focus.Summed
  | [],_,_,h,heq => Option.some.inj heq ▸ h
  | _::path,_,_,h,heq => by
    obtain ⟨c,hc,heq⟩ := Option.bind_eq_some_iff.mp heq
    exact summed_descend path (h.child (List.mem_of_find?_eq_some hc)).1 heq

theorem Flame.summed_focus (f : Flame) : f.focus.Summed :=
  summed_descend f.focusPath (summed_buildTree f.positive f.filter) f.inTree

/-! ## Rectangles beside and below each other -/

def Rect.right (r : Rect) : ℚ := r.x+r.w

section Layout

variable {total : ℚ}

/-- A frame is not wider than the place that it is given. -/
theorem share_le {v w : ℚ} (ht : 0 < total) (h0 : 0 ≤ v) (hv : v ≤ total) (hw : 0 ≤ w) :
    0 ≤ v/total*w ∧ v/total*w ≤ w := by
  have hshare : v/total ≤ 1 := (div_le_one ht).mpr hv
  exact ⟨mul_nonneg (div_nonneg h0 ht.le) hw,mul_le_of_le_one_left hw hshare⟩

/-- What is drawn of a node: its rectangles under paths that go on from its own, one row further
down for each frame, and laid out from `x` on. -/
structure Draws (total : ℚ) (node : Node) (path : List Frame) (x y w : ℚ) : Prop where
  laid : Laid Rect.path Rect.x Rect.right x (x+node.value/total*w) (drawNode total node path x y w)
  way : ∀ r ∈ drawNode total node path x y w, path <+: r.path
  row : ∀ r ∈ drawNode total node path x y w, r.y = y+(r.path.length-path.length : ℚ)*rowH

/-- The same of the children of a node at `y`. -/
structure DrawsChildren (total : ℚ) (cs : List Node) (path : List Frame) (cx y w : ℚ) : Prop where
  laid : Laid Rect.path Rect.x Rect.right cx (cx+(cs.map Node.value).sum/total*w)
    (drawChildren total cs path cx y w)
  way : ∀ r ∈ drawChildren total cs path cx y w, ∃ c ∈ cs, path++[c.name] <+: r.path
  row : ∀ r ∈ drawChildren total cs path cx y w, r.y = y+(r.path.length-path.length : ℚ)*rowH

/-- Paths of different children do not go on from each other. -/
theorem not_prefix_of_ne {path p q : List Frame} {a b : Frame} (hne : a ≠ b)
    (hp : path++[a] <+: p) (hq : path++[b] <+: q) : ¬ p <+: q := by
  intro h
  have hboth := List.prefix_of_prefix_length_le (hp.trans h) hq (by simp)
  rw [List.prefix_append_right_inj] at hboth
  exact hne (List.cons_prefix_cons.mp hboth).1

theorem drawsChildren {cs : List Node} (ht : 0 < total) (hnames : (cs.map Node.name).Nodup)
    (hle : ∀ c ∈ cs, 0 ≤ c.value ∧ c.value ≤ total)
    (h : ∀ c ∈ cs, ∀ path x y w, 0 ≤ w → Draws total c path x y w) (path : List Frame) (y : ℚ)
    {w : ℚ} (hw : 0 ≤ w) : ∀ cx, DrawsChildren total cs path cx y w := by
  induction cs with
  | nil =>
    intro cx
    exact ⟨Laid.nil _ _,by simp [drawChildren],by simp [drawChildren]⟩
  | cons c cs ih =>
    intro cx
    obtain ⟨hc,hcs⟩ := List.forall_mem_cons.mp h
    obtain ⟨⟨hc0,hct⟩,hlecs⟩ := List.forall_mem_cons.mp hle
    obtain ⟨hname,hnames⟩ := List.nodup_cons.mp hnames
    obtain ⟨hshare,hcw⟩ := share_le ht hc0 hct hw
    have hrest := ih hnames hlecs hcs
    have hsum : cx+((c::cs).map Node.value).sum/total*w =
        cx+c.value/total*w+(cs.map Node.value).sum/total*w := by
      rw [List.map_cons,List.sum_cons]
      ring
    by_cases hnarrow : c.value/total*w < 1/2
    · have hdraw : drawChildren total (c::cs) path cx y w = drawChildren total cs path cx y w := by
        rw [drawChildren,if_pos hnarrow]
      refine ⟨?_,?_,?_⟩
      · rw [hdraw]
        refine (hrest cx).laid.mono ?_
        rw [hsum]
        linarith
      · rw [hdraw]
        intro r hr
        obtain ⟨c',hc',hpath⟩ := (hrest cx).way r hr
        exact ⟨c',List.mem_cons_of_mem c hc',hpath⟩
      · rw [hdraw]
        exact (hrest cx).row
    · have hdraw : drawChildren total (c::cs) path cx y w =
          drawNode total c (path++[c.name]) cx (y+rowH) (c.value/total*w)++
            drawChildren total cs path (cx+c.value/total*w) y w := by
        rw [drawChildren,if_neg hnarrow]
      have hfirst := hc (path++[c.name]) cx (y+rowH) (c.value/total*w) hshare
      have hlater := hrest (cx+c.value/total*w)
      have hother : ∀ r ∈ drawNode total c (path++[c.name]) cx (y+rowH) (c.value/total*w),
          ∀ r' ∈ drawChildren total cs path (cx+c.value/total*w) y w,
            ¬ r.path <+: r'.path ∧ ¬ r'.path <+: r.path := by
        intro r hr r' hr'
        obtain ⟨c',hc',hpath⟩ := hlater.way r' hr'
        have hne : c.name ≠ c'.name := fun heq => hname (heq ▸ List.mem_map_of_mem hc')
        exact ⟨not_prefix_of_ne hne (hfirst.way r hr) hpath,
          not_prefix_of_ne hne.symm hpath (hfirst.way r hr)⟩
      refine ⟨?_,?_,?_⟩
      · rw [hdraw,hsum]
        refine (hfirst.laid.mono ?_).append hlater.laid ?_ ?_ hother
        · exact add_le_add_right (share_le ht hc0 hct hshare).2 cx
        · linarith
        · have hnonneg := div_nonneg (sum_nonneg fun c hc => (hlecs c hc).1) ht.le
          exact le_add_of_nonneg_right (mul_nonneg hnonneg hw)
      · rw [hdraw]
        intro r hr
        rcases List.mem_append.mp hr with hr | hr
        · exact ⟨c,List.mem_cons_self,hfirst.way r hr⟩
        · obtain ⟨c',hc',hpath⟩ := hlater.way r hr
          exact ⟨c',List.mem_cons_of_mem c hc',hpath⟩
      · rw [hdraw]
        intro r hr
        rcases List.mem_append.mp hr with hr | hr
        · rw [hfirst.row r hr,List.length_append,List.length_singleton]
          push_cast
          ring
        · exact hlater.row r hr

/-- A node's rectangle is around those of its children. -/
theorem draws {node : Node} (h : node.Summed) (ht : 0 < total) (hle : node.value ≤ total) :
    ∀ path x y w, 0 ≤ w → Draws total node path x y w := by
  induction h with
  | @mk name value self children hself hvalue hnames hbelow ih =>
    intro path x y w hw
    have hsummed : (Node.mk name value self children).Summed := .mk hself hvalue hnames hbelow
    have hlec : ∀ c ∈ children, 0 ≤ c.value ∧ c.value ≤ total := fun c hc =>
      ⟨(hbelow c hc).nonneg,(hsummed.child hc).2.trans hle⟩
    have hcs := drawsChildren ht hnames hlec (fun c hc => ih c hc (hlec c hc).2) path y hw x
    have hwidth : max 0 (value/total*w) = value/total*w :=
      max_eq_right (share_le ht hsummed.nonneg hle hw).1
    have hpath : ∀ r ∈ drawChildren total children path x y w, path <+: r.path ∧ r.path ≠ path := by
      intro r hr
      obtain ⟨c,-,hc⟩ := hcs.way r hr
      refine ⟨(List.prefix_append ..).trans hc,fun heq => ?_⟩
      have hlen := hc.length_le
      rw [heq,List.length_append,List.length_singleton] at hlen
      exact absurd hlen (Nat.not_succ_le_self _)
    refine ⟨?_,?_,?_⟩
    · rw [drawNode]
      refine (hcs.laid.mono ?_).cons rfl (congrArg (x+·) hwidth) hpath
      have hshare := div_le_div_of_nonneg_right hsummed.sum_children_le ht.le
      exact add_le_add_right (mul_le_mul_of_nonneg_right hshare hw) x
    · rw [drawNode]
      exact List.forall_mem_cons.mpr ⟨List.prefix_refl _,fun r hr => (hpath r hr).1⟩
    · rw [drawNode]
      exact List.forall_mem_cons.mpr ⟨by simp,hcs.row⟩

/-! ## Points -/

/-- A point in a rectangle. -/
def Rect.Holds (r : Rect) (px py : ℚ) : Prop :=
  r.x ≤ px ∧ px < r.x+r.w ∧ r.y ≤ py ∧ py < r.y+r.h

variable {px py : ℚ}

/-- Beside a node and above it nothing is found. -/
def Misses (total px py : ℚ) (node : Node) : Prop := ∀ path x y w, 0 ≤ w →
  (px < x ∨ x+node.value/total*w ≤ px ∨ py < y) → hit total px py node path x y w = none

theorem hitChildren_eq_none {cs : List Node} (ht : 0 < total)
    (hle : ∀ c ∈ cs, 0 ≤ c.value ∧ c.value ≤ total) (h : ∀ c ∈ cs, Misses total px py c)
    (path : List Frame) (y : ℚ) {w : ℚ} (hw : 0 ≤ w) : ∀ cx,
    (px < cx ∨ cx+(cs.map Node.value).sum/total*w ≤ px ∨ py < y+rowH) →
      hitChildren total px py cs path cx y w = none := by
  induction cs with
  | nil => exact fun cx _ => rfl
  | cons c cs ih =>
    intro cx hout
    obtain ⟨hc,hcs⟩ := List.forall_mem_cons.mp h
    obtain ⟨⟨hc0,hct⟩,hlecs⟩ := List.forall_mem_cons.mp hle
    obtain ⟨hshare,-⟩ := share_le ht hc0 hct hw
    have hrest := div_nonneg (sum_nonneg fun c hc => (hlecs c hc).1) ht.le
    have hrestw := mul_nonneg hrest hw
    have hsum : ((c::cs).map Node.value).sum/total*w =
        c.value/total*w+(cs.map Node.value).sum/total*w := by
      rw [List.map_cons,List.sum_cons,add_div,add_mul]
    rw [hsum] at hout
    rw [hitChildren]
    split
    · refine ih hlecs hcs cx (hout.imp_right (Or.imp_left fun hpx => ?_))
      linarith
    · have hfirst := (share_le ht hc0 hct hshare).2
      rw [hc _ _ _ _ hshare (hout.imp_right (Or.imp_left fun hpx => by linarith)),Option.none_or]
      exact ih hlecs hcs _ (hout.imp (fun hpx => by linarith) (Or.imp_left fun hpx => by linarith))

theorem misses {node : Node} (h : node.Summed) (ht : 0 < total) (hle : node.value ≤ total) :
    Misses total px py node := by
  induction h with
  | @mk name value self children hself hvalue hnames hbelow ih =>
    intro path x y w hw hout
    have hsummed : (Node.mk name value self children).Summed := .mk hself hvalue hnames hbelow
    have hlec : ∀ c ∈ children, 0 ≤ c.value ∧ c.value ≤ total := fun c hc =>
      ⟨(hbelow c hc).nonneg,(hsummed.child hc).2.trans hle⟩
    have hwidth : max 0 (value/total*w) = value/total*w :=
      max_eq_right (share_le ht hsummed.nonneg hle hw).1
    have hown : ¬ (y ≤ py ∧ py < y+rowH ∧ x ≤ px ∧ px < x+value/total*w) := by
      rintro ⟨hy,-,hx,hpx⟩
      rcases hout with hout | hout | hout
      · exact absurd hx (not_le.mpr hout)
      · exact absurd hpx (not_lt.mpr hout)
      · exact absurd hy (not_le.mpr hout)
    have hshare := div_le_div_of_nonneg_right hsummed.sum_children_le ht.le
    have hsum := mul_le_mul_of_nonneg_right hshare hw
    have hrow : y < y+rowH := lt_add_of_pos_right y (by decide)
    rw [hit,hwidth,if_neg hown]
    refine hitChildren_eq_none ht hlec (fun c hc => ih c hc (hlec c hc).2) path y hw x ?_
    refine hout.imp_right (Or.imp (fun hpx => ?_) fun hpy => hpy.trans hrow)
    exact (add_le_add_right hsum x).trans hpx

/-- In a rectangle that is drawn its node is found. -/
def Finds (total px py : ℚ) (node : Node) : Prop := ∀ path x y w, 0 ≤ w →
  ∀ r ∈ drawNode total node path x y w, r.Holds px py →
    hit total px py node path x y w = some r.path

theorem hitChildren_drawn {cs : List Node} (ht : 0 < total) (hnames : (cs.map Node.name).Nodup)
    (hle : ∀ c ∈ cs, c.Summed ∧ c.value ≤ total) (h : ∀ c ∈ cs, Finds total px py c)
    (path : List Frame) (y : ℚ) {w : ℚ} (hw : 0 ≤ w) : ∀ cx,
    ∀ r ∈ drawChildren total cs path cx y w, r.Holds px py →
      hitChildren total px py cs path cx y w = some r.path := by
  induction cs with
  | nil => simp [drawChildren]
  | cons c cs ih =>
    intro cx r hr hin
    obtain ⟨hc,hcs⟩ := List.forall_mem_cons.mp h
    obtain ⟨⟨hsummed,hct⟩,hlecs⟩ := List.forall_mem_cons.mp hle
    obtain ⟨-,hnames⟩ := List.nodup_cons.mp hnames
    obtain ⟨hshare,-⟩ := share_le ht hsummed.nonneg hct hw
    rw [drawChildren] at hr
    rw [hitChildren]
    split
    · next hnarrow =>
      rw [if_pos hnarrow] at hr
      exact ih hnames hlecs hcs cx r hr hin
    · next hnarrow =>
      rw [if_neg hnarrow] at hr
      rcases List.mem_append.mp hr with hr | hr
      · rw [hc _ _ _ _ hshare r hr hin,Option.some_or]
      · have hlater := drawsChildren ht hnames (fun c hc => ⟨(hlecs c hc).1.nonneg,(hlecs c hc).2⟩)
          (fun c hc => draws (hlecs c hc).1 ht (hlecs c hc).2) path y hw (cx+c.value/total*w)
        have hright := (hlater.laid.within r hr).1.trans hin.1
        have hfirst := (share_le ht hsummed.nonneg hct hshare).2
        have hnone : hit total px py c (path++[c.name]) cx (y+rowH) (c.value/total*w) = none :=
          misses hsummed ht hct _ _ _ _ hshare (.inr (.inl (by linarith)))
        rw [hnone,Option.none_or]
        exact ih hnames hlecs hcs _ r hr hin

theorem finds {node : Node} (h : node.Summed) (ht : 0 < total) (hle : node.value ≤ total) :
    Finds total px py node := by
  induction h with
  | @mk name value self children hself hvalue hnames hbelow ih =>
    intro path x y w hw r hr hin
    have hsummed : (Node.mk name value self children).Summed := .mk hself hvalue hnames hbelow
    have hlec : ∀ c ∈ children, c.Summed ∧ c.value ≤ total := fun c hc =>
      ⟨hbelow c hc,(hsummed.child hc).2.trans hle⟩
    rw [drawNode] at hr
    rw [hit]
    rcases List.mem_cons.mp hr with rfl | hr
    · obtain ⟨hx,hpx,hy,hpy⟩ := hin
      exact if_pos ⟨hy,hpy.trans (by simp [rowH]),hx,hpx⟩
    · have hcs := drawsChildren ht hnames (fun c hc => ⟨(hlec c hc).1.nonneg,(hlec c hc).2⟩)
        (fun c hc => draws (hlec c hc).1 ht (hlec c hc).2) path y hw x
      have hbelowRow : y+rowH ≤ r.y := by
        obtain ⟨c,-,hway⟩ := hcs.way r hr
        have hlen := hway.length_le
        rw [List.length_append,List.length_singleton] at hlen
        have hone : (1 : ℚ) ≤ r.path.length-path.length := by
          rw [le_sub_iff_add_le,add_comm]
          exact_mod_cast hlen
        rw [hcs.row r hr]
        exact add_le_add_right (le_mul_of_one_le_left (by decide) hone) y
      rw [if_neg fun hown => absurd hown.2.1 (not_lt.mpr (hbelowRow.trans hin.2.2.1))]
      exact hitChildren_drawn ht hnames hlec (fun c hc => ih c hc (hlec c hc).2) path y hw x r hr hin

end Layout

/-! ## Nodes and widths -/

theorem find_child {cs : List Node} (hnames : (cs.map Node.name).Nodup) {c : Node} (hc : c ∈ cs) :
    cs.find? (·.name = c.name) = some c := by
  induction cs with
  | nil => exact absurd hc List.not_mem_nil
  | cons c' cs ih =>
    obtain ⟨hname,hnames⟩ := List.nodup_cons.mp hnames
    rcases List.mem_cons.mp hc with rfl | hc
    · exact List.find?_cons_of_pos (by simp)
    · have hne : c'.name ≠ c.name := fun heq => hname (heq ▸ List.mem_map_of_mem hc)
      rw [List.find?_cons_of_neg (by simpa using hne),ih hnames hc]

/-- A rectangle is that of the node at the end of its way. -/
def Rect.Of (r : Rect) (node : Node) (path : List Frame) : Prop :=
  ∃ below n, r.path = path++below ∧ node.descend below = some n ∧ n.value = r.value

theorem drawChildren_of {total : ℚ} {cs : List Node}
    (h : ∀ c ∈ cs, ∀ path x y w, ∀ r ∈ drawNode total c path x y w, r.Of c path)
    (path : List Frame) (y w : ℚ) : ∀ cx, ∀ r ∈ drawChildren total cs path cx y w,
      ∃ c ∈ cs, r.Of c (path++[c.name]) := by
  induction cs with
  | nil => simp [drawChildren]
  | cons c cs ih =>
    intro cx r hr
    obtain ⟨hc,hcs⟩ := List.forall_mem_cons.mp h
    have hlater : ∀ cx, r ∈ drawChildren total cs path cx y w →
        ∃ c' ∈ c::cs, r.Of c' (path++[c'.name]) := by
      intro cx hr
      obtain ⟨c',hc',hof⟩ := ih hcs cx r hr
      exact ⟨c',List.mem_cons_of_mem c hc',hof⟩
    rw [drawChildren] at hr
    split at hr
    · exact hlater cx hr
    · rcases List.mem_append.mp hr with hr | hr
      · exact ⟨c,List.mem_cons_self,hc _ _ _ _ r hr⟩
      · exact hlater _ hr

theorem drawNode_of {total : ℚ} {node : Node} (h : node.Summed) :
    ∀ path x y w, ∀ r ∈ drawNode total node path x y w, r.Of node path := by
  induction h with
  | @mk name value self children _ _ hnames _ ih =>
    intro path x y w r hr
    rw [drawNode] at hr
    rcases List.mem_cons.mp hr with rfl | hr
    · exact ⟨[],_,(List.append_nil path).symm,rfl,rfl⟩
    · obtain ⟨c,hc,below,n,hpath,hdescend,hvalue⟩ := drawChildren_of ih path y w x r hr
      refine ⟨c.name::below,n,?_,?_,hvalue⟩
      · rw [hpath,List.append_assoc]
        rfl
      · rw [Node.descend,Node.children_mk,find_child hnames hc]
        exact hdescend

/-- Below a node that is as wide as the canvas: as far as frames have its whole value down the
tree, the others are too narrow to be drawn. -/
inductive Flat (total w : ℚ) : Node → Prop
  | mk {name : Frame} {value self : ℚ} {children : List Node}
    (whole : ∀ c ∈ children, 1/2 ≤ c.value/total*w → c.value = total)
    (below : ∀ c ∈ children, 1/2 ≤ c.value/total*w → Flat total w c) :
    Flat total w ⟨name,value,self,children⟩

/-- The rectangles are as wide as their share of the canvas. -/
def Shares (total w : ℚ) (rs : List Rect) : Prop := ∀ r ∈ rs, r.w = r.value/total*w

/-- The first rectangle is that of the node. -/
theorem drawNode_head (total : ℚ) (node : Node) (path : List Frame) (x y w : ℚ) :
    ∃ r ∈ drawNode total node path x y w, r.value = node.value ∧
      r.w = max 0 (node.value/total*w) := by
  obtain ⟨name,value,self,children⟩ := node
  rw [drawNode]
  exact ⟨_,List.mem_cons_self,rfl,rfl⟩

/-- A child's share is taken of its own width: right only for a child of the whole value. -/
theorem whole_of_shares {total w : ℚ} {c : Node} (ht : 0 < total) {path : List Frame} {x y : ℚ}
    (hwide : 1/2 ≤ c.value/total*w) (h : Shares total w (drawNode total c path x y
      (c.value/total*w))) (h0 : 0 ≤ c.value) : c.value = total := by
  obtain ⟨r,hr,hvalue,hrw⟩ := drawNode_head total c path x y (c.value/total*w)
  have hpos : 0 < c.value/total*w := one_half_pos.trans_le hwide
  have hshare := h r hr
  rw [hvalue,hrw,max_eq_right (mul_nonneg (div_nonneg h0 ht.le) hpos.le)] at hshare
  exact (div_eq_one_iff_eq ht.ne').mp (mul_right_cancel₀ hpos.ne' (hshare.trans (one_mul _).symm))

theorem shares_drawChildren {total w : ℚ} {cs : List Node} (ht : 0 < total)
    (hnonneg : ∀ c ∈ cs, 0 ≤ c.value)
    (h : ∀ c ∈ cs, c.value = total →
      ∀ path x y, Shares total w (drawNode total c path x y w) ↔ Flat total w c)
    (path : List Frame) (y : ℚ) : ∀ cx, Shares total w (drawChildren total cs path cx y w) ↔
      ∀ c ∈ cs, 1/2 ≤ c.value/total*w → c.value = total ∧ Flat total w c := by
  induction cs with
  | nil => simp [drawChildren,Shares]
  | cons c cs ih =>
    intro cx
    obtain ⟨hc,hcs⟩ := List.forall_mem_cons.mp h
    obtain ⟨hc0,hnonneg⟩ := List.forall_mem_cons.mp hnonneg
    rw [drawChildren,List.forall_mem_cons]
    split
    · next hnarrow =>
      rw [ih hnonneg hcs]
      exact ⟨fun hrest => ⟨fun hwide => absurd hwide (not_le.mpr hnarrow),hrest⟩,And.right⟩
    · next hwide =>
      have hwide := not_lt.mp hwide
      have hfirst : Shares total w (drawNode total c (path++[c.name]) cx (y+rowH)
          (c.value/total*w)) ↔ c.value = total ∧ Flat total w c := by
        constructor
        · intro hshares
          have hwhole := whole_of_shares ht hwide hshares hc0
          rw [hwhole,div_self ht.ne',one_mul] at hshares
          exact ⟨hwhole,(hc hwhole _ _ _).mp hshares⟩
        · rintro ⟨hwhole,hflat⟩
          rw [hwhole,div_self ht.ne',one_mul]
          exact (hc hwhole _ _ _).mpr hflat
      rw [Shares,List.forall_mem_append]
      refine and_congr (hfirst.trans ?_) (ih hnonneg hcs _)
      exact ⟨fun hflat _ => hflat,fun hflat => hflat hwide⟩

theorem shares_drawNode {total w : ℚ} {node : Node} (h : node.Summed) (ht : 0 < total)
    (hw : 0 ≤ w) (hwhole : node.value = total) : ∀ path x y,
    Shares total w (drawNode total node path x y w) ↔ Flat total w node := by
  induction h with
  | @mk name value self children hself hvalue hnames hbelow ih =>
    intro path x y
    rw [Node.value_mk] at hwhole
    have hcs := shares_drawChildren ht (fun c hc => (hbelow c hc).nonneg)
      (fun c hc hc' => ih c hc hc') path y x
    have hown : max 0 (value/total*w) = value/total*w := by
      rw [hwhole,div_self ht.ne',one_mul,max_eq_right hw]
    rw [drawNode,Shares,List.forall_mem_cons]
    refine (and_iff_right hown).trans (hcs.trans ⟨fun hall => ?_,?_⟩)
    · exact .mk (fun c hc hwide => (hall c hc hwide).1) fun c hc hwide => (hall c hc hwide).2
    · rintro ⟨hwholes,hbelow⟩ c hc hwide
      exact ⟨hwholes c hc hwide,hbelow c hc hwide⟩

/-- What a flame graph has to look like: every frame's share of the canvas, the frames below a
frame inside it and those beside it next to it, and under a point the frame that is drawn there. -/
structure Flame.DrawnRight (f : Flame) (clientWidth : ℕ) : Prop where
  width : ∀ r ∈ f.drawn clientWidth, ∃ node, f.focus.descend r.path = some node ∧
    r.w = node.value/f.focus.value*clientWidth
  row : ∀ r ∈ f.drawn clientWidth, r.y = r.path.length*rowH
  laid : Laid Rect.path Rect.x Rect.right 0 (clientWidth : ℚ) (f.drawn clientWidth)
  found : ∀ r ∈ f.drawn clientWidth, ∀ px py, r.Holds px py →
    f.nodeAt clientWidth px py = some r.path

theorem flat_of_zero {w : ℚ} : ∀ node : Node, Flat 0 w node
  | ⟨_,_,_,children⟩ => by
    have hnone : ∀ c : Node, ¬ (1:ℚ)/2 ≤ c.value/0*w := fun c => by
      rw [div_zero,zero_mul]
      exact not_le.mpr one_half_pos
    exact .mk (fun c _ hwide => absurd hwide (hnone c)) fun c _ hwide => absurd hwide (hnone c)

theorem flame_drawn_iff (f : Flame) (clientWidth : ℕ) :
    f.DrawnRight clientWidth ↔ Flat f.focus.value clientWidth f.focus := by
  have hsummed := f.summed_focus
  have hw : (0:ℚ) ≤ clientWidth := Nat.cast_nonneg _
  by_cases hzero : f.focus.value = 0
  · have hdrawn : f.drawn clientWidth = [] := if_pos hzero
    rw [hzero]
    refine ⟨fun _ => flat_of_zero _,fun _ => ⟨?_,?_,?_,?_⟩⟩
    · simp [hdrawn]
    · simp [hdrawn]
    · rw [hdrawn]
      exact Laid.nil _ _
    · simp [hdrawn]
  · have ht : 0 < f.focus.value := lt_of_le_of_ne hsummed.nonneg (Ne.symm hzero)
    have hdrawn : f.drawn clientWidth = drawNode f.focus.value f.focus [] 0 0 clientWidth :=
      if_neg hzero
    have hnode : ∀ px py, f.nodeAt clientWidth px py =
        hit f.focus.value px py f.focus [] 0 0 clientWidth := fun px py => if_neg hzero
    have hof : ∀ r ∈ drawNode f.focus.value f.focus [] 0 0 clientWidth, r.Of f.focus [] :=
      drawNode_of hsummed [] 0 0 clientWidth
    have hdraws := draws hsummed ht le_rfl [] 0 0 clientWidth hw
    rw [← shares_drawNode hsummed ht hw rfl [] 0 0]
    constructor
    · intro hright r hr
      obtain ⟨below,n,hpath,hdescend,hvalue⟩ := hof r hr
      obtain ⟨node,hfocus,hwidth⟩ := hright.width r (hdrawn ▸ hr)
      rw [hpath,List.nil_append,hdescend] at hfocus
      obtain rfl := Option.some.inj hfocus
      rw [hwidth,hvalue]
    · intro hshares
      refine ⟨fun r hr => ?_,fun r hr => ?_,?_,fun r hr px py hin => ?_⟩
      · rw [hdrawn] at hr
        obtain ⟨below,n,hpath,hdescend,hvalue⟩ := hof r hr
        rw [hpath]
        exact ⟨n,hdescend,hvalue ▸ hshares r hr⟩
      · rw [hdrawn] at hr
        simpa using hdraws.row r hr
      · have hlaid := hdraws.laid
        rw [div_self hzero,one_mul,zero_add] at hlaid
        exact hdrawn ▸ hlaid
      · rw [hnode]
        exact finds hsummed ht le_rfl [] 0 0 clientWidth hw r (hdrawn ▸ hr) hin

/-- Two calls of the same weight from one frame. -/
def forkedLines : List (FoldedLine ℚ) :=
  [{ frames := ["a".toList,"b".toList],value := 1,p := none,t := none },
    { frames := ["a".toList,"c".toList],value := 1,p := none,t := none }]

def forked : Flame where
  lines := forkedLines
  positive := by simp [forkedLines]
  filter := ⟨none,none⟩
  focusPath := []
  focus := buildTree forkedLines ⟨none,none⟩
  inTree := rfl

/-- Each of the calls is half of the total and is drawn over a quarter of the canvas. -/
theorem forked_quarters : ¬ ∀ (f : Flame) (clientWidth : ℕ), f.DrawnRight clientWidth := by
  intro hall
  have hright := (hall forked 100).width
  have hfocus : forked.focus = ⟨"root".toList,2,0,[⟨"a".toList,2,0,
      [⟨"b".toList,1,1,[]⟩,⟨"c".toList,1,1,[]⟩]⟩]⟩ := by
    simp [forked,forkedLines,buildTree,emptyRoot,addLine,onChild,Filter.keeps,passes]
    norm_num
  have hdrawn : ⟨["a".toList,"b".toList],1,0,32,25,15⟩ ∈ forked.drawn 100 := by
    simp [Flame.drawn,hfocus,drawNode,drawChildren,rowH]
    norm_num
  obtain ⟨node,hdescend,hwidth⟩ := hright _ hdrawn
  rw [hfocus] at hdescend hwidth
  obtain rfl : _ = node := by simpa [Node.descend] using hdescend
  norm_num at hwidth

end FlameGraph
end ETraceDiag
