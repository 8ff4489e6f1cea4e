import ETraceDiag.Bisection
import ETraceDiag.Transition
import Mathlib.Algebra.Order.Field.Rat
import Mathlib.Data.List.GetD
import Mathlib.Data.List.Pairwise
import Mathlib.Logic.Function.Basic
import Mathlib.Tactic.Linarith
import Mathlib.Tactic.NormNum
import Mathlib.Tactic.Ring

/-!
# The windows of linked charts

`TChart` and `LinkGroup` of `chart.js`: what dragging, the wheel, touches, the log view and
changes of the series do to the windows of the charts on a page. One group of charts is linked;
coordinates and times are exact.
-/

namespace ETraceDiag
namespace ChartView

open Bisection Transition

structure Series where
  x : List ℚ
  visible : Bool := true

/-- `null` shows all data. -/
structure View where
  x0 : Option ℚ := none
  x1 : Option ℚ := none
  deriving DecidableEq

/-- `_geom` of the last draw, or the canvas before the first one. -/
structure Geom where
  padL : ℚ
  iw : ℚ
  pos : 0 < iw

/-- A drag that has not ended. -/
structure Drag where
  dragX : ℚ
  startView : ℚ × ℚ

structure TChart where
  linked : Bool
  order : List String := []
  series : String → Option Series := fun _ => none
  view : View := {}
  drag : Option Drag := none
  touches : ℤ → Option ℚ := fun _ => none

/-! ## One chart -/

def TChart.addSeries (c : TChart) (id : String) (x : List ℚ) : TChart :=
  { c with series := Function.update c.series id (some { x := x }), order := c.order++[id] }

def TChart.removeSeries (c : TChart) (id : String) : TChart :=
  { c with
    series := Function.update c.series id none
    order := c.order.filter fun s => s ≠ id }

def TChart.setVisible (c : TChart) (id : String) (on : Bool) : TChart :=
  { c with
    series := Function.update c.series id
      ((c.series id).map fun s => { s with visible := on }) }

/-- One series in `_fullRange`; nothing is the range from infinity to minus infinity. -/
def extend (r : Option (ℚ × ℚ)) (s : Series) : Option (ℚ × ℚ) :=
  match s.visible,s.x.head?,s.x.getLast? with
  | true,some a,some b =>
    match r with
    | none => some (a,b)
    | some (lo,hi) => some (if a < lo then a else lo,if hi < b then b else hi)
  | _,_,_ => r

def TChart.fullRange (c : TChart) : ℚ × ℚ :=
  match (c.order.filterMap c.series).foldl extend none with
  | none => (0,1)
  | some (lo,hi) => if hi ≤ lo then (lo,lo+1) else (lo,hi)

def minW : ℚ := 1/2

/-- A window that sticks out of the data range gets the width `width` from that edge on. -/
def refit (full : ℚ × ℚ) (width : ℚ) (w : ℚ × ℚ) : ℚ × ℚ :=
  let w := if w.1 < full.1 then (full.1,min full.2 (full.1+width)) else w
  if full.2 < w.2 then (max full.1 (full.2-width),full.2) else w

def TChart.viewRange (c : TChart) : ℚ × ℚ :=
  let lo := c.view.x0.getD c.fullRange.1
  let hi := c.view.x1.getD c.fullRange.2
  refit c.fullRange (max (hi-lo) minW) (lo,hi)

/-- The window moved, and pushed back into the data range. -/
def pan (full : ℚ × ℚ) (shift : ℚ) (w : ℚ × ℚ) : ℚ × ℚ :=
  let w := (w.1-shift,w.2-shift)
  let w := if w.1 < full.1 then (full.1,w.2+(full.1-w.1)) else w
  if full.2 < w.2 then (w.1-(w.2-full.2),full.2) else w

def widen (w : ℚ × ℚ) : ℚ × ℚ :=
  if w.2-w.1 < minW then ((w.1+w.2)/2-minW/2,(w.1+w.2)/2+minW/2) else w

def scale (c k : ℚ) (w : ℚ × ℚ) : ℚ × ℚ := (c-(c-w.1)*k,c+(w.2-c)*k)

/-- The window scaled by `k` around `c`. -/
def zoom (full : ℚ × ℚ) (c k : ℚ) (w : ℚ × ℚ) : ℚ × ℚ :=
  refit full (max minW ((w.2-w.1)*k)) (widen (scale c k w))

def wheelStep : ℚ := 5/4

/-- The time under the pointer, at the edge where the pointer is beside the plot. -/
def under (g : Geom) (offsetX : ℚ) (w : ℚ × ℚ) : ℚ :=
  w.1+(w.2-w.1)*min 1 (max 0 ((offsetX-g.padL)/g.iw))

/-- The window that a move of the pointer asks for. -/
def TChart.dragged (c : TChart) (g : Geom) (offsetX : ℚ) : Option (ℚ × ℚ) :=
  c.drag.map fun d =>
    pan c.fullRange ((offsetX-d.dragX)/g.iw*(c.viewRange.2-c.viewRange.1)) d.startView

def TChart.wheeled (c : TChart) (g : Geom) (offsetX deltaY : ℚ) : ℚ × ℚ :=
  zoom c.fullRange (under g offsetX c.viewRange) (if deltaY < 0 then 1/wheelStep else wheelStep)
    c.viewRange

/-- One finger pans, two of them zoom; `e` are the touches of the event. -/
def TChart.touched (c : TChart) (g : Geom) (e : List (ℤ × ℚ)) : Option (ℚ × ℚ) :=
  let w := c.viewRange
  match e with
  | [t] => (c.touches t.1).map fun px => pan c.fullRange ((t.2-px)/g.iw*(w.2-w.1)) w
  | [a,b] =>
    match c.touches a.1,c.touches b.1 with
    | some pa,some pb =>
      let pd := |pa-pb|
      let cd := |a.2-b.2|
      if 0 < pd ∧ 0 < cd then some (zoom c.fullRange ((w.1+w.2)/2) (pd/cd) w) else none
    | _,_ => none
  | _ => none

def TChart.setTouches (c : TChart) (e : List (ℤ × ℚ)) : TChart :=
  { c with touches := e.foldl (fun m t => Function.update m t.1 (some t.2)) c.touches }

def TChart.dropTouches (c : TChart) (e : List (ℤ × ℚ)) : TChart :=
  { c with touches := e.foldl (fun m t => Function.update m t.1 none) c.touches }

/-! ## The sample under the pointer -/

/-- `_nearest`; nothing stands for -1. -/
def nearest (arr : List ℚ) (rel : ℚ) : Option ℕ :=
  if arr.length = 0 then none
  else if rel ≤ arr.getD 0 0 then some 0
  else if arr.getD (arr.length-1) 0 ≤ rel then some (arr.length-1)
  else
    let b := bracket (fun i => decide (arr.getD i 0 ≤ rel)) 0 (arr.length-1)
    some (if rel-arr.getD b.1 0 ≤ arr.getD b.2 0-rel then b.1 else b.2)

/-- Of a series in order, no sample is nearer than the `i`-th one. -/
def Nearest (arr : List ℚ) (rel : ℚ) (i : ℕ) : Prop :=
  i < arr.length ∧ ∀ j < arr.length, |arr.getD i 0-rel| ≤ |arr.getD j 0-rel|

theorem getD_le {arr : List ℚ} (h : arr.Pairwise (· ≤ ·)) {i j : ℕ} (hij : i ≤ j)
    (hj : j < arr.length) : arr.getD i 0 ≤ arr.getD j 0 := by
  rw [List.getD_eq_getElem arr 0 hj,List.getD_eq_getElem arr 0 (hij.trans_lt hj)]
  rcases Nat.eq_or_lt_of_le hij with rfl | hlt
  · exact le_refl _
  · exact List.pairwise_iff_getElem.mp h i j _ hj hlt

/-- Two neighbours around a time: the nearer of them is the nearest sample. -/
theorem nearest_of_bracket {arr : List ℚ} (h : arr.Pairwise (· ≤ ·)) {rel : ℚ} {i : ℕ}
    (hi : i+1 < arr.length) (hlo : arr.getD i 0 ≤ rel) (hhi : rel < arr.getD (i+1) 0) :
    Nearest arr rel (if rel-arr.getD i 0 ≤ arr.getD (i+1) 0-rel then i else i+1) := by
  have hbelow : |arr.getD i 0-rel| = rel-arr.getD i 0 := by
    rw [abs_of_nonpos (by linarith)]
    ring
  have habove : |arr.getD (i+1) 0-rel| = arr.getD (i+1) 0-rel := abs_of_pos (by linarith)
  have hfar : ∀ j < arr.length,
      rel-arr.getD i 0 ≤ |arr.getD j 0-rel| ∨ arr.getD (i+1) 0-rel ≤ |arr.getD j 0-rel| := by
    intro j hj
    rcases Nat.lt_or_ge i j with hij | hij
    · have hle := getD_le h hij hj
      exact .inr ((sub_le_sub_right hle rel).trans (le_abs_self _))
    · have hle := getD_le h hij (by omega)
      refine .inl ?_
      rw [abs_sub_comm]
      exact (sub_le_sub_left hle rel).trans (le_abs_self _)
  split
  · next hnear =>
    refine ⟨by omega,fun j hj => ?_⟩
    rw [hbelow]
    exact (hfar j hj).elim id hnear.trans
  · next hnear =>
    refine ⟨hi,fun j hj => ?_⟩
    rw [habove]
    exact (hfar j hj).elim (le_of_lt (not_le.mp hnear)).trans id

/-- The bisection of the tooltip finds the nearest sample of a series in order, if there is
any. -/
theorem nearest_spec {arr : List ℚ} (h : arr.Pairwise (· ≤ ·)) (hne : arr ≠ []) (rel : ℚ) :
    ∃ i, nearest arr rel = some i ∧ Nearest arr rel i := by
  have hlen : 0 < arr.length := List.length_pos_iff.mpr hne
  unfold nearest
  rw [if_neg (by omega)]
  by_cases hfirst : rel ≤ arr.getD 0 0
  · refine ⟨0,if_pos hfirst,hlen,fun j hj => ?_⟩
    have hle := getD_le h (Nat.zero_le j) hj
    rw [abs_of_nonneg (by linarith),abs_of_nonneg (by linarith)]
    linarith
  rw [if_neg hfirst]
  by_cases hlast : arr.getD (arr.length-1) 0 ≤ rel
  · refine ⟨arr.length-1,if_pos hlast,by omega,fun j hj => ?_⟩
    have hle := getD_le h (Nat.le_sub_one_of_lt hj) (by omega)
    rw [abs_of_nonpos (by linarith),abs_of_nonpos (by linarith)]
    linarith
  rw [if_neg hlast]
  have hlt : 0 < arr.length-1 := by
    by_contra hzero
    have heq : arr.length-1 = 0 := by omega
    rw [heq] at hlast
    exact hlast (le_of_not_ge hfirst)
  obtain ⟨-,hnext,hend,hbelow,habove⟩ := bracket_spec
    (p:=fun i => decide (arr.getD i 0 ≤ rel)) hlt (by simpa using le_of_not_ge hfirst)
    (by simpa using hlast)
  simp only [hnext] at hend habove ⊢
  exact ⟨_,rfl,nearest_of_bracket h (by omega) (by simpa using hbelow) (by simpa using habove)⟩

theorem nearest_spec_three : ∃ i, nearest [0,10,30] 21 = some i ∧ Nearest [0,10,30] 21 i :=
  nearest_spec (by decide) (by decide) 21

/-! ## The page -/

/-- The charts under their names, the view of their group and the box that links them. -/
structure Page where
  charts : String → Option TChart := fun _ => none
  link : View := {}
  chkLink : Bool := true

/-- `LinkGroup.set` and `LinkGroup.reset`; the group has the linked charts of the page. -/
def Page.setLinked (p : Page) (v : View) : Page where
  charts k := (p.charts k).map fun c => if c.linked then { c with view := v } else c
  link := v
  chkLink := p.chkLink

def Page.update (p : Page) (k : String) (f : TChart → TChart) : Page :=
  { p with charts := Function.update p.charts k ((p.charts k).map f) }

def setView (v : View) (c : TChart) : TChart := { c with view := v }

/-- A view for one chart, or for the group it is linked to. -/
def Page.setView (p : Page) (k : String) (c : TChart) (v : View) : Page :=
  if c.linked && p.chkLink then p.setLinked v else p.update k (ChartView.setView v)

def View.of (w : ℚ × ℚ) : View := ⟨some w.1,some w.2⟩

/-- `_setUserView`. -/
def Page.setUserView (p : Page) (k : String) (w : Option (ℚ × ℚ)) : Page :=
  match p.charts k,w with
  | some c,some w => p.setView k c (View.of w)
  | _,_ => p

/-- The group plays its view back to a chart that joins it. -/
def Page.created (p : Page) (linked : Bool) : TChart :=
  match linked,p.link.x0,p.link.x1 with
  | true,some _,some _ => { linked := linked, view := p.link }
  | _,_,_ => { linked := linked }

inductive Event
  | create (k : String) (linked : Bool)
  | destroy (k : String)
  | addSeries (k id : String) (x : List ℚ)
  | removeSeries (k id : String)
  | setVisible (k id : String) (on : Bool)
  | mouseDown (k : String) (offsetX : ℚ)
  | mouseMove (k : String) (g : Geom) (offsetX : ℚ)
  | mouseUp
  | wheel (k : String) (g : Geom) (offsetX deltaY : ℚ)
  | dblClick (k : String)
  | touchStart (k : String) (changed : List (ℤ × ℚ))
  | touchMove (k : String) (g : Geom) (e : List (ℤ × ℚ))
  | touchEnd (k : String) (changed : List (ℤ × ℚ))
  | toggleLink (on : Bool)
  | locate (x : ℚ)

def step (p : Page) : Event → Page
  | .create k linked => { p with charts := Function.update p.charts k (some (p.created linked)) }
  | .destroy k => { p with charts := Function.update p.charts k none }
  | .addSeries k id x => p.update k fun c => c.addSeries id x
  | .removeSeries k id => p.update k fun c => c.removeSeries id
  | .setVisible k id on => p.update k fun c => c.setVisible id on
  | .mouseDown k offsetX => p.update k fun c => { c with drag := some ⟨offsetX,c.viewRange⟩ }
  | .mouseMove k g offsetX => p.setUserView k ((p.charts k).bind fun c => c.dragged g offsetX)
  | .mouseUp => { p with charts := fun k => (p.charts k).map fun c => { c with drag := none } }
  | .wheel k g offsetX deltaY =>
    p.setUserView k ((p.charts k).map fun c => c.wheeled g offsetX deltaY)
  | .dblClick k =>
    match p.charts k with
    | some c => p.setView k c {}
    | none => p
  | .touchStart k changed => p.update k fun c => c.setTouches changed
  | .touchMove k g e =>
    let p := p.setUserView k ((p.charts k).bind fun c => c.touched g e)
    if e.length = 1 ∨ e.length = 2 then p.update k fun c => c.setTouches e else p
  | .touchEnd k changed => p.update k fun c => c.dropTouches changed
  | .toggleLink on => { p with chkLink := on }
  | .locate x => { p with chkLink := true }.setLinked (View.of (x-30,x+60))

/-! ## The windows are in the data -/

/-- Nothing, or an interval. -/
def View.Proper (v : View) : Prop :=
  v = {} ∨ ∃ w : ℚ × ℚ, v = View.of w ∧ w.1 < w.2

/-- A proper part of the data range. -/
def Inside (full w : ℚ × ℚ) : Prop := full.1 ≤ w.1 ∧ w.1 < w.2 ∧ w.2 ≤ full.2

/-- Every chart draws a proper part of its own data range. -/
def WindowsInData (p : Page) : Prop :=
  ∀ k c, p.charts k = some c → Inside c.fullRange c.viewRange

theorem fullRange_lt (c : TChart) : c.fullRange.1 < c.fullRange.2 := by
  rw [TChart.fullRange]
  split
  · norm_num
  · split
    · exact lt_add_one _
    · next hle => exact not_le.mp hle

theorem minW_pos : 0 < minW := by norm_num [minW]

theorem refit_inside {full : ℚ × ℚ} (hfull : full.1 < full.2) {width : ℚ} (hwidth : 0 < width)
    {w : ℚ × ℚ} (h : w.1 < w.2) : Inside full (refit full width w) := by
  unfold refit Inside
  by_cases hlo : w.1 < full.1
  · have hle : min full.2 (full.1+width) ≤ full.2 := min_le_left _ _
    simp only [hlo,if_true,not_lt.mpr hle,if_false,le_refl,true_and]
    exact ⟨lt_min hfull (lt_add_of_pos_right _ hwidth),hle⟩
  · simp only [hlo,if_false]
    split
    · exact ⟨le_max_left _ _,max_lt hfull (sub_lt_self _ hwidth),le_refl _⟩
    · next hhi => exact ⟨not_lt.mp hlo,h,not_lt.mp hhi⟩

theorem View.Proper.viewRange {c : TChart} (h : c.view.Proper) :
    Inside c.fullRange c.viewRange := by
  refine refit_inside (fullRange_lt c) (lt_max_of_lt_right minW_pos) ?_
  rcases h with hview | ⟨w,hview,hlt⟩
  · rw [hview]
    exact fullRange_lt c
  · rw [hview]
    exact hlt

/-- Panning keeps the width. -/
theorem pan_width (full : ℚ × ℚ) (shift : ℚ) (w : ℚ × ℚ) :
    (pan full shift w).2-(pan full shift w).1 = w.2-w.1 := by
  unfold pan
  by_cases hlo : w.1-shift < full.1
  · simp only [hlo,if_true]
    split
    · ring
    · ring
  · simp only [hlo,if_false]
    split
    · ring
    · ring

theorem pan_lt (full : ℚ × ℚ) (shift : ℚ) {w : ℚ × ℚ} (h : w.1 < w.2) :
    (pan full shift w).1 < (pan full shift w).2 := by
  have hwidth := pan_width full shift w
  linarith

theorem scale_lt (c : ℚ) {k : ℚ} (hk : 0 < k) {w : ℚ × ℚ} (h : w.1 < w.2) :
    (scale c k w).1 < (scale c k w).2 := by
  have hscaled : 0 < (w.2-w.1)*k := mul_pos (sub_pos.mpr h) hk
  show c-(c-w.1)*k < c+(w.2-c)*k
  linarith

theorem widen_lt {w : ℚ × ℚ} (h : w.1 < w.2) : (widen w).1 < (widen w).2 := by
  have hmin := minW_pos
  unfold widen
  split
  · show (w.1+w.2)/2-minW/2 < (w.1+w.2)/2+minW/2
    linarith
  · exact h

theorem zoom_inside {full : ℚ × ℚ} (hfull : full.1 < full.2) (c : ℚ) {k : ℚ} (hk : 0 < k)
    {w : ℚ × ℚ} (h : w.1 < w.2) : Inside full (zoom full c k w) :=
  refit_inside hfull (lt_max_of_lt_left minW_pos) (widen_lt (scale_lt c hk h))

/-! ## Runs -/

/-- The view is proper, and so is the window that a drag started from. -/
structure TChart.Sound (c : TChart) : Prop where
  view : c.view.Proper
  drag : ∀ d, c.drag = some d → d.startView.1 < d.startView.2

structure Page.Sound (p : Page) : Prop where
  link : p.link.Proper
  charts : ∀ k c, p.charts k = some c → c.Sound

theorem sound_start : ({} : Page).Sound := ⟨.inl rfl,nofun⟩

theorem Page.Sound.windowsInData {p : Page} (h : p.Sound) : WindowsInData p :=
  fun k c hc => (h.charts k c hc).view.viewRange

theorem Page.Sound.setLinked {p : Page} (h : p.Sound) {v : View} (hv : v.Proper) :
    (p.setLinked v).Sound := by
  refine ⟨hv,fun k c hc => ?_⟩
  obtain ⟨c',hc',rfl⟩ := Option.map_eq_some_iff.mp hc
  have hsound := h.charts k c' hc'
  split
  · exact ⟨hv,hsound.drag⟩
  · exact hsound

theorem Page.Sound.update {p : Page} (h : p.Sound) (k : String) {f : TChart → TChart}
    (hf : ∀ c, c.Sound → (f c).Sound) : (p.update k f).Sound := by
  refine ⟨h.link,fun k' c hc => ?_⟩
  by_cases hk : k' = k
  · subst hk
    simp only [Page.update,Function.update_self] at hc
    obtain ⟨c',hc',rfl⟩ := Option.map_eq_some_iff.mp hc
    exact hf c' (h.charts k' c' hc')
  · simp only [Page.update,Function.update_of_ne hk] at hc
    exact h.charts k' c hc

theorem Page.Sound.setView {p : Page} (h : p.Sound) (k : String) (c : TChart) {v : View}
    (hv : v.Proper) : (p.setView k c v).Sound := by
  unfold Page.setView
  split
  · exact h.setLinked hv
  · exact h.update k fun c hc => ⟨hv,hc.drag⟩

theorem Page.Sound.setUserView {p : Page} (h : p.Sound) (k : String) {w : Option (ℚ × ℚ)}
    (hw : ∀ c w', p.charts k = some c → w = some w' → w'.1 < w'.2) :
    (p.setUserView k w).Sound := by
  unfold Page.setUserView
  split
  · next _ c w' hc => exact h.setView k c (.inr ⟨w',rfl,hw c w' hc rfl⟩)
  · exact h

theorem TChart.Sound.dragged {c : TChart} (h : c.Sound) (g : Geom) (offsetX : ℚ) {w : ℚ × ℚ}
    (hw : c.dragged g offsetX = some w) : w.1 < w.2 := by
  obtain ⟨d,hd,rfl⟩ := Option.map_eq_some_iff.mp hw
  exact pan_lt _ _ (h.drag d hd)

theorem TChart.Sound.wheeled {c : TChart} (h : c.Sound) (g : Geom) (offsetX deltaY : ℚ) :
    (c.wheeled g offsetX deltaY).1 < (c.wheeled g offsetX deltaY).2 := by
  have hk : 0 < if deltaY < 0 then 1/wheelStep else wheelStep := by
    split <;> norm_num [wheelStep]
  exact (zoom_inside (fullRange_lt c) _ hk h.view.viewRange.2.1).2.1

theorem TChart.Sound.touched {c : TChart} (h : c.Sound) (g : Geom) (e : List (ℤ × ℚ))
    {w : ℚ × ℚ} (hw : c.touched g e = some w) : w.1 < w.2 := by
  have hlt := h.view.viewRange.2.1
  unfold TChart.touched at hw
  split at hw
  · obtain ⟨px,_,rfl⟩ := Option.map_eq_some_iff.mp hw
    exact pan_lt _ _ hlt
  · split at hw
    · simp only at hw
      split at hw
      · next hpos =>
        obtain rfl := Option.some.inj hw
        exact (zoom_inside (fullRange_lt c) _ (div_pos hpos.1 hpos.2) hlt).2.1
      · cases hw
    · cases hw
  · cases hw

theorem Page.Sound.created {p : Page} (h : p.Sound) (linked : Bool) :
    (p.created linked).Sound := by
  unfold Page.created
  split
  · exact ⟨h.link,nofun⟩
  · exact ⟨.inl rfl,nofun⟩

theorem Page.Sound.step {p : Page} (h : p.Sound) (e : Event) : (ChartView.step p e).Sound := by
  have hsame : ∀ k f, (∀ c : TChart, (f c).view = c.view) → (∀ c : TChart, (f c).drag = c.drag) →
      (p.update k f).Sound := fun k f hview hdrag =>
    h.update k fun c hc => ⟨hview c ▸ hc.view,hdrag c ▸ hc.drag⟩
  cases e with
  | create k linked =>
    refine ⟨h.link,fun k' c hc => ?_⟩
    by_cases hk : k' = k
    · subst hk
      simp only [ChartView.step,Function.update_self] at hc
      obtain rfl := Option.some.inj hc
      exact h.created linked
    · simp only [ChartView.step,Function.update_of_ne hk] at hc
      exact h.charts k' c hc
  | destroy k =>
    refine ⟨h.link,fun k' c hc => ?_⟩
    by_cases hk : k' = k
    · subst hk
      simp only [ChartView.step,Function.update_self] at hc
      cases hc
    · simp only [ChartView.step,Function.update_of_ne hk] at hc
      exact h.charts k' c hc
  | addSeries k id x => exact hsame k _ (fun _ => rfl) fun _ => rfl
  | removeSeries k id => exact hsame k _ (fun _ => rfl) fun _ => rfl
  | setVisible k id on => exact hsame k _ (fun _ => rfl) fun _ => rfl
  | mouseDown k offsetX =>
    refine h.update k fun c hc => ⟨hc.view,fun d hd => ?_⟩
    obtain rfl := Option.some.inj hd
    exact hc.view.viewRange.2.1
  | mouseMove k g offsetX =>
    refine h.setUserView k fun c w hc hw => ?_
    rw [hc] at hw
    exact (h.charts k c hc).dragged g offsetX hw
  | mouseUp =>
    refine ⟨h.link,fun k c hc => ?_⟩
    obtain ⟨c',hc',rfl⟩ := Option.map_eq_some_iff.mp hc
    exact ⟨(h.charts k c' hc').view,nofun⟩
  | wheel k g offsetX deltaY =>
    refine h.setUserView k fun c w hc hw => ?_
    rw [hc] at hw
    obtain rfl := Option.some.inj hw
    exact (h.charts k c hc).wheeled g offsetX deltaY
  | dblClick k =>
    simp only [ChartView.step]
    split
    · next c hc => exact h.setView k c (.inl rfl)
    · exact h
  | touchStart k changed => exact hsame k _ (fun _ => rfl) fun _ => rfl
  | touchMove k g e =>
    have hview : (p.setUserView k ((p.charts k).bind fun c => c.touched g e)).Sound := by
      refine h.setUserView k fun c w hc hw => ?_
      rw [hc] at hw
      exact (h.charts k c hc).touched g e hw
    simp only [ChartView.step]
    split
    · exact hview.update k fun c hc => ⟨hc.view,hc.drag⟩
    · exact hview
  | touchEnd k changed => exact hsame k _ (fun _ => rfl) fun _ => rfl
  | toggleLink on => exact ⟨h.link,h.charts⟩
  | locate x =>
    refine Page.Sound.setLinked (p:={ p with chkLink := true }) ⟨h.link,h.charts⟩
      (.inr ⟨(x-30,x+60),rfl,?_⟩)
    show x-30 < x+60
    linarith

/-- However the user drags, zooms and taps, whatever windows the other charts and the log view
hand on, and however the series change: every chart draws a proper part of its own data range. -/
theorem windows_in_data (es : List Event) : WindowsInData (run step ({} : Page) es) := by
  have hall : Along step (fun _ _ => True) ({} : Page) es :=
    (along_inputs step (fun _ => True) es {}).mpr fun _ _ => trivial
  exact (Along.of_invariant step (P:=fun _ _ => True) (fun _ e hI _ => hI.step e)
    (fun _ _ _ _ => trivial) es _ sound_start hall).2.windowsInData

/-! ## Linked charts move together -/

/-- Every linked chart has the view of the group. -/
def Page.Agrees (p : Page) : Prop := ∀ k c, p.charts k = some c → c.linked = true → c.view = p.link

theorem setLinked_agrees (p : Page) (v : View) : (p.setLinked v).Agrees := by
  intro k c hc hlinked
  obtain ⟨c',_,rfl⟩ := Option.map_eq_some_iff.mp hc
  split at hlinked
  · next hif => rw [if_pos hif]; rfl
  · next hif => exact absurd hlinked hif

theorem Page.Agrees.update {p : Page} (h : p.Agrees) (k : String) {f : TChart → TChart}
    (hlinked : ∀ c, p.charts k = some c → (f c).linked = c.linked)
    (hview : ∀ c, p.charts k = some c → c.linked = true → (f c).view = c.view) :
    (p.update k f).Agrees := by
  intro k' c hc hl
  by_cases hk : k' = k
  · subst hk
    simp only [Page.update,Function.update_self] at hc
    obtain ⟨c',hc',rfl⟩ := Option.map_eq_some_iff.mp hc
    have hl' := (hlinked c' hc').symm.trans hl
    exact (hview c' hc' hl').trans (h k' c' hc' hl')
  · simp only [Page.update,Function.update_of_ne hk] at hc
    exact h k' c hc hl

theorem Page.Agrees.setView {p : Page} (h : p.Agrees) (hchk : p.chkLink = true) {k : String}
    {c : TChart} (hc : p.charts k = some c) (v : View) : (p.setView k c v).Agrees := by
  unfold Page.setView
  cases hl : c.linked with
  | true =>
    rw [hchk,Bool.true_and,if_pos rfl]
    exact setLinked_agrees p v
  | false =>
    rw [Bool.false_and,if_neg Bool.false_ne_true]
    refine h.update k (fun _ _ => rfl) fun c' hc' hl' => ?_
    obtain rfl := Option.some.inj (hc.symm.trans hc')
    rw [hl] at hl'
    cases hl'

theorem Page.Agrees.setUserView {p : Page} (h : p.Agrees) (hchk : p.chkLink = true) (k : String)
    (w : Option (ℚ × ℚ)) : (p.setUserView k w).Agrees := by
  unfold Page.setUserView
  split
  · next _ c w' hc => exact h.setView hchk hc _
  · exact h

theorem setView_chkLink (p : Page) (k : String) (c : TChart) (v : View) :
    (p.setView k c v).chkLink = p.chkLink := by
  unfold Page.setView
  split <;> rfl

theorem setUserView_chkLink (p : Page) (k : String) (w : Option (ℚ × ℚ)) :
    (p.setUserView k w).chkLink = p.chkLink := by
  unfold Page.setUserView
  split
  · exact setView_chkLink ..
  · rfl

theorem created_agrees {p : Page} (h : p.Sound) : (p.created true).view = p.link := by
  rcases h.link with hlink | ⟨w,hlink,_⟩
  · simp [Page.created,hlink]
  · simp [Page.created,hlink,View.of]

theorem created_linked (p : Page) (linked : Bool) : (p.created linked).linked = linked := by
  unfold Page.created
  split <;> rfl

theorem Page.Agrees.step {p : Page} (hsound : p.Sound) (h : p.Agrees) (hchk : p.chkLink = true)
    {e : Event} (he : e ≠ .toggleLink false) :
    (ChartView.step p e).Agrees ∧ (ChartView.step p e).chkLink = true := by
  have hsame : ∀ k f, (∀ c : TChart, (f c).linked = c.linked) →
      (∀ c : TChart, (f c).view = c.view) → (p.update k f).Agrees ∧
        (p.update k f).chkLink = true := fun k f hlinked hview =>
    ⟨h.update k (fun c _ => hlinked c) fun c _ _ => hview c,hchk⟩
  cases e with
  | create k linked =>
    refine ⟨fun k' c hc hl => ?_,hchk⟩
    by_cases hk : k' = k
    · subst hk
      simp only [ChartView.step,Function.update_self] at hc
      obtain rfl := Option.some.inj hc
      rw [created_linked] at hl
      subst hl
      exact created_agrees hsound
    · simp only [ChartView.step,Function.update_of_ne hk] at hc
      exact h k' c hc hl
  | destroy k =>
    refine ⟨fun k' c hc hl => ?_,hchk⟩
    by_cases hk : k' = k
    · subst hk
      simp only [ChartView.step,Function.update_self] at hc
      cases hc
    · simp only [ChartView.step,Function.update_of_ne hk] at hc
      exact h k' c hc hl
  | addSeries k id x => exact hsame k _ (fun _ => rfl) fun _ => rfl
  | removeSeries k id => exact hsame k _ (fun _ => rfl) fun _ => rfl
  | setVisible k id on => exact hsame k _ (fun _ => rfl) fun _ => rfl
  | mouseDown k offsetX => exact hsame k _ (fun _ => rfl) fun _ => rfl
  | mouseMove k g offsetX => exact ⟨h.setUserView hchk k _,(setUserView_chkLink ..).trans hchk⟩
  | mouseUp =>
    refine ⟨fun k c hc hl => ?_,hchk⟩
    obtain ⟨c',hc',rfl⟩ := Option.map_eq_some_iff.mp hc
    exact h k c' hc' hl
  | wheel k g offsetX deltaY => exact ⟨h.setUserView hchk k _,(setUserView_chkLink ..).trans hchk⟩
  | dblClick k =>
    simp only [ChartView.step]
    split
    · next c hc => exact ⟨h.setView hchk hc _,(setView_chkLink ..).trans hchk⟩
    · exact ⟨h,hchk⟩
  | touchStart k changed => exact hsame k _ (fun _ => rfl) fun _ => rfl
  | touchMove k g e =>
    have hview := h.setUserView hchk k ((p.charts k).bind fun c => c.touched g e)
    have hbox := (setUserView_chkLink p k ((p.charts k).bind fun c => c.touched g e)).trans hchk
    simp only [ChartView.step]
    split
    · exact ⟨hview.update k (fun _ _ => rfl) fun _ _ _ => rfl,hbox⟩
    · exact ⟨hview,hbox⟩
  | touchEnd k changed => exact hsame k _ (fun _ => rfl) fun _ => rfl
  | toggleLink on =>
    cases on with
    | true => exact ⟨h,rfl⟩
    | false => exact absurd rfl he
  | locate x => exact ⟨setLinked_agrees _ _,rfl⟩

/-- As long as the box stays checked, the linked charts have one view, the group's. -/
theorem linked_charts_agree (es : List Event) (h : ∀ e ∈ es, e ≠ .toggleLink false) :
    (run step ({} : Page) es).Agrees := by
  have hall := (along_inputs step (fun e => e ≠ .toggleLink false) es ({} : Page)).mpr h
  exact (Along.of_invariant step (I:=fun p => p.Sound ∧ p.Agrees ∧ p.chkLink = true)
    (P:=fun _ _ => True) (fun _ e hI hC => ⟨hI.1.step e,hI.2.1.step hI.1 hI.2.2 hC⟩)
    (fun _ _ _ _ => trivial) es _ ⟨sound_start,nofun,rfl⟩ hall).2.2.1

/-- Two charts, the first one zoomed at its middle. -/
def zoomed : List Event :=
  [.create "cpu" true,.addSeries "cpu" "x" [0,10],.create "mem" true,.addSeries "mem" "x" [0,100],
    .wheel "cpu" ⟨0,100,by norm_num⟩ 50 (-1)]

theorem linked_charts_agree_zoomed : (∀ e ∈ zoomed, e ≠ .toggleLink false) ∧
    (run step ({} : Page) zoomed).Agrees := by
  have h : ∀ e ∈ zoomed, e ≠ .toggleLink false := by simp [zoomed]
  exact ⟨h,linked_charts_agree zoomed h⟩

end ChartView
end ETraceDiag
