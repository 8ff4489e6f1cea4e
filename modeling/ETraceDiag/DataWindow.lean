import ETraceDiag.CausalInput
import ETraceDiag.TwoPointers

/-!
# Sliding windows over telemetry

The points and frames of `schemas.py`, as the detectors read them, and `SlidingWindowMaker` of
`data/window.py`.
-/

namespace ETraceDiag
namespace DataWindow

open CausalInput (Quality)
open TwoPointers

variable {F : Type}

/-! ## Frames -/

/-- A point: `value` is there as the float that the detectors make of it. -/
structure TelemetryPoint (F : Type) where
  tsNs : ℕ
  entityId : String
  metricId : String
  value : Option F
  quality : Quality
  attrs : List (String × String) := []

def TelemetryPoint.key (p : TelemetryPoint F) : String × String × ℕ × Quality :=
  (p.entityId,p.metricId,p.tsNs,p.quality)

/-- What `_ordered_unique` lets through. -/
@[ext] structure TelemetryFrame (F : Type) where
  points : List (TelemetryPoint F)
  ordered : points.Pairwise fun p q => p.tsNs ≤ q.tsNs
  unique : (points.map TelemetryPoint.key).Nodup

/-- A frame of some of the points, in their order. -/
def TelemetryFrame.sub (frame : TelemetryFrame F) (points : List (TelemetryPoint F))
    (h : points.Sublist frame.points) : TelemetryFrame F where
  points := points
  ordered := frame.ordered.sublist h
  unique := frame.unique.sublist (h.map TelemetryPoint.key)

/-- `TelemetryFrame(points=frame.points[i:j])`. -/
def TelemetryFrame.slice (frame : TelemetryFrame F) (i j : ℕ) : TelemetryFrame F :=
  frame.sub ((frame.points.drop i).take (j-i))
    ((List.take_sublist _ _).trans (List.drop_sublist _ _))

/-! ## SlidingWindowMaker -/

structure SlidingWindowMaker where
  windowNs : ℕ
  strideNs : ℕ
  strideNs_pos : 0 < strideNs

/-- A window: where it starts, where it ends, and its points. -/
structure Window (F : Type) where
  startNs : ℕ
  endNs : ℕ
  frame : TelemetryFrame F

namespace SlidingWindowMaker

/-- The loop of `windows`: the lower pointer `i` is kept from one window to the next. -/
def windowsFrom (m : SlidingWindowMaker) (frame : TelemetryFrame F) (stop i wStart : ℕ) :
    List (Window F) :=
  if wStart ≤ stop then
    let wEnd := wStart+m.windowNs
    let i := advance (fun p => p.tsNs < wStart) frame.points i
    let j := advance (fun p => p.tsNs < wEnd) frame.points i
    let rest := m.windowsFrom frame stop i (wStart+m.strideNs)
    if i < j then ⟨wStart,wEnd,frame.slice i j⟩::rest else rest
  else []
termination_by stop+1-wStart
decreasing_by
  have hpos := m.strideNs_pos
  omega

def windows (m : SlidingWindowMaker) (frame : TelemetryFrame F) : List (Window F) :=
  match frame.points.head?,frame.points.getLast? with
  | some first,some last =>
    m.windowsFrom frame last.tsNs 0 (first.tsNs/m.strideNs*m.strideNs)
  | _,_ => []

/-! ## What the windows are -/

/-- The points from `s` on and before `s + window_ns`. -/
def pointsFrom (m : SlidingWindowMaker) (frame : TelemetryFrame F) (s : ℕ) :
    List (TelemetryPoint F) :=
  frame.points.filter fun p => s ≤ p.tsNs ∧ p.tsNs < s+m.windowNs

/-- The window from `s` on, with all its points and at least one. -/
structure IsWindowAt (m : SlidingWindowMaker) (frame : TelemetryFrame F) (s : ℕ) (w : Window F) :
    Prop where
  start : w.startNs = s
  stop : w.endNs = s+m.windowNs
  points : w.frame.points = m.pointsFrom frame s
  nonempty : w.frame.points ≠ []

/-- What the two pointers cut out is the window. -/
theorem isWindowAt_slice (m : SlidingWindowMaker) (frame : TelemetryFrame F) {s i : ℕ}
    (hi : Passed TelemetryPoint.tsNs frame.points s i) (w : Window F) :
    let i' := advance (fun p => p.tsNs < s) frame.points i
    let j := advance (fun p => p.tsNs < s+m.windowNs) frame.points i'
    m.IsWindowAt frame s w ↔ i' < j ∧ w = ⟨s,s+m.windowNs,frame.slice i' j⟩ := by
  intro i' j
  have hpoints : (frame.slice i' j).points = m.pointsFrom frame s :=
    slice_advance frame.ordered (s+m.windowNs) hi
  have hlength : (frame.slice i' j).points ≠ [] ↔ i' < j :=
    take_advance_ne_nil (fun p : TelemetryPoint F => p.tsNs < s+m.windowNs) frame.points i'
  constructor
  · rintro ⟨hstart,hstop,hw,hne⟩
    refine ⟨hlength.mp (by rwa [hpoints,← hw]),?_⟩
    obtain ⟨startNs,endNs,fr⟩ := w
    obtain rfl : fr = frame.slice i' j := TelemetryFrame.ext (hw.trans hpoints.symm)
    simp only at hstart hstop
    rw [hstart,hstop]
  · rintro ⟨hij,rfl⟩
    exact ⟨rfl,rfl,hpoints,hlength.mpr hij⟩

theorem exists_stride {P : ℕ → Prop} (a d : ℕ) :
    (∃ k, P (a+k*d)) ↔ P a ∨ ∃ k, P (a+d+k*d) := by
  rw [← Nat.or_exists_add_one,Nat.zero_mul,Nat.add_zero]
  refine or_congr_right (exists_congr fun k => ?_)
  rw [Nat.add_one_mul,Nat.add_assoc,Nat.add_comm d]

/-- The loop gives the windows at every stride from `wStart` to the last point. -/
theorem mem_windowsFrom (m : SlidingWindowMaker) (frame : TelemetryFrame F) (stop i wStart : ℕ)
    (hi : Passed TelemetryPoint.tsNs frame.points wStart i) (w : Window F) :
    w ∈ m.windowsFrom frame stop i wStart ↔
      ∃ k, wStart+k*m.strideNs ≤ stop ∧ m.IsWindowAt frame (wStart+k*m.strideNs) w := by
  rw [exists_stride (P:=fun s => s ≤ stop ∧ m.IsWindowAt frame s w)]
  fun_induction windowsFrom m frame stop i wStart with
  | case1 i wStart hle wEnd i' j rest hij ih =>
    have hnext := ih ((passed_advance hi).mono (Nat.le_add_right wStart m.strideNs))
    rw [← exists_stride (P:=fun s => s ≤ stop ∧ m.IsWindowAt frame s w)] at hnext
    have hat : m.IsWindowAt frame wStart w ↔ i' < j ∧ w = ⟨wStart,wEnd,frame.slice i' j⟩ :=
      isWindowAt_slice m frame hi w
    rw [List.mem_cons,hnext,and_iff_right hle,hat,and_iff_right hij]
  | case2 i wStart hle wEnd i' j rest hij ih =>
    have hnext := ih ((passed_advance hi).mono (Nat.le_add_right wStart m.strideNs))
    rw [← exists_stride (P:=fun s => s ≤ stop ∧ m.IsWindowAt frame s w)] at hnext
    have hempty : ¬ m.IsWindowAt frame wStart w := fun h =>
      hij ((isWindowAt_slice m frame hi w).mp h).1
    rw [hnext,and_iff_right hle,or_iff_right hempty]
  | case3 i wStart hgt =>
    have hnone : ∀ k, ¬ (wStart+m.strideNs+k*m.strideNs ≤ stop) := fun k => by omega
    simp [hgt,hnone]

theorem windowsFrom_sorted (m : SlidingWindowMaker) (frame : TelemetryFrame F)
    (stop i wStart : ℕ) (hi : Passed TelemetryPoint.tsNs frame.points wStart i) :
    ((m.windowsFrom frame stop i wStart).map Window.startNs).Pairwise (· < ·) := by
  fun_induction windowsFrom m frame stop i wStart with
  | case1 i wStart hle wEnd i' j rest hij ih =>
    have hi' := (passed_advance hi).mono (Nat.le_add_right wStart m.strideNs)
    refine List.pairwise_cons.mpr ⟨?_,ih hi'⟩
    intro s hs
    obtain ⟨w,hw,rfl⟩ := List.mem_map.mp hs
    obtain ⟨k,-,hk⟩ := (mem_windowsFrom m frame stop _ _ hi' w).mp hw
    have hpos := m.strideNs_pos
    rw [hk.start]
    change wStart < _
    omega
  | case2 i wStart hle wEnd i' j rest hij ih =>
    exact ih ((passed_advance hi).mono (Nat.le_add_right wStart m.strideNs))
  | case3 i wStart hgt => exact List.Pairwise.nil

/-- A multiple of the stride, from the one at or before the first point to the last one not after
the last point. -/
def WindowStart (m : SlidingWindowMaker) (frame : TelemetryFrame F) (s : ℕ) : Prop :=
  m.strideNs ∣ s ∧ (∃ first ∈ frame.points.head?, first.tsNs < s+m.strideNs) ∧
    ∃ last ∈ frame.points.getLast?, s ≤ last.tsNs

theorem multiple_from_iff {d first s : ℕ} (hd : 0 < d) :
    (∃ k, s = first/d*d+k*d) ↔ d ∣ s ∧ first < s+d := by
  constructor
  · rintro ⟨k,rfl⟩
    have hfirst := Nat.lt_div_mul_add (a:=first) hd
    exact ⟨Nat.dvd_add (Nat.dvd_mul_left d _) (Nat.dvd_mul_left d k),by omega⟩
  · rintro ⟨⟨q,rfl⟩,hlt⟩
    have hq : first/d ≤ q := by
      rw [← Nat.lt_succ_iff,Nat.div_lt_iff_lt_mul hd,Nat.succ_mul,Nat.mul_comm q]
      exact hlt
    exact ⟨q-first/d,by rw [← Nat.add_mul,Nat.add_sub_cancel' hq,Nat.mul_comm]⟩

theorem mem_windows (m : SlidingWindowMaker) (frame : TelemetryFrame F) (w : Window F) :
    w ∈ m.windows frame ↔ m.WindowStart frame w.startNs ∧ m.IsWindowAt frame w.startNs w := by
  rcases hpoints : frame.points with _ | ⟨first,rest⟩
  · have hno : ¬ m.WindowStart frame w.startNs := by
      rintro ⟨-,⟨p,hp,-⟩,-⟩
      rw [hpoints] at hp
      cases hp
    simp [windows,hpoints,hno]
  · have hlast : frame.points.getLast? = some ((first::rest).getLast (List.cons_ne_nil _ _)) := by
      rw [hpoints,List.getLast?_eq_some_getLast (List.cons_ne_nil _ _)]
    have hfirst : frame.points.head? = some first := by rw [hpoints,List.head?_cons]
    have hstart : m.WindowStart frame w.startNs ↔
        (∃ k, w.startNs = first.tsNs/m.strideNs*m.strideNs+k*m.strideNs) ∧
          w.startNs ≤ ((first::rest).getLast (List.cons_ne_nil _ _)).tsNs := by
      rw [multiple_from_iff m.strideNs_pos,WindowStart,hfirst,hlast,and_assoc]
      simp
    rw [hstart,windows,hfirst,hlast]
    simp only
    rw [mem_windowsFrom m frame _ _ _ (passed_zero _ _)]
    constructor
    · rintro ⟨k,hk,hw⟩
      rw [hw.start]
      exact ⟨⟨⟨k,rfl⟩,hk⟩,hw⟩
    · rintro ⟨⟨⟨k,hk⟩,hle⟩,hw⟩
      rw [hk] at hle hw
      exact ⟨k,hle,hw⟩

theorem windows_sorted (m : SlidingWindowMaker) (frame : TelemetryFrame F) :
    ((m.windows frame).map Window.startNs).Pairwise (· < ·) := by
  rw [windows]
  split
  · exact windowsFrom_sorted m frame _ _ _ (passed_zero _ _)
  · exact List.Pairwise.nil

/-- The window from `s` on, as a frame. -/
def windowAt (m : SlidingWindowMaker) (frame : TelemetryFrame F) (s : ℕ) : Window F :=
  ⟨s,s+m.windowNs,frame.sub (m.pointsFrom frame s) List.filter_sublist⟩

theorem head_le {frame : TelemetryFrame F} {p : TelemetryPoint F} (hp : p ∈ frame.points) :
    ∃ first ∈ frame.points.head?, first.tsNs ≤ p.tsNs := by
  have hordered := frame.ordered
  generalize frame.points = points at *
  cases points with
  | nil => cases hp
  | cons first rest =>
    refine ⟨first,rfl,?_⟩
    rcases List.mem_cons.mp hp with rfl | hp
    · exact le_rfl
    · exact (List.pairwise_cons.mp hordered).1 p hp

theorem le_last {frame : TelemetryFrame F} {p : TelemetryPoint F} (hp : p ∈ frame.points) :
    ∃ last ∈ frame.points.getLast?, p.tsNs ≤ last.tsNs := by
  have hne := List.ne_nil_of_mem hp
  refine ⟨frame.points.getLast hne,List.getLast?_eq_some_getLast hne,?_⟩
  have hordered := frame.ordered
  rw [← List.dropLast_append_getLast hne] at hordered hp
  rcases List.mem_append.mp hp with hp | hp
  · exact (List.pairwise_append.mp hordered).2.2 p hp _ List.mem_cons_self
  · rw [List.mem_singleton.mp hp]

/-- With windows no shorter than the stride every point is in the one of its own multiple. -/
theorem exists_window {m : SlidingWindowMaker} (hm : m.strideNs ≤ m.windowNs)
    {frame : TelemetryFrame F} {p : TelemetryPoint F} (hp : p ∈ frame.points) :
    ∃ w ∈ m.windows frame, p ∈ w.frame.points := by
  have hlow : p.tsNs/m.strideNs*m.strideNs ≤ p.tsNs := Nat.div_mul_le_self _ _
  have hhigh := Nat.lt_div_mul_add (a:=p.tsNs) m.strideNs_pos
  have hin : p ∈ m.pointsFrom frame (p.tsNs/m.strideNs*m.strideNs) :=
    List.mem_filter.mpr ⟨hp,decide_eq_true ⟨hlow,by omega⟩⟩
  obtain ⟨first,hfirst,hfp⟩ := head_le hp
  obtain ⟨last,hlast,hpl⟩ := le_last hp
  refine ⟨m.windowAt frame (p.tsNs/m.strideNs*m.strideNs),(mem_windows m frame _).mpr ⟨?_,?_⟩,hin⟩
  · exact ⟨Nat.dvd_mul_left _ _,⟨first,hfirst,hfp.trans_lt hhigh⟩,last,hlast,hlow.trans hpl⟩
  · exact ⟨rfl,rfl,rfl,List.ne_nil_of_mem hin⟩

/-- In increasing order, the windows are exactly those that start at a multiple of the stride and
have a point; if they are no shorter than the stride, every point is in one of them. -/
theorem windows_exact (m : SlidingWindowMaker) (frame : TelemetryFrame F) :
    ((m.windows frame).map Window.startNs).Pairwise (· < ·) ∧
      (∀ w, w ∈ m.windows frame ↔
        m.WindowStart frame w.startNs ∧ m.IsWindowAt frame w.startNs w) ∧
      (m.strideNs ≤ m.windowNs → ∀ p ∈ frame.points, ∃ w ∈ m.windows frame, p ∈ w.frame.points) :=
  ⟨windows_sorted m frame,mem_windows m frame,fun hm _ => exists_window hm⟩

end SlidingWindowMaker

end DataWindow
end ETraceDiag
