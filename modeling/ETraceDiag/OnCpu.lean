import ETraceDiag.CellLedger
import ETraceDiag.SwitchHook
import ETraceDiag.Transition

/-!
# On-CPU attribution

What `on_switch` adds to `on_cpu_ns` on one processor, against the schedule of that processor:
which thread had it from one switch to the next.
-/

namespace ETraceDiag
namespace OnCpu

open CellLedger SwitchHook Transition

/-- A context switch of the processor, or a change of the target set. -/
inductive Event
  | switch (e : Env) (sw : Switch)
  | targets (ts : List ℕ)

def step (cpu : ℕ) (s : State) : Event → State
  | .switch e sw => s.onSwitch { e with cpu := cpu } sw
  | .targets ts => { s with targets := ts }

/-- No switch has been seen and nothing was added yet. -/
def fresh (s : State) : State :=
  { s with curTid := fun _ => 0, lastRunTs := fun _ => 0, onCpuNs := fun _ => none }

/-- What a step adds to the entry of a thread; there is none when the map is full. -/
def increment (cpu : ℕ) (s : State) : Event → Option (ℕ×ℕ)
  | .switch e _ => (s.credit { e with cpu := cpu }).filter fun c =>
      (s.onCpuNs c.1).isSome || e.room .onCpuNs
  | .targets _ => none

def increments (cpu : ℕ) : State → List Event → List (ℕ×ℕ)
  | _, [] => []
  | s, ev::es => (increment cpu s ev).toList++increments cpu (step cpu s ev) es

/-! ## The schedule -/

def times (es : List Event) : List ℕ := es.filterMap fun
  | .switch e _ => some e.now
  | .targets _ => none

/-- A thread had the processor from one switch to the next. -/
structure Stretch where
  tid : ℕ
  start : ℕ
  stop : ℕ

def Stretch.length (x : Stretch) : ℕ := x.stop-x.start

/-- The stretches of a sequence; `cur` is the thread that has the processor, and since when. -/
def stretches : Option (ℕ×ℕ) → List Event → List Stretch
  | _, [] => []
  | cur, .targets _::es => stretches cur es
  | cur, .switch e sw::es =>
    (cur.map fun c => ⟨c.1,c.2,e.now⟩).toList++stretches (some (sw.nextPid,e.now)) es

/-- From the first switch to the last. -/
def elapsedTime (es : List Event) : ℕ := (times es).getLast?.getD 0-(times es).head?.getD 0

/-- The switches of a processor, in order of time. -/
structure Timeline where
  events : List Event
  sorted : (times events).Pairwise (· ≤ ·)

/-- Every increment is the length of a stretch of its thread, no two of them are the same
stretch, stretches do not overlap, and `on_cpu_ns` holds the sums. -/
structure Attributed (cpu : ℕ) (s : State) (es : List Event) : Prop where
  intervals : ∃ sub : List Stretch, sub.Sublist (stretches none es) ∧
    increments cpu s es = sub.map (fun x => (x.tid,x.length)) ∧
    sub.Pairwise fun a b => a.stop ≤ b.start
  total : ((increments cpu s es).map Prod.snd).sum ≤ elapsedTime es
  map : Records (fun _ => 64) (run (step cpu) s es).onCpuNs
    ((increments cpu s es).map fun c => ⟨c.1,cpu,fun _ => c.2⟩)

/-! ## What one step does -/

/-- The per-processor state of the hook names the thread that runs. -/
def Follows (cpu : ℕ) (s : State) : Option (ℕ×ℕ) → Prop
  | none => s.curTid cpu = 0
  | some (tid,since) => s.curTid cpu = tid ∧ s.lastRunTs cpu = since

theorem follows_switch (cpu : ℕ) (s : State) (e : Env) (sw : Switch) :
    Follows cpu (step cpu s (.switch e sw)) (some (sw.nextPid,e.now)) :=
  ⟨Function.update_self ..,Function.update_self ..⟩

theorem follows_targets {cpu : ℕ} {s : State} {cur : Option (ℕ×ℕ)} (h : Follows cpu s cur)
    (ts : List ℕ) : Follows cpu (step cpu s (.targets ts)) cur := by
  cases cur <;> exact h

/-- The increment of a switch is the stretch that ends with it, or nothing. -/
theorem increment_switch {cpu : ℕ} {s : State} {cur : Option (ℕ×ℕ)} (h : Follows cpu s cur)
    (e : Env) (sw : Switch) : ∃ sub : List Stretch,
      sub.Sublist (cur.map fun c => (⟨c.1,c.2,e.now⟩ : Stretch)).toList ∧
        (increment cpu s (.switch e sw)).toList = sub.map fun x => (x.tid,x.length) := by
  cases hinc : increment cpu s (.switch e sw) with
  | none => exact ⟨[],List.nil_sublist _,rfl⟩
  | some c =>
    obtain ⟨hcredit,_⟩ := Option.filter_eq_some_iff.mp hinc
    rw [State.credit,Option.ite_none_right_eq_some] at hcredit
    obtain ⟨⟨hpos,_⟩,heq⟩ := hcredit
    cases cur with
    | none => exact absurd h hpos
    | some cur =>
      obtain ⟨hcur,hlast⟩ := h
      refine ⟨[⟨cur.1,cur.2,e.now⟩],List.Sublist.refl _,?_⟩
      rw [← Option.some.inj heq,hcur,hlast]
      rfl

theorem onCpuNs_targets (cpu : ℕ) (s : State) (ts : List ℕ) :
    (step cpu s (.targets ts)).onCpuNs = s.onCpuNs := rfl

/-- `on_cpu_ns` changes by the increment. -/
theorem records_step (cpu : ℕ) {s : State} {cs : List (Charge ℕ Unit)}
    (h : Records (fun _ => 64) s.onCpuNs cs) (ev : Event) :
    Records (fun _ => 64) (step cpu s ev).onCpuNs
      (cs++(increment cpu s ev).toList.map fun c => ⟨c.1,cpu,fun _ => c.2⟩) := by
  cases ev with
  | targets ts => simpa [increment,onCpuNs_targets] using h
  | switch e sw =>
    have hmap : (step cpu s (.switch e sw)).onCpuNs =
        (s.attribute { e with cpu := cpu } sw.nextPid).onCpuNs := rfl
    rw [hmap,State.attribute,increment]
    cases s.credit { e with cpu := cpu } with
    | none => simpa using h
    | some c =>
      by_cases hroom : (s.onCpuNs c.1).isSome || e.room .onCpuNs
      · have hclean : Clean (e.room .onCpuNs) 0 c.1 s.onCpuNs := by
          intro hnone
          rw [hnone] at hroom
          exact ⟨by simpa using hroom,rfl⟩
        rw [Option.filter_some,if_pos hroom]
        exact h.account hclean cpu fun _ => c.2
      · have hfull : s.onCpuNs c.1 = none ∧ e.room .onCpuNs = false := by simpa using hroom
        rw [Option.filter_some,if_neg hroom]
        simpa [CellCounters.account,CellCounters.ensure,CellCounters.bump,hfull] using h

/-! ## Runs -/

theorem increments_sublist (cpu : ℕ) (es : List Event) : ∀ (s : State) (cur : Option (ℕ×ℕ)),
    Follows cpu s cur → ∃ sub : List Stretch, sub.Sublist (stretches cur es) ∧
      increments cpu s es = sub.map fun x => (x.tid,x.length) := by
  induction es with
  | nil => exact fun _ _ _ => ⟨[],List.nil_sublist _,rfl⟩
  | cons ev es ih =>
    intro s cur h
    cases ev with
    | targets ts => exact ih _ cur (follows_targets h ts)
    | switch e sw =>
      obtain ⟨first,hfirst,hinc⟩ := increment_switch h e sw
      obtain ⟨rest,hrest,hincs⟩ := ih _ _ (follows_switch cpu s e sw)
      refine ⟨first++rest,hfirst.append hrest,?_⟩
      rw [increments,hinc,hincs,List.map_append]

/-- Stretches come one after the other. -/
theorem stretches_pairwise (es : List Event) (h : (times es).Pairwise (· ≤ ·)) :
    ∀ cur : Option (ℕ×ℕ), (∀ c ∈ cur, ∀ t ∈ times es, c.2 ≤ t) →
      (stretches cur es).Pairwise (fun a b => a.stop ≤ b.start) ∧
        ∀ c ∈ cur, ∀ x ∈ stretches cur es, c.2 ≤ x.start := by
  induction es with
  | nil => exact fun _ _ => ⟨List.Pairwise.nil,fun _ _ x hx => by cases hx⟩
  | cons ev es ih =>
    intro cur hcur
    cases ev with
    | targets ts => exact ih h cur hcur
    | switch e sw =>
      obtain ⟨hlater,hsorted⟩ := List.pairwise_cons.mp h
      obtain ⟨hpair,hfrom⟩ := ih hsorted (some (sw.nextPid,e.now))
        fun c hc t ht => Option.mem_some.mp hc ▸ hlater t ht
      have hnext : ∀ x ∈ stretches (some (sw.nextPid,e.now)) es, e.now ≤ x.start :=
        hfrom _ rfl
      cases cur with
      | none => exact ⟨hpair,fun c hc => by cases hc⟩
      | some c =>
        refine ⟨List.pairwise_cons.mpr ⟨hnext,hpair⟩,?_⟩
        intro c' hc' x hx
        obtain rfl := Option.some.inj hc'
        rcases List.mem_cons.mp hx with rfl | hx
        · exact Nat.le_refl _
        · exact (hcur c rfl e.now List.mem_cons_self).trans (hnext x hx)

/-- The stretches fill the time from the first switch to the last. -/
theorem stretches_sum (es : List Event) (h : (times es).Pairwise (· ≤ ·)) :
    ∀ {c : ℕ×ℕ}, (∀ t ∈ times es, c.2 ≤ t) →
      ((stretches (some c) es).map Stretch.length).sum = (times es).getLast?.getD c.2-c.2 := by
  induction es with
  | nil => simp [stretches,times]
  | cons ev es ih =>
    intro c hc
    cases ev with
    | targets ts => exact ih h hc
    | switch e sw =>
      obtain ⟨hlater,hsorted⟩ := List.pairwise_cons.mp h
      have hrest := ih hsorted (c:=(sw.nextPid,e.now)) hlater
      have hnow : c.2 ≤ e.now := hc e.now List.mem_cons_self
      have hlast : e.now ≤ (times es).getLast?.getD e.now := by
        cases hl : (times es).getLast? with
        | none => exact Nat.le_refl _
        | some t => exact hlater t (List.mem_of_getLast? hl)
      have hcons : (times (.switch e sw::es)).getLast?.getD c.2 =
          (times es).getLast?.getD e.now := by
        rw [show times (.switch e sw::es) = e.now::times es from rfl,List.getLast?_cons]
        rfl
      rw [hcons]
      simp only [stretches,Option.map_some,Option.toList_some,List.singleton_append,
        List.map_cons,List.sum_cons,hrest,Stretch.length]
      omega

theorem stretches_sum_none (es : List Event) (h : (times es).Pairwise (· ≤ ·)) :
    ((stretches none es).map Stretch.length).sum = elapsedTime es := by
  induction es with
  | nil => rfl
  | cons ev es ih =>
    cases ev with
    | targets ts => exact ih h
    | switch e sw =>
      obtain ⟨hlater,hsorted⟩ := List.pairwise_cons.mp h
      rw [elapsedTime,show times (.switch e sw::es) = e.now::times es from rfl,
        List.getLast?_cons]
      exact stretches_sum es hsorted hlater

theorem increments_total {es : List Event} (h : (times es).Pairwise (· ≤ ·))
    {sub : List Stretch} (hsub : sub.Sublist (stretches none es)) :
    (sub.map Stretch.length).sum ≤ elapsedTime es :=
  stretches_sum_none es h ▸ (hsub.map Stretch.length).sum_le_sum fun _ _ => Nat.zero_le _

theorem records_run (cpu : ℕ) (es : List Event) : ∀ {s : State} {cs : List (Charge ℕ Unit)},
    Records (fun _ => 64) s.onCpuNs cs →
      Records (fun _ => 64) (run (step cpu) s es).onCpuNs
        (cs++(increments cpu s es).map fun c => ⟨c.1,cpu,fun _ => c.2⟩) := by
  induction es with
  | nil => intro s cs h; simpa [increments,run] using h
  | cons ev es ih =>
    intro s cs h
    have hrun := ih (records_step cpu h ev)
    rwa [List.append_assoc,← List.map_append] at hrun

/-- `on_cpu_ns` grows by the time a thread had the processor, and no time is counted twice. -/
theorem Timeline.attributed (cpu : ℕ) (s : State) (tl : Timeline) :
    Attributed cpu (fresh s) tl.events := by
  obtain ⟨sub,hsub,hinc⟩ := increments_sublist cpu tl.events (fresh s) none rfl
  refine ⟨⟨sub,hsub,hinc,?_⟩,?_,?_⟩
  · exact (stretches_pairwise tl.events tl.sorted none fun _ hc => by cases hc).1.sublist hsub
  · rw [hinc,List.map_map]
    exact increments_total tl.sorted hsub
  · simpa using records_run cpu tl.events (s:=fresh s) (records_nil _)

end OnCpu
end ETraceDiag
