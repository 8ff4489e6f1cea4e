import ETraceDiag.PhaseManager
import ETraceDiag.Streak

/-!
# The anomaly window of an episode

Between its start and its finalization an episode only sees verdicts and calls that leave the
window alone. The debounce counter closes the window at the first streak of normal samples
that is long enough; what comes after it only adds indicators.
-/

namespace ETraceDiag
namespace EpisodeWindow

open PhaseManager Streak

variable {F : Type}

/-- A judged sample: its time stamp and, when it is anomalous, its indicator. -/
abbrev Sample (F : Type) := ℕ × Option (Indicator F)

def normal (x : Sample F) : Bool := x.2.isNone

/-- The samples judged by the calls of an episode, in order. -/
def samples : List (Call F) → List (Sample F)
  | [] => []
  | .tickAnomaly _ reply _ now::calls => (now,verdict reply)::samples calls
  | _::calls => samples calls

/-- Every verdict of the calls is counted against the same `end_debounce_samples`. -/
def Debounce (n : ℕ) (calls : List (Call F)) : Prop :=
  ∀ c ∈ calls, ∀ w reply env now, c = .tickAnomaly w reply env now → w.endDebounceSamples = n

/-- The debounce state of an open window after the samples `xs`. -/
structure Open (n : ℕ) (s : State F) (xs : List (Sample F)) : Prop where
  unset : s.anomalyEndTs = 0
  counter : s.debounce = (current normal xs).length
  below : (current normal xs).length < n
  first : ∀ x ∈ (current normal xs).head?, s.firstFalseTs = x.1
  noRun : NoRun normal n xs

/-- The window was closed by the first streak of `n` normal samples. -/
def Closed (n : ℕ) (s : State F) (xs : List (Sample F)) : Prop :=
  ∃ pre x rest post, xs = pre++(x::rest)++post ∧ FirstRun normal n pre (x::rest) ∧
    s.anomalyEndTs = x.1

theorem closed_concat {n : ℕ} {s s' : State F} {xs : List (Sample F)} (h : Closed n s xs)
    (hend : s'.anomalyEndTs = s.anomalyEndTs) (x : Sample F) : Closed n s' (xs++[x]) := by
  obtain ⟨pre,y,rest,post,rfl,hfirst,hy⟩ := h
  exact ⟨pre,y,rest,post++[x],by simp,hfirst,hend.trans hy⟩

/-- A verdict on a closed window does not move its end. -/
theorem noteVerdict_closed (w : Window) (now : ℕ) {s : State F} (h : s.anomalyEndTs ≠ 0)
    (v : Option (Indicator F)) : (noteVerdict w now s v).anomalyEndTs = s.anomalyEndTs := by
  cases v <;> simp [noteVerdict,h]

theorem noteVerdict_anomalous {n : ℕ} (hn : 0 < n) {w : Window} {s : State F}
    {xs : List (Sample F)} (h : Open n s xs) (now : ℕ) (i : Indicator F) :
    Open n (noteVerdict w now s (some i)) (xs++[(now,some i)]) := by
  have hmiss : normal (now,some i) = false := rfl
  have hcur := current_concat_miss normal hmiss xs
  refine ⟨h.unset,?_,?_,?_,noRun_concat_miss normal hn h.noRun hmiss⟩
  · rw [hcur]
    rfl
  · rwa [hcur]
  · simp [hcur]

theorem noteVerdict_normal {n : ℕ} (hn : 0 < n) (hn32 : n < 2^32) {w : Window}
    (hw : w.endDebounceSamples = n) {s : State F} {xs : List (Sample F)} (h : Open n s xs)
    (now : ℕ) :
    Open n (noteVerdict w now s none) (xs++[(now,none)]) ∨
      Closed n (noteVerdict w now s none) (xs++[(now,none)]) := by
  have hhit : normal ((now,none) : Sample F) = true := rfl
  have hcur := current_concat_hit normal hhit xs
  have hcount : (s.debounce+1) % 2^32 = (current normal xs).length+1 := by
    have hb := h.below
    rw [h.counter,Nat.mod_eq_of_lt (by omega)]
  -- the stamp the streak started with, which the closing assignment copies
  have hfirst : ∀ x ∈ (current normal (xs++[(now,none)])).head?,
      (if s.debounce = 0 then now else s.firstFalseTs) = x.1 := by
    intro x hx
    rw [hcur] at hx
    cases hc : current normal xs with
    | nil =>
      have h0 : s.debounce = 0 := by rw [h.counter,hc]; rfl
      rw [hc,List.nil_append,List.head?_cons,Option.mem_some_iff] at hx
      rw [if_pos h0,← hx]
    | cons y ys =>
      have h0 : s.debounce ≠ 0 := by rw [h.counter,hc]; exact Nat.succ_ne_zero _
      rw [hc,List.cons_append,List.head?_cons,Option.mem_some_iff] at hx
      rw [if_neg h0,← hx]
      exact h.first y (by rw [hc]; rfl)
  by_cases hfire : n ≤ (current normal xs).length+1
  · right
    have hlen : (current normal xs).length+1 = n := by
      have hb := h.below
      omega
    obtain ⟨pre,hpre⟩ := current_suffix normal xs
    have hrun := firstRun_concat normal h.noRun hpre.symm hhit hlen
    obtain ⟨x,rest,hx⟩ := List.exists_cons_of_ne_nil
      (List.append_ne_nil_of_right_ne_nil (current normal xs)
        (List.cons_ne_nil ((now,none) : Sample F) []))
    refine ⟨pre,x,rest,[],?_,hx ▸ hrun,?_⟩
    · rw [← hx,List.append_nil,← List.append_assoc,hpre]
    · have hhead := hfirst x (by rw [hcur,hx]; rfl)
      simp only [noteVerdict,hcount,hw,hfire,h.unset,and_self,if_true]
      exact hhead
  · left
    refine ⟨?_,?_,?_,?_,noRun_concat_hit normal hn h.noRun (by omega)⟩
    · simp only [noteVerdict,hcount,hw,hfire,false_and,if_false]
      exact h.unset
    · rw [hcur,List.length_append]
      exact hcount
    · rw [hcur,List.length_append]
      change (current normal xs).length+1 < n
      omega
    · exact hfirst

/-! ## A whole episode -/

/-- An episode: a successful enter, calls that do not end it, and its finalization at `now`.
The samples carry the nonzero stamps of one clock. -/
structure Episode (F : Type) where
  before : State F
  window : Window
  env : DeepLinks.Env
  start : ℕ
  calls : List (Call F)
  causal : Causal
  now : ℕ
  endDebounceSamples : ℕ
  alive : before.terminated = false
  entered : (enterDeep window env start before).phase = .deep
  unended : Transition.Along step (fun s c => finalizes s c = none)
    (enterDeep window env start before) calls
  debounce : Debounce endDebounceSamples calls
  debounce_pos : 0 < endDebounceSamples
  debounce_lt : endDebounceSamples < 2^32
  stamps_pos : ∀ x ∈ samples calls, 0 < x.1
  stamps_sorted : ((samples calls).map Prod.fst++[now]).Pairwise (· ≤ ·)

/-- The state an episode is finalized in. -/
def Episode.last (ep : Episode F) : State F :=
  Transition.run step (enterDeep ep.window ep.env ep.start ep.before) ep.calls

/-- The `anomaly_end_ts` the episode reports. -/
def Episode.anomalyEnd (ep : Episode F) : ℕ :=
  (finalizeDeep ep.window ep.causal ep.now ep.last).anomalyEndTs

/-- The window after the samples `xs`: still open, or closed by their first streak. -/
def WindowAt (n : ℕ) (s : State F) (xs : List (Sample F)) : Prop := Open n s xs ∨ Closed n s xs

theorem WindowAt.congr {n : ℕ} {s s' : State F} {xs : List (Sample F)} (h : WindowAt n s xs)
    (he : s'.anomalyEndTs = s.anomalyEndTs) (hc : s'.debounce = s.debounce)
    (hf : s'.firstFalseTs = s.firstFalseTs) : WindowAt n s' xs := by
  rcases h with ⟨hu,hcount,hb,hfirst,hrun⟩ | ⟨pre,x,rest,post,hxs,hrun,hx⟩
  · exact Or.inl ⟨he.trans hu,hc.trans hcount,hb,fun x hx => hf.trans (hfirst x hx),hrun⟩
  · exact Or.inr ⟨pre,x,rest,post,hxs,hrun,he.trans hx⟩

theorem noteVerdict_windowAt {n : ℕ} (hn : 0 < n) (hn32 : n < 2^32) {w : Window}
    (hw : w.endDebounceSamples = n) {s : State F} {xs : List (Sample F)}
    (hpos : ∀ x ∈ xs, 0 < x.1) (h : WindowAt n s xs) (now : ℕ) (v : Option (Indicator F)) :
    WindowAt n (noteVerdict w now s v) (xs++[(now,v)]) := by
  rcases h with h | h
  · cases v with
    | none => exact noteVerdict_normal hn hn32 hw h now
    | some i => exact Or.inl (noteVerdict_anomalous hn h now i)
  · have hset : s.anomalyEndTs ≠ 0 := by
      obtain ⟨pre,x,rest,post,hxs,_,hx⟩ := h
      have hx0 := hpos x (by rw [hxs]; simp)
      rw [hx]
      omega
    exact Or.inr (closed_concat h (noteVerdict_closed w now hset v) _)

/-- A call that does not end the episode judges a sample or leaves the window alone. -/
theorem step_window {s : State F} (halive : s.terminated = false) (hd : s.phase = .deep)
    {c : Call F} (hc : finalizes s c = none) :
    (step s c).terminated = false ∧ (step s c).phase = .deep ∧
      ((∃ w reply env now, c = .tickAnomaly w reply env now ∧
          step s c = noteVerdict w now s (verdict reply)) ∨
        (samples [c] = [] ∧ (step s c).anomalyEndTs = s.anomalyEndTs ∧
          (step s c).debounce = s.debounce ∧ (step s c).firstFalseTs = s.firstFalseTs)) := by
  cases c with
  | tickAnomaly w reply env now =>
    have hstep : step s (.tickAnomaly w reply env now) = noteVerdict w now s (verdict reply) := by
      simp [step,halive,Call.apply,tickAnomaly,hd]
    have hkeep : (noteVerdict w now s (verdict reply)).terminated = s.terminated ∧
        (noteVerdict w now s (verdict reply)).phase = s.phase := by
      cases verdict reply <;> exact ⟨rfl,rfl⟩
    rw [hstep]
    exact ⟨hkeep.1.trans halive,hkeep.2.trans hd,Or.inl ⟨w,reply,env,now,rfl,rfl⟩⟩
  | tickDeep w causal now =>
    have hno : ¬ s.postDeadlineNs ≤ now := by simpa [finalizes,hd] using hc
    have hstep : step s (.tickDeep w causal now) = s := by
      simp [step,halive,Call.apply,tickDeep,hd,hno]
    rw [hstep]
    exact ⟨halive,hd,Or.inr ⟨rfl,rfl,rfl,rfl⟩⟩
  | requestDeep w env now =>
    have hstep : step s (.requestDeep w env now) = s := by
      simp [step,halive,Call.apply,requestDeep,hd]
    rw [hstep]
    exact ⟨halive,hd,Or.inr ⟨rfl,rfl,rfl,rfl⟩⟩
  | requestBase w causal now => simp [finalizes,hd] at hc
  | shutdown w causal now => simp [finalizes,hd] at hc
  | collectorTick =>
    by_cases ha : s.deep.active = true
    · have hstep : step s .collectorTick = s.emit .ticked := by
        simp [step,halive,Call.apply,collectorTick,ha]
      rw [hstep]
      exact ⟨halive,hd,Or.inr ⟨rfl,rfl,rfl,rfl⟩⟩
    · have hstep : step s .collectorTick = s := by
        simp [step,halive,Call.apply,collectorTick,ha]
      rw [hstep]
      exact ⟨halive,hd,Or.inr ⟨rfl,rfl,rfl,rfl⟩⟩

theorem run_windowAt {n : ℕ} (hn : 0 < n) (hn32 : n < 2^32) (calls : List (Call F)) :
    ∀ (s : State F) (xs : List (Sample F)), s.terminated = false → s.phase = .deep →
      Transition.Along step (fun s c => finalizes s c = none) s calls → Debounce n calls →
      (∀ x ∈ xs++samples calls, 0 < x.1) → WindowAt n s xs →
      WindowAt n (Transition.run step s calls) (xs++samples calls) := by
  induction calls with
  | nil => intro s xs _ _ _ _ _ h; simpa [samples] using h
  | cons c calls ih =>
    intro s xs halive hd hopen hdeb hpos h
    obtain ⟨halive',hd',hcase⟩ := step_window halive hd hopen.1
    have hdeb' : Debounce n calls := fun c hc => hdeb c (List.mem_cons_of_mem _ hc)
    rcases hcase with ⟨w,reply,env,now,rfl,hstep⟩ | ⟨hnone,he,hc,hf⟩
    · have hsplit : xs++samples (Call.tickAnomaly w reply env now::calls) =
          (xs++[(now,verdict reply)])++samples calls := by simp [samples]
      have hwin := noteVerdict_windowAt hn hn32 (hdeb _ (by simp) w reply env now rfl)
        (fun x hx => hpos x (by simp [hx])) h now (verdict reply)
      rw [hsplit] at hpos ⊢
      rw [← hstep] at hwin
      exact ih _ _ halive' hd' hopen.2 hdeb' hpos hwin
    · have hsplit : samples (c::calls) = samples calls := by
        cases c <;> simp_all [samples]
      rw [hsplit] at hpos ⊢
      exact ih _ _ halive' hd' hopen.2 hdeb' hpos (h.congr he hc hf)

theorem enterDeep_open {n : ℕ} (hn : 0 < n) (w : Window) (env : DeepLinks.Env) (now : ℕ)
    (s : State F) : Open n (enterDeep w env now s) [] := by
  refine ⟨?_,?_,hn,by simp,noRun_nil normal hn⟩
  · simp only [enterDeep]
    split <;> rfl
  · simp only [enterDeep]
    split <;> rfl

theorem Episode.windowAt (ep : Episode F) :
    WindowAt ep.endDebounceSamples ep.last (samples ep.calls) := by
  have halive : (enterDeep ep.window ep.env ep.start ep.before).terminated = false := by
    simp only [enterDeep]
    split <;> exact ep.alive
  have hpos : ∀ x ∈ []++samples ep.calls, 0 < x.1 := by simpa using ep.stamps_pos
  exact run_windowAt ep.debounce_pos ep.debounce_lt ep.calls _ [] halive ep.entered ep.unended
    ep.debounce hpos (Or.inl (enterDeep_open ep.debounce_pos _ _ _ _))

/-- The reported end is the stamp of the first sample of the first streak of
`end_debounce_samples` normal samples, or the finalize time when there is no such streak; no
sample judged before the streak that closed the window is later than it. -/
theorem anomalyEnd_eq (ep : Episode F) :
    (∃ pre x rest post, samples ep.calls = pre++(x::rest)++post ∧
        FirstRun normal ep.endDebounceSamples pre (x::rest) ∧ ep.anomalyEnd = x.1 ∧
        ∀ y ∈ pre, y.1 ≤ ep.anomalyEnd) ∨
      (NoRun normal ep.endDebounceSamples (samples ep.calls) ∧ ep.anomalyEnd = ep.now ∧
        ∀ y ∈ samples ep.calls, y.1 ≤ ep.anomalyEnd) := by
  have hsorted := ep.stamps_sorted
  rcases ep.windowAt with hopen | ⟨pre,x,rest,post,hxs,hrun,hx⟩
  · right
    have hend : ep.anomalyEnd = ep.now := by
      simp [Episode.anomalyEnd,finalizeDeep,State.emit,hopen.unset]
    refine ⟨hopen.noRun,hend,?_⟩
    intro y hy
    rw [hend]
    exact (List.pairwise_append.mp hsorted).2.2 _ (List.mem_map_of_mem hy) _ (by simp)
  · left
    have hx0 : 0 < x.1 := ep.stamps_pos x (by rw [hxs]; simp)
    have hend : ep.anomalyEnd = x.1 := by
      have hne : ep.last.anomalyEndTs ≠ 0 := by omega
      simp only [Episode.anomalyEnd,finalizeDeep,State.emit,if_neg hne]
      exact hx
    refine ⟨pre,x,rest,post,hxs,hrun,hend,?_⟩
    intro y hy
    rw [hxs,List.map_append,List.map_append,List.append_assoc,List.append_assoc,
      List.pairwise_append] at hsorted
    rw [hend]
    exact hsorted.2.2 _ (List.mem_map_of_mem hy) _ (by simp)

/-- Three normal samples close the window at 20, then a second anomaly is judged at 50. -/
def secondSpike : Episode Unit where
  before := {}
  window := PhaseManager.window
  env := allOk
  start := 10
  calls := [.tickAnomaly PhaseManager.window (.ok ⟨false,"",()⟩) allOk 20,
    .tickAnomaly PhaseManager.window (.ok ⟨false,"",()⟩) allOk 30,
    .tickAnomaly PhaseManager.window (.ok ⟨false,"",()⟩) allOk 40,
    .tickAnomaly PhaseManager.window (.ok ⟨true,"cpu",()⟩) allOk 50]
  causal := ⟨.error "",true⟩
  now := 60
  endDebounceSamples := 3
  alive := rfl
  entered := by decide
  unended := ⟨rfl,rfl,rfl,rfl,trivial⟩
  debounce := by
    intro c hc w reply env now h
    subst h
    simp only [List.mem_cons,Call.tickAnomaly.injEq,List.not_mem_nil,or_false] at hc
    rcases hc with ⟨rfl,_⟩ | ⟨rfl,_⟩ | ⟨rfl,_⟩ | ⟨rfl,_⟩ <;> rfl
  debounce_pos := by decide
  debounce_lt := by decide
  stamps_pos := by decide
  stamps_sorted := by decide

theorem secondSpike_after_end :
    ¬ ∀ y ∈ samples secondSpike.calls, normal y = false → y.1 ≤ secondSpike.anomalyEnd := by
  intro h
  have hspike := h (50,some ⟨"cpu",()⟩) (by simp [samples,secondSpike,verdict]) rfl
  exact absurd hspike (by decide)

end EpisodeWindow
end ETraceDiag
