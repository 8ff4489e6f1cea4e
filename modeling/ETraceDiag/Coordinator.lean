import Mathlib.Algebra.Order.Group.Unbundled.Int
import Mathlib.Data.Prod.Lex
import Mathlib.Data.String.Basic
import ETraceDiag.CausalInput
import ETraceDiag.HashOrder

/-!
# The coordinator of a cluster

Agents report incidents with the offset of their clock; `Coordinator` keeps the messages as they
arrive, groups them by incident, orders the hosts by their first anomaly and joins the frames of
the hosts, all in its own time. The analysis of the joint frame is left out.
-/

namespace ETraceDiag
namespace Coordinator

open CausalInput TimeTable HashOrder

variable {F : Type}

structure AgentMessage (F : Type) where
  hostId : String
  clockOffsetNs : ℤ
  incidentId : String
  incident : IncidentWindow F

inductive Raise
  | indexError
  | nameError
  | runtimeError (message : String)
  | valueError (message : String)
  deriving DecidableEq,Repr

/-- The window of a message in the time of the coordinator. -/
def corrected (m : AgentMessage F) : ℤ × ℤ :=
  (m.incident.startTsNs+m.clockOffsetNs,m.incident.endTsNs+m.clockOffsetNs)

def start (m : AgentMessage F) : ℤ := (corrected m).1

/-! ## Groups -/

structure CoordinatedIncident (F : Type) where
  incidentId : String
  hosts : List String
  window : IncidentWindow F
  wallStartNs : ℤ
  wallEndNs : ℤ

section Groups

variable (new : CoordinatedIncident F → Except Raise (CoordinatedIncident F))

/-- One message, over the constructor of the groups. -/
def groupStep (groups : List (String × CoordinatedIncident F)) (m : AgentMessage F) :
    Except Raise (List (String × CoordinatedIncident F)) :=
  let w := corrected m
  match groups.lookup m.incidentId with
  | none => do
    let g ← new
      { incidentId := m.incidentId, hosts := [m.hostId], window := m.incident
        wallStartNs := w.1, wallEndNs := w.2 }
    pure (upsert m.incidentId g (fun _ => g) groups)
  | some g =>
    pure (upsert m.incidentId g (fun g =>
      { g with hosts := g.hosts++[m.hostId], wallStartNs := min g.wallStartNs w.1
               wallEndNs := max g.wallEndNs w.2 }) groups)

def groupedWith (messages : List (AgentMessage F)) : Except Raise (List (CoordinatedIncident F)) :=
  (messages.foldlM (groupStep new) []).map (List.map Prod.snd)

end Groups

/-- The package neither defines nor imports a class of this name. -/
def coordinatedIncident (_ : CoordinatedIncident F) : Except Raise (CoordinatedIncident F) :=
  .error .nameError

def groupedIncidents : List (AgentMessage F) → Except Raise (List (CoordinatedIncident F)) :=
  groupedWith coordinatedIncident

/-! ## The order of propagation -/

/-- Whether the starts of each host have been close so far, and the last start of each host. -/
def skewStep (maxClockSkewNs : ℤ) (s : Bool × List (String × ℤ)) (m : AgentMessage F) :
    Bool × List (String × ℤ) :=
  let ok := match s.2.lookup m.hostId with
    | none => true
    | some prev => decide (|start m-prev| ≤ maxClockSkewNs)
  (s.1 && ok,upsert m.hostId (start m) (fun _ => start m) s.2)

/-- `if h not in order: order.append(h)`. -/
def orderStep (order : List String) (e : ℤ × String) : List String :=
  if e.2 ∈ order then order else order++[e.2]

def propagationOrder (maxClockSkewNs : ℤ) (messages : List (AgentMessage F)) :
    Except Raise (List String) :=
  let sorted := sortAsc start messages
  if (sorted.foldl (skewStep maxClockSkewNs) (true,[])).1 then
    .ok ((sortAsc toLex (sorted.map fun m => (start m,m.hostId))).foldl orderStep [])
  else .error (.valueError "clock skew exceeds max_clock_skew_ns; order untrustworthy")

/-! ## What an order of the hosts says -/

/-- The first start of a host. -/
def FirstStart (messages : List (AgentMessage F)) (host : String) (t : ℤ) : Prop :=
  (∃ m ∈ messages, m.hostId = host ∧ start m = t) ∧
    ∀ m ∈ messages, m.hostId = host → t ≤ start m

/-- Each host once, by its first start and its name. -/
structure IsOrder (messages : List (AgentMessage F)) (order : List String) : Prop where
  nodup : order.Nodup
  hosts : ∀ h, h ∈ order ↔ ∃ m ∈ messages, m.hostId = h
  ordered : order.Pairwise fun h h' => ∀ t t', FirstStart messages h t → FirstStart messages h' t' →
    t < t' ∨ t = t' ∧ h < h'

/-- The entries of a host that comes first are first. -/
def Before (entries : List (ℤ × String)) (h h' : String) : Prop :=
  ∀ e' ∈ entries, e'.2 = h' → ∃ e ∈ entries, e.2 = h ∧ toLex e ≤ toLex e'

/-- The order after the entries: each host once, the earlier ones in front. -/
structure Listed (entries : List (ℤ × String)) (order : List String) : Prop where
  nodup : order.Nodup
  hosts : ∀ h, h ∈ order ↔ ∃ e ∈ entries, e.2 = h
  ordered : order.Pairwise (Before entries)

section Listed

variable {entries : List (ℤ × String)} {order : List String} {e : ℤ × String}

/-- A host that is in the order has an entry before `e`. -/
theorem Listed.exists_le (h : Listed entries order) (hle : ∀ x ∈ entries, toLex x ≤ toLex e)
    {host : String} (hhost : host ∈ order) : ∃ x ∈ entries, x.2 = host ∧ toLex x ≤ toLex e := by
  obtain ⟨x,hx,hxh⟩ := (h.hosts host).mp hhost
  exact ⟨x,hx,hxh,hle x hx⟩

theorem Listed.before_concat (h : Listed entries order) (hle : ∀ x ∈ entries, toLex x ≤ toLex e)
    {host host' : String} (hhost : host ∈ order) (hb : Before entries host host') :
    Before (entries++[e]) host host' := by
  intro e' he' heq
  rcases List.mem_append.mp he' with hin | hin
  · obtain ⟨x,hx,hxh⟩ := hb e' hin heq
    exact ⟨x,List.mem_append_left _ hx,hxh⟩
  · obtain ⟨x,hx,hxh⟩ := h.exists_le hle hhost
    rw [List.mem_singleton.mp hin]
    exact ⟨x,List.mem_append_left _ hx,hxh⟩

theorem Listed.ordered_concat (h : Listed entries order)
    (hle : ∀ x ∈ entries, toLex x ≤ toLex e) : order.Pairwise (Before (entries++[e])) :=
  h.ordered.imp_of_mem fun hhost _ hb => h.before_concat hle hhost hb

theorem Listed.known (h : Listed entries order) (hle : ∀ x ∈ entries, toLex x ≤ toLex e)
    (hin : e.2 ∈ order) : Listed (entries++[e]) order where
  nodup := h.nodup
  hosts host := by
    have hown : e.2 = host → ∃ x ∈ entries, x.2 = host := fun heq => heq ▸ (h.hosts _).mp hin
    simp only [h.hosts,List.mem_append,List.mem_singleton,or_and_right,exists_or,exists_eq_left]
    exact (or_iff_left_of_imp hown).symm
  ordered := h.ordered_concat hle

theorem Listed.new (h : Listed entries order) (hle : ∀ x ∈ entries, toLex x ≤ toLex e)
    (hin : e.2 ∉ order) : Listed (entries++[e]) (order++[e.2]) where
  nodup := by
    rw [List.nodup_append]
    exact ⟨h.nodup,List.nodup_singleton _,fun a ha b hb heq =>
      hin (List.mem_singleton.mp hb ▸ heq ▸ ha)⟩
  hosts host := by simp [h.hosts,or_and_right,exists_or,eq_comm (a:=host)]
  ordered := by
    have hnew : ∀ host ∈ order, Before (entries++[e]) host e.2 := by
      intro host hhost e' he' heq
      obtain ⟨x,hx,hxh,hxe⟩ := h.exists_le hle hhost
      rcases List.mem_append.mp he' with he' | he'
      · exact absurd ((h.hosts e.2).mpr ⟨e',he',heq⟩) hin
      · rw [List.mem_singleton.mp he']
        exact ⟨x,List.mem_append_left _ hx,hxh,hxe⟩
    rw [List.pairwise_append]
    exact ⟨h.ordered_concat hle,List.pairwise_singleton _ _,fun host hhost host' hhost' =>
      List.mem_singleton.mp hhost' ▸ hnew host hhost⟩

end Listed

theorem foldl_orderStep (entries : List (ℤ × String))
    (hs : entries.Pairwise fun e e' => toLex e ≤ toLex e') :
    Listed entries (entries.foldl orderStep []) := by
  induction entries using List.reverseRecOn with
  | nil => exact ⟨by simp,by simp,by simp⟩
  | append_singleton entries e ih =>
    obtain ⟨hpre,-,hlast⟩ := List.pairwise_append.mp hs
    have hle : ∀ x ∈ entries, toLex x ≤ toLex e :=
      fun x hx => hlast x hx e (List.mem_singleton.mpr rfl)
    rw [List.foldl_append,List.foldl_cons,List.foldl_nil,orderStep]
    by_cases hin : e.2 ∈ entries.foldl orderStep []
    · rw [if_pos hin]
      exact (ih hpre).known hle hin
    · rw [if_neg hin]
      exact (ih hpre).new hle hin

/-- The entries of the messages in the order of the starts. -/
def entries (messages : List (AgentMessage F)) : List (ℤ × String) :=
  sortAsc toLex ((sortAsc start messages).map fun m => (start m,m.hostId))

theorem mem_entries (messages : List (AgentMessage F)) (e : ℤ × String) :
    e ∈ entries messages ↔ ∃ m ∈ messages, (start m,m.hostId) = e := by
  rw [entries,(sortAsc_perm toLex _).mem_iff,List.mem_map]
  simp only [(sortAsc_perm start messages).mem_iff]

theorem isOrder_entries (messages : List (AgentMessage F)) :
    IsOrder messages ((entries messages).foldl orderStep []) := by
  obtain ⟨hnodup,hmem,hord⟩ := foldl_orderStep (entries messages) (sortAsc_pairwise toLex _)
  refine ⟨hnodup,fun h => ?_,(hord.and hnodup).imp ?_⟩
  · rw [hmem]
    constructor
    · rintro ⟨e,he,rfl⟩
      obtain ⟨m,hm,rfl⟩ := (mem_entries messages e).mp he
      exact ⟨m,hm,rfl⟩
    · rintro ⟨m,hm,rfl⟩
      exact ⟨_,(mem_entries messages _).mpr ⟨m,hm,rfl⟩,rfl⟩
  · rintro h h' ⟨hb,hne⟩ t t' ⟨-,hleast⟩ ⟨⟨m',hm',rfl,rfl⟩,-⟩
    obtain ⟨e,he,rfl,hle⟩ := hb _ ((mem_entries messages _).mpr ⟨m',hm',rfl⟩) rfl
    obtain ⟨m,hm,rfl⟩ := (mem_entries messages e).mp he
    have ht := hleast m hm rfl
    rcases Prod.Lex.toLex_le_toLex.mp hle with hlt | ⟨heq,hhost⟩
    · exact .inl (lt_of_le_of_lt ht hlt)
    · rcases ht.lt_or_eq with hlt | rfl
      · exact .inl (hlt.trans_eq heq)
      · exact .inr ⟨heq,lt_of_le_of_ne hhost hne⟩

/-! ## The clock skew -/

/-- The starts of a host, in the order of the list. -/
def startsOf (h : String) (messages : List (AgentMessage F)) : List ℤ :=
  (messages.filter (·.hostId = h)).map start

/-- One step looks at the last start of its host. -/
theorem skewStep_fst (maxClockSkewNs : ℤ) (s : Bool × List (String × ℤ)) (m : AgentMessage F) :
    (skewStep maxClockSkewNs s m).1 = true ↔
      s.1 = true ∧ ∀ prev ∈ s.2.lookup m.hostId, |start m-prev| ≤ maxClockSkewNs := by
  cases hl : s.2.lookup m.hostId <;> simp [skewStep,hl]

/-- And it puts its own in the place of that. -/
theorem isChain_skewStep (R : ℤ → ℤ → Prop) (maxClockSkewNs : ℤ)
    (s : Bool × List (String × ℤ)) (m : AgentMessage F) (messages : List (AgentMessage F))
    (h : String) : ((s.2.lookup h).toList++startsOf h (m::messages)).IsChain R ↔
      (m.hostId = h → ∀ prev ∈ s.2.lookup h, R prev (start m)) ∧
      (((skewStep maxClockSkewNs s m).2.lookup h).toList++startsOf h messages).IsChain R := by
  simp only [skewStep,lookup_upsert]
  by_cases heq : m.hostId = h
  · subst heq
    cases hl : s.2.lookup m.hostId <;> simp [startsOf]
  · simp [startsOf,heq,Ne.symm heq]

theorem foldl_skewStep (maxClockSkewNs : ℤ) (messages : List (AgentMessage F)) :
    ∀ s : Bool × List (String × ℤ), (messages.foldl (skewStep maxClockSkewNs) s).1 = true ↔
      s.1 = true ∧ ∀ h, ((s.2.lookup h).toList++startsOf h messages).IsChain
        fun a b => |b-a| ≤ maxClockSkewNs := by
  induction messages with
  | nil =>
    intro s
    refine ⟨fun hs => ⟨hs,fun h => ?_⟩,And.left⟩
    cases s.2.lookup h <;> simp [startsOf]
  | cons m messages ih =>
    intro s
    rw [List.foldl_cons,ih]
    simp only [skewStep_fst,isChain_skewStep _ maxClockSkewNs,forall_and,forall_eq',and_assoc]

/-- The starts of a host come out of the sorting in one order. -/
theorem startsOf_sortAsc_perm {messages messages' : List (AgentMessage F)}
    (hperm : messages.Perm messages') (h : String) :
    startsOf h (sortAsc start messages) = startsOf h (sortAsc start messages') := by
  have hsorted : ∀ ms : List (AgentMessage F), (startsOf h (sortAsc start ms)).Pairwise (· ≤ ·) :=
    fun ms => List.pairwise_map.mpr ((sortAsc_pairwise start ms).filter _)
  have hp : (startsOf h (sortAsc start messages)).Perm (startsOf h (sortAsc start messages')) :=
    (((sortAsc_perm start messages).trans
      (hperm.trans (sortAsc_perm start messages').symm)).filter _).map start
  exact hp.eq_of_pairwise (fun _ _ _ _ => le_antisymm) (hsorted messages) (hsorted messages')

theorem propagationOrder_perm (maxClockSkewNs : ℤ) {messages messages' : List (AgentMessage F)}
    (h : messages.Perm messages') :
    propagationOrder maxClockSkewNs messages = propagationOrder maxClockSkewNs messages' := by
  have hskew : ((sortAsc start messages).foldl (skewStep maxClockSkewNs) (true,[])).1 =
      ((sortAsc start messages').foldl (skewStep maxClockSkewNs) (true,[])).1 := by
    rw [Bool.eq_iff_iff,foldl_skewStep,foldl_skewStep]
    simp only [startsOf_sortAsc_perm h]
  have hentries : entries messages = entries messages' :=
    sortAsc_eq_of_perm (((sortAsc_perm start messages).trans
      (h.trans (sortAsc_perm start messages').symm)).map _) fun _ _ _ _ heq => toLex.injective heq
  simp only [entries] at hentries
  simp only [propagationOrder,hskew,hentries]

/-! ## What the groups say -/

/-- The hosts of an incident, its first start and its last end. -/
structure IsGroup (messages : List (AgentMessage F)) (g : CoordinatedIncident F) : Prop where
  hosts : ∀ h, h ∈ g.hosts ↔ ∃ m ∈ messages, m.incidentId = g.incidentId ∧ m.hostId = h
  start : (∃ m ∈ messages, m.incidentId = g.incidentId ∧ (corrected m).1 = g.wallStartNs) ∧
    ∀ m ∈ messages, m.incidentId = g.incidentId → g.wallStartNs ≤ (corrected m).1
  stop : (∃ m ∈ messages, m.incidentId = g.incidentId ∧ (corrected m).2 = g.wallEndNs) ∧
    ∀ m ∈ messages, m.incidentId = g.incidentId → (corrected m).2 ≤ g.wallEndNs

/-- One group for each incident. -/
structure IsGrouping (messages : List (AgentMessage F)) (gs : List (CoordinatedIncident F)) :
    Prop where
  nodup : (gs.map (·.incidentId)).Nodup
  incidents : ∀ i, i ∈ gs.map (·.incidentId) ↔ ∃ m ∈ messages, m.incidentId = i
  groups : ∀ g ∈ gs, IsGroup messages g

section Step

variable {messages : List (AgentMessage F)} {m : AgentMessage F} {g : CoordinatedIncident F}

theorem IsGroup.other (hg : IsGroup messages g) (hne : m.incidentId ≠ g.incidentId) :
    IsGroup (messages++[m]) g := by
  obtain ⟨hhosts,hstart,hstop⟩ := hg
  constructor <;> grind

theorem isGroup_single (hnew : ∀ m' ∈ messages, m'.incidentId ≠ m.incidentId) :
    IsGroup (messages++[m]) { incidentId := m.incidentId, hosts := [m.hostId],
                              window := m.incident, wallStartNs := (corrected m).1,
                              wallEndNs := (corrected m).2 } := by
  constructor <;> grind

theorem IsGroup.join (hg : IsGroup messages g) (heq : m.incidentId = g.incidentId) :
    IsGroup (messages++[m]) { g with hosts := g.hosts++[m.hostId]
                                     wallStartNs := min g.wallStartNs (corrected m).1
                                     wallEndNs := max g.wallEndNs (corrected m).2 } := by
  obtain ⟨hhosts,hstart,hstop⟩ := hg
  constructor <;> grind

end Step

/-- The dictionary after the messages. -/
structure Grouped (messages : List (AgentMessage F))
    (groups : List (String × CoordinatedIncident F)) : Prop where
  nodup : (groups.map Prod.fst).Nodup
  known : ∀ i, groups.lookup i = none ↔ ∀ m ∈ messages, m.incidentId ≠ i
  group : ∀ i g, groups.lookup i = some g → g.incidentId = i ∧ IsGroup messages g

theorem Grouped.step {messages : List (AgentMessage F)}
    {groups : List (String × CoordinatedIncident F)} (h : Grouped messages groups)
    (m : AgentMessage F) :
    ∃ groups', groupStep .ok groups m = .ok groups' ∧ Grouped (messages++[m]) groups' := by
  have hknown : ∀ init f, ∀ i, (upsert m.incidentId init f groups).lookup i = none ↔
      ∀ m' ∈ messages++[m], m'.incidentId ≠ i := by
    intro init f i
    rw [lookup_upsert]
    by_cases hi : i = m.incidentId
    · simp [hi]
    · rw [if_neg hi,h.known]
      simp only [List.mem_append,List.mem_singleton,or_imp,forall_and,forall_eq]
      exact (and_iff_left (Ne.symm hi)).symm
  have hother : ∀ i g, i ≠ m.incidentId → groups.lookup i = some g →
      g.incidentId = i ∧ IsGroup (messages++[m]) g := by
    intro i g hi hg
    obtain ⟨rfl,hgroup⟩ := h.group i g hg
    exact ⟨rfl,hgroup.other hi.symm⟩
  unfold groupStep
  cases hl : groups.lookup m.incidentId with
  | none =>
    refine ⟨_,rfl,nodup_keys_upsert _ _ _ h.nodup,hknown _ _,fun i g hg => ?_⟩
    rw [lookup_upsert] at hg
    split at hg
    · next hi =>
      obtain rfl := Option.some.inj hg
      exact ⟨hi.symm,isGroup_single ((h.known _).mp hl)⟩
    · next hi => exact hother i g hi hg
  | some g₀ =>
    refine ⟨_,rfl,nodup_keys_upsert _ _ _ h.nodup,hknown _ _,fun i g hg => ?_⟩
    rw [lookup_upsert] at hg
    split at hg
    · next hi =>
      obtain ⟨hid,hgroup⟩ := h.group _ _ hl
      rw [hl] at hg
      obtain rfl := Option.some.inj hg
      exact ⟨hid.trans hi.symm,hgroup.join hid.symm⟩
    · next hi => exact hother i g hi hg

theorem grouped_foldlM (messages : List (AgentMessage F)) :
    ∃ groups, messages.foldlM (groupStep .ok) [] = .ok groups ∧ Grouped messages groups := by
  induction messages using List.reverseRecOn with
  | nil => exact ⟨[],rfl,List.nodup_nil,by simp,fun _ _ h => by cases h⟩
  | append_singleton messages m ih =>
    obtain ⟨groups,heq,hgroups⟩ := ih
    obtain ⟨groups',hstep,hgroups'⟩ := hgroups.step m
    refine ⟨groups',?_,hgroups'⟩
    rw [List.foldlM_append,heq]
    simp [bind,Except.bind,pure,Except.pure,hstep]

/-- With a constructor the groups would be right. -/
theorem groupedWith_ok (messages : List (AgentMessage F)) :
    ∃ gs, groupedWith .ok messages = .ok gs ∧ IsGrouping messages gs := by
  obtain ⟨groups,heq,h⟩ := grouped_foldlM messages
  have hids : (groups.map Prod.snd).map (·.incidentId) = groups.map Prod.fst := by
    rw [List.map_map]
    exact List.map_congr_left fun e he => (h.group e.1 e.2 (lookup_of_mem h.nodup he)).1
  refine ⟨groups.map Prod.snd,by rw [groupedWith,heq]; rfl,by rw [hids]; exact h.nodup,
    fun i => ?_,fun g hg => ?_⟩
  · have hmem : i ∈ groups.map Prod.fst ↔ groups.lookup i ≠ none := by
      rw [ne_eq,List.lookup_eq_none_iff]
      simp [eq_comm (a:=i)]
    rw [hids,hmem,ne_eq,h.known]
    simp
  · obtain ⟨e,he,rfl⟩ := List.mem_map.mp hg
    exact (h.group e.1 e.2 (lookup_of_mem h.nodup he)).2

/-! ## The order of arrival -/

/-- Whatever the order of arrival: the groups of the incidents, and one outcome of the order of
propagation, the error or the hosts by their first starts. -/
structure ArrivalIndependent (maxClockSkewNs : ℤ) (messages : List (AgentMessage F)) : Prop where
  groups : ∀ messages', messages.Perm messages' →
    ∃ gs, groupedIncidents messages' = .ok gs ∧ IsGrouping messages gs
  order : ∀ messages', messages.Perm messages' →
    propagationOrder maxClockSkewNs messages' = propagationOrder maxClockSkewNs messages
  hosts : ∀ order, propagationOrder maxClockSkewNs messages = .ok order → IsOrder messages order
  error : ∀ e, propagationOrder maxClockSkewNs messages = .error e →
    e = .valueError "clock skew exceeds max_clock_skew_ns; order untrustworthy"

theorem propagationOrder_cases (maxClockSkewNs : ℤ) (messages : List (AgentMessage F)) :
    propagationOrder maxClockSkewNs messages = .ok ((entries messages).foldl orderStep []) ∨
      propagationOrder maxClockSkewNs messages =
        .error (.valueError "clock skew exceeds max_clock_skew_ns; order untrustworthy") := by
  by_cases hskew : ((sortAsc start messages).foldl (skewStep maxClockSkewNs) (true,[])).1 = true
  · exact .inl (if_pos hskew)
  · exact .inr (if_neg hskew)

/-- The order of propagation does not depend on the arrival; the groups are only formed when
there are no messages, for the lack of their class and of nothing else. -/
theorem arrivalIndependent_iff (maxClockSkewNs : ℤ) (messages : List (AgentMessage F)) :
    (ArrivalIndependent maxClockSkewNs messages ↔ messages = []) ∧
      (∀ messages', messages.Perm messages' →
        propagationOrder maxClockSkewNs messages' = propagationOrder maxClockSkewNs messages) ∧
      (∀ order, propagationOrder maxClockSkewNs messages = .ok order → IsOrder messages order) ∧
      ∃ gs, groupedWith .ok messages = .ok gs ∧ IsGrouping messages gs := by
  have hperm : ∀ messages', messages.Perm messages' →
      propagationOrder maxClockSkewNs messages' = propagationOrder maxClockSkewNs messages :=
    fun _ h => (propagationOrder_perm maxClockSkewNs h).symm
  have hhosts : ∀ order, propagationOrder maxClockSkewNs messages = .ok order →
      IsOrder messages order := by
    intro order h
    rcases propagationOrder_cases maxClockSkewNs messages with hok | herr
    · rw [← Except.ok.inj (hok.symm.trans h)]
      exact isOrder_entries messages
    · cases herr.symm.trans h
  refine ⟨⟨fun h => ?_,?_⟩,hperm,hhosts,groupedWith_ok messages⟩
  · obtain ⟨gs,hgs,-⟩ := h.groups messages (.refl _)
    cases messages with
    | nil => rfl
    | cons m messages => cases hgs
  · rintro rfl
    refine ⟨fun messages' h => ?_,hperm,hhosts,fun e h => ?_⟩
    · obtain rfl := h.nil_eq
      exact ⟨[],rfl,List.nodup_nil,by simp,by simp⟩
    · rcases propagationOrder_cases (F:=F) maxClockSkewNs [] with hok | herr
      · cases hok.symm.trans h
      · exact (Except.error.inj (herr.symm.trans h)).symm

/-- An incident at the tenth second of the host's clock. -/
def diskMessage (hostId : String) (clockOffsetNs : ℤ) : AgentMessage Unit where
  hostId := hostId
  clockOffsetNs := clockOffsetNs
  incidentId := "inc-10-20"
  incident :=
    { incidentId := "inc-10-20", startTsNs := 10000000000, endTsNs := 20000000000
      windowOrder := by decide, detectedAtNs := 20000000000, status := .anomaly, severity := ()
      metricScores := [("disk_io",())], directions := [("disk_io",.up)] }

theorem oneMessage_not_grouped :
    ¬ ArrivalIndependent 60000000000 [diskMessage "host-a" 0] := by
  intro h
  obtain ⟨gs,hgs,-⟩ := h.groups _ (.refl _)
  cases hgs

end Coordinator
end ETraceDiag
