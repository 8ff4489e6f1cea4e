import Mathlib.Data.List.Pairwise
import ETraceDiag.Coordinator

/-!
# The joint frame

`Coordinator.analyze` up to the call of the causal engine: the frames of the hosts are moved into
the time of the coordinator, one copy for each message, and joined. The copies of the points are
not validated, so that a time may be negative; the key of a duplicate is left out of the error.
-/

namespace ETraceDiag
namespace JointFrame

open CausalInput HashOrder Coordinator

variable {F : Type}

/-- A point in the time of the coordinator. -/
structure WallPoint (F : Type) where
  tsNs : ℤ
  entityId : String
  entityType : EntityType
  metricId : String
  value : F
  quality : Quality

def WallPoint.key (p : WallPoint F) : String × String × ℤ × Quality :=
  (p.entityId,p.metricId,p.tsNs,p.quality)

/-- `p.model_copy(update={"ts_ns": p.ts_ns + offset})`. -/
def shift (offset : ℤ) (p : TelemetryPoint F) : WallPoint F where
  tsNs := p.tsNs+offset
  entityId := p.entityId
  entityType := p.entityType
  metricId := p.metricId
  value := p.value
  quality := p.quality

/-- `_ordered_unique`, from the time of the point before and the keys seen. -/
def orderedUnique (prev : ℤ) (seen : List (String × String × ℤ × Quality)) :
    List (WallPoint F) → Except Raise Unit
  | [] => .ok ()
  | p::pts =>
    if p.tsNs < prev then .error (.valueError "TelemetryFrame points must be sorted by ts_ns")
    else if p.key ∈ seen then .error (.valueError "duplicate point in TelemetryFrame")
    else orderedUnique p.tsNs (p.key::seen) pts

def telemetryFrame (pts : List (WallPoint F)) : Except Raise (List (WallPoint F)) :=
  (orderedUnique (-1) [] pts).map fun _ => pts

/-- What the causal engine is called with. -/
structure JointInputs (F : Type) where
  points : List (WallPoint F)
  incident : Option (IncidentWindow F)

section Analyze

variable (frameMap : String → Option (TelemetryFrame F))

/-- The moved frames of the messages whose host has one. -/
def movedFrames (messages : List (AgentMessage F)) : List (List (WallPoint F)) :=
  messages.filterMap fun m => (frameMap m.hostId).map fun fr =>
    fr.points.map (shift m.clockOffsetNs)

def correctedFrames (messages : List (AgentMessage F)) : Except Raise (List (List (WallPoint F))) :=
  (movedFrames frameMap messages).mapM telemetryFrame

/-- `min` with a key: the first message of those that start first. -/
def earliest : List (AgentMessage F) → Option (AgentMessage F)
  | [] => none
  | m::messages => some (messages.foldl (fun best m => if start m < start best then m else best) m)

def jointInputs (messages : List (AgentMessage F)) : Except Raise (JointInputs F) := do
  let frames ← correctedFrames frameMap messages
  if frames.isEmpty then
    .error (.runtimeError "no host frames provided for joint analysis")
  else
    let joint ← telemetryFrame (sortAsc WallPoint.tsNs frames.flatten)
    -- the first and the last time are taken from the sorted times
    if joint.isEmpty then .error .indexError
    else pure { points := joint, incident := (earliest messages).map (·.incident) }

/-! ## What the inputs have to say -/

/-- The points of a host, by its own clock. -/
def pointsOf (host : String) : List (TelemetryPoint F) := ((frameMap host).map (·.points)).getD []

/-- The points of every host once, by one of its offsets, and the window of the earliest message
in the same time. -/
structure IsJoint (messages : List (AgentMessage F)) (j : JointInputs F) : Prop where
  points : ∃ offset : String → ℤ,
    (∀ m ∈ messages, ∃ m' ∈ messages, m'.hostId = m.hostId ∧ m'.clockOffsetNs = offset m.hostId) ∧
    j.points.Perm ((messages.map (·.hostId)).dedup.flatMap fun h =>
      (pointsOf frameMap h).map (shift (offset h)))
  window : ∃ m ∈ earliest messages, ∃ w ∈ j.incident,
    ((w.startTsNs,w.endTsNs) : ℤ × ℤ) = corrected m

/-- The corrected points, message after message. -/
def corrections (messages : List (AgentMessage F)) : List (WallPoint F) :=
  messages.flatMap fun m => (pointsOf frameMap m.hostId).map (shift m.clockOffsetNs)

/-- No host with points has two messages, no two hosts share a point, and the clock of the
earliest message is the coordinator's. -/
structure Joinable (messages : List (AgentMessage F)) : Prop where
  nonempty : corrections frameMap messages ≠ []
  early : ∀ p ∈ corrections frameMap messages, -1 ≤ p.tsNs
  distinct : ((corrections frameMap messages).map WallPoint.key).Nodup
  once : messages.Pairwise fun m m' => m.hostId = m'.hostId → pointsOf frameMap m.hostId = []
  offset : ∀ m ∈ earliest messages, m.clockOffsetNs = 0

end Analyze

/-! ## Frames -/

theorem orderedUnique_ok_iff (pts : List (WallPoint F)) : ∀ prev seen,
    orderedUnique prev seen pts = .ok () ↔ (prev::pts.map (·.tsNs)).IsChain (· ≤ ·) ∧
      (pts.map WallPoint.key).Nodup ∧ ∀ p ∈ pts, p.key ∉ seen := by
  induction pts with
  | nil => intro prev seen; simp [orderedUnique]
  | cons p pts ih =>
    intro prev seen
    rw [orderedUnique]
    by_cases hts : p.tsNs < prev
    · rw [if_pos hts]
      refine iff_of_false (fun h => by cases h) fun h => ?_
      have hle : prev ≤ p.tsNs := (List.isChain_cons_cons.mp h.1).1
      omega
    · rw [if_neg hts]
      by_cases hseen : p.key ∈ seen
      · rw [if_pos hseen]
        exact iff_of_false (fun h => by cases h) fun h => h.2.2 p List.mem_cons_self hseen
      · rw [if_neg hseen,ih]
        have hle : prev ≤ p.tsNs := Int.not_lt.mp hts
        simp only [List.map_cons,List.isChain_cons_cons,hle,true_and,List.nodup_cons,
          List.mem_map,List.mem_cons,not_or,forall_eq_or_imp,hseen,not_false_eq_true]
        grind

theorem telemetryFrame_eq_ok_iff (pts r : List (WallPoint F)) : telemetryFrame pts = .ok r ↔
    r = pts ∧ (∀ p ∈ pts, -1 ≤ p.tsNs) ∧ pts.Pairwise (fun p q => p.tsNs ≤ q.tsNs) ∧
      (pts.map WallPoint.key).Nodup := by
  have hok := orderedUnique_ok_iff pts (-1) []
  rw [List.isChain_iff_pairwise,List.pairwise_cons,List.pairwise_map] at hok
  unfold telemetryFrame
  cases h : orderedUnique (-1) [] pts with
  | ok u =>
    obtain ⟨⟨hearly,hsorted⟩,hnodup,-⟩ := hok.mp h
    have hearly' : ∀ p ∈ pts, -1 ≤ p.tsNs := fun p hp => hearly _ (List.mem_map_of_mem hp)
    simp only [Except.map,Except.ok.injEq]
    exact ⟨fun heq => ⟨heq.symm,hearly',hsorted,hnodup⟩,fun heq => heq.1.symm⟩
  | error e =>
    refine iff_of_false (fun heq => by cases heq) ?_
    rintro ⟨-,hearly,hsorted,hnodup⟩
    have hall : ∀ t ∈ pts.map (·.tsNs), -1 ≤ t := by
      intro t ht
      obtain ⟨p,hp,rfl⟩ := List.mem_map.mp ht
      exact hearly p hp
    cases h.symm.trans (hok.mpr ⟨⟨hall,hsorted⟩,hnodup,by simp⟩)

/-- Points that are sorted first have to be late enough and told once. -/
theorem telemetryFrame_sortAsc (pts r : List (WallPoint F)) :
    telemetryFrame (sortAsc WallPoint.tsNs pts) = .ok r ↔
      r = sortAsc WallPoint.tsNs pts ∧ (∀ p ∈ pts, -1 ≤ p.tsNs) ∧
        (pts.map WallPoint.key).Nodup := by
  have hperm := sortAsc_perm WallPoint.tsNs pts
  have hsorted := sortAsc_pairwise WallPoint.tsNs pts
  simp only [telemetryFrame_eq_ok_iff,hperm.mem_iff,(hperm.map WallPoint.key).nodup_iff,hsorted,
    true_and]

theorem isEmpty_sortAsc (pts : List (WallPoint F)) :
    (sortAsc WallPoint.tsNs pts).isEmpty = true ↔ pts = [] := by
  rw [List.isEmpty_iff,← List.length_eq_zero_iff,(sortAsc_perm WallPoint.tsNs pts).length_eq,
    List.length_eq_zero_iff]

/-- A frame moved in time is a frame as long as it stays above minus one. -/
theorem telemetryFrame_shift (fr : TelemetryFrame F) (offset : ℤ) (r : List (WallPoint F)) :
    telemetryFrame (fr.points.map (shift offset)) = .ok r ↔
      r = fr.points.map (shift offset) ∧ ∀ p ∈ fr.points.map (shift offset), -1 ≤ p.tsNs := by
  rw [telemetryFrame_eq_ok_iff]
  have hsorted : (fr.points.map (shift offset)).Pairwise fun p q => p.tsNs ≤ q.tsNs := by
    exact List.pairwise_map.mpr (fr.ordered.imp fun h =>
      Int.add_le_add_right (Int.ofNat_le.mpr h) offset)
  have hnodup : ((fr.points.map (shift offset)).map WallPoint.key).Nodup := by
    have hinj : ∀ p q : TelemetryPoint F, (shift offset p).key = (shift offset q).key →
        p.key = q.key := by
      intro p q h
      simp only [WallPoint.key,shift,Prod.mk.injEq,TelemetryPoint.key] at h ⊢
      exact ⟨h.1,h.2.1,Int.ofNat_inj.mp (by omega),h.2.2.2⟩
    rw [List.map_map]
    exact List.pairwise_map.mpr ((List.pairwise_map.mp fr.unique).imp
      fun hne heq => hne (hinj _ _ heq))
  exact ⟨fun h => ⟨h.1,h.2.1⟩,fun h => ⟨h.1,h.2,hsorted,hnodup⟩⟩

/-- A loop over checks that change nothing. -/
theorem mapM_check_eq_ok_iff {α : Type} {f : α → Except Raise α} {P : α → Prop} (xs : List α)
    (hf : ∀ x ∈ xs, ∀ r, f x = .ok r ↔ r = x ∧ P x) : ∀ r,
    xs.mapM f = .ok r ↔ r = xs ∧ ∀ x ∈ xs, P x := by
  induction xs with
  | nil => intro r; simp [pure,Except.pure,eq_comm]
  | cons x xs ih =>
    intro r
    have ih := ih fun y hy => hf y (List.mem_cons_of_mem _ hy)
    have hx := hf x List.mem_cons_self
    rw [List.mapM_cons]
    cases hone : f x with
    | error e =>
      refine iff_of_false (fun h => by cases h) fun h => ?_
      cases hone.symm.trans ((hx x).mpr ⟨rfl,h.2 x List.mem_cons_self⟩)
    | ok y =>
      obtain ⟨rfl,hP⟩ := (hx y).mp hone
      cases hrest : xs.mapM f with
      | error e =>
        refine iff_of_false (fun h => by cases h) fun h => ?_
        cases hrest.symm.trans ((ih xs).mpr ⟨rfl,fun z hz => h.2 z (List.mem_cons_of_mem _ hz)⟩)
      | ok ys =>
        obtain ⟨rfl,hall⟩ := (ih ys).mp hrest
        have hP' : ∀ z ∈ y::ys, P z := List.forall_mem_cons.mpr ⟨hP,hall⟩
        exact ⟨fun h => ⟨(Except.ok.inj h).symm,hP'⟩,fun h => congrArg Except.ok h.1.symm⟩

section Analyze

variable (frameMap : String → Option (TelemetryFrame F))

theorem flatten_movedFrames (messages : List (AgentMessage F)) :
    (movedFrames frameMap messages).flatten = corrections frameMap messages := by
  induction messages with
  | nil => rfl
  | cons m messages ih =>
    simp only [movedFrames,corrections,pointsOf,List.filterMap_cons,List.flatMap_cons] at ih ⊢
    cases frameMap m.hostId <;> simp [ih]

theorem correctedFrames_eq_ok_iff (messages : List (AgentMessage F))
    (r : List (List (WallPoint F))) : correctedFrames frameMap messages = .ok r ↔
      r = movedFrames frameMap messages ∧ ∀ p ∈ corrections frameMap messages, -1 ≤ p.tsNs := by
  have hcheck : ∀ x ∈ movedFrames frameMap messages, ∀ r,
      telemetryFrame x = .ok r ↔ r = x ∧ ∀ p ∈ x, -1 ≤ p.tsNs := by
    intro x hx r
    obtain ⟨m,-,hm⟩ := List.mem_filterMap.mp hx
    obtain ⟨fr,-,rfl⟩ := Option.map_eq_some_iff.mp hm
    exact telemetryFrame_shift fr m.clockOffsetNs r
  rw [← flatten_movedFrames]
  simp only [List.mem_flatten,forall_exists_index,and_imp]
  exact (mapM_check_eq_ok_iff _ hcheck r).trans (and_congr_right fun _ =>
    ⟨fun h p x hx hp => h x hx p hp,fun h x hx p hp => h p x hx hp⟩)

/-- The analysis gets as far as the engine when the joint frame has points, none of them early or
told twice. -/
theorem jointInputs_eq_ok_iff (messages : List (AgentMessage F)) (j : JointInputs F) :
    jointInputs frameMap messages = .ok j ↔
      (corrections frameMap messages ≠ [] ∧ (∀ p ∈ corrections frameMap messages, -1 ≤ p.tsNs) ∧
        ((corrections frameMap messages).map WallPoint.key).Nodup) ∧
      j = { points := sortAsc WallPoint.tsNs (corrections frameMap messages)
            incident := (earliest messages).map (·.incident) } := by
  have hframe := telemetryFrame_sortAsc (corrections frameMap messages)
  unfold jointInputs
  cases hframes : correctedFrames frameMap messages with
  | error e =>
    refine iff_of_false (fun h => by cases h) fun h => ?_
    cases hframes.symm.trans ((correctedFrames_eq_ok_iff frameMap messages _).mpr ⟨rfl,h.1.2.1⟩)
  | ok frames =>
    obtain ⟨rfl,hearly⟩ := (correctedFrames_eq_ok_iff frameMap messages frames).mp hframes
    have hflat := flatten_movedFrames frameMap messages
    simp only [bind,Except.bind,hflat]
    split
    · next hnil =>
      rw [List.isEmpty_iff] at hnil
      rw [hnil] at hflat
      exact iff_of_false (fun h => by cases h) fun h => h.1.1 hflat.symm
    · cases hjoint : telemetryFrame (sortAsc WallPoint.tsNs (corrections frameMap messages)) with
      | error e =>
        refine iff_of_false (fun h => by cases h) fun h => ?_
        cases hjoint.symm.trans ((hframe _).mpr ⟨rfl,h.1.2⟩)
      | ok joint =>
        obtain ⟨rfl,-,hnodup⟩ := (hframe joint).mp hjoint
        have hnil := isEmpty_sortAsc (corrections frameMap messages)
        by_cases hne : corrections frameMap messages = []
        · simp only [if_pos (hnil.mpr hne)]
          exact iff_of_false (fun h => by cases h) fun h => h.1.1 hne
        · simp only [if_neg (mt hnil.mp hne)]
          exact ⟨fun h => ⟨⟨hne,hearly,hnodup⟩,(Except.ok.inj h).symm⟩,
            fun h => congrArg Except.ok h.2.symm⟩

end Analyze

/-! ## Every host once -/

section Keys

variable {κ α : Type} [DecidableEq κ]

theorem sum_dedup_le (n : κ → ℕ) (ks : List κ) : (ks.dedup.map n).sum ≤ (ks.map n).sum := by
  induction ks with
  | nil => simp
  | cons k ks ih =>
    by_cases hk : k ∈ ks
    · rw [List.dedup_cons_of_mem hk,List.map_cons,List.sum_cons]
      omega
    · rw [List.dedup_cons_of_notMem hk,List.map_cons,List.map_cons,List.sum_cons,List.sum_cons]
      omega

/-- Only keys of no weight are repeated where dropping repetitions loses no weight. -/
theorem pairwise_of_sum_dedup (n : κ → ℕ) (ks : List κ)
    (h : (ks.dedup.map n).sum = (ks.map n).sum) : ks.Pairwise fun k k' => k = k' → n k = 0 := by
  induction ks with
  | nil => exact .nil
  | cons k ks ih =>
    have hle := sum_dedup_le n ks
    by_cases hk : k ∈ ks
    · rw [List.dedup_cons_of_mem hk,List.map_cons,List.sum_cons] at h
      exact .cons (fun _ _ _ => by omega) (ih (by omega))
    · rw [List.dedup_cons_of_notMem hk,List.map_cons,List.map_cons,List.sum_cons,
        List.sum_cons] at h
      exact .cons (fun k' hk' heq => absurd (heq ▸ hk') hk) (ih (by omega))

theorem flatMap_dedup (g : κ → List α) (ks : List κ)
    (h : ks.Pairwise fun k k' => k = k' → g k = []) : ks.dedup.flatMap g = ks.flatMap g := by
  induction ks with
  | nil => rfl
  | cons k ks ih =>
    obtain ⟨hk,hks⟩ := List.pairwise_cons.mp h
    by_cases hmem : k ∈ ks
    · rw [List.dedup_cons_of_mem hmem,ih hks,List.flatMap_cons,hk k hmem rfl,List.nil_append]
    · rw [List.dedup_cons_of_notMem hmem,List.flatMap_cons,List.flatMap_cons,ih hks]

end Keys

variable (frameMap : String → Option (TelemetryFrame F))

theorem length_corrections (messages : List (AgentMessage F)) :
    (corrections frameMap messages).length =
      ((messages.map (·.hostId)).map fun h => (pointsOf frameMap h).length).sum := by
  simp [corrections,List.length_flatMap,Function.comp_def]

theorem once_of_perm {messages : List (AgentMessage F)} {offset : String → ℤ}
    (h : (corrections frameMap messages).Perm ((messages.map (·.hostId)).dedup.flatMap fun h =>
      (pointsOf frameMap h).map (shift (offset h)))) :
    messages.Pairwise fun m m' => m.hostId = m'.hostId → pointsOf frameMap m.hostId = [] := by
  have hlength := h.length_eq
  rw [length_corrections,List.length_flatMap] at hlength
  simp only [List.length_map] at hlength
  have hpair := pairwise_of_sum_dedup (fun h => (pointsOf frameMap h).length)
    (messages.map (·.hostId)) hlength.symm
  exact (List.pairwise_map.mp hpair).imp fun hp heq => List.length_eq_zero_iff.mp (hp heq)

/-- The offset of the first message of a host. -/
def firstOffset (messages : List (AgentMessage F)) (host : String) : ℤ :=
  ((messages.find? (·.hostId = host)).map (·.clockOffsetNs)).getD 0

theorem exists_firstOffset {messages : List (AgentMessage F)} {m : AgentMessage F}
    (hm : m ∈ messages) : ∃ m' ∈ messages, m'.hostId = m.hostId ∧
      m'.clockOffsetNs = firstOffset messages m.hostId := by
  have hsome : (messages.find? (·.hostId = m.hostId)).isSome :=
    List.find?_isSome.mpr ⟨m,hm,by simp⟩
  obtain ⟨m',hm'⟩ := Option.isSome_iff_exists.mp hsome
  exact ⟨m',List.mem_of_find?_eq_some hm',by simpa using List.find?_some hm',
    by rw [firstOffset,hm']; rfl⟩

theorem corrections_eq {messages : List (AgentMessage F)}
    (h : messages.Pairwise fun m m' => m.hostId = m'.hostId → pointsOf frameMap m.hostId = []) :
    corrections frameMap messages = (messages.map (·.hostId)).dedup.flatMap fun h =>
      (pointsOf frameMap h).map (shift (firstOffset messages h)) := by
  have hkeys : (messages.map (·.hostId)).Pairwise fun k k' => k = k' →
      (pointsOf frameMap k).map (shift (firstOffset messages k)) = [] := by
    refine List.pairwise_map.mpr (h.imp fun hp heq => ?_)
    rw [hp heq,List.map_nil]
  rw [flatMap_dedup _ _ hkeys,List.flatMap_map,corrections]
  refine List.flatMap_congr fun m hm => ?_
  obtain ⟨m',hm',hhost,hoffset⟩ := exists_firstOffset hm
  by_cases heq : m = m'
  · rw [← hoffset,heq]
  · have hsymm : Std.Symm fun m m' : AgentMessage F =>
        m.hostId = m'.hostId → pointsOf frameMap m.hostId = [] :=
      ⟨fun a b hab hba => hba ▸ hab hba.symm⟩
    rw [h.forall hm hm' heq hhost.symm,List.map_nil,List.map_nil]

/-- The window of the earliest message is in the time of the points when its clock is. -/
theorem window_iff {messages : List (AgentMessage F)} (hne : messages ≠ []) :
    (∃ m ∈ earliest messages, ∃ w ∈ (earliest messages).map (·.incident),
      ((w.startTsNs,w.endTsNs) : ℤ × ℤ) = corrected m) ↔
      ∀ m ∈ earliest messages, m.clockOffsetNs = 0 := by
  cases messages with
  | nil => exact absurd rfl hne
  | cons m messages => simp [earliest,corrected]

/-- The joint analysis gets the points of every host once and a window in their time exactly when
the messages are joinable. -/
theorem jointInputs_isJoint_iff (messages : List (AgentMessage F)) :
    (∃ j, jointInputs frameMap messages = .ok j ∧ IsJoint frameMap messages j) ↔
      Joinable frameMap messages := by
  have hperm := sortAsc_perm WallPoint.tsNs (corrections frameMap messages)
  have hmessages : corrections frameMap messages ≠ [] → messages ≠ [] := by
    rintro h rfl
    exact h rfl
  constructor
  · rintro ⟨j,hj,⟨offset,-,hpoints⟩,hwindow⟩
    obtain ⟨⟨hne,hearly,hnodup⟩,rfl⟩ := (jointInputs_eq_ok_iff frameMap messages j).mp hj
    exact ⟨hne,hearly,hnodup,once_of_perm frameMap (hperm.symm.trans hpoints),
      (window_iff (hmessages hne)).mp hwindow⟩
  · rintro ⟨hne,hearly,hnodup,honce,hoffset⟩
    refine ⟨_,(jointInputs_eq_ok_iff frameMap messages _).mpr ⟨⟨hne,hearly,hnodup⟩,rfl⟩,?_,
      (window_iff (hmessages hne)).mpr hoffset⟩
    exact ⟨firstOffset messages,fun m hm => exists_firstOffset hm,
      hperm.trans (corrections_eq frameMap honce ▸ .refl _)⟩

/-- One measurement of the disk. -/
def diskFrame : TelemetryFrame Unit where
  points := [{ tsNs := 10000000000, entityId := "sda", entityType := .device
               metricId := "disk_io", value := (), quality := .observed }]
  ordered := List.pairwise_singleton _ _
  unique := List.nodup_singleton _

/-- Two incidents of one host. -/
theorem twoIncidents_duplicate : jointInputs (fun _ => some diskFrame)
    [diskMessage "host-a" 0,diskMessage "host-a" 0] =
      .error (.valueError "duplicate point in TelemetryFrame") := rfl

theorem twoIncidents_not_joint : ¬ ∃ j, jointInputs (fun _ => some diskFrame)
    [diskMessage "host-a" 0,diskMessage "host-a" 0] = .ok j ∧ IsJoint (fun _ => some diskFrame)
      [diskMessage "host-a" 0,diskMessage "host-a" 0] j := by
  rintro ⟨j,hj,-⟩
  cases twoIncidents_duplicate.symm.trans hj

end JointFrame
end ETraceDiag
