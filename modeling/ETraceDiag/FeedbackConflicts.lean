import ETraceDiag.DetectorFeedback
import ETraceDiag.UnorderedPairs

/-!
# Feedback that contradicts earlier feedback

`process_feedback` of the controller asks the live detector first and puts the feedback into the
store when the detector has taken it. Between two feedbacks the detector may score and be
replaced, and incidents and reports may be put.
-/

namespace ETraceDiag
namespace FeedbackConflicts

open TimeTable UnorderedPairs
open VersionedStore (FeedbackEvent FeedbackRecord FeedbackReply ScoredWindow CausalReport Store
  contradicts conflicts feedbacks getIncident putIncident putReport recordFeedback)
open DetectorFeedback (BaseDetector Calibration Detector FeedbackError Kind validate)

variable {F E : Type}

/-! ## The controller -/

structure Live (F E : Type) where
  kind : Kind
  detector : Detector F E

structure IncidentController (F E : Type) where
  store : Store F := {}
  detector : Option (Live F E) := none

section Calls

variable [Calibration F]

/-- What the live detector says to the feedback, and the detector after it; without a detector,
or when no calibration is wanted, nothing is applied. -/
def applyTo (applyCalibration : Bool) (fb : FeedbackEvent) :
    Option (Live F E) → Except FeedbackError Bool × Option (Live F E)
  | none => (.ok false,none)
  | some live =>
    if applyCalibration then
      let (result,detector) := DetectorFeedback.update live.kind live.detector fb
      (result.map fun _ => true,some { live with detector := detector })
    else (.ok false,some live)

/-- `process_feedback`, and the controller after it, also where it raises. -/
def processFeedback (auditId : String) (applyCalibration : Bool) (c : IncidentController F E)
    (fb : FeedbackEvent) : Except FeedbackError FeedbackReply × IncidentController F E :=
  match getIncident c.store fb.incidentId with
  | none => (.error .unknownIncident,c)
  | some r =>
    if fb.targetId ∉ r.incident.metricScores.map Prod.fst ∧ fb.label ≠ .wrongRootCause then
      (.error .unknownMetric,c)
    else
      match applyTo applyCalibration fb c.detector with
      | (.error e,detector) => (.error e,{ c with detector := detector })
      | (.ok applied,detector) =>
        let store := recordFeedback c.store ⟨fb,auditId,applied⟩
        (.ok { auditId := auditId
               modelVersion :=
                 (detector.map (·.detector.base.modelVersion)).getD fb.modelVersion
               applied := applied
               conflicts := conflicts (feedbacks store (some fb.incidentId))
               summary := "feedback "++fb.label.name++" recorded for "++fb.targetId },
          { store := store, detector := detector })

/-- What happens to the controller: a detector is attached, a method of the live detector is
called, the store takes an incident or a report, feedback comes with the identifier that its
audit would have. -/
inductive Call (F E : Type)
  | attach (live : Live F E)
  | live (call : DetectorFeedback.Call F E)
  | incident (w : ScoredWindow F)
  | report (r : CausalReport F)
  | feedback (auditId : String) (applyCalibration : Bool) (fb : FeedbackEvent)

def step (c : IncidentController F E) : Call F E → IncidentController F E
  | .attach live => { c with detector := some live }
  | .live call =>
    { c with detector := c.detector.map fun l =>
        { l with detector := DetectorFeedback.step l.kind l.detector call } }
  | .incident w => { c with store := putIncident c.store w }
  | .report r => { c with store := putReport c.store r }
  | .feedback auditId applyCalibration fb => (processFeedback auditId applyCalibration c fb).2

end Calls

/-! ## What is said about a call -/

/-- The identifiers that the calls draw. -/
def drawn : List (Call F E) → List String
  | [] => []
  | .feedback auditId _ _::calls => auditId::drawn calls
  | _::calls => drawn calls

/-- The text of an audit with the first digits of a UUID. -/
def IsAuditId (s : String) : Prop :=
  ∃ hex : List Char, hex.length = 12 ∧ (∀ c ∈ hex, c ∈ "0123456789abcdef".toList) ∧
    s = "audit-"++String.ofList hex

/-- The identifiers have the form of an audit, and no two are the same. -/
structure Drawn (calls : List (Call F E)) : Prop where
  form : ∀ s ∈ drawn calls, IsAuditId s
  fresh : (drawn calls).Nodup

/-- Two records with the same target and contradictory labels. -/
def Contradictory (a b : FeedbackRecord) : Prop :=
  a.feedback.targetId = b.feedback.targetId ∧
    contradicts a.feedback.label b.feedback.label = true

instance : DecidableRel Contradictory := fun _ _ => inferInstanceAs (Decidable (_ ∧ _))

def entry (a b : FeedbackRecord) : String :=
  if a.auditId ≤ b.auditId then "conflict:"++a.auditId++"~"++b.auditId
  else "conflict:"++b.auditId++"~"++a.auditId

/-- One entry for each unordered pair of contradictory records. -/
structure ConflictsExact (records : List FeedbackRecord) (out : List String) : Prop where
  once : out.Nodup
  pairs : out.Perm
    (((pairs records).filter fun p => Contradictory p.1 p.2).map fun p => entry p.1 p.2)

/-- One record comes to all feedback and to that of its incident; nothing else changes. -/
structure Appended (s s' : Store F) (r : FeedbackRecord) : Prop where
  all : feedbacks s' none = feedbacks s none++[r]
  own : feedbacks s' (some r.feedback.incidentId) =
    feedbacks s (some r.feedback.incidentId)++[r]
  others : ∀ id, id ≠ r.feedback.incidentId →
    feedbacks s' (some id) = feedbacks s (some id)
  incidents : s'.incidents = s.incidents

/-- The feedback is on a metric that the incident has a score of. -/
def Scored (w : ScoredWindow F) (fb : FeedbackEvent) : Prop :=
  fb.targetId ∈ w.metricScores.map Prod.fst

/-- The store holds the incident, with a score of the metric. -/
def Stored (s : Store F) (fb : FeedbackEvent) : Prop :=
  ∃ r, getIncident s fb.incidentId = some r ∧ (Scored r.incident fb ∨ fb.label = .wrongRootCause)

/-- The feedback is of the detector's version, or of none. -/
def Current (d : BaseDetector F) (fb : FeedbackEvent) : Prop :=
  fb.modelVersion = "" ∨ fb.modelVersion = d.modelVersion

/-- The detector has found the incident, with a score of the metric. -/
def Found (d : BaseDetector F) (fb : FeedbackEvent) : Prop :=
  ∃ w, d.emitted.lookup fb.incidentId = some w ∧ (Scored w fb ∨ fb.label = .wrongRootCause)

/-- The incident is stored, and a detector that is to be calibrated has found it and is of the
version. -/
def Accepts (c : IncidentController F E) (applyCalibration : Bool) (fb : FeedbackEvent) : Prop :=
  Stored c.store fb ∧ (applyCalibration = true → ∀ live ∈ c.detector,
    Found live.detector.base fb ∧ Current live.detector.base fb)

section Claims

variable [Calibration F]

/-- A call that raises leaves the store as it is; a call that does not appends its record and
returns the conflicts. -/
structure Preserves (c : IncidentController F E) (auditId : String) (applyCalibration : Bool)
    (fb : FeedbackEvent) : Prop where
  raised : ∀ e c', processFeedback auditId applyCalibration c fb = (.error e,c') →
    c'.store = c.store
  recorded : ∀ reply c', processFeedback auditId applyCalibration c fb = (.ok reply,c') →
    reply.auditId = auditId ∧ Appended c.store c'.store ⟨fb,auditId,reply.applied⟩ ∧
      ConflictsExact (feedbacks c'.store (some fb.incidentId)) reply.conflicts
  accepted : (∃ reply, (processFeedback auditId applyCalibration c fb).1 = .ok reply) ↔
    Accepts c applyCalibration fb

/-- Feedback on a scored metric of a stored incident that contradicts a record is recorded. -/
def RecordsContradiction (c : IncidentController F E) (auditId : String)
    (applyCalibration : Bool) (fb : FeedbackEvent) : Prop :=
  (∃ r, getIncident c.store fb.incidentId = some r ∧ Scored r.incident fb) →
    (∃ a ∈ feedbacks c.store (some fb.incidentId),
      a.feedback.targetId = fb.targetId ∧ contradicts a.feedback.label fb.label = true) →
    ∃ reply, (processFeedback auditId applyCalibration c fb).1 = .ok reply

end Claims

/-! ## What a call does -/

section Process

variable [Calibration F]

omit [Calibration F] in
theorem validate_ok_iff (d : BaseDetector F) (fb : FeedbackEvent) :
    (∃ w, validate d fb = .ok w) ↔ Found d fb ∧ Current d fb := by
  rw [validate]
  cases hw : d.emitted.lookup fb.incidentId with
  | none =>
    refine iff_of_false (fun ⟨w,h⟩ => by cases h) ?_
    rintro ⟨⟨w,h,-⟩,-⟩
    rw [hw] at h
    cases h
  | some w =>
    have hfound : Found d fb ↔ (Scored w fb ∨ fb.label = .wrongRootCause) := by
      rw [Found,hw]
      simp only [Option.some.injEq,exists_eq_left']
    rw [hfound,Current]
    dsimp only
    split
    · next hold => exact iff_of_false (fun ⟨w,h⟩ => by cases h) (by tauto)
    · next hold =>
      split
      · next hno => exact iff_of_false (fun ⟨w,h⟩ => by cases h) (by rw [Scored]; tauto)
      · next hno => exact iff_of_true ⟨w,rfl⟩ (by rw [Scored]; tauto)

theorem applyTo_cases (applyCalibration : Bool) (fb : FeedbackEvent)
    (detector : Option (Live F E)) :
    let taken := applyCalibration = true → ∀ live ∈ detector,
      Found live.detector.base fb ∧ Current live.detector.base fb
    (∃ e after, applyTo applyCalibration fb detector = (.error e,after) ∧ ¬ taken) ∨
      ∃ applied after, applyTo applyCalibration fb detector = (.ok applied,after) ∧ taken := by
  cases detector with
  | none => exact .inr ⟨false,none,rfl,fun _ _ h => by cases h⟩
  | some live =>
    cases applyCalibration with
    | false => exact .inr ⟨false,some live,rfl,fun h => by cases h⟩
    | true =>
      simp only [Option.mem_some,forall_eq',true_implies,← validate_ok_iff]
      cases hv : validate live.detector.base fb with
      | error e =>
        have herror : (DetectorFeedback.update live.kind live.detector fb).1 = .error e :=
          congrArg Prod.fst (DetectorFeedback.update_error hv)
        refine .inl ⟨e,some { live with
          detector := (DetectorFeedback.update live.kind live.detector fb).2 },?_,?_⟩
        · rw [applyTo,if_pos rfl]
          simp only [herror]
          rfl
        · rintro ⟨w,h⟩
          cases h
      | ok w =>
        obtain ⟨-,hok⟩ := DetectorFeedback.update_ok (k:=live.kind) hv
        refine .inr ⟨true,some { live with
          detector := (DetectorFeedback.update live.kind live.detector fb).2 },?_,w,rfl⟩
        rw [applyTo,if_pos rfl]
        simp only [hok]
        rfl

/-- A call raises, and the store is as it was, or is accepted, and the store has its record. -/
theorem processFeedback_cases (auditId : String) (applyCalibration : Bool)
    (c : IncidentController F E) (fb : FeedbackEvent) :
    (∃ e c', processFeedback auditId applyCalibration c fb = (.error e,c') ∧
      c'.store = c.store ∧ ¬ Accepts c applyCalibration fb) ∨
    ∃ reply c', processFeedback auditId applyCalibration c fb = (.ok reply,c') ∧
      Accepts c applyCalibration fb ∧ reply.auditId = auditId ∧
      c'.store = recordFeedback c.store ⟨fb,auditId,reply.applied⟩ ∧
      reply.conflicts = conflicts (feedbacks c'.store (some fb.incidentId)) := by
  rw [processFeedback]
  cases hr : getIncident c.store fb.incidentId with
  | none =>
    refine .inl ⟨_,_,rfl,rfl,?_⟩
    rintro ⟨⟨r,h,-⟩,-⟩
    rw [hr] at h
    cases h
  | some r =>
    have hstored : Stored c.store fb ↔ (Scored r.incident fb ∨ fb.label = .wrongRootCause) := by
      rw [Stored,hr]
      simp only [Option.some.injEq,exists_eq_left']
    simp only [Accepts,hstored,Scored]
    split
    · next hno =>
      refine .inl ⟨_,_,rfl,rfl,fun h => ?_⟩
      exact h.1.elim hno.1 hno.2
    · next hscored =>
      rcases applyTo_cases applyCalibration fb c.detector with
        ⟨e,after,heq,hnot⟩ | ⟨applied,after,heq,htaken⟩
      · rw [heq]
        exact .inl ⟨_,_,rfl,rfl,fun h => hnot h.2⟩
      · rw [heq]
        exact .inr ⟨_,_,rfl,⟨by tauto,htaken⟩,rfl,rfl,rfl⟩

/-! ## The handler of the API -/

def FeedbackError.code : FeedbackError → String
  | .unknownIncident => "unknown_incident"
  | .versionMismatch => "version_mismatch"
  | .unknownMetric => "unknown_metric"

instance : VersionedStore.Detector (Live F E) where
  update live fb :=
    match DetectorFeedback.update live.kind live.detector fb with
    | (.ok _,detector) => .ok { live with detector := detector }
    | (.error e,_) => .error (FeedbackError.code e)
  modelVersion live := live.detector.base.modelVersion

/-- `/v1/feedback` is a call with calibration. -/
theorem processFeedback_handler (auditId : String) (c : IncidentController F E)
    (fb : FeedbackEvent) :
    VersionedStore.processFeedback auditId ⟨c.store,c.detector⟩ fb =
      match processFeedback auditId true c fb with
      | (.ok reply,c') => .ok (reply,⟨c'.store,c'.detector⟩)
      | (.error e,_) => .error (FeedbackError.code e) := by
  rw [VersionedStore.processFeedback,processFeedback]
  cases getIncident c.store fb.incidentId with
  | none => rfl
  | some r =>
    dsimp only
    split
    · rfl
    · cases c.detector with
      | none => rfl
      | some live =>
        rw [applyTo,if_pos rfl]
        rcases hu : DetectorFeedback.update live.kind live.detector fb with ⟨_ | card,d⟩
        · simp [VersionedStore.Detector.update,hu,Except.map]
        · simp [VersionedStore.Detector.update,VersionedStore.Detector.modelVersion,hu,Except.map]

/-! ## What the store has on record -/

/-- The audits are among the identifiers drawn, in their order, and the feedback on an incident
is the part of all feedback that is on it. -/
structure Kept (calls : List (Call F E)) (s : Store F) : Prop where
  audits : ((feedbacks s none).map (·.auditId)).Sublist (drawn calls)
  own : ∀ id, feedbacks s (some id) =
    (feedbacks s none).filter fun r => r.feedback.incidentId = id

omit [Calibration F] in
theorem drawn_append (calls calls' : List (Call F E)) :
    drawn (calls++calls') = drawn calls++drawn calls' := by
  induction calls with
  | nil => rfl
  | cons call calls ih => cases call <;> simp [drawn,ih]

omit [Calibration F] in
theorem appended_recordFeedback (s : Store F) (r : FeedbackRecord) :
    Appended s (recordFeedback s r) r where
  all := rfl
  own := by
    rw [feedbacks,recordFeedback,lookup_upsert,if_pos rfl]
    rfl
  others id hid := by
    rw [feedbacks,recordFeedback,lookup_upsert,if_neg hid]
    rfl
  incidents := rfl

omit [Calibration F] in
theorem Kept.same {calls : List (Call F E)} {s s' : Store F} (h : Kept calls s)
    (hs : ∀ id, feedbacks s' id = feedbacks s id) (call : Call F E) :
    Kept (calls++[call]) s' where
  audits := by
    rw [hs,drawn_append]
    exact h.audits.trans (List.sublist_append_left _ _)
  own id := by rw [hs,hs,h.own]

omit [Calibration F] in
theorem Kept.recordFeedback {calls : List (Call F E)} {s : Store F} (h : Kept calls s)
    (r : FeedbackRecord) (applyCalibration : Bool) :
    Kept (calls++[.feedback r.auditId applyCalibration r.feedback]) (recordFeedback s r) := by
  have hr := appended_recordFeedback s r
  refine ⟨?_,fun id => ?_⟩
  · rw [hr.all,List.map_append,drawn_append]
    exact h.audits.append_right _
  · rw [hr.all,List.filter_append,← h.own]
    by_cases hid : r.feedback.incidentId = id
    · subst hid
      rw [hr.own,List.filter_cons_of_pos (by simp),List.filter_nil]
    · rw [hr.others id (Ne.symm hid),List.filter_cons_of_neg (by simpa using hid),List.filter_nil,
        List.append_nil]

theorem kept_step {calls : List (Call F E)} {c : IncidentController F E}
    (h : Kept calls c.store) (call : Call F E) :
    Kept (calls++[call]) (step c call).store := by
  cases call with
  | attach live => exact h.same (fun _ => rfl) _
  | live call => exact h.same (fun _ => rfl) _
  | incident w => exact h.same (fun id => by cases id <;> rfl) _
  | report r => exact h.same (fun id => by cases id <;> rfl) _
  | feedback auditId applyCalibration fb =>
    rw [step]
    rcases processFeedback_cases auditId applyCalibration c fb with
      ⟨e,c',heq,hsame,-⟩ | ⟨reply,c',heq,-,-,hstore,-⟩
    · rw [heq]
      exact h.same (fun id => by rw [hsame]) _
    · rw [heq,hstore]
      exact h.recordFeedback ⟨fb,auditId,reply.applied⟩ applyCalibration

theorem kept_run (calls : List (Call F E)) :
    Kept calls (Transition.run step ({} : IncidentController F E) calls).store := by
  induction calls using List.reverseRecOn with
  | nil => exact ⟨List.Sublist.refl _,fun _ => rfl⟩
  | append_singleton calls call ih =>
    rw [Transition.run_append]
    exact kept_step ih call

/-! ## The conflicts -/

omit [Calibration F] in
theorem tilde_not_mem {s : String} (h : IsAuditId s) : '~' ∉ s.toList := by
  obtain ⟨hex,-,hhex,rfl⟩ := h
  simp only [String.toList_append,String.toList_ofList,List.mem_append,not_or]
  exact ⟨by decide,fun hmem => absurd (hhex _ hmem) (by decide)⟩

omit [Calibration F] in
theorem contradicts_comm (a b : VersionedStore.FeedbackLabel) :
    contradicts a b = contradicts b a := by
  cases a <;> cases b <;> rfl

omit [Calibration F] in
theorem Contradictory.symm {a b : FeedbackRecord} (h : Contradictory a b) : Contradictory b a :=
  ⟨h.1.symm,by rw [contradicts_comm,h.2]⟩

omit [Calibration F] in
theorem entry_comm (a b : FeedbackRecord) : entry a b = entry b a := by
  rw [entry,entry]
  rcases lt_trichotomy a.auditId b.auditId with hlt | heq | hgt
  · rw [if_pos hlt.le,if_neg hlt.not_ge]
  · rw [heq]
  · rw [if_neg hgt.not_ge,if_pos hgt.le]

omit [Calibration F] in
/-- The entry names the pair. -/
theorem entry_inj {a b c d : FeedbackRecord} (ha : IsAuditId a.auditId) (hb : IsAuditId b.auditId)
    (hc : IsAuditId c.auditId) (hd : IsAuditId d.auditId) (h : entry a b = entry c d) :
    s(a.auditId,b.auditId) = s(c.auditId,d.auditId) := by
  have hsplit : ∀ {w x y z : String}, IsAuditId w → IsAuditId x → IsAuditId y → IsAuditId z →
      "conflict:"++w++"~"++x = "conflict:"++y++"~"++z → w = y ∧ x = z := by
    intro w x y z hw hx hy hz heq
    have hlists := congrArg String.toList heq
    simp only [String.toList_append,List.append_assoc,List.append_cancel_left_eq] at hlists
    have hparts := (List.append_cons_inj_of_notMem (tilde_not_mem hy) (tilde_not_mem hz)).mp
      hlists.symm
    exact ⟨String.toList_inj.mp hparts.1.symm,String.toList_inj.mp hparts.2.2.symm⟩
  rw [entry,entry] at h
  split_ifs at h
  · obtain ⟨h1,h2⟩ := hsplit ha hb hc hd h
    rw [h1,h2]
  · obtain ⟨h1,h2⟩ := hsplit ha hb hd hc h
    rw [h1,h2,Sym2.eq_swap]
  · obtain ⟨h1,h2⟩ := hsplit hb ha hc hd h
    rw [h1,h2,Sym2.eq_swap]
  · obtain ⟨h1,h2⟩ := hsplit hb ha hd hc h
    rw [h1,h2]

omit [Calibration F] in
theorem mem_conflicts {rs : List FeedbackRecord} (hids : (rs.map (·.auditId)).Nodup)
    (e : String) : e ∈ conflicts rs ↔ ∃ a ∈ rs, ∃ b ∈ rs, a.auditId ≠ b.auditId ∧
      Contradictory a b ∧ entry a b = e := by
  -- two records are at one place exactly when they have one identifier
  have hplace : ∀ {a b : FeedbackRecord} {i j : ℕ}, rs[i]? = some a → rs[j]? = some b →
      (i = j ↔ a.auditId = b.auditId) := by
    intro a b i j hi hj
    obtain ⟨hilt,rfl⟩ := List.getElem?_eq_some_iff.mp hi
    obtain ⟨hjlt,rfl⟩ := List.getElem?_eq_some_iff.mp hj
    have hi' : i < (rs.map (·.auditId)).length := by simpa using hilt
    have hj' : j < (rs.map (·.auditId)).length := by simpa using hjlt
    have hinj : (rs.map (·.auditId))[i] = (rs.map (·.auditId))[j] ↔ i = j := hids.getElem_inj_iff
    rw [← hinj,List.getElem_map,List.getElem_map]
  rw [conflicts,mem_sortedSet]
  simp only [List.mem_flatMap,List.mem_filterMap,Prod.exists,List.mem_zipIdx_iff_getElem?]
  constructor
  · rintro ⟨a,i,hi,b,j,hj,he⟩
    split at he
    · cases he
    · next hno =>
      split at he
      · next hc =>
        rw [not_or,hplace hi hj,not_not] at hno
        refine ⟨a,List.mem_of_getElem? hi,b,List.mem_of_getElem? hj,hno.1,⟨hno.2,hc⟩,?_⟩
        rw [← Option.some.inj he,entry]
        split <;> rfl
      · cases he
  · rintro ⟨a,ha,b,hb,hne,⟨htarget,hc⟩,rfl⟩
    obtain ⟨i,hi⟩ := List.mem_iff_getElem?.mp ha
    obtain ⟨j,hj⟩ := List.mem_iff_getElem?.mp hb
    refine ⟨a,i,hi,b,j,hj,?_⟩
    rw [if_neg (by rw [not_or,hplace hi hj,not_not]; exact ⟨hne,htarget⟩),if_pos hc,entry]
    split <;> rfl

omit [Calibration F] in
theorem conflicts_exact {rs : List FeedbackRecord} (hids : (rs.map (·.auditId)).Nodup)
    (hform : ∀ r ∈ rs, IsAuditId r.auditId) : ConflictsExact rs (conflicts rs) := by
  have hnodup : (conflicts rs).Nodup := (sortedSet_pairwise _).imp fun h => h.ne
  refine ⟨hnodup,perm_pairs hids (fun _ _ h => h.symm) entry_comm ?_ hnodup (mem_conflicts hids)⟩
  intro a ha b hb c hc d hd heq
  exact entry_inj (hform a ha) (hform b hb) (hform c hc) (hform d hd) heq

/-- In every run, feedback is appended or raises, and the conflicts are exact. -/
theorem run_preserves (calls : List (Call F E)) (auditId : String) (applyCalibration : Bool)
    (fb : FeedbackEvent) (h : Drawn (calls++[.feedback auditId applyCalibration fb])) :
    Preserves (Transition.run step {} calls) auditId applyCalibration fb := by
  have hkept := kept_step (kept_run calls) (.feedback auditId applyCalibration fb)
  rw [step] at hkept
  rcases processFeedback_cases auditId applyCalibration (Transition.run step {} calls) fb with
    ⟨e,c',heq,hsame,hno⟩ | ⟨reply,c',heq,hyes,haudit,hstore,hconflicts⟩
  · refine ⟨?_,?_,?_⟩
    · rintro e' c'' heq'
      rw [heq] at heq'
      obtain ⟨-,rfl⟩ := Prod.mk.inj heq'
      exact hsame
    · rintro reply c'' heq'
      rw [heq] at heq'
      cases heq'
    · rw [heq]
      exact iff_of_false (fun ⟨_,h⟩ => by cases h) hno
  · rw [heq] at hkept
    refine ⟨?_,?_,?_⟩
    · rintro e' c'' heq'
      rw [heq] at heq'
      cases heq'
    · rintro reply' c'' heq'
      rw [heq] at heq'
      obtain ⟨hreply,rfl⟩ := Prod.mk.inj heq'
      obtain rfl := Except.ok.inj hreply
      refine ⟨haudit,?_,?_⟩
      · rw [hstore]
        exact appended_recordFeedback _ _
      · have hsub : ((feedbacks c'.store (some fb.incidentId)).map (·.auditId)).Sublist
            (drawn (calls++[.feedback auditId applyCalibration fb])) := by
          rw [hkept.own]
          exact (List.filter_sublist.map _).trans hkept.audits
        rw [hconflicts]
        exact conflicts_exact (h.fresh.sublist hsub) fun r hr =>
          h.form _ (hsub.subset (List.mem_map_of_mem hr))
    · rw [heq]
      exact iff_of_true ⟨reply,rfl⟩ hyes

end Process

def hostWindow : ScoredWindow ℚ := { DetectorFeedback.hostWindow with modelVersion := "0.3.0" }

/-- The host window is found and put, and an operator calls it a false positive. -/
def calledFalse : List (Call ℚ Unit) :=
  [.attach ⟨.fits,DetectorFeedback.start .fits (Calibration.lit 5 1) ()⟩,
    .live (.score [hostWindow] ()),.incident hostWindow,
    .feedback "audit-00000000000a" true
      { DetectorFeedback.about "inc-1" .falsePositive with modelVersion := "0.3.0" }]

/-- Another operator contradicts, with the version that the window was scored with. -/
def contradiction : FeedbackEvent :=
  { DetectorFeedback.about "inc-1" .truePositive with modelVersion := "0.3.0" }

theorem drawn_calledFalse :
    Drawn (calledFalse++[.feedback "audit-00000000000b" true contradiction]) where
  form := by
    intro s hs
    rcases List.mem_pair.mp hs with rfl | rfl
    · exact ⟨"00000000000a".toList,by decide,by simp,by decide⟩
    · exact ⟨"00000000000b".toList,by decide,by simp,by decide⟩
  fresh := by decide

theorem calledFalse_preserves : Preserves (Transition.run step {} calledFalse)
    "audit-00000000000b" true contradiction :=
  run_preserves calledFalse "audit-00000000000b" true contradiction drawn_calledFalse

/-- The first feedback has moved the version on, and the second one is not taken. -/
theorem contradiction_not_recorded :
    Drawn (calledFalse++[.feedback "audit-00000000000b" true contradiction]) ∧
      ¬ RecordsContradiction (Transition.run step {} calledFalse) "audit-00000000000b" true
        contradiction := by
  refine ⟨drawn_calledFalse,fun h => ?_⟩
  obtain ⟨reply,hreply⟩ := h ⟨_,rfl,List.mem_singleton.mpr rfl⟩
    ⟨⟨_,"audit-00000000000a",true⟩,List.mem_singleton.mpr rfl,rfl,rfl⟩
  have herror : (processFeedback "audit-00000000000b" true (Transition.run step {} calledFalse)
      contradiction).1 = .error .versionMismatch := rfl
  rw [herror] at hreply
  cases hreply

end FeedbackConflicts
end ETraceDiag
