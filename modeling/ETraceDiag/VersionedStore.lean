import ETraceDiag.Torai
import ETraceDiag.Transition

/-!
# The versioned store of the API

`VersionedStore` holds one record for each incident, with the causal reports on it, and the
feedback. The handlers of `/v1/score`, `/v1/causal/analyze` and `/v1/feedback` call it in the
order in which the requests come. The times of the records, which nothing reads, are left out.
-/

namespace ETraceDiag
namespace VersionedStore

open CausalInput TimeTable

variable {F : Type}

structure ScoredWindow (F : Type) extends IncidentWindow F where
  modelVersion : String

structure CausalReport (F : Type) extends Torai.CausalReport F where
  window : ScoredWindow F
  modelVersion : String

inductive FeedbackLabel
  | truePositive
  | falsePositive
  | wrongDirection
  | wrongRootCause
  | confirmed
  | rejected
  deriving DecidableEq,Repr

def FeedbackLabel.name : FeedbackLabel → String
  | .truePositive => "true_positive"
  | .falsePositive => "false_positive"
  | .wrongDirection => "wrong_direction"
  | .wrongRootCause => "wrong_root_cause"
  | .confirmed => "confirmed"
  | .rejected => "rejected"

structure FeedbackEvent where
  incidentId : String
  label : FeedbackLabel
  targetId : String
  modelVersion : String

structure IncidentRecord (F : Type) where
  incident : ScoredWindow F
  modelVersion : String
  reports : List (CausalReport F) := []

structure FeedbackRecord where
  feedback : FeedbackEvent
  auditId : String
  applied : Bool

structure Store (F : Type) where
  incidents : List (String × IncidentRecord F) := []
  feedback : List FeedbackRecord := []
  feedbacksByIncident : List (String × List FeedbackRecord) := []

/-! ## The operations of the store -/

def putIncident (s : Store F) (incident : ScoredWindow F) : Store F :=
  let rec' : IncidentRecord F := { incident := incident, modelVersion := incident.modelVersion }
  { s with incidents := upsert incident.incidentId rec' (fun _ => rec') s.incidents }

def getIncident (s : Store F) (incidentId : String) : Option (IncidentRecord F) :=
  s.incidents.lookup incidentId

/-- The first report of the same version is replaced, a new version is appended. -/
def replaceOrAppend (report : CausalReport F) : List (CausalReport F) → List (CausalReport F)
  | [] => [report]
  | r::rs =>
    if r.modelVersion = report.modelVersion then report::rs else r::replaceOrAppend report rs

def putReport (s : Store F) (report : CausalReport F) : Store F :=
  let new : IncidentRecord F := { incident := report.window, modelVersion := report.modelVersion }
  { s with
    incidents := upsert report.incidentId new
      (fun r => { r with reports := replaceOrAppend report r.reports }) s.incidents }

/-- The function ends after the guard; what it returns then is `None` too. -/
def latestReport (s : Store F) (incidentId : String) : Option (CausalReport F) :=
  match getIncident s incidentId with
  | none => none
  | some r => if r.reports.isEmpty then none else none

def reportsForIncident (s : Store F) (incidentId : String) : List (CausalReport F) :=
  match getIncident s incidentId with
  | none => []
  | some r => r.reports

def recordFeedback (s : Store F) (r : FeedbackRecord) : Store F :=
  { s with
    feedback := s.feedback++[r]
    feedbacksByIncident := upsert r.feedback.incidentId [] (·++[r]) s.feedbacksByIncident }

def feedbacks (s : Store F) : Option String → List FeedbackRecord
  | none => s.feedback
  | some incidentId => (s.feedbacksByIncident.lookup incidentId).getD []

def contradicts (a b : FeedbackLabel) : Bool :=
  let pos : List FeedbackLabel := [.truePositive,.confirmed]
  let neg : List FeedbackLabel := [.falsePositive,.rejected]
  (a ∈ pos && b ∈ neg) || (a ∈ neg && b ∈ pos) || (a = .wrongDirection && b ∈ pos) ||
    (a ∈ pos && b = .wrongDirection)

/-- `_conflicts`. -/
def conflicts (records : List FeedbackRecord) : List String :=
  sortedSet (records.zipIdx.flatMap fun a => records.zipIdx.filterMap fun b =>
    if a.2 = b.2 ∨ a.1.feedback.targetId ≠ b.1.feedback.targetId then none
    else if contradicts a.1.feedback.label b.1.feedback.label then
      let pair := if a.1.auditId ≤ b.1.auditId then (a.1.auditId,b.1.auditId)
        else (b.1.auditId,a.1.auditId)
      some ("conflict:"++pair.1++"~"++pair.2)
    else none)

/-! ## The handlers -/

/-- A live detector takes feedback into its calibration or raises. -/
class Detector (D : Type) where
  update : D → FeedbackEvent → Except String D
  modelVersion : D → String

structure IncidentController (F D : Type) where
  store : Store F := {}
  detector : Option D := none

structure FeedbackReply where
  auditId : String
  modelVersion : String
  applied : Bool
  conflicts : List String
  summary : String

/-- The codes of the `FeedbackError`s; what the detector raises is passed on. -/
def processFeedback {D : Type} [Detector D] (auditId : String) (c : IncidentController F D)
    (fb : FeedbackEvent) : Except String (FeedbackReply × IncidentController F D) := do
  let some r := getIncident c.store fb.incidentId | .error "unknown_incident"
  if fb.targetId ∉ r.incident.metricScores.map Prod.fst ∧ fb.label ≠ .wrongRootCause then
    .error "unknown_metric"
  else
    let detector ← c.detector.mapM (Detector.update · fb)
    let store := recordFeedback c.store ⟨fb,auditId,detector.isSome⟩
    pure ({ auditId := auditId
            modelVersion := (detector.map Detector.modelVersion).getD fb.modelVersion
            applied := detector.isSome
            conflicts := conflicts (feedbacks store (some fb.incidentId))
            summary := "feedback "++fb.label.name++" recorded for "++fb.targetId },
      { store := store, detector := detector })

/-- A request that gets as far as the store, with what the engines made of it: the detector
that scored and its incidents, the report of the causal analysis, the identifier drawn for the
audit. -/
inductive Request (F D : Type)
  | score (det : D) (incidents : List (ScoredWindow F))
  | causal (report : CausalReport F)
  | feedback (auditId : String) (fb : FeedbackEvent)

/-- The calls of the store that a request makes. -/
inductive Op (F : Type)
  | putIncident (incident : ScoredWindow F)
  | putReport (report : CausalReport F)
  | recordFeedback (r : FeedbackRecord)

def apply (s : Store F) : Op F → Store F
  | .putIncident incident => putIncident s incident
  | .putReport report => putReport s report
  | .recordFeedback r => recordFeedback s r

variable {D : Type} [Detector D]

/-- The controller after a request; one that raises leaves it as it was. -/
def handle (c : IncidentController F D) : Request F D → IncidentController F D
  | .score det incidents =>
    { store := incidents.foldl putIncident c.store, detector := some det }
  | .causal report => { c with store := putReport (putIncident c.store report.window) report }
  | .feedback auditId fb =>
    match processFeedback auditId c fb with
    | .ok (_,c') => c'
    | .error _ => c

def ops (c : IncidentController F D) : Request F D → List (Op F)
  | .score _ incidents => incidents.map .putIncident
  | .causal report => [.putIncident report.window,.putReport report]
  | .feedback auditId fb =>
    match processFeedback auditId c fb with
    | .ok (reply,_) => [.recordFeedback ⟨fb,auditId,reply.applied⟩]
    | .error _ => []

/-- The calls of the store in a run, in order. -/
def history : IncidentController F D → List (Request F D) → List (Op F)
  | _, [] => []
  | c, q::qs => ops c q++history (handle c q) qs

/-! ## What the history says -/

/-- The report last put for an incident and a version. -/
def putStep (id v : String) (last : Option (CausalReport F)) : Op F → Option (CausalReport F)
  | .putReport r => if r.incidentId = id ∧ r.modelVersion = v then some r else last
  | _ => last

def lastPut (h : List (Op F)) (id v : String) : Option (CausalReport F) :=
  h.foldl (putStep id v) none

/-- The versions put for an incident, in the order in which they were added. -/
def addStep (id : String) (vs : List String) : Op F → List String
  | .putReport r => if r.incidentId = id ∧ r.modelVersion ∉ vs then vs++[r.modelVersion] else vs
  | _ => vs

def versions (h : List (Op F)) (id : String) : List String := h.foldl (addStep id) []

def recorded (h : List (Op F)) (id : String) : List FeedbackRecord :=
  h.filterMap fun
    | .recordFeedback r => if r.feedback.incidentId = id then some r else none
    | _ => none

def ReportsKept (h : List (Op F)) (s : Store F) : Prop :=
  ∀ id v r, lastPut h id v = some r → r ∈ reportsForIncident s id

def LatestKept (h : List (Op F)) (s : Store F) : Prop :=
  ∀ id, latestReport s id = (versions h id).getLast?.bind (lastPut h id)

def FeedbackKept (h : List (Op F)) (s : Store F) : Prop :=
  ∀ id, feedbacks s (some id) = recorded h id

/-- The store keeps what the history put into it. -/
structure KeepsHistory (h : List (Op F)) (s : Store F) : Prop where
  reports : ReportsKept h s
  latest : LatestKept h s
  feedback : FeedbackKept h s

/-- A report of the version is put for the incident. -/
def Puts (h : List (Op F)) (id v : String) : Prop :=
  ∃ r, .putReport r ∈ h ∧ r.incidentId = id ∧ r.modelVersion = v

/-- Whenever an incident is put again, each version reported on before is put again later. -/
def PutAgain (h : List (Op F)) : Prop :=
  ∀ as w bs, h = as++.putIncident w::bs → ∀ v, Puts as w.incidentId v → Puts bs w.incidentId v

/-! ## The store after a history -/

theorem store_handle (c : IncidentController F D) (q : Request F D) :
    (handle c q).store = (ops c q).foldl apply c.store := by
  cases q with
  | score det incidents => simp [handle,ops,List.foldl_map,apply]
  | causal report => rfl
  | feedback auditId fb =>
    simp only [handle,ops]
    cases hp : processFeedback auditId c fb with
    | error e => rfl
    | ok p =>
      unfold processFeedback at hp
      cases hr : getIncident c.store fb.incidentId with
      | none => simp [hr] at hp
      | some r =>
        simp only [hr] at hp
        split at hp
        · cases hp
        · cases hd : c.detector.mapM (Detector.update · fb) with
          | error e => simp [hd,bind,Except.bind] at hp
          | ok det =>
            simp only [hd,bind,Except.bind,pure,Except.pure,Except.ok.injEq] at hp
            subst hp
            rfl

theorem store_run (qs : List (Request F D)) : ∀ c : IncidentController F D,
    (Transition.run handle c qs).store = (history c qs).foldl apply c.store := by
  induction qs with
  | nil => intro c; rfl
  | cons q qs ih =>
    intro c
    rw [Transition.run_cons,ih,history,List.foldl_append,store_handle]

@[simp] theorem reportsForIncident_putIncident (s : Store F) (w : ScoredWindow F) (id : String) :
    reportsForIncident (putIncident s w) id =
      if w.incidentId = id then [] else reportsForIncident s id := by
  by_cases hid : id = w.incidentId
  · simp [reportsForIncident,getIncident,putIncident,lookup_upsert,hid]
  · simp [reportsForIncident,getIncident,putIncident,lookup_upsert,hid,Ne.symm hid]

@[simp] theorem reportsForIncident_putReport (s : Store F) (r : CausalReport F) (id : String) :
    reportsForIncident (putReport s r) id =
      if r.incidentId = id then replaceOrAppend r (reportsForIncident s id)
      else reportsForIncident s id := by
  by_cases hid : id = r.incidentId
  · subst hid
    simp only [reportsForIncident,getIncident,putReport,lookup_upsert,if_true]
    cases s.incidents.lookup r.incidentId <;> rfl
  · simp [reportsForIncident,getIncident,putReport,lookup_upsert,hid,Ne.symm hid]

theorem find?_replaceOrAppend (r : CausalReport F) (v : String) (rs : List (CausalReport F)) :
    (replaceOrAppend r rs).find? (·.modelVersion = v) =
      if r.modelVersion = v then some r else rs.find? (·.modelVersion = v) := by
  induction rs with
  | nil => by_cases hv : r.modelVersion = v <;> simp [replaceOrAppend,hv]
  | cons x rs ih =>
    rw [replaceOrAppend]
    by_cases hx : x.modelVersion = r.modelVersion
    · by_cases hv : r.modelVersion = v <;> simp [hx,hv]
    · by_cases hv : r.modelVersion = v
      · subst hv
        simpa [hx] using ih
      · rw [if_neg hv] at ih
        simp [hx,hv,List.find?_cons,ih]

/-- The report of a version that the store holds: a report is gone once its incident is put. -/
def keptStep (id v : String) (kept : Option (CausalReport F)) : Op F → Option (CausalReport F)
  | .putIncident w => if w.incidentId = id then none else kept
  | .putReport r => if r.incidentId = id ∧ r.modelVersion = v then some r else kept
  | .recordFeedback _ => kept

theorem keptStep_putIncident (w : ScoredWindow F) (v : String) (kept : Option (CausalReport F)) :
    keptStep w.incidentId v kept (.putIncident w) = none := if_pos rfl

theorem keptStep_putReport (r : CausalReport F) (kept : Option (CausalReport F)) :
    keptStep r.incidentId r.modelVersion kept (.putReport r) = some r := if_pos ⟨rfl,rfl⟩

theorem find?_apply (s : Store F) (op : Op F) (id v : String) :
    (reportsForIncident (apply s op) id).find? (·.modelVersion = v) =
      keptStep id v ((reportsForIncident s id).find? (·.modelVersion = v)) op := by
  cases op with
  | putIncident w =>
    by_cases hw : w.incidentId = id <;> simp [apply,keptStep,hw]
  | putReport r =>
    by_cases hr : r.incidentId = id <;> simp [apply,keptStep,hr,find?_replaceOrAppend]
  | recordFeedback r => rfl

theorem find?_foldl (id v : String) (h : List (Op F)) : ∀ s : Store F,
    (reportsForIncident (h.foldl apply s) id).find? (·.modelVersion = v) =
      h.foldl (keptStep id v) ((reportsForIncident s id).find? (·.modelVersion = v)) := by
  induction h with
  | nil => intro s; rfl
  | cons op h ih => intro s; simp only [List.foldl_cons,ih,find?_apply]

theorem feedbacks_apply (s : Store F) (op : Op F) (id : String) :
    feedbacks (apply s op) (some id) = feedbacks s (some id)++recorded [op] id := by
  cases op with
  | putIncident w => simp [apply,putIncident,feedbacks,recorded]
  | putReport r => simp [apply,putReport,feedbacks,recorded]
  | recordFeedback r =>
    simp only [apply,recordFeedback,feedbacks,recorded,lookup_upsert,eq_comm (a:=id)]
    by_cases hr : r.feedback.incidentId = id <;> simp [hr]

theorem feedbacks_foldl (id : String) (h : List (Op F)) : ∀ s : Store F,
    feedbacks (h.foldl apply s) (some id) = feedbacks s (some id)++recorded h id := by
  induction h with
  | nil => intro s; simp [recorded]
  | cons op h ih =>
    intro s
    rw [List.foldl_cons,ih,feedbacks_apply,List.append_assoc]
    simp [recorded,← List.filterMap_append]

/-! ## What is kept -/

theorem puts_append (as bs : List (Op F)) (id v : String) :
    Puts (as++bs) id v ↔ Puts as id v ∨ Puts bs id v := by
  simp only [Puts,List.mem_append,or_and_right,exists_or]

theorem foldl_keptStep_none {id v : String} {h : List (Op F)} (hn : ¬ Puts h id v) :
    h.foldl (keptStep id v) none = none := by
  induction h with
  | nil => rfl
  | cons op h ih =>
    rw [← List.singleton_append,puts_append,not_or] at hn
    have hstep : keptStep id v none op = none := by
      cases op with
      | putIncident w => simp [keptStep]
      | putReport r => exact if_neg fun hr => hn.1 ⟨r,List.mem_singleton.mpr rfl,hr⟩
      | recordFeedback r => rfl
    rw [List.foldl_cons,hstep,ih hn.2]

theorem foldl_keptStep_some {id v : String} {h : List (Op F)} (hn : ¬ Puts h id v)
    (hw : ∀ w, .putIncident w ∈ h → w.incidentId ≠ id) (r : CausalReport F) :
    h.foldl (keptStep id v) (some r) = some r := by
  induction h with
  | nil => rfl
  | cons op h ih =>
    rw [← List.singleton_append,puts_append,not_or] at hn
    have hstep : keptStep id v (some r) op = some r := by
      cases op with
      | putIncident w => exact if_neg (hw w List.mem_cons_self)
      | putReport r' => exact if_neg fun hr => hn.1 ⟨r',List.mem_singleton.mpr rfl,hr⟩
      | recordFeedback r' => rfl
    rw [List.foldl_cons,hstep,ih hn.2 fun w hmem => hw w (List.mem_cons_of_mem _ hmem)]

/-- The report put last splits the history. -/
theorem lastPut_split {id v : String} {h : List (Op F)} {r : CausalReport F}
    (hr : lastPut h id v = some r) : r.incidentId = id ∧ r.modelVersion = v ∧
      ∃ as bs, h = as++.putReport r::bs ∧ ¬ Puts bs id v := by
  induction h using List.reverseRecOn with
  | nil => cases hr
  | append_singleton h op ih =>
    have hkeep : lastPut h id v = some r → ¬ Puts [op] id v → r.incidentId = id ∧
        r.modelVersion = v ∧ ∃ as bs, h++[op] = as++.putReport r::bs ∧ ¬ Puts bs id v := by
      intro hlast hn
      obtain ⟨hid,hv,as,bs,rfl,hbs⟩ := ih hlast
      refine ⟨hid,hv,as,bs++[op],by simp,?_⟩
      rw [puts_append,not_or]
      exact ⟨hbs,hn⟩
    rw [lastPut,List.foldl_append,List.foldl_cons,List.foldl_nil] at hr
    cases op with
    | putReport r' =>
      rw [putStep] at hr
      split at hr
      · next hm =>
        obtain rfl := Option.some.inj hr
        exact ⟨hm.1,hm.2,h,[],rfl,by simp [Puts]⟩
      · next hm => exact hkeep hr fun ⟨_,hmem,heq⟩ => hm (by simp_all)
    | putIncident w => exact hkeep hr (by simp [Puts])
    | recordFeedback r' => exact hkeep hr (by simp [Puts])

theorem lastPut_of_puts {id v : String} {h : List (Op F)} (hp : Puts h id v) :
    ∃ r, lastPut h id v = some r := by
  induction h using List.reverseRecOn with
  | nil => simp [Puts] at hp
  | append_singleton h op ih =>
    rw [lastPut,List.foldl_append,List.foldl_cons,List.foldl_nil]
    rcases (puts_append h [op] id v).mp hp with hh | ⟨r,hmem,heq⟩
    · obtain ⟨r,hr⟩ := ih hh
      rw [lastPut] at hr
      rw [hr]
      cases op with
      | putReport r' =>
        simp only [putStep]
        split <;> exact ⟨_,rfl⟩
      | _ => exact ⟨r,rfl⟩
    · obtain rfl := List.mem_singleton.mp hmem
      exact ⟨r,if_pos heq⟩

theorem reportsKept_iff (h : List (Op F)) : ReportsKept h (h.foldl apply {}) ↔ PutAgain h := by
  have hfind := fun id v => find?_foldl id v h {}
  constructor
  · rintro hk as w bs rfl v hv
    by_contra hbs
    obtain ⟨r,hr⟩ := lastPut_of_puts ((puts_append as (.putIncident w::bs) _ _).mpr (.inl hv))
    have hgone : (as++.putIncident w::bs).foldl (keptStep w.incidentId v) none = none := by
      rw [List.foldl_append,List.foldl_cons,keptStep_putIncident,foldl_keptStep_none hbs]
    have hfold := (hfind w.incidentId v).trans hgone
    exact List.find?_eq_none.mp hfold r (hk _ _ r hr) (by simpa using (lastPut_split hr).2.1)
  · intro hp id v r hr
    obtain ⟨rfl,rfl,as,bs,rfl,hbs⟩ := lastPut_split hr
    have hw : ∀ w, .putIncident w ∈ bs → w.incidentId ≠ r.incidentId := by
      intro w hmem hw
      obtain ⟨xs,ys,rfl⟩ := List.append_of_mem hmem
      have hagain := hp (as++.putReport r::xs) w ys (by simp) r.modelVersion
        ⟨r,by simp,hw.symm,rfl⟩
      rw [hw] at hagain
      rw [puts_append,← List.singleton_append,puts_append] at hbs
      exact hbs (.inr (.inr hagain))
    have hkept : (as++.putReport r::bs).foldl (keptStep r.incidentId r.modelVersion) none =
        some r := by
      rw [List.foldl_append,List.foldl_cons,keptStep_putReport,foldl_keptStep_some hbs hw]
    exact List.mem_of_find?_eq_some ((hfind r.incidentId r.modelVersion).trans hkept)

theorem mem_versions (h : List (Op F)) (id v : String) : v ∈ versions h id ↔ Puts h id v := by
  induction h using List.reverseRecOn with
  | nil => simp [versions,Puts]
  | append_singleton h op ih =>
    rw [puts_append,← ih,versions,List.foldl_append,List.foldl_cons,List.foldl_nil,← versions]
    cases op with
    | putReport r =>
      rw [addStep]
      split
      · next hr => simp [Puts,hr.1,eq_comm]
      · next hr =>
        have hold : Puts [.putReport r] id v → v ∈ versions h id := by
          rintro ⟨r',hmem,hid,rfl⟩
          obtain rfl : r' = r := by simpa using hmem
          simpa [hid] using hr
        exact ⟨.inl,fun hv => hv.elim (fun hm => hm) hold⟩
    | _ => simp [addStep,Puts]

theorem latestReport_eq_none (s : Store F) (id : String) : latestReport s id = none := by
  unfold latestReport
  split <;> simp

theorem latestKept_iff (h : List (Op F)) (s : Store F) :
    LatestKept h s ↔ ∀ r, .putReport r ∉ h := by
  constructor
  · intro hk r hmem
    have hv : r.modelVersion ∈ versions h r.incidentId :=
      (mem_versions h _ _).mpr ⟨r,hmem,rfl,rfl⟩
    have hlast := hk r.incidentId
    rw [List.getLast?_eq_some_getLast (List.ne_nil_of_mem hv)] at hlast
    obtain ⟨r',hr'⟩ := lastPut_of_puts ((mem_versions h _ _).mp
      (List.getLast_mem (List.ne_nil_of_mem hv)))
    rw [latestReport_eq_none,Option.bind_some,hr'] at hlast
    cases hlast
  · intro hn id
    have hnil : versions h id = [] := by
      refine List.eq_nil_iff_forall_not_mem.mpr fun v hv => ?_
      obtain ⟨r,hmem,-⟩ := (mem_versions h id v).mp hv
      exact hn r hmem
    simp [latestReport_eq_none,hnil]

/-! ## Runs of the handlers -/

theorem putReport_mem_ops (c : IncidentController F D) (q : Request F D) (r : CausalReport F) :
    .putReport r ∈ ops c q ↔ q = .causal r := by
  cases q with
  | score det incidents => simp [ops]
  | causal report => simp [ops,eq_comm]
  | feedback auditId fb =>
    simp only [ops]
    split <;> simp

theorem putReport_mem_history (r : CausalReport F) (qs : List (Request F D)) :
    ∀ c : IncidentController F D, .putReport r ∈ history c qs ↔ .causal r ∈ qs := by
  induction qs with
  | nil => intro c; simp [history]
  | cons q qs ih =>
    intro c
    simp only [history,List.mem_append,ih,putReport_mem_ops,List.mem_cons,eq_comm (a:=q)]

/-- The feedback is kept in every run, the reports when an incident that is put again is also
reported on again, and the latest report only as long as there is none. -/
theorem run_keepsHistory_iff (qs : List (Request F D)) :
    (KeepsHistory (history {} qs) (Transition.run handle {} qs).store ↔
      ∀ report, .causal report ∉ qs) ∧
    (ReportsKept (history {} qs) (Transition.run handle {} qs).store ↔
      PutAgain (history {} qs)) ∧
    FeedbackKept (history {} qs) (Transition.run handle {} qs).store := by
  have hreports := reportsKept_iff (history (D:=D) {} qs)
  rw [store_run]
  have hfeedback : FeedbackKept (history {} qs) ((history {} qs).foldl apply ({} : Store F)) :=
    fun id => feedbacks_foldl id (history {} qs) {}
  refine ⟨⟨fun hk report hmem => ?_,fun hn => ?_⟩,hreports,hfeedback⟩
  · exact (latestKept_iff _ _).mp hk.latest report ((putReport_mem_history report qs {}).mpr hmem)
  · have hput : ∀ r, .putReport r ∉ history (D:=D) {} qs :=
      fun r hmem => hn r ((putReport_mem_history r qs {}).mp hmem)
    refine ⟨hreports.mpr ?_,(latestKept_iff _ _).mpr hput,hfeedback⟩
    rintro as w bs heq v ⟨r,hmem,-⟩
    exact (hput r (by simp [heq,hmem])).elim

instance unitDetector : Detector Unit where
  update _ _ := .ok ()
  modelVersion _ := "0.1.0"

def diskWindow : ScoredWindow Unit where
  incidentId := "inc-1"
  startTsNs := 0
  endTsNs := 60000000000
  windowOrder := by decide
  detectedAtNs := 60000000000
  status := .anomaly
  severity := ()
  metricScores := [("disk_io",())]
  directions := [("disk_io",.up)]
  modelVersion := "0.1.0"

def diskReport : CausalReport Unit where
  incidentId := "inc-1"
  anomalousMetrics := ["disk_io"]
  candidates := []
  clusters := []
  limitations := []
  window := diskWindow
  modelVersion := "0.1.0"

/-- A causal analysis, after which the incident is scored once more. -/
def rescored : List (Request Unit Unit) := [.causal diskReport,.score () [diskWindow]]

theorem rescored_forgets : ¬ KeepsHistory (history {} rescored)
    (Transition.run handle {} rescored).store ∧
    reportsForIncident (Transition.run handle {} rescored).store "inc-1" = [] := by
  have hnil : reportsForIncident (Transition.run handle {} rescored).store "inc-1" = [] := rfl
  refine ⟨fun hk => ?_,hnil⟩
  have hmem := hk.reports "inc-1" "0.1.0" diskReport rfl
  rw [hnil] at hmem
  cases hmem

end VersionedStore
end ETraceDiag
