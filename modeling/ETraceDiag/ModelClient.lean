import ETraceDiag.JsonGet
import ETraceDiag.PhaseManager

/-!
# Replies of the model services

`InferAnomaly` and `InferCausal` of `model/ws_model_client.cpp` on a reply that has arrived, with
the decoders of `model/features.cpp`. The JSON parser and the casts of doubles are parameters.
-/

namespace ETraceDiag
namespace ModelClient

open JsonGet

variable {F : Type}

/-- The parser of the JSON library. It takes UTF-8 only, and an empty text is no JSON. -/
structure JsonParser (F : Type) where
  parse : List UInt8 → Option (JsonValue F)
  parse_nil : parse [] = none
  parse_utf8 : ∀ {text j}, parse text = some j → PhaseManager.validUtf8 text = true

/-! ## The anomaly verdict -/

/-- The part of the features that a verdict repeats. -/
structure AnomalyFeatures where
  seq : UInt64
  tsNs : UInt64

structure AnomalyIndicator (F : Type) where
  type : String
  confidence : F

structure AnomalyResult (F : Type) where
  seq : UInt64
  tsNs : UInt64
  isAnomaly : Bool
  type : String
  confidence : F
  indicators : List (AnomalyIndicator F)

/-- The part that the phase machine looks at. -/
def AnomalyResult.verdict (r : AnomalyResult F) : PhaseManager.AnomalyResult F where
  isAnomaly := r.isAnomaly
  type := r.type
  confidence := r.confidence

/-- The result starts nothing: it says no anomaly, bears the request's own numbers, and no phase
machine changes its phase over it. -/
structure Harmless (f : AnomalyFeatures) (r : AnomalyResult F) : Prop where
  isAnomaly : r.isAnomaly = false
  seq : r.seq = f.seq
  tsNs : r.tsNs = f.tsNs
  phase : ∀ w env now (s : PhaseManager.State F),
    (PhaseManager.tickAnomaly w (.ok r.verdict) env now s).phase = s.phase

/-- Without an anomaly the phase stays what it is. -/
theorem harmless_iff (f : AnomalyFeatures) (r : AnomalyResult F) :
    Harmless f r ↔ r.isAnomaly = false ∧ r.seq = f.seq ∧ r.tsNs = f.tsNs := by
  refine ⟨fun h => ⟨h.isAnomaly,h.seq,h.tsNs⟩,fun h => ⟨h.1,h.2.1,h.2.2,?_⟩⟩
  intro w env now s
  have hnone : PhaseManager.verdict (.ok r.verdict) = none := by
    simp [PhaseManager.verdict,AnomalyResult.verdict,h.1]
  rw [PhaseManager.tickAnomaly,hnone]
  cases hp : s.phase <;> simp [hp,PhaseManager.noteVerdict]

/-- The fields of a reply in the order of `from_json`. -/
inductive Field
  | seq
  | tsNs
  | isAnomaly
  | type
  | confidence
  | indicators
  deriving DecidableEq,Repr

def Field.order : List Field := [.seq,.tsNs,.isAnomaly,.type,.confidence,.indicators]

section Decoder

variable [Number F]

def decodeIndicator (e : JsonValue F) : AnomalyIndicator F × Bool :=
  assignAll [readInto e "type" getString fun ind v => { ind with type := v },
    readInto e "confidence" getDouble fun ind v => { ind with confidence := v }]
    ⟨"",Number.ofInt 0⟩

def decodeIndicators (r : AnomalyResult F) : List (JsonValue F) → AnomalyResult F × Bool
  | [] => (r,true)
  | e::es =>
    let ind := decodeIndicator e
    if ind.2 then decodeIndicators { r with indicators := r.indicators++[ind.1] } es
    else (r,false)

/-- One assignment of `from_json`. -/
def decode (j : JsonValue F) : Field → AnomalyResult F → AnomalyResult F × Bool
  | .seq => readInto j "seq" getUInt64 fun r v => { r with seq := v }
  | .tsNs => readInto j "ts_ns" getUInt64 fun r v => { r with tsNs := v }
  | .isAnomaly => readInto j "is_anomaly" getBool fun r v => { r with isAnomaly := v }
  | .type => readInto j "type" getString fun r v => { r with type := v }
  | .confidence => readInto j "confidence" getDouble fun r v => { r with confidence := v }
  | .indicators => fun r =>
    match j.get? "indicators" with
    | some (.arr es) => decodeIndicators { r with indicators := [] } es
    | _ => (r,true)

/-- `from_json`: the value as the assignments leave it, and whether all of them were made. -/
def fromJson (j : JsonValue F) (r : AnomalyResult F) : AnomalyResult F × Bool :=
  assignAll (Field.order.map (decode j)) r

/-- The result that goes out when there is no reply. -/
def AnomalyFeatures.quiet (f : AnomalyFeatures) : AnomalyResult F where
  seq := f.seq
  tsNs := f.tsNs
  isAnomaly := false
  type := ""
  confidence := Number.ofInt 0
  indicators := []

/-- What is thrown is caught, and the result goes out as it is then. -/
def inferAnomaly (p : JsonParser F) (f : AnomalyFeatures) (out : List UInt8) : AnomalyResult F :=
  match p.parse out with
  | none => f.quiet
  | some j => (fromJson j f.quiet).1

/-- The field is there and cannot be converted. -/
def Field.fails (j : JsonValue F) : Field → Bool
  | .seq => JsonGet.fails j "seq" getUInt64
  | .tsNs => JsonGet.fails j "ts_ns" getUInt64
  | .isAnomaly => JsonGet.fails j "is_anomaly" getBool
  | .type => JsonGet.fails j "type" getString
  | .confidence => JsonGet.fails j "confidence" getDouble
  | .indicators =>
    match j.get? "indicators" with
    | some (.arr es) => es.any fun e =>
        JsonGet.fails e "type" getString || JsonGet.fails e "confidence" getDouble
    | _ => false

/-- The field leaves what stands in the result of a request that got no reply. -/
def Field.Own (f : AnomalyFeatures) (j : JsonValue F) : Field → Prop
  | .seq => (value? j "seq" getUInt64).getD f.seq = f.seq
  | .tsNs => (value? j "ts_ns" getUInt64).getD f.tsNs = f.tsNs
  | .isAnomaly => (value? j "is_anomaly" getBool).getD false = false
  | _ => True

/-- A reply that the client cannot make sense of. -/
def Faulty (p : JsonParser F) (out : List UInt8) : Prop :=
  ∀ j, p.parse out = some j → ∃ field ∈ Field.order, field.fails j = true

theorem decodeIndicator_snd (e : JsonValue F) : (decodeIndicator e).2 =
    !(JsonGet.fails e "type" getString || JsonGet.fails e "confidence" getDouble) := by
  simp only [decodeIndicator,assignAll,readInto_snd]
  cases ht : JsonGet.fails e "type" getString <;>
    cases hc : JsonGet.fails e "confidence" getDouble <;> simp [ht,hc]

theorem decodeIndicators_snd (es : List (JsonValue F)) : ∀ r : AnomalyResult F,
    (decodeIndicators r es).2 = !es.any fun e =>
      JsonGet.fails e "type" getString || JsonGet.fails e "confidence" getDouble := by
  induction es with
  | nil => intro r; rfl
  | cons e es ih =>
    intro r
    rw [decodeIndicators,List.any_cons]
    simp only [decodeIndicator_snd]
    cases h : JsonGet.fails e "type" getString || JsonGet.fails e "confidence" getDouble with
    | true => rfl
    | false => rw [Bool.false_or,← ih]; rfl

/-- Reading the indicators changes nothing else. -/
theorem decodeIndicators_frame {β : Type} {part : AnomalyResult F → β}
    (hpart : ∀ r is, part { r with indicators := is } = part r) (es : List (JsonValue F)) :
    ∀ r : AnomalyResult F, part (decodeIndicators r es).1 = part r := by
  induction es with
  | nil => intro r; rfl
  | cons e es ih =>
    intro r
    rw [decodeIndicators]
    split
    · rw [ih,hpart]
    · rfl

theorem decode_snd (j : JsonValue F) (field : Field) (r : AnomalyResult F) :
    (decode j field r).2 = !field.fails j := by
  cases field with
  | indicators =>
    simp only [decode,Field.fails]
    split
    · rw [decodeIndicators_snd]
    · rfl
  | _ => simp only [decode,Field.fails,readInto_snd]

/-- A part of the result that only one field writes. -/
theorem decode_frame {β : Type} {part : AnomalyResult F → β} {own : Field} (j : JsonValue F)
    (hpart : ∀ r is, part { r with indicators := is } = part r)
    (hother : ∀ field (r : AnomalyResult F), field ≠ own → field ≠ .indicators →
      part (decode j field r).1 = part r) (field : Field) (r : AnomalyResult F)
    (hne : field ≠ own) : part (decode j field r).1 = part r := by
  by_cases hi : field = .indicators
  · subst hi
    simp only [decode]
    split
    · rw [decodeIndicators_frame hpart,hpart]
    · rfl
  · exact hother field r hne hi

theorem order_nodup : Field.order.Nodup := by decide

/-- The fields that `from_json` converts before the first one that fails. -/
def converted (j : JsonValue F) : List Field := Field.order.takeWhile fun field => !field.fails j

theorem fromJson_part {α : Type} {j : JsonValue F} {key : String}
    {get : JsonValue F → Option α} (part : AnomalyResult F → α) (own : Field)
    (hfails : own.fails j = JsonGet.fails j key get)
    (hown : ∀ r, part (decode j own r).1 = (value? j key get).getD (part r))
    (hpart : ∀ r is, part { r with indicators := is } = part r)
    (hother : ∀ field (r : AnomalyResult F), field ≠ own → field ≠ .indicators →
      part (decode j field r).1 = part r) (r : AnomalyResult F) : part (fromJson j r).1 =
      if own ∈ converted j then (value? j key get).getD (part r) else part r := by
  refine assignAll_part (decode_snd j) part own _ hown (fun hbad b => ?_)
    (decode_frame j hpart hother) Field.order order_nodup r
  rw [value?_of_fails (hfails.symm.trans hbad),Option.getD_none]

theorem fromJson_seq (j : JsonValue F) (r : AnomalyResult F) : (fromJson j r).1.seq =
    if .seq ∈ converted j then (value? j "seq" getUInt64).getD r.seq else r.seq := by
  refine fromJson_part AnomalyResult.seq .seq rfl (readInto_part fun _ _ => rfl)
    (fun _ _ => rfl) (fun field r hne hi => ?_) r
  cases field <;> first
    | contradiction
    | (rw [decode,readInto_frame AnomalyResult.seq]; exact fun _ _ => rfl)

theorem fromJson_tsNs (j : JsonValue F) (r : AnomalyResult F) : (fromJson j r).1.tsNs =
    if .tsNs ∈ converted j then (value? j "ts_ns" getUInt64).getD r.tsNs else r.tsNs := by
  refine fromJson_part AnomalyResult.tsNs .tsNs rfl (readInto_part fun _ _ => rfl)
    (fun _ _ => rfl) (fun field r hne hi => ?_) r
  cases field <;> first
    | contradiction
    | (rw [decode,readInto_frame AnomalyResult.tsNs]; exact fun _ _ => rfl)

theorem fromJson_isAnomaly (j : JsonValue F) (r : AnomalyResult F) : (fromJson j r).1.isAnomaly =
    if .isAnomaly ∈ converted j then (value? j "is_anomaly" getBool).getD r.isAnomaly
    else r.isAnomaly := by
  refine fromJson_part AnomalyResult.isAnomaly .isAnomaly rfl (readInto_part fun _ _ => rfl)
    (fun _ _ => rfl) (fun field r hne hi => ?_) r
  cases field <;> first
    | contradiction
    | (rw [decode,readInto_frame AnomalyResult.isAnomaly]; exact fun _ _ => rfl)

/-- The verdict of a reply is harmless exactly when the fields that were converted leave the
request's own values. -/
theorem harmless_fromJson_iff (f : AnomalyFeatures) (j : JsonValue F) :
    Harmless f (fromJson j f.quiet).1 ↔ ∀ field ∈ converted j, field.Own f j := by
  rw [harmless_iff,fromJson_seq,fromJson_tsNs,fromJson_isAnomaly]
  constructor
  · rintro ⟨ha,hs,ht⟩ field hmem
    cases field with
    | seq => rwa [if_pos hmem] at hs
    | tsNs => rwa [if_pos hmem] at ht
    | isAnomaly => rwa [if_pos hmem] at ha
    | _ => exact trivial
  · intro h
    refine ⟨?_,?_,?_⟩
    · split
      · next hmem => exact h _ hmem
      · rfl
    · split
      · next hmem => exact h _ hmem
      · rfl
    · split
      · next hmem => exact h _ hmem
      · rfl

/-- A faulty reply is harmless exactly when it does not parse, or the fields read before the
first one that cannot be converted leave the request's own values. -/
theorem faulty_harmless_iff (p : JsonParser F) (f : AnomalyFeatures) (out : List UInt8) :
    (Faulty p out → Harmless f (inferAnomaly p f out)) ↔
      ∀ j, p.parse out = some j → (∃ field ∈ Field.order, field.fails j = true) →
        ∀ field ∈ converted j, field.Own f j := by
  unfold Faulty inferAnomaly
  cases p.parse out with
  | none =>
    refine iff_of_true (fun _ => ?_) (fun _ h => by cases h)
    exact (harmless_iff f _).mpr ⟨rfl,rfl,rfl⟩
  | some j =>
    simp only [Option.some.injEq,forall_eq']
    rw [harmless_fromJson_iff]

end Decoder

/-- ASCII text as bytes. -/
def ascii (s : String) : List UInt8 := s.toList.map fun c => c.val.toUInt8

/-- A parser that knows one text. -/
def JsonParser.only (text : List UInt8) (j : JsonValue F)
    (h : text ≠ [] ∧ PhaseManager.validUtf8 text = true) : JsonParser F where
  parse out := if out = text then some j else none
  parse_nil := if_neg fun heq => h.1 heq.symm
  parse_utf8 := by
    intro out j' hout
    split at hout
    · next heq => rw [heq]; exact h.2
    · cases hout

/-- Doubles without fractions. -/
instance : Number ℤ where
  ofInt := id
  toUInt64 := UInt64.ofInt
  toUInt32 := UInt32.ofInt

def badType : List UInt8 := ascii "\x7b\"is_anomaly\":true,\"type\":5\x7d"

/-- An anomaly with a number for its type. -/
def badTypeParser : JsonParser ℤ :=
  .only badType (.obj [("is_anomaly",.bool true),("type",.int 5)]) (by decide)

theorem badType_not_harmless : ¬ (Faulty badTypeParser badType →
    Harmless ⟨7,1000⟩ (inferAnomaly badTypeParser ⟨7,1000⟩ badType)) := by
  intro h
  have hfaulty : Faulty badTypeParser badType := by
    intro j hj
    simp only [badTypeParser,JsonParser.only,if_true,Option.some.injEq] at hj
    subst hj
    exact ⟨.type,by decide,rfl⟩
  have hquiet := (h hfaulty).isAnomaly
  revert hquiet
  decide

/-! ## The diagnosis -/

/-- The reply as it came; the decoder of the reply contract is not on the way. -/
def inferCausal (out : List UInt8) : PhaseManager.CausalResult where
  ok := true
  raw := out

/-- The `ok` that `from_json` gives a causal result; it throws on another type. -/
def causalOk (j : JsonValue F) : Option Bool :=
  match j.get? "ok" with
  | none => some true
  | some v => getBool v

/-- The reply contract: the text is JSON, and its `ok` field is absent or true. -/
def Accepted (p : JsonParser F) (out : List UInt8) : Prop :=
  ∃ j, p.parse out = some j ∧ causalOk j = some true

/-- The end of an episode over the reply. -/
def finalized (w : PhaseManager.Window) (out : List UInt8) (fopenOk : Bool) (now : ℕ)
    (s : PhaseManager.State F) : PhaseManager.State F :=
  PhaseManager.finalizeDeep w ⟨.ok (inferCausal out),fopenOk⟩ now s

/-- The summary is recorded with the verdict on the reply. -/
def Records (s : PhaseManager.State F) (ok : Bool) : Prop :=
  s.terminated = false ∧ ∃ summary raw, s.lastSummary = some summary ∧
    summary.causal = .result ok raw

/-- The gate: an accepted reply is recorded as ok and persisted, any other one is recorded as not
ok and leaves the file as it was. -/
def Gated (p : JsonParser F) (out : List UInt8) (fopenOk : Bool) : Prop :=
  ∀ w now (s : PhaseManager.State F),
    (Accepted p out → (finalized w out fopenOk now s).diagnosis = some out ∧
      Records (finalized w out fopenOk now s) true) ∧
    (¬ Accepted p out → (finalized w out fopenOk now s).diagnosis = s.diagnosis ∧
      Records (finalized w out fopenOk now s) false)

theorem finalized_diagnosis (w : PhaseManager.Window) (out : List UInt8) (fopenOk : Bool)
    (now : ℕ) (s : PhaseManager.State F) : (finalized w out fopenOk now s).diagnosis =
      if out ≠ [] ∧ fopenOk = true then some out else s.diagnosis := by
  by_cases hout : out = [] <;>
    simp [finalized,PhaseManager.finalizeDeep,PhaseManager.Causal.diagnosis,inferCausal,
      PhaseManager.State.emit,hout]

theorem records_finalized_iff (w : PhaseManager.Window) (out : List UInt8) (fopenOk : Bool)
    (now : ℕ) (s : PhaseManager.State F) (ok : Bool) :
    Records (finalized w out fopenOk now s) ok ↔
      PhaseManager.validUtf8 out = true ∧ ok = true := by
  constructor
  · rintro ⟨halive,summary,raw,hsummary,hcausal⟩
    cases hsummary
    cases hcausal
    have hdumps : (!PhaseManager.validUtf8 out) = false := halive
    exact ⟨by simpa using hdumps,rfl⟩
  · rintro ⟨hutf8,rfl⟩
    exact ⟨congrArg not hutf8,_,out,rfl,rfl⟩

/-- The gate holds exactly over the replies that it lets through, when the file can be opened. -/
theorem gated_iff (p : JsonParser F) (out : List UInt8) (fopenOk : Bool) :
    Gated p out fopenOk ↔ Accepted p out ∧ fopenOk = true := by
  unfold Gated
  constructor
  · intro h
    obtain ⟨hyes,hno⟩ := h ⟨0,0,0⟩ 0 {}
    by_cases hacc : Accepted p out
    · refine ⟨hacc,?_⟩
      have hfile := (hyes hacc).1
      rw [finalized_diagnosis] at hfile
      split at hfile
      · next hopen => exact hopen.2
      · cases hfile
    · have hrec := (hno hacc).2
      rw [records_finalized_iff] at hrec
      exact absurd hrec.2 (by decide)
  · rintro ⟨hacc,hopen⟩ w now s
    refine ⟨fun _ => ?_,fun hno => absurd hacc hno⟩
    obtain ⟨j,hj,_⟩ := hacc
    have hne : out ≠ [] := by
      rintro rfl
      rw [p.parse_nil] at hj
      cases hj
    rw [finalized_diagnosis,if_pos ⟨hne,hopen⟩,records_finalized_iff]
    exact ⟨rfl,p.parse_utf8 hj,rfl⟩

def abstention : List UInt8 := ascii "\x7b\"ok\":false\x7d"

def abstentionParser : JsonParser ℤ := .only abstention (.obj [("ok",.bool false)]) (by decide)

/-- An abstention is persisted as a diagnosis and recorded as ok. -/
theorem abstention_not_gated : ¬ Gated abstentionParser abstention true := by
  intro h
  have hno : ¬ Accepted abstentionParser abstention := by
    rintro ⟨j,hj,hok⟩
    simp only [abstentionParser,JsonParser.only,if_true,Option.some.injEq] at hj
    subst hj
    cases hok
  have hrec := ((h ⟨0,0,0⟩ 0 {}).2 hno).2
  rw [records_finalized_iff] at hrec
  exact absurd hrec.2 (by decide)

end ModelClient
end ETraceDiag
