import ETraceDiag.TextPieces
import ETraceDiag.TextSearch
import ETraceDiag.Torai
import Mathlib.Data.List.SplitBy

/-!
# The narrator

`EvidenceNarrator` tells a causal report: by its template, or by a language model whose sentences
are checked one by one against what the report names. Texts are lists of characters; which
characters are alphanumeric, how a score is printed and the renderers are left open.
-/

namespace ETraceDiag
namespace Explainer

open CausalInput (Direction isSpace)
open TextPieces
open Torai (CausalReport RootCauseCandidate SymptomCluster)

abbrev Text := List Char

variable {F : Type}

/-- What is left open: `str.isalnum` of a character, `f"{score:.3f}"` and the order of scores. -/
structure Outside (F : Type) where
  isAlnum : Char → Bool
  fixed3 : F → String
  lt : F → F → Bool

/-- `\w`. -/
def Outside.wordChar (o : Outside F) (c : Char) : Bool := o.isAlnum c || c = '_'

/-- The renderers, and `ALG_MODELS_LLM_BACKEND` when the narrator is made. -/
structure EvidenceNarrator (F : Type) where
  templateRenderer : Option (CausalReport F → Text) := none
  llmRenderer : Option (CausalReport F → Except Unit Text) := none
  backend : Option String := none

/-! ## The template -/

/-- `max(clusters,key=..)`: the first of the highest score. -/
def topCluster (o : Outside F) : List (SymptomCluster F) → Option (SymptomCluster F)
  | [] => none
  | cl::cls => some (cls.foldl
      (fun top cl => if o.lt top.clusterScore cl.clusterScore then cl else top) cl)

def ranking (o : Outside F) (c : RootCauseCandidate F) : String :=
  toString c.rank++". "++c.entityId++" (severity "++o.fixed3 c.score++") — evidence: "++
    String.intercalate ", " (c.evidenceIndicators.take 3)

def defaultTemplate (o : Outside F) (report : CausalReport F) : Text :=
  let first := "Incident "++report.incidentId++" root-cause ranking: "++
    String.intercalate "; " (report.candidates.map (ranking o))
  let clusters := (topCluster o report.clusters).map fun top =>
    "symptom clusters: "++toString report.clusters.length++"; top cluster: "++
      String.intercalate ", " top.members
  (String.intercalate " " (first::clusters.toList)).toList

def EvidenceNarrator.template (o : Outside F) (n : EvidenceNarrator F) (report : CausalReport F) :
    Text :=
  n.templateRenderer.getD (defaultTemplate o) report

/-! ## The checks -/

/-- `re.split(r"(?<=\.)\s+",text)`, where `skipping` says that a cut goes on. -/
def cutFrom : Bool → Text → List Text
  | _,[] => [[]]
  | skipping,c::text =>
    if skipping && isSpace c then cutFrom true text
    else if c = '.' && text.head?.any isSpace then ['.']::cutFrom true text
    else match cutFrom false text with
      | [] => [[c]]
      | s::ss => (c::s)::ss

def sentences (text : Text) : List Text := (cutFrom false (strip isSpace text)).filter (· ≠ [])

/-- The identifiers that a sentence may cite. -/
def validReferences (report : CausalReport F) : List Text :=
  ((report.candidates.flatMap fun c => c.entityId::c.evidenceIndicators)++
    report.clusters.flatMap SymptomCluster.members).map String.toList

/-- `ref in sentence`. -/
def within (ref sentence : Text) : Bool := (TextSearch.find ref sentence).isSome

/-- The words that a direction is contradicted by. -/
def contrary : Direction → List Text
  | .up => ["decreased".toList,"down".toList,"below".toList]
  | .down => ["increased".toList,"up".toList,"above".toList]
  | _ => []

/-- `re.search(r"\b(..)\b",sentence)`. -/
def contradicted (o : Outside F) (d : Direction) (sentence : Text) : Bool :=
  (contrary d).any fun w => hasWord o.wordChar w false sentence

def sentenceValid (o : Outside F) (report : CausalReport F) (sentence : Text) : Bool :=
  (validReferences report).any (within · sentence) &&
    report.candidates.all fun c =>
      !(within c.entityId.toList sentence && contradicted o c.direction sentence)

/-- The list `valid`. -/
def validated (o : Outside F) (n : EvidenceNarrator F) (report : CausalReport F) (text : Text) :
    List Text :=
  (sentences text).map fun s => if sentenceValid o report s then s else n.template o report

def joined (pieces : List Text) : Text := [' '].intercalate pieces

def validateSentences (o : Outside F) (n : EvidenceNarrator F) (report : CausalReport F)
    (text : Text) : Text :=
  joined (validated o n report text)

/-! ## narrate -/

/-- `llm_enabled`. -/
def EvidenceNarrator.llmEnabled (n : EvidenceNarrator F) : Bool :=
  n.llmRenderer.isSome && n.backend.any (· ≠ "")

/-- The text of the language model, when there is one. -/
def EvidenceNarrator.llmText (n : EvidenceNarrator F) (report : CausalReport F) : Option Text :=
  if n.llmEnabled then n.llmRenderer.bind fun llm => (llm report).toOption else none

/-- An exception of the renderer ends in the template. -/
def narrate (o : Outside F) (n : EvidenceNarrator F) (report : CausalReport F) : Text :=
  match n.llmText report with
  | some text => validateSentences o n report text
  | none => n.template o report

/-- What is told one after the other. -/
def pieces (o : Outside F) (n : EvidenceNarrator F) (report : CausalReport F) : List Text :=
  match n.llmText report with
  | some text => validated o n report text
  | none => [n.template o report]

theorem narrate_eq_joined (o : Outside F) (n : EvidenceNarrator F) (report : CausalReport F) :
    narrate o n report = joined (pieces o n report) := by
  unfold narrate pieces
  cases n.llmText report with
  | none => exact (List.intercalate_singleton ..).symm
  | some text => rfl

/-! ## Citations -/

/-- How prose is read: the tokens of a sentence, and which of them look like identifiers. -/
structure Reading where
  tokens : Text → List Text
  part : ∀ {t s}, t ∈ tokens s → t <:+: s
  entityLike : Text → Prop

/-- A sentence cites the report and nothing beside it. -/
structure Cites (r : Reading) (report : CausalReport F) (sentence : Text) : Prop where
  cited : ∃ ref ∈ validReferences report, ref ∈ r.tokens sentence
  exist : ∀ t ∈ r.tokens sentence, r.entityLike t → t ∈ validReferences report

/-- A sentence names a candidate and gives it the other direction. -/
def Contradicts (o : Outside F) (r : Reading) (report : CausalReport F) (sentence : Text) : Prop :=
  ∃ c ∈ report.candidates, c.entityId.toList ∈ r.tokens sentence ∧
    ∃ w ∈ contrary c.direction, Whole o.wordChar w sentence

/-- What is told is the template or real citations. -/
def CitationsReal (o : Outside F) (r : Reading) (n : EvidenceNarrator F)
    (report : CausalReport F) : Prop :=
  ∀ piece ∈ pieces o n report, piece = n.template o report ∨
    Cites r report piece ∧ ¬ Contradicts o r report piece

theorem contradicted_iff (o : Outside F) (d : Direction) (sentence : Text) :
    contradicted o d sentence = true ↔ ∃ w ∈ contrary d, Whole o.wordChar w sentence := by
  simp only [contradicted,List.any_eq_true,hasWord_iff]

theorem within_iff (ref sentence : Text) : within ref sentence = true ↔ ref <:+: sentence :=
  TextSearch.find_isSome_iff ref sentence

theorem sentenceValid_iff (o : Outside F) (report : CausalReport F) (sentence : Text) :
    sentenceValid o report sentence = true ↔
      (∃ ref ∈ validReferences report, ref <:+: sentence) ∧
        ∀ c ∈ report.candidates, c.entityId.toList <:+: sentence →
          ∀ w ∈ contrary c.direction, ¬ Whole o.wordChar w sentence := by
  have hdirection : ∀ c : RootCauseCandidate F,
      (!(within c.entityId.toList sentence && contradicted o c.direction sentence)) = true ↔
        (c.entityId.toList <:+: sentence →
          ∀ w ∈ contrary c.direction, ¬ Whole o.wordChar w sentence) := by
    intro c
    rw [Bool.not_eq_true',Bool.and_eq_false_imp,within_iff,← Bool.not_eq_true,contradicted_iff]
    simp only [not_exists,not_and]
  simp only [sentenceValid,Bool.and_eq_true,List.any_eq_true,List.all_eq_true,within_iff,
    hdirection]

/-- The direction words are looked for wherever the name of a candidate stands at all. -/
theorem not_contradicts {o : Outside F} {report : CausalReport F} {sentence : Text}
    (h : sentenceValid o report sentence = true) (r : Reading) :
    ¬ Contradicts o r report sentence := by
  rintro ⟨c,hc,htoken,w,hw,hwhole⟩
  exact ((sentenceValid_iff o report sentence).mp h).2 c hc (r.part htoken) w hw hwhole

/-- The sentences that pass the check are read as they should be. -/
def Careful (o : Outside F) (r : Reading) (n : EvidenceNarrator F) (report : CausalReport F)
    (text : Text) : Prop :=
  ∀ s ∈ sentences text, sentenceValid o report s = true →
    s = n.template o report ∨ Cites r report s

theorem narrate_cites_iff (o : Outside F) (r : Reading) (n : EvidenceNarrator F)
    (report : CausalReport F) :
    narrate o n report = joined (pieces o n report) ∧
      (CitationsReal o r n report ↔
        ∀ text ∈ n.llmText report, Careful o r n report text) := by
  refine ⟨narrate_eq_joined o n report,?_⟩
  unfold CitationsReal pieces
  cases n.llmText report with
  | none => simp
  | some text =>
    simp only [Option.mem_some_iff,forall_eq',validated,List.forall_mem_map]
    refine forall₂_congr fun s _ => ?_
    split
    · next hvalid =>
      rw [and_iff_left (not_contradicts hvalid r)]
      exact ⟨fun h _ => h,fun h => h hvalid⟩
    · next hvalid => exact iff_of_true (.inl rfl) fun h => absurd h hvalid

/-! ## An id that another begins with -/

/-- The words of a text. -/
def words (text : Text) : List Text :=
  (text.splitBy fun a b => a.isAlphanum == b.isAlphanum).filter fun w => w.all Char.isAlphanum

def plainReading : Reading where
  tokens := words
  part := fun {t s} ht => by
    have hpiece := List.infix_of_mem_flatten (List.mem_filter.mp ht).1
    rwa [List.flatten_splitBy] at hpiece
  entityLike t := t.any Char.isDigit = true

def plain : Outside ℕ := ⟨Char.isAlphanum,toString,fun a b => a < b⟩

def proc1 : RootCauseCandidate ℕ where
  entityId := "proc1"
  rank := 1
  score := 0
  direction := .up
  severity := none
  evidenceIndicators := []

def proc1Report : CausalReport ℕ where
  incidentId := "i1"
  anomalousMetrics := []
  candidates := [proc1]
  clusters := []
  limitations := []

def proc12Drove : EvidenceNarrator ℕ where
  llmRenderer := some fun _ => .ok "proc12 drove the failure.".toList
  backend := some "llm"

theorem proc12_accepted : ¬ ∀ n report, CitationsReal plain plainReading n report := by
  intro hall
  have hpieces : pieces plain proc12Drove proc1Report = ["proc12 drove the failure.".toList] := by
    decide +kernel
  have htokens : words "proc12 drove the failure.".toList =
      ["proc12".toList,"drove".toList,"the".toList,"failure".toList] := by decide +kernel
  have htemplate : "proc12 drove the failure.".toList ≠ proc12Drove.template plain proc1Report := by
    decide +kernel
  have hpiece := hall proc12Drove proc1Report _ (hpieces ▸ List.mem_singleton_self _)
  obtain ⟨ref,href,htoken⟩ := (hpiece.resolve_left htemplate).1.cited
  have hrefs : ref = "proc1".toList := List.mem_singleton.mp href
  have hword : "proc1".toList ∈ words "proc12 drove the failure.".toList := hrefs ▸ htoken
  rw [htokens] at hword
  exact absurd hword (by decide)

end Explainer
end ETraceDiag
