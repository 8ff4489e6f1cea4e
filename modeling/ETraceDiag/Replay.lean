import ETraceDiag.JsonPatch
import ETraceDiag.JsonText
import ETraceDiag.ReplayPoint
import ETraceDiag.TextPieces
import Mathlib.Data.Prod.Lex

/-!
# Replay files

`dump_replay_jsonl` writes the points of a frame as JSON, one on a line, and `parse_replay_jsonl`
reads such lines into a frame. Texts are lists of characters.
-/

namespace ETraceDiag
namespace Replay

open CausalInput (EntityType Quality TelemetryFrame TelemetryPoint entityType isSpace nonneg
  telemetryFrame)
open Dictionaries (Dict SameDict)
open JsonPatch (eraseKey)
open JsonText
open PyValue (Raise)
open ReplayPoint
open TextPieces

abbrev Text := List Char

/-- What `pydantic` makes of a value for an integer, and for a float, an integer, a truth value or
nothing; a value of a right type stays as it is. -/
class Lax (F : Type) where
  int : JsonValue F → Except Raise ℤ
  number : JsonValue F → Except Raise (Value F)
  int_int : ∀ n, int (.int n) = .ok n
  number_float : ∀ x, number (.float x) = .ok (.float x)
  number_int : ∀ n, number (.int n) = .ok (.int n)
  number_bool : ∀ b, number (.bool b) = .ok (.bool b)
  number_null : number .null = .ok .none

variable {F : Type}

/-! ## Names -/

def entityName : EntityType → String
  | .host => "host"
  | .device => "device"
  | .cluster => "cluster"
  | .pod => "pod"
  | .service => "service"
  | .process => "process"
  | .thread => "thread"
  | .function => "function"
  | .syscall => "syscall"

def sourceName : Source → String
  | .prometheus => "prometheus"
  | .otlp => "otlp"
  | .ebpf => "ebpf"
  | .profile => "profile"
  | .trace => "trace"
  | .replay => "replay"

def qualityName : Quality → String
  | .observed => "observed"
  | .imputed => "imputed"
  | .missing => "missing"
  | .stale => "stale"
  | .outOfOrder => "out_of_order"

def source : JsonValue F → Except Raise Source
  | .str "prometheus" => .ok .prometheus
  | .str "otlp" => .ok .otlp
  | .str "ebpf" => .ok .ebpf
  | .str "profile" => .ok .profile
  | .str "trace" => .ok .trace
  | .str "replay" => .ok .replay
  | _ => .error .valueError

def quality : JsonValue F → Except Raise Quality
  | .str "observed" => .ok .observed
  | .str "imputed" => .ok .imputed
  | .str "missing" => .ok .missing
  | .str "stale" => .ok .stale
  | .str "out_of_order" => .ok .outOfOrder
  | _ => .error .valueError

/-! ## Writing -/

def valueJson : Value F → JsonValue F
  | .float x => .float x
  | .int n => .int n
  | .bool b => .bool b
  | .none => .null

/-- `model_dump`. -/
def modelDump (p : Point F) : List (String × JsonValue F) :=
  [("ts_ns",.int p.tsNs),("entity_id",.str p.entityId),
    ("entity_type",.str (entityName p.entityType)),("metric_id",.str p.metricId),
    ("value",valueJson p.value.value),("unit",(p.value.unit.map .str).getD .null),
    ("source",.str (sourceName p.value.source)),
    ("sample_interval_ns",(p.value.sampleIntervalNs.map fun n => .int n.1).getD .null),
    ("quality",.str (qualityName p.quality)),
    ("attrs",.obj (p.value.attrs.entries.map fun e => (e.1,.str e.2)))]

/-- `del obj[key]` under a condition. -/
def deleteIf (b : Bool) (key : String) (obj : List (String × JsonValue F)) :
    List (String × JsonValue F) := if b then eraseKey key obj else obj

def dumpObject (p : Point F) : List (String × JsonValue F) :=
  deleteIf p.value.sampleIntervalNs.isNone "sample_interval_ns"
    (deleteIf p.value.unit.isNone "unit" (deleteIf p.value.attrs.entries.isEmpty "attrs"
      (modelDump p)))

def dumpLine [JsonFloat F] (limit : ℕ) (p : Point F) : Except Raise Text :=
  (dumps limit (.obj (dumpObject p))).elim (.error .valueError) .ok

def dumpReplayJsonl [JsonFloat F] (limit : ℕ) (points : List (Point F)) : Except Raise Text := do
  let lines ← points.mapM (dumpLine limit)
  pure (List.intercalate ['\n'] lines++(if lines.isEmpty then [] else ['\n']))

/-! ## Reading -/

/-- The fields of `TelemetryPoint`; others are forbidden. -/
def pointFields : List String :=
  ["ts_ns","entity_id","entity_type","metric_id","value","unit","source","sample_interval_ns",
    "quality","attrs"]

/-- A field without a default. -/
def required (key : String) (obj : List (String × JsonValue F)) : Except Raise (JsonValue F) :=
  (obj.lookup key).elim (.error .valueError) .ok

def text : JsonValue F → Except Raise String
  | .str s => .ok s
  | _ => .error .valueError

def textOrNone : JsonValue F → Except Raise (Option String)
  | .null => .ok none
  | j => some <$> text j

def positive (n : ℤ) : Except Raise { n : ℕ // 0 < n } :=
  if h : 0 < n then .ok ⟨n.toNat,by omega⟩ else .error .valueError

def intervalOrNone [Lax F] : JsonValue F → Except Raise (Option { n : ℕ // 0 < n })
  | .null => .ok none
  | j => do
    let n ← Lax.int j
    some <$> positive n

def attr (field : String × JsonValue F) : Except Raise (String × String) :=
  (field.1,·) <$> text field.2

def attributes : JsonValue F → Except Raise (Dict String String)
  | .obj fields =>
    (fun es => ⟨Dictionaries.update [] es,Dictionaries.nodup_keys_update_nil es⟩) <$>
      fields.mapM attr
  | _ => .error .valueError

/-- `TelemetryPoint.model_validate`; a validation error is a `ValueError`. -/
def modelValidate [Lax F] (obj : List (String × JsonValue F)) : Except Raise (Point F) := do
  let ts ← Lax.int (← required "ts_ns" obj)
  let tsNs ← nonneg ts
  let entityId ← text (← required "entity_id" obj)
  let type ← entityType (← required "entity_type" obj)
  let metricId ← text (← required "metric_id" obj)
  let value ← Lax.number ((obj.lookup "value").getD .null)
  let unit ← textOrNone ((obj.lookup "unit").getD .null)
  let source ← source ((obj.lookup "source").getD (.str "replay"))
  let interval ← intervalOrNone ((obj.lookup "sample_interval_ns").getD .null)
  let quality ← quality ((obj.lookup "quality").getD (.str "observed"))
  let attrs ← attributes ((obj.lookup "attrs").getD (.obj []))
  if ∀ f ∈ obj, f.1 ∈ pointFields then
    pure { tsNs := tsNs, entityId := entityId, entityType := type, metricId := metricId
           value := { value := value, unit := unit, source := source
                      sampleIntervalNs := interval, attrs := attrs }
           quality := quality }
  else .error .valueError

/-- `obj.setdefault(key,j)`. -/
def setDefault (key : String) (j : JsonValue F) (obj : List (String × JsonValue F)) :
    List (String × JsonValue F) := if (obj.lookup key).isSome then obj else obj++[(key,j)]

/-- A line that is blank has no point. -/
def parseLine [JsonFloat F] [Lax F] (limit : ℕ) (line : Text) : Except Raise (Option (Point F)) :=
  let line := strip isSpace line
  if line = [] then .ok none
  else match loads limit line with
    | none => .error .valueError
    | some (.obj obj) =>
      some <$> modelValidate (setDefault "source" (.str "replay")
        (setDefault "quality" (.str "observed") obj))
    | some _ => .error .attributeError

/-- By time, entity, metric and quality. -/
def sortKey (p : Point F) : ℕ ×ₗ String ×ₗ String ×ₗ String :=
  toLex (p.tsNs,toLex (p.entityId,toLex (p.metricId,qualityName p.quality)))

def sortPoints (points : List (Point F)) : List (Point F) :=
  points.mergeSort fun p q => sortKey p ≤ sortKey q

/-- `_frame_from_sorted`. -/
def frameFromSorted (points : List (Point F)) : Except Raise (TelemetryFrame (Content F)) :=
  let points := sortPoints points
  if (points.map TelemetryPoint.key).Nodup then telemetryFrame (sortPoints points)
  else .error .valueError

def parseReplayJsonl [JsonFloat F] [Lax F] (limit : ℕ) (text : Text) :
    Except Raise (TelemetryFrame (Content F)) := do
  let raw ← (lines isBreak text).mapM (parseLine limit)
  frameFromSorted (raw.filterMap id)

/-! ## The round trip -/

/-- Points that agree in every field; an attribute has the same value in both. -/
structure SamePoint (p q : Point F) : Prop where
  tsNs : p.tsNs = q.tsNs
  entityId : p.entityId = q.entityId
  entityType : p.entityType = q.entityType
  metricId : p.metricId = q.metricId
  value : p.value.value = q.value.value
  unit : p.value.unit = q.value.unit
  source : p.value.source = q.value.source
  sampleIntervalNs : p.value.sampleIntervalNs = q.value.sampleIntervalNs
  quality : p.quality = q.quality
  attrs : SameDict p.value.attrs.entries q.value.attrs.entries

/-- The text is read as the points in their order, and a second round changes nothing. -/
def RoundTrips [JsonFloat F] [Lax F] (limit : ℕ) (f : TelemetryFrame (Content F)) : Prop :=
  ∃ text g text', dumpReplayJsonl limit f.points = .ok text ∧
    parseReplayJsonl limit text = .ok g ∧
    (∃ points, points.Perm f.points ∧ List.Forall₂ SamePoint points g.points) ∧
    g.points.Pairwise (fun p q => sortKey p ≤ sortKey q) ∧
    dumpReplayJsonl limit g.points = .ok text' ∧ parseReplayJsonl limit text' = .ok g

/-- A frame none of whose values is NaN. -/
structure NanFree (F : Type) [JsonFloat F] where
  frame : TelemetryFrame (Content F)
  noNan : ∀ p ∈ frame.points, ∀ x, p.value.value = .float x → JsonFloat.shape x ≠ .nan

/-- The integers of a point. -/
def pointIntegers (p : Point F) : List ℤ :=
  (p.tsNs : ℤ)::((match p.value.value with
    | .int n => [n]
    | _ => [])++p.value.sampleIntervalNs.toList.map fun n => (n.1 : ℤ))

/-! ## The object of a point -/

theorem lookup_deleteIf (b : Bool) (key k : String) (obj : List (String × JsonValue F)) :
    (deleteIf b key obj).lookup k = if b = true ∧ k = key then none else obj.lookup k := by
  cases b with
  | true => simp only [deleteIf,if_true,JsonPatch.lookup_eraseKey,true_and]
  | false => simp only [deleteIf,Bool.false_eq_true,if_false,false_and]

theorem deleteIf_sublist (b : Bool) (key : String) (obj : List (String × JsonValue F)) :
    (deleteIf b key obj).Sublist obj := by
  cases b with
  | true => exact List.filter_sublist
  | false => exact List.Sublist.refl obj

theorem dumpObject_sublist (p : Point F) : (dumpObject p).Sublist (modelDump p) :=
  ((deleteIf_sublist ..).trans (deleteIf_sublist ..)).trans (deleteIf_sublist ..)

theorem keys_modelDump (p : Point F) : (modelDump p).map Prod.fst = pointFields := rfl

theorem nodup_dumpObject (p : Point F) : ((dumpObject p).map Prod.fst).Nodup := by
  have hfields : pointFields.Nodup := by decide
  exact hfields.sublist (keys_modelDump p ▸ (dumpObject_sublist p).map Prod.fst)

/-- What is deleted had no integer. -/
theorem integersFields_deleteIf {b : Bool} {key : String} {obj : List (String × JsonValue F)}
    (h : b = true → ∀ f ∈ obj, f.1 = key → integers f.2 = []) :
    integersFields (deleteIf b key obj) = integersFields obj := by
  cases b with
  | false => rfl
  | true =>
    replace h := h rfl
    rw [deleteIf,if_pos rfl,eraseKey]
    induction obj with
    | nil => rfl
    | cons f obj ih =>
      obtain ⟨hf,hobj⟩ := List.forall_mem_cons.mp h
      rw [List.filter_cons,integersFields]
      by_cases hkey : f.1 = key
      · rw [if_neg (by simpa using hkey),ih hobj,hf hkey,List.nil_append]
      · rw [if_pos (by simpa using hkey),integersFields,ih hobj]

theorem integers_attrs (es : List (String × String)) :
    integersFields (es.map fun e => (e.1,(.str e.2 : JsonValue F))) = [] := by
  rw [integersFields_eq_flatMap,List.flatMap_map]
  exact List.flatMap_eq_nil_iff.mpr fun e _ => rfl

theorem integers_valueJson (v : Value F) : integers (valueJson v) =
    match v with
    | .int n => [n]
    | _ => [] := by
  cases v <;> rfl

/-- The integers of the object are those of the point. -/
theorem integers_dumpObject (p : Point F) : integers (.obj (dumpObject p)) = pointIntegers p := by
  have hattrs : ∀ f ∈ modelDump p, f.1 = "attrs" → integers f.2 = [] := by
    simp [modelDump,integers,integers_attrs]
  have hunit : p.value.unit.isNone = true → ∀ f ∈ modelDump p, f.1 = "unit" →
      integers f.2 = [] := fun hnone => by
    simp [modelDump,Option.isNone_iff_eq_none.mp hnone,integers]
  have hinterval : p.value.sampleIntervalNs.isNone = true → ∀ f ∈ modelDump p,
      f.1 = "sample_interval_ns" → integers f.2 = [] := fun hnone => by
    simp [modelDump,Option.isNone_iff_eq_none.mp hnone,integers]
  have hmodel : integersFields (modelDump p) = pointIntegers p := by
    simp only [modelDump,integersFields,integers_valueJson,integers_attrs,integers,pointIntegers]
    cases p.value.unit <;> cases p.value.sampleIntervalNs <;> simp [integers]
  rw [integers,dumpObject,integersFields_deleteIf,integersFields_deleteIf,integersFields_deleteIf,
    hmodel]
  · exact fun _ => hattrs
  · exact fun hnone f hf => hunit hnone f ((deleteIf_sublist ..).mem hf)
  · exact fun hnone f hf => hinterval hnone f
      ((deleteIf_sublist ..).mem ((deleteIf_sublist ..).mem hf))

theorem fits_dumpObject [JsonFloat F] {limit : ℕ} {p : Point F}
    (hvalue : ∀ x, p.value.value = .float x → JsonFloat.shape x ≠ .nan)
    (hints : ∀ n ∈ pointIntegers p, Printable limit n) : Fits limit (.obj (dumpObject p)) := by
  have htext : ∀ o : Option String, Fits limit ((o.map .str).getD .null : JsonValue F) := by
    rintro (_ | s)
    · exact .null
    · exact .str s
  have hnumber : Fits limit (valueJson p.value.value) := by
    cases hv : p.value.value with
    | float x => exact .float (hvalue x hv)
    | int n => exact .int (hints n (by simp [pointIntegers,hv]))
    | bool b => exact .bool b
    | none => exact .null
  have hinterval : Fits limit
      ((p.value.sampleIntervalNs.map fun n => .int n.1).getD .null : JsonValue F) := by
    cases hn : p.value.sampleIntervalNs with
    | none => exact .null
    | some n => exact .int (hints n.1 (by simp [pointIntegers,hn]))
  have hattrs : Fits limit (.obj (p.value.attrs.entries.map
      fun e => (e.1,(.str e.2 : JsonValue F)))) := by
    refine .obj ?_ (List.forall_mem_map.mpr fun e _ => .str e.2)
    rw [List.map_map]
    exact p.value.attrs.unique
  have hmodel : ∀ f ∈ modelDump p, Fits limit f.2 := by
    simp only [modelDump,List.forall_mem_cons,List.not_mem_nil,false_imp_iff,implies_true,and_true]
    exact ⟨.int (hints _ List.mem_cons_self),.str _,.str _,.str _,hnumber,htext _,.str _,hinterval,
      .str _,hattrs⟩
  exact .obj (nodup_dumpObject p) fun f hf => hmodel f ((dumpObject_sublist p).mem hf)

/-! ## The point of an object -/

/-- The attributes in the order of their keys. -/
def sortAttrs (attrs : Dict String String) : Dict String String where
  entries := attrs.entries.mergeSort fun a b => a.1 ≤ b.1
  unique := ((List.mergeSort_perm ..).map Prod.fst).nodup_iff.mpr attrs.unique

/-- The point as it is read. -/
def canonical (p : Point F) : Point F :=
  { p with value := { p.value with attrs := sortAttrs p.value.attrs } }

theorem samePoint_canonical (p : Point F) : SamePoint p (canonical p) where
  tsNs := rfl
  entityId := rfl
  entityType := rfl
  metricId := rfl
  value := rfl
  unit := rfl
  source := rfl
  sampleIntervalNs := rfl
  quality := rfl
  attrs := Dictionaries.sameDict_of_perm (List.mergeSort_perm ..).symm p.value.attrs.unique

theorem entityType_entityName (t : EntityType) :
    entityType (.str (entityName t) : JsonValue F) = .ok t := by cases t <;> rfl

theorem source_sourceName (x : Source) : source (.str (sourceName x) : JsonValue F) = .ok x := by
  cases x <;> rfl

theorem quality_qualityName (q : Quality) :
    quality (.str (qualityName q) : JsonValue F) = .ok q := by cases q <;> rfl

theorem sortKeys_valueJson (v : Value F) : sortKeys (valueJson v) = valueJson v := by
  cases v <;> rfl

theorem number_valueJson [Lax F] (v : Value F) : Lax.number (valueJson v) = .ok v := by
  cases v with
  | float x => exact Lax.number_float x
  | int n => exact Lax.number_int n
  | bool b => exact Lax.number_bool b
  | none => exact Lax.number_null

theorem nonneg_natCast (n : ℕ) : nonneg (n : ℤ) = .ok n := by
  rw [nonneg,if_pos (Int.natCast_nonneg n),Int.toNat_natCast]

theorem intervalOrNone_int [Lax F] (n : { n : ℕ // 0 < n }) :
    intervalOrNone (.int n.1 : JsonValue F) = .ok (some n) := by
  have hpos : (0 : ℤ) < n.1 := Int.natCast_pos.mpr n.2
  rw [intervalOrNone,Lax.int_int]
  · change some <$> positive (n.1 : ℤ) = .ok (some n)
    rw [positive,dif_pos hpos]
    rfl
  · rintro ⟨⟩

theorem sortKeys_attrs (attrs : Dict String String) :
    sortKeys (.obj (attrs.entries.map fun e => (e.1,.str e.2)) : JsonValue F) =
      .obj ((sortAttrs attrs).entries.map fun e => (e.1,.str e.2)) := by
  have hsort := List.map_mergeSort (l:=attrs.entries) (r:=fun a b => decide (a.1 ≤ b.1))
    (s:=fun a b => decide (a.1 ≤ b.1)) (f:=fun e => (e.1,(.str e.2 : JsonValue F)))
    fun _ _ _ _ => rfl
  rw [sortKeys,sortKeysFields_eq_map,List.map_map]
  exact congrArg _ hsort.symm

theorem attributes_of_entries (attrs : Dict String String) :
    attributes (.obj (attrs.entries.map fun e => (e.1,(.str e.2 : JsonValue F)))) = .ok attrs := by
  have hloop : (attrs.entries.map fun e => (e.1,(.str e.2 : JsonValue F))).mapM attr =
      .ok attrs.entries := by
    rw [PyValue.mapM_eq_ok_iff,List.forall₂_map_left_iff,List.forall₂_same]
    exact fun e _ => rfl
  have hupdate := Dictionaries.update_of_nodup attrs.entries [] attrs.unique
  rw [attributes,hloop]
  exact congrArg Except.ok (by simp only [hupdate,List.nil_append])

/-- The object as it is read. -/
def readObject (p : Point F) : List (String × JsonValue F) :=
  (sortKeysFields (dumpObject p)).mergeSort fun a b => a.1 ≤ b.1

theorem lookup_readObject (p : Point F) (k : String) :
    (readObject p).lookup k = ((dumpObject p).lookup k).map sortKeys :=
  lookup_sortKeys (nodup_dumpObject p) k

theorem sortKeys_dumpObject (p : Point F) :
    sortKeys (.obj (dumpObject p)) = .obj (readObject p) := by rw [sortKeys]; rfl

theorem fits_readObject [JsonFloat F] {limit : ℕ} {p : Point F}
    (h : Fits limit (.obj (dumpObject p))) : Fits limit (.obj (readObject p)) :=
  sortKeys_dumpObject p ▸ h.sortKeys

/-- A field that is never deleted. -/
theorem lookup_kept (p : Point F) {k : String}
    (h : k ∉ ["sample_interval_ns","unit","attrs"]) :
    (readObject p).lookup k = ((modelDump p).lookup k).map sortKeys := by
  simp only [List.mem_cons,List.not_mem_nil,or_false,not_or] at h
  simp only [lookup_readObject,dumpObject,lookup_deleteIf,h,and_false,if_false]

theorem lookup_unit (p : Point F) : (readObject p).lookup "unit" = p.value.unit.map .str := by
  have hmodel : (modelDump p).lookup "unit" = some ((p.value.unit.map .str).getD .null) := rfl
  rw [lookup_readObject,dumpObject,lookup_deleteIf,if_neg (by simp),lookup_deleteIf]
  cases hunit : p.value.unit with
  | none => rfl
  | some s =>
    rw [if_neg (by simp),lookup_deleteIf,if_neg (by simp),hmodel,hunit]
    rfl

theorem lookup_interval (p : Point F) : (readObject p).lookup "sample_interval_ns" =
    p.value.sampleIntervalNs.map fun n => .int n.1 := by
  have hmodel : (modelDump p).lookup "sample_interval_ns" =
      some ((p.value.sampleIntervalNs.map fun n => .int n.1).getD .null) := rfl
  rw [lookup_readObject,dumpObject,lookup_deleteIf]
  cases hinterval : p.value.sampleIntervalNs with
  | none => rfl
  | some n =>
    rw [if_neg (by simp),lookup_deleteIf,if_neg (by simp),lookup_deleteIf,if_neg (by simp),hmodel,
      hinterval]
    rfl

theorem lookup_attrs (p : Point F) : ((readObject p).lookup "attrs").getD (.obj []) =
    .obj ((sortAttrs p.value.attrs).entries.map fun e => (e.1,.str e.2)) := by
  rw [lookup_readObject,dumpObject,lookup_deleteIf,if_neg (by simp),lookup_deleteIf,
    if_neg (by simp),lookup_deleteIf]
  cases hattrs : p.value.attrs.entries with
  | nil =>
    have hperm : (sortAttrs p.value.attrs).entries.Perm p.value.attrs.entries :=
      List.mergeSort_perm ..
    rw [hattrs,List.perm_nil] at hperm
    rw [hperm]
    rfl
  | cons e es =>
    rw [if_neg (by simp),← sortKeys_attrs]
    rfl

/-- The object is read as the point. -/
theorem modelValidate_readObject [Lax F] (p : Point F) :
    modelValidate (readObject p) = .ok (canonical p) := by
  have hfields : ∀ f ∈ readObject p, f.1 ∈ pointFields := fun f hf => by
    have hmem := ((List.mergeSort_perm ..).map Prod.fst).mem_iff.mp (List.mem_map_of_mem hf)
    rw [keys_sortKeysFields] at hmem
    exact keys_modelDump p ▸ ((dumpObject_sublist p).map Prod.fst).mem hmem
  have hts : (readObject p).lookup "ts_ns" = some (.int p.tsNs) := lookup_kept p (by decide)
  have hentity : (readObject p).lookup "entity_id" = some (.str p.entityId) :=
    lookup_kept p (by decide)
  have htype : (readObject p).lookup "entity_type" = some (.str (entityName p.entityType)) :=
    lookup_kept p (by decide)
  have hmetric : (readObject p).lookup "metric_id" = some (.str p.metricId) :=
    lookup_kept p (by decide)
  have hvalue : (readObject p).lookup "value" = some (valueJson p.value.value) :=
    (lookup_kept p (by decide)).trans (congrArg some (sortKeys_valueJson p.value.value))
  have hsource : (readObject p).lookup "source" = some (.str (sourceName p.value.source)) :=
    lookup_kept p (by decide)
  have hquality : (readObject p).lookup "quality" = some (.str (qualityName p.quality)) :=
    lookup_kept p (by decide)
  have hunit : textOrNone ((p.value.unit.map .str).getD .null : JsonValue F) =
      .ok p.value.unit := by
    cases p.value.unit <;> rfl
  have hinterval : intervalOrNone ((p.value.sampleIntervalNs.map fun n => .int n.1).getD .null :
      JsonValue F) = .ok p.value.sampleIntervalNs := by
    cases p.value.sampleIntervalNs with
    | none => rfl
    | some n => exact intervalOrNone_int n
  rw [modelValidate]
  simp only [required,hts,hentity,htype,hmetric,hvalue,hsource,hquality,lookup_unit,
    lookup_interval,lookup_attrs,Option.elim_some,Option.getD_some,hunit,hinterval,
    number_valueJson,attributes_of_entries,entityType_entityName,source_sourceName,
    quality_qualityName,text,if_pos hfields,PyValue.ok_bind,Lax.int_int,nonneg_natCast]
  rfl

/-! ## Lines -/

theorem encode_obj [JsonFloat F] (obj : List (String × JsonValue F)) :
    ∃ cs, encode (.obj obj) = '{'::(cs++['}']) := by
  cases obj with
  | nil => exact ⟨[],by rw [encode]; rfl⟩
  | cons f obj =>
    obtain ⟨k,x⟩ := f
    refine ⟨quote k++(':' :: ' '::(encode x++encodeFieldsTail obj)),?_⟩
    rw [encode]
    simp

theorem not_isBreak_of_ascii {cs : Text} (h : Ascii cs) : ∀ c ∈ cs, isBreak c = false := by
  intro c hc
  have hcode := h c hc
  simp only [isBreak,Bool.or_eq_false_iff,Bool.and_eq_false_iff,decide_eq_false_iff_not]
  omega

/-- A line is dumped exactly when no integer of the point is beyond the limit. -/
theorem dumpLine_ok_iff [JsonFloat F] {limit : ℕ} {p : Point F} {line : Text} :
    dumpLine limit p = .ok line ↔
      (∀ n ∈ pointIntegers p, Printable limit n) ∧ line = encode (.obj (readObject p)) := by
  rw [dumpLine,dumps,integers_dumpObject,sortKeys_dumpObject]
  split
  · next h =>
    exact ⟨fun hline => ⟨h,(Except.ok.inj hline).symm⟩,fun hline => congrArg _ hline.2.symm⟩
  · next h => exact iff_of_false (fun hline => by cases hline) fun hline => h hline.1

/-- A point that is written is read. -/
theorem parseLine_encode [JsonFloat F] [Lax F] {limit : ℕ} {p : Point F}
    (hfits : Fits limit (.obj (dumpObject p))) :
    parseLine limit (encode (.obj (readObject p))) = .ok (some (canonical p)) := by
  have hloads : loads limit (encode (.obj (readObject p))) = some (.obj (readObject p)) :=
    loads_encode (fits_readObject hfits)
  have hquality : ((readObject p).lookup "quality").isSome = true := by
    rw [lookup_kept p (by decide)]
    rfl
  have hsource : ((readObject p).lookup "source").isSome = true := by
    rw [lookup_kept p (by decide)]
    rfl
  obtain ⟨cs,hcs⟩ := encode_obj (readObject p)
  have hstrip : strip isSpace (encode (.obj (readObject p))) = encode (.obj (readObject p)) := by
    rw [hcs]
    refine strip_eq_self (fun c hc => ?_) (fun c hc => ?_)
    · obtain rfl := Option.some.inj hc
      decide
    · rw [← List.cons_append,List.getLast?_concat] at hc
      obtain rfl := Option.some.inj hc
      decide
  have hne : encode (.obj (readObject p)) ≠ [] := by rw [hcs]; exact List.cons_ne_nil _ _
  rw [parseLine]
  simp only [hstrip,if_neg hne,hloads,setDefault,if_pos hquality,if_pos hsource,
    modelValidate_readObject]
  rfl

/-! ## Files -/

/-- A text of points within the limit is read as what each of them is read as. -/
theorem exists_dump [JsonFloat F] [Lax F] {limit : ℕ} {points : List (Point F)}
    (hvalue : ∀ p ∈ points, ∀ x, p.value.value = .float x → JsonFloat.shape x ≠ .nan)
    (hints : ∀ p ∈ points, ∀ n ∈ pointIntegers p, Printable limit n) :
    ∃ text, dumpReplayJsonl limit points = .ok text ∧
      parseReplayJsonl limit text = frameFromSorted (points.map canonical) := by
  let ls := points.map fun p => encode (.obj (readObject p))
  have hfits : ∀ p ∈ points, Fits limit (.obj (dumpObject p)) := fun p hp =>
    fits_dumpObject (hvalue p hp) (hints p hp)
  have hdump : points.mapM (dumpLine limit) = .ok ls := by
    rw [PyValue.mapM_eq_ok_iff,List.forall₂_map_right_iff,List.forall₂_same]
    exact fun p hp => dumpLine_ok_iff.mpr ⟨hints p hp,rfl⟩
  have hbreaks : ∀ l ∈ ls, ∀ c ∈ l, isBreak c = false := by
    intro l hl
    obtain ⟨p,hp,rfl⟩ := List.mem_map.mp hl
    exact not_isBreak_of_ascii (fits_readObject (hfits p hp)).ascii
  have hparse : ls.mapM (parseLine limit) = .ok (points.map (some ∘ canonical)) := by
    rw [PyValue.mapM_eq_ok_iff,List.forall₂_map_left_iff,List.forall₂_map_right_iff,
      List.forall₂_same]
    exact fun p hp => parseLine_encode (hfits p hp)
  refine ⟨ls.flatMap (·++['\n']),?_,?_⟩
  · rw [dumpReplayJsonl,hdump,← intercalate_append_end]
    rfl
  · rw [parseReplayJsonl,lines_flatMap (by decide) hbreaks,hparse,PyValue.ok_bind,← List.map_map,
      List.filterMap_map,Function.id_comp,List.filterMap_some]

/-! ## Order -/

theorem sortPoints_perm (points : List (Point F)) : (sortPoints points).Perm points :=
  List.mergeSort_perm ..

theorem sortPoints_pairwise (points : List (Point F)) :
    (sortPoints points).Pairwise fun p q => sortKey p ≤ sortKey q := by
  have hsorted : (sortPoints points).Pairwise fun p q => decide (sortKey p ≤ sortKey q) = true :=
    List.pairwise_mergeSort
      (fun p q r hpq hqr => decide_eq_true ((of_decide_eq_true hpq).trans (of_decide_eq_true hqr)))
      (fun p q => by simpa using le_total (sortKey p) (sortKey q)) points
  exact hsorted.imp fun h => of_decide_eq_true h

theorem sortPoints_of_pairwise {points : List (Point F)}
    (h : points.Pairwise fun p q => sortKey p ≤ sortKey q) : sortPoints points = points :=
  List.mergeSort_of_pairwise (h.imp fun h => decide_eq_true h)

theorem map_sortPoints (points : List (Point F)) :
    (sortPoints points).map canonical = sortPoints (points.map canonical) :=
  List.map_mergeSort fun _ _ _ _ => rfl

theorem tsNs_le_of_sortKey_le {p q : Point F} (h : sortKey p ≤ sortKey q) : p.tsNs ≤ q.tsNs := by
  rcases Prod.Lex.toLex_le_toLex.mp h with hlt | ⟨heq,-⟩
  · exact hlt.le
  · exact heq.le

/-- The frame of the sorted points is what is returned. -/
theorem frameFromSorted_eq {points : List (Point F)} {g : TelemetryFrame (Content F)}
    (h : g.points = sortPoints points) : frameFromSorted points = .ok g := by
  obtain ⟨points',hordered,hunique⟩ := g
  obtain rfl : points' = sortPoints points := h
  simp only [frameFromSorted,if_pos hunique,sortPoints_of_pairwise (sortPoints_pairwise points)]
  exact dif_pos ⟨hordered,hunique⟩

/-- Points that are told apart make a frame. -/
theorem exists_frame {points : List (Point F)} (h : (points.map TelemetryPoint.key).Nodup) :
    ∃ g, frameFromSorted points = .ok g ∧ g.points = sortPoints points := by
  have hordered : (sortPoints points).Pairwise fun p q => p.tsNs ≤ q.tsNs :=
    (sortPoints_pairwise points).imp tsNs_le_of_sortKey_le
  have hunique : ((sortPoints points).map TelemetryPoint.key).Nodup :=
    ((sortPoints_perm points).map _).nodup_iff.mpr h
  exact ⟨⟨sortPoints points,hordered,hunique⟩,frameFromSorted_eq rfl,rfl⟩

theorem sortAttrs_sortAttrs (attrs : Dict String String) :
    sortAttrs (sortAttrs attrs) = sortAttrs attrs := by
  have hsorted : (sortAttrs attrs).entries.Pairwise fun a b => decide (a.1 ≤ b.1) = true :=
    List.pairwise_mergeSort
      (fun a b c hab hbc => decide_eq_true ((of_decide_eq_true hab).trans (of_decide_eq_true hbc)))
      (fun a b => by simpa using le_total a.1 b.1) attrs.entries
  have hentries : (sortAttrs (sortAttrs attrs)).entries = (sortAttrs attrs).entries :=
    List.mergeSort_of_pairwise hsorted
  exact Dictionaries.Dict.ext hentries

theorem canonical_canonical (p : Point F) : canonical (canonical p) = canonical p := by
  simp only [canonical,sortAttrs_sortAttrs]

/-! ## There and back -/

/-- The frame that is read has the points in order, and is read again as itself. -/
theorem roundTrips_of_printable [JsonFloat F] [Lax F] {limit : ℕ} (f : NanFree F)
    (hints : ∀ p ∈ f.frame.points, ∀ n ∈ pointIntegers p, Printable limit n) :
    RoundTrips limit f.frame := by
  have hperm := sortPoints_perm f.frame.points
  have hkeys : ((f.frame.points.map canonical).map TelemetryPoint.key).Nodup := by
    rw [List.map_map]
    exact f.frame.unique
  obtain ⟨text,hdump,hparse⟩ := exists_dump f.noNan hints
  obtain ⟨g,hframe,hg⟩ := exists_frame hkeys
  have hpoints : g.points = (sortPoints f.frame.points).map canonical := by
    rw [hg,map_sortPoints]
  have hsame : g.points.map canonical = g.points := by
    rw [hpoints,List.map_map]
    exact List.map_congr_left fun p _ => canonical_canonical p
  have hmem : ∀ q ∈ g.points, ∃ p ∈ f.frame.points, canonical p = q := fun q hq => by
    rw [hpoints] at hq
    obtain ⟨p,hp,hpq⟩ := List.mem_map.mp hq
    exact ⟨p,hperm.mem_iff.mp hp,hpq⟩
  have hsorted : g.points.Pairwise fun p q => sortKey p ≤ sortKey q :=
    hg ▸ sortPoints_pairwise _
  have hagain : frameFromSorted g.points = .ok g :=
    frameFromSorted_eq (sortPoints_of_pairwise hsorted).symm
  have hvalue' : ∀ q ∈ g.points, ∀ x, q.value.value = .float x → JsonFloat.shape x ≠ .nan := by
    intro q hq x hx
    obtain ⟨p,hp,rfl⟩ := hmem q hq
    exact f.noNan p hp x hx
  have hints' : ∀ q ∈ g.points, ∀ n ∈ pointIntegers q, Printable limit n := by
    intro q hq n hn
    obtain ⟨p,hp,rfl⟩ := hmem q hq
    exact hints p hp n hn
  obtain ⟨text',hdump',hparse'⟩ := exists_dump hvalue' hints'
  refine ⟨text,g,text',hdump,hparse.trans hframe,⟨_,hperm,?_⟩,hsorted,hdump',?_⟩
  · rw [hpoints,List.forall₂_map_right_iff,List.forall₂_same]
    exact fun p _ => samePoint_canonical p
  · rw [hparse',hsame,hagain]

/-- A frame with an integer beyond the limit is not written. -/
theorem not_roundTrips [JsonFloat F] [Lax F] {limit : ℕ} {f : TelemetryFrame (Content F)}
    {p : Point F} (hp : p ∈ f.points) {n : ℤ} (hn : n ∈ pointIntegers p)
    (h : ¬ Printable limit n) : ¬ RoundTrips limit f := by
  rintro ⟨text,g,text',hdump,-⟩
  obtain ⟨ls,hls,-⟩ := PyValue.bind_eq_ok hdump
  obtain ⟨l,-,hl⟩ := PyValue.mem_of_mapM_ok _ hls hp
  exact h ((dumpLine_ok_iff.mp hl).1 n hn)

/-- A frame survives the round trip exactly when no integer in it has more digits than the
interpreter prints; with a limit of zero every frame does. -/
theorem jsonl_roundTrips_iff [JsonFloat F] [Lax F] (limit : ℕ) (f : NanFree F) :
    RoundTrips limit f.frame ↔ ∀ p ∈ f.frame.points, ∀ n ∈ pointIntegers p,
      limit = 0 ∨ n.natAbs < 10^limit := by
  simp only [← printable_iff]
  constructor
  · intro h p hp n hn
    by_contra hlarge
    exact not_roundTrips hp hn hlarge h
  · exact roundTrips_of_printable f

instance : JsonFloat Unit where
  shape _ := .nan
  nan := ()
  infinity := ()
  negInfinity := ()
  float _ := ()
  float_of_finite _ _ h := by cases h
  eq_infinity _ h := by cases h
  eq_negInfinity _ h := by cases h

instance : Lax Unit where
  int
    | .int n => .ok n
    | _ => .error .valueError
  number
    | .float x => .ok (.float x)
    | .int n => .ok (.int n)
    | .bool b => .ok (.bool b)
    | .null => .ok .none
    | _ => .error .valueError
  int_int _ := rfl
  number_float _ := rfl
  number_int _ := rfl
  number_bool _ := rfl
  number_null := rfl

/-- A counter of one digit more than the interpreter prints. -/
def longPoint (limit : ℕ) : Point Unit where
  tsNs := 0
  entityId := "host"
  entityType := .host
  metricId := "counter"
  value :=
    { value := .int (10^limit : ℕ), unit := none, source := .replay, sampleIntervalNs := none
      attrs := ⟨[],List.nodup_nil⟩ }
  quality := .observed

def longFrame (limit : ℕ) : NanFree Unit where
  frame := ⟨[longPoint limit],List.pairwise_singleton _ _,List.nodup_singleton _⟩
  noNan p hp x hx := by
    obtain rfl := List.mem_singleton.mp hp
    cases hx

theorem longFrame_not_round : ¬ ∀ f : NanFree Unit, RoundTrips 4300 f.frame := by
  have hround : ∀ limit, limit ≠ 0 → ¬ RoundTrips limit (longFrame limit).frame := by
    intro limit hpos
    refine not_roundTrips (p:=longPoint limit) (n:=(10^limit : ℕ)) List.mem_cons_self ?_ ?_
    · simp [pointIntegers,longPoint]
    · rw [printable_iff,Int.natAbs_natCast]
      exact not_or.mpr ⟨hpos,Nat.lt_irrefl _⟩
  exact fun h => hround 4300 (by decide) (h (longFrame 4300))

end Replay
end ETraceDiag
