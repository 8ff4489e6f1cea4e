import ETraceDiag.DetectorFrames
import ETraceDiag.Dictionaries
import ETraceDiag.IntegerDoubles
import ETraceDiag.PyValue
import ETraceDiag.TextPieces

/-!
# The normalizer as data

`Normalizer.serialize` and `deserialize` of `data/normalize.py`: the statistics of each entity and
metric under one text for the two, which is cut again where the separator first stands.
-/

namespace ETraceDiag
namespace Normalize

open DetectorFrames (Channel)
open Dictionaries IntegerDoubles PyValue TextPieces

/-- The statistics of a metric. -/
structure MetricStats (F : Type) where
  median : F
  mad : F
  mean : F
  std : F
  count : ℤ
  minValue : F
  maxValue : F
  nonObservedFrac : F

/-- `per_metric`. -/
structure Normalizer (F : Type) where
  perMetric : Dict Channel (MetricStats F)

/-- The interpreter's floats: 0.0, and what `float` makes of a whole number and `int` of a float. -/
class CountFloat (F : Type) where
  zero : F
  float : ℤ → Except Raise F
  int : F → Except Raise ℤ
  float_beyond : ∀ n, toDouble n = none → float n = .error .overflowError
  int_float : ∀ n r, toDouble n = some r → ∃ x, float n = .ok x ∧ int x = .ok r

/-- Floats that are exact where they are not made of a whole number. -/
instance : CountFloat ℚ where
  zero := 0
  float n := (toDouble n).elim (.error .overflowError) fun r => .ok r
  int x := .ok (x.num.tdiv x.den)
  float_beyond n h := by rw [h]; rfl
  int_float n r h := ⟨r,by rw [h]; rfl,by
    rw [Rat.num_intCast,Rat.den_intCast,Nat.cast_one,Int.tdiv_one]⟩

variable {F : Type}

def separator : List Char := [':',':']

/-- `f"{e}::{m}"`. -/
def serialKey (k : Channel) : String := k.entityId++"::"++k.metricId

/-- `key.split("::",1)`, where two parts are expected. -/
def splitKey (key : String) : Except Raise Channel :=
  match splitOnce separator key.toList with
  | some (e,m) => .ok ⟨String.ofList e,String.ofList m⟩
  | none => .error .valueError

section Code

variable [CountFloat F]

def MetricStats.toDict (st : MetricStats F) : Except Raise (List (String × F)) := do
  let count ← CountFloat.float st.count
  return [("median",st.median),("mad",st.mad),("mean",st.mean),("std",st.std),("count",count),
    ("min",st.minValue),("max",st.maxValue),("non_observed_frac",st.nonObservedFrac)]

/-- `d[key]`. -/
def entry (key : String) (d : List (String × F)) : Except Raise F :=
  (d.lookup key).elim (.error .keyError) .ok

def MetricStats.ofDict (d : List (String × F)) : Except Raise (MetricStats F) := do
  let median ← entry "median" d
  let mad ← entry "mad" d
  let mean ← entry "mean" d
  let std ← entry "std" d
  let count ← CountFloat.int (← entry "count" d)
  let minValue ← entry "min" d
  let maxValue ← entry "max" d
  return ⟨median,mad,mean,std,count,minValue,maxValue,
    (d.lookup "non_observed_frac").getD CountFloat.zero⟩

/-- `{f"{e}::{m}": s.to_dict() for (e,m),s in self.per_metric.items()}`. -/
def Normalizer.serialize (n : Normalizer F) : Except Raise (List (String × List (String × F))) := do
  let items ← n.perMetric.entries.mapM fun x => do return (serialKey x.1,← x.2.toDict)
  return update [] items

def deserialize (data : List (String × List (String × F))) : Except Raise (Normalizer F) := do
  let items ← data.mapM fun x => do return (← splitKey x.1,← MetricStats.ofDict x.2)
  return ⟨update [] items,nodup_keys_update_nil items⟩

end Code

/-! ## Keys -/

/-- The separator first stands between the two ids: the entity does not hold it, and does not end
in its first half. -/
def KeyKept (k : Channel) : Prop := ¬ separator <:+: k.entityId.toList++[':']

instance (k : Channel) : Decidable (KeyKept k) := inferInstanceAs (Decidable (¬ _))

theorem toList_serialKey (k : Channel) :
    (serialKey k).toList = k.entityId.toList++separator++k.metricId.toList := by
  simp [serialKey,separator]

theorem splitOnce_serialKey {k : Channel} (h : KeyKept k) :
    splitOnce separator (serialKey k).toList = some (k.entityId.toList,k.metricId.toList) :=
  (splitOnce_eq_some_iff (by decide)).mpr ⟨toList_serialKey k,h⟩

/-- What a text is cut into is kept by the next round. -/
theorem keyKept_of_split {key : String} {k : Channel} (h : splitKey key = .ok k) : KeyKept k := by
  rw [splitKey] at h
  split at h
  · next e m hsplit =>
    obtain rfl := Except.ok.inj h
    have hnot := ((splitOnce_eq_some_iff (by decide)).mp hsplit).2
    rwa [KeyKept,String.toList_ofList]
  · cases h

/-- A key comes back exactly when the separator first stands between its ids. -/
theorem splitKey_serialKey_iff (k : Channel) : splitKey (serialKey k) = .ok k ↔ KeyKept k := by
  refine ⟨keyKept_of_split,fun h => ?_⟩
  rw [splitKey,splitOnce_serialKey h]
  simp

theorem serialKey_inj {k k' : Channel} (h : KeyKept k) (h' : KeyKept k')
    (heq : serialKey k = serialKey k') : k = k' := by
  have hk := (splitKey_serialKey_iff k).mpr h
  rw [heq,(splitKey_serialKey_iff k').mpr h'] at hk
  exact (Except.ok.inj hk).symm

/-! ## Statistics -/

section Statistics

variable [CountFloat F]

/-- A count comes back as what it is rounded to; one that is beyond all floats is not written. -/
theorem toDict_ofDict (st : MetricStats F) : (st.toDict >>= MetricStats.ofDict) =
    (toDouble st.count).elim (.error .overflowError) fun r => .ok {st with count := r} := by
  rw [MetricStats.toDict]
  cases hround : toDouble st.count with
  | none => rw [CountFloat.float_beyond (F:=F) _ hround]; rfl
  | some r =>
    obtain ⟨x,hx,hr⟩ := CountFloat.int_float (F:=F) _ r hround
    rw [hx]
    have hint : MetricStats.ofDict [("median",st.median),("mad",st.mad),("mean",st.mean),
        ("std",st.std),("count",x),("min",st.minValue),("max",st.maxValue),
        ("non_observed_frac",st.nonObservedFrac)] = CountFloat.int x >>= fun count =>
          .ok {st with count := count} := by
      rfl
    exact hint.trans (by rw [hr]; rfl)

end Statistics

/-! ## The round trip -/

section RoundTrip

variable [CountFloat F] (n : Normalizer F)

/-- Both directions end, with the same statistics for the same keys. -/
def RoundTrips : Prop := ∃ data n', n.serialize = .ok data ∧ deserialize data = .ok n' ∧
  SameDict n'.perMetric.entries n.perMetric.entries

/-- Different keys are written under different texts. -/
def KeysApart : Prop := ∀ k ∈ n.perMetric.entries.map Prod.fst,
  ∀ k' ∈ n.perMetric.entries.map Prod.fst, k ≠ k' → serialKey k ≠ serialKey k'

/-- No entity id has the separator in it or a part of it at its end, and every count is a whole
number that a float can be. -/
def Kept : Prop := ∀ x ∈ n.perMetric.entries, KeyKept x.1 ∧ IsDouble x.2.count

variable {n}

/-- Every key that has come back is one that is kept. -/
theorem keyKept_of_deserialize {data : List (String × List (String × F))} {n' : Normalizer F}
    (h : deserialize data = .ok n') : ∀ k ∈ n'.perMetric.entries.map Prod.fst, KeyKept k := by
  intro k hk
  obtain ⟨items,hitems,h⟩ := bind_eq_ok h
  obtain rfl := Except.ok.inj h
  obtain ⟨z,hz,rfl⟩ := List.mem_map.mp ((mem_keys_update_nil items k).mp hk)
  obtain ⟨x,-,hx⟩ := exists_of_mapM_ok data hitems hz
  obtain ⟨k,hsplit,hx⟩ := bind_eq_ok hx
  obtain ⟨st,-,hx⟩ := bind_eq_ok hx
  obtain rfl := Except.ok.inj hx
  exact keyKept_of_split hsplit

/-- Of keys that are kept an entry each is written, in order. -/
theorem serialize_of_kept (h : ∀ x ∈ n.perMetric.entries, KeyKept x.1)
    {data : List (String × List (String × F))} (hdata : n.serialize = .ok data) :
    n.perMetric.entries.mapM (fun x => do return (serialKey x.1,← x.2.toDict)) = .ok data := by
  obtain ⟨items,hitems,hdata⟩ := bind_eq_ok hdata
  obtain rfl := Except.ok.inj hdata
  have hkeys : items.map Prod.fst = n.perMetric.entries.map fun x => serialKey x.1 := by
    refine map_of_mapM_ok _ hitems fun x y hxy => ?_
    obtain ⟨d,-,hxy⟩ := bind_eq_ok hxy
    obtain rfl := Except.ok.inj hxy
    rfl
  have hnodup : (([]++items).map Prod.fst).Nodup := by
    have hmap : n.perMetric.entries.map (fun x => serialKey x.1) =
        (n.perMetric.entries.map Prod.fst).map serialKey := by rw [List.map_map]; rfl
    rw [List.nil_append,hkeys,hmap,List.nodup_map_iff_inj_on n.perMetric.unique]
    intro k hk k' hk' heq
    obtain ⟨x,hx,rfl⟩ := List.mem_map.mp hk
    obtain ⟨x',hx',rfl⟩ := List.mem_map.mp hk'
    exact serialKey_inj (h x hx) (h x' hx') heq
  rw [update_of_nodup items [] hnodup]
  exact hitems

/-- What comes back of an entry. -/
def Back (x z : Channel × MetricStats F) : Prop :=
  z.1 = x.1 ∧ (x.2.toDict >>= MetricStats.ofDict) = .ok z.2

theorem keys_of_back {xs zs : List (Channel × MetricStats F)} (h : List.Forall₂ Back xs zs) :
    zs.map Prod.fst = xs.map Prod.fst := by
  induction h with
  | nil => rfl
  | cons hx _ ih => rw [List.map_cons,List.map_cons,hx.1,ih]

/-- What comes back is what was there exactly when its count can be a float. -/
theorem back_self_iff {x : Channel × MetricStats F} : Back x x ↔ IsDouble x.2.count := by
  rw [Back,toDict_ofDict,← toDouble_eq_self_iff]
  cases hround : toDouble x.2.count with
  | none => simp
  | some r =>
    simp only [Option.elim_some,Except.ok.injEq,true_and,Option.some.injEq]
    exact ⟨fun h => congrArg MetricStats.count h,fun h => by rw [h]⟩

/-- Of keys that are kept each entry comes back under its key. -/
theorem deserialize_of_kept (h : ∀ x ∈ n.perMetric.entries, KeyKept x.1)
    {data : List (String × List (String × F))} (hdata : n.serialize = .ok data) {n' : Normalizer F}
    (hback : deserialize data = .ok n') :
    List.Forall₂ Back n.perMetric.entries n'.perMetric.entries := by
  have hwritten := serialize_of_kept h hdata
  obtain ⟨items,hitems,hback⟩ := bind_eq_ok hback
  obtain rfl := Except.ok.inj hback
  obtain ⟨hlength,hboth⟩ := List.forall₂_iff_get.mp (forall₂_of_mapM_ok hwritten hitems)
  have hall : List.Forall₂ Back n.perMetric.entries items := by
    refine List.forall₂_iff_get.mpr ⟨hlength,fun i hi hi' => ?_⟩
    obtain ⟨y,hy,hz⟩ := hboth i hi hi'
    obtain ⟨d,hd,hy⟩ := bind_eq_ok hy
    obtain rfl := Except.ok.inj hy
    obtain ⟨k,hk,hz⟩ := bind_eq_ok hz
    obtain ⟨st,hst,hz⟩ := bind_eq_ok hz
    rw [(splitKey_serialKey_iff _).mpr (h _ (List.get_mem ..))] at hk
    rw [← Except.ok.inj hz]
    exact ⟨(Except.ok.inj hk).symm,by rw [hd]; exact hst⟩
  have hnodup : (([]++items).map Prod.fst).Nodup := by
    rw [List.nil_append,keys_of_back hall]
    exact n.perMetric.unique
  simp only [update_of_nodup items [] hnodup]
  exact hall

/-- Keys and counts that are kept make the round trip, and the entries are in their order again. -/
theorem roundTrips_of_kept (h : Kept n) : RoundTrips n := by
  have hkeys : ∀ x ∈ n.perMetric.entries, KeyKept x.1 := fun x hx => (h x hx).1
  have hdicts : ∀ x ∈ n.perMetric.entries, ∃ d, x.2.toDict = .ok d ∧ MetricStats.ofDict d = .ok x.2 :=
    fun x hx => bind_eq_ok (back_self_iff.mpr (h x hx).2).2
  obtain ⟨items,hitems,-⟩ := exists_mapM_ok (f:=fun x => do return (serialKey x.1,← x.2.toDict))
    (P:=fun _ _ => True) n.perMetric.entries fun x hx => by
      obtain ⟨d,hd,-⟩ := hdicts x hx
      exact ⟨_,by rw [hd]; rfl,trivial⟩
  have hdata : n.serialize = .ok (update [] items) := by rw [Normalizer.serialize,hitems]; rfl
  have hwritten := serialize_of_kept hkeys hdata
  obtain ⟨zs,hzs,-⟩ := exists_mapM_ok (f:=fun y => do return (← splitKey y.1,← MetricStats.ofDict y.2))
    (P:=fun _ _ => True) (update [] items) fun y hy => by
      obtain ⟨x,hx,hxy⟩ := exists_of_mapM_ok _ hwritten hy
      obtain ⟨d,hd,hback⟩ := hdicts x hx
      rw [hd] at hxy
      obtain rfl := Except.ok.inj hxy
      exact ⟨_,by rw [(splitKey_serialKey_iff _).mpr (hkeys x hx),hback]; rfl,trivial⟩
  have hback : deserialize (update [] items) = .ok ⟨update [] zs,nodup_keys_update_nil zs⟩ := by
    rw [deserialize,hzs]
    rfl
  obtain ⟨hlength,hall⟩ := List.forall₂_iff_get.mp (deserialize_of_kept hkeys hdata hback)
  have hsame : update [] zs = n.perMetric.entries := by
    refine List.ext_get hlength.symm fun i hi hi' => ?_
    obtain ⟨hk,hst⟩ := hall i hi' hi
    rw [(back_self_iff.mpr (h _ (List.get_mem ..)).2).2] at hst
    exact Prod.ext hk (Except.ok.inj hst).symm
  exact ⟨_,_,hdata,hback,fun k => congrArg (List.lookup k) hsame⟩

/-- The round trip keeps everything, and no two keys are written as one, exactly when no entity id
has the separator in it or a part of it at its end and every count can be a float. -/
theorem serialize_roundTrips_iff (n : Normalizer F) : RoundTrips n ∧ KeysApart n ↔ Kept n := by
  constructor
  · rintro ⟨⟨data,n',hdata,hback,hsame⟩,-⟩
    have hkeys : ∀ x ∈ n.perMetric.entries, KeyKept x.1 := fun x hx =>
      keyKept_of_deserialize hback x.1 ((hsame.mem_keys_iff x.1).mpr (List.mem_map_of_mem hx))
    refine fun x hx => ⟨hkeys x hx,back_self_iff.mp ?_⟩
    obtain ⟨hlength,hall⟩ := List.forall₂_iff_get.mp (deserialize_of_kept hkeys hdata hback)
    obtain ⟨i,rfl⟩ := List.get_of_mem hx
    have hz := hall i.val i.isLt (hlength ▸ i.isLt)
    have hmem := List.get_mem n'.perMetric.entries ⟨i,hlength ▸ i.isLt⟩
    have hlookup := hsame (n.perMetric.entries.get i).1
    rw [TimeTable.lookup_of_mem n.perMetric.unique (List.get_mem ..),← hz.1,
      TimeTable.lookup_of_mem n'.perMetric.unique hmem] at hlookup
    exact ⟨rfl,hz.2.trans (congrArg _ (Option.some.inj hlookup))⟩
  · refine fun h => ⟨roundTrips_of_kept h,fun k hk k' hk' hne heq => ?_⟩
    obtain ⟨x,hx,rfl⟩ := List.mem_map.mp hk
    obtain ⟨x',hx',rfl⟩ := List.mem_map.mp hk'
    exact hne (serialKey_inj (h x hx).1 (h x' hx').1 heq)

/-- Statistics of one value. -/
def oneValue (x : ℚ) : MetricStats ℚ := ⟨x,0,x,0,1,x,x,0⟩

/-- The statistics of a metric of a pod and of one of its containers. -/
def nested : Normalizer ℚ where
  perMetric.entries := [(⟨"pod::app","cpu"⟩,oneValue 5),(⟨"pod","app::cpu"⟩,oneValue 7)]
  perMetric.unique := by decide

/-- Two metrics are written under one text, and only one of them comes back. -/
theorem nested_not_round : ¬ (RoundTrips nested ∧ KeysApart nested) := by
  rintro ⟨-,happ⟩
  exact happ ⟨"pod::app","cpu"⟩ (by decide) ⟨"pod","app::cpu"⟩ (by decide) (by decide) (by decide)

end RoundTrip

end Normalize
end ETraceDiag
