import ETraceDiag.ConfigReload

/-!
# What an overlay leaves of its base

`MergeConfig` lays the contents of the file over a configuration and promises the base's value
wherever the overlay does not supply one. It reads the merged JSON into a fresh `Config`, so a
key that is no longer in it gets its initialiser.
-/

namespace ETraceDiag
namespace ConfigSources

open JsonGet JsonPatch

section Overlay

variable {F : Type}

/-- The value that the overlay has for a key; null is none. -/
def supplied? (overlay : JsonValue F) (k : Key) : Option (JsonValue F) :=
  (at? k.path overlay).filter fun v => !isNull v

/-- The overlay reaches the key, or a section above it, with something that is no value. -/
def Blanks (overlay : JsonValue F) (k : Key) : Prop :=
  touches overlay k.path = true ∧ supplied? overlay k = none

variable [Double F]

/-- Every key has the value that the overlay supplies, and the base's where there is none. -/
structure Overlays (base : Config F) (overlay : JsonValue F) (out : Config F) : Prop where
  supplied : ∀ k v, supplied? overlay k = some v → k.kind.decode v = some (out k)
  kept : ∀ k, supplied? overlay k = none → out k = base k

omit [Double F] in
theorem supplied?_eq_none_iff {overlay : JsonValue F} {k : Key} :
    supplied? overlay k = none ↔ ∀ v ∈ at? k.path overlay, isNull v = true := by
  rw [supplied?,Option.filter_eq_none_iff]
  exact forall₂_congr fun v _ => by simp

theorem decode_fields {κ : Kind} {v : JsonValue F} (h : (κ.decode v).isSome = true)
    (j : JsonValue F) : mergePatch j v = v := by
  refine mergePatch_of_fields ?_ j
  rintro ps rfl
  cases κ <;> cases h

theorem decode_of_isNull {κ : Kind} {v : JsonValue F} (h : isNull v = true) :
    κ.decode v = none := by
  cases v with
  | null => cases κ <;> rfl
  | _ => cases h

/-- What the file gives a key is what it supplies. -/
theorem fileValue?_of_supplied {j v : JsonValue F} {k : Key} (hreadable : Readable j)
    (h : supplied? j k = some v) :
    touches j k.path = true ∧ ∃ x, k.kind.decode v = some x ∧ fileValue? j k = some x := by
  obtain ⟨hv,hnull⟩ := Option.filter_eq_some_iff.mp h
  rw [Bool.not_eq_true'] at hnull
  have htouch := touches_of_at? k.path hv
  obtain ⟨j',hj'⟩ := at?_mergePatch_of_value k.path (j:=.null) hv hnull
  have hsome := hreadable k htouch _ hj'
  have hplain : mergePatch j' v = v := by
    cases v with
    | obj ps =>
      rw [mergePatch] at hsome
      cases hkind : k.kind <;> rw [hkind] at hsome <;> cases hsome
    | _ => exact mergePatch_of_fields (fun _ h => by cases h) j'
  rw [hplain] at hj' hsome
  obtain ⟨x,hx⟩ := Option.isSome_iff_exists.mp hsome
  exact ⟨htouch,x,hx,by rw [fileValue?,hj',Option.bind_some,hx]⟩

theorem fileValue?_of_blanks {j : JsonValue F} {k : Key} (h : Blanks j k) :
    fileValue? j k = none := by
  have hnull := at?_mergePatch_of_no_value k.path (j:=.null) h.1 (supplied?_eq_none_iff.mp h.2)
  rw [fileValue?]
  cases hv : at? k.path (mergePatch .null j) with
  | none => rfl
  | some v => exact decode_of_isNull (hnull v hv)

/-- An overlay that is accepted gives every key what it supplies; a key that it blanks out has
its initialiser. -/
theorem merged_overlays_iff {base : Config F} {overlay : JsonValue F} (h : Readable overlay) :
    Overlays base overlay (merged base overlay) ↔
      ∀ k, Blanks overlay k → base k = initialised k := by
  have hblank : ∀ {k}, Blanks overlay k → merged base overlay k = initialised k := by
    intro k hk
    rw [merged,if_pos hk.1,fileValue?_of_blanks hk,Option.getD_none]
  constructor
  · exact fun hover k hk => (hover.kept k hk.2).symm.trans (hblank hk)
  · intro hinit
    refine ⟨fun k v hv => ?_,fun k hk => ?_⟩
    · obtain ⟨htouch,x,hx,hfile⟩ := fileValue?_of_supplied h hv
      rw [hx,merged,if_pos htouch,hfile,Option.getD_some]
    · cases htouch : touches overlay k.path with
      | true => exact (hblank ⟨htouch,hk⟩).trans (hinit k ⟨htouch,hk⟩).symm
      | false => rw [merged,if_neg (by simp [htouch])]

theorem mergeConfig_eq_some_iff {base out : Config F} {overlay : JsonValue F} :
    mergeConfig base overlay = some out ↔ Readable overlay ∧ out = merged base overlay := by
  by_cases h : Readable overlay
  · rw [(mergeConfig_eq base overlay).1 h,Option.some_inj]
    exact ⟨fun heq => ⟨h,heq.symm⟩,fun heq => heq.2.symm⟩
  · rw [(mergeConfig_eq base overlay).2 h]
    exact iff_of_false (fun heq => by cases heq) fun heq => h heq.1

/-! ## The empty overlay and a whole configuration -/

theorem mergeConfig_empty (base : Config F) : mergeConfig base (.obj []) = some base := by
  have htouch : ∀ k : Key, touches (.obj [] : JsonValue F) k.path = false := by
    intro k
    cases k <;> rfl
  refine mergeConfig_eq_some_iff.mpr ⟨fun k h => ?_,funext fun k => ?_⟩
  · rw [htouch] at h
    cases h
  · rw [merged,if_neg (by simp [htouch])]

omit [Double F] in
theorem supplied?_toJson (c : Config F) (k : Key) :
    supplied? (toJson c) k = some (Kind.encode (c k)) := by
  have hnull : isNull (Kind.encode (c k)) = false := by cases k <;> rfl
  rw [supplied?,at?_toJson,Option.filter_some,hnull]
  rfl

theorem mergeConfig_toJson (base c : Config F) : mergeConfig base (toJson c) = some c := by
  have hplain : ∀ k : Key, ∀ j : JsonValue F,
      mergePatch j (Kind.encode (c k)) = Kind.encode (c k) := by
    intro k j
    exact decode_fields (by rw [decode_encode]; rfl) j
  have hmerged : ∀ k : Key, at? k.path (mergePatch .null (toJson c)) =
      some (Kind.encode (c k)) := by
    intro k
    have hnull : isNull (Kind.encode (c k)) = false := by cases k <;> rfl
    obtain ⟨j',hj'⟩ := at?_mergePatch_of_value k.path (j:=.null) (at?_toJson c k) hnull
    rw [hj',hplain]
  have hreadable : Readable (toJson c) := by
    intro k _ v hv
    rw [hmerged k] at hv
    rw [← Option.some.inj hv,decode_encode]
    rfl
  refine mergeConfig_eq_some_iff.mpr ⟨hreadable,funext fun k => ?_⟩
  obtain ⟨htouch,x,hx,hfile⟩ := fileValue?_of_supplied hreadable (supplied?_toJson c k)
  rw [decode_encode] at hx
  rw [merged,if_pos htouch,hfile,Option.getD_some]
  exact Option.some.inj hx

/-- An accepted overlay gives what it supplies and keeps the rest of the base, exactly when the
base has its initialisers wherever the overlay has a blank. The empty overlay keeps everything,
and one that is a whole configuration gives that. -/
theorem mergeConfig_overlays_iff (base : Config F) :
    (∀ overlay out, mergeConfig base overlay = some out →
      (Overlays base overlay out ↔ ∀ k, Blanks overlay k → base k = initialised k)) ∧
      mergeConfig base (.obj []) = some base ∧
      ∀ c, mergeConfig base (toJson c) = some c := by
  refine ⟨fun overlay out h => ?_,mergeConfig_empty base,mergeConfig_toJson base⟩
  obtain ⟨hreadable,rfl⟩ := mergeConfig_eq_some_iff.mp h
  exact merged_overlays_iff hreadable

end Overlay

/-- A base that samples every half second, and a file that has null for the interval. -/
def slowBase : Config ℚ := Function.update initialised .fineIntervalMs (500 : UInt64)

def blankFile : JsonValue ℚ := .obj [("sample",.obj [("fine_interval_ms",.null)])]

/-- The interval of the base is gone. -/
theorem blankFile_not_overlays : ¬ ∀ (base : Config ℚ) (overlay : JsonValue ℚ) (out : Config ℚ),
    mergeConfig base overlay = some out → Overlays base overlay out := by
  intro h
  have hinterval : (mergeConfig slowBase blankFile).map (fun c => c .fineIntervalMs) =
      some (100 : UInt64) := by decide +kernel
  obtain ⟨out,hout,hvalue⟩ := Option.map_eq_some_iff.mp hinterval
  have hkept := (h slowBase blankFile out hout).kept .fineIntervalMs rfl
  rw [hvalue] at hkept
  exact absurd hkept (by decide)

end ConfigSources
end ETraceDiag
