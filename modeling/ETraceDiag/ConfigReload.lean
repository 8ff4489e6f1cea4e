import ETraceDiag.ConfigSources

/-!
# Starting again and reloading

A start gives every key the value of the first source that has one. A reload starts from the
configuration of the first start, so a key that neither the environment nor the file mentions
keeps what it was then, and one that the command line has set can be overruled.
-/

namespace ETraceDiag
namespace ConfigSources

open JsonGet JsonPatch

section Reload

variable {F : Type}

/-! ## One key of the file -/

theorem fields_encode {κ : Kind} (x : κ.Val F) : fields (Kind.encode x) = [] := by
  cases κ <;> rfl

theorem at?_toJson (c : Config F) (k : Key) : at? k.path (toJson c) = some (Kind.encode (c k)) := by
  cases k <;> rfl

theorem bare_toJson (c : Config F) (k : Key) : Bare k.path (toJson c) := by
  intro v hv
  rw [at?_toJson] at hv
  obtain rfl := Option.some.inj hv
  exact fields_encode _

variable [Double F]

theorem decode_encode {κ : Kind} (x : κ.Val F) : κ.decode (Kind.encode x) = some x := by
  cases κ with
  | u64 => exact getUInt64_int (F:=F) x
  | u32 => exact getUInt32_int (F:=F) x
  | bool => rfl
  | double => rfl
  | str => rfl
  | u32s => exact getList_map getUInt32_int x
  | strs =>
    have hput : ∀ t, getString (.str t : JsonValue F) = some t := fun _ => rfl
    exact getList_map hput x

/-- The value that the file gives a key, whatever it is merged into. -/
def fileValue? (j : JsonValue F) (k : Key) : Option (k.kind.Val F) :=
  (at? k.path (mergePatch .null j)).bind k.kind.decode

/-- The file has something for the key that does not convert. -/
def bad (j : JsonValue F) (k : Key) : Bool :=
  match at? k.path j with
  | none => false
  | some v => (k.kind.decode v).isNone

theorem readKey_snd (j : JsonValue F) (k : Key) (c : Config F) :
    (readKey j k c).2 = !bad j k := by
  unfold readKey bad
  cases at? k.path j with
  | none => rfl
  | some v => cases hv : k.kind.decode v <;> simp [hv]

theorem readKey_fst (j : JsonValue F) (k : Key) (c : Config F) : (readKey j k c).1 =
    Function.update c k (((at? k.path j).bind k.kind.decode).getD (c k)) := by
  unfold readKey
  cases at? k.path j with
  | none => exact (Function.update_eq_self k c).symm
  | some v =>
    dsimp only
    rw [Option.bind_some]
    cases k.kind.decode v with
    | none => exact (Function.update_eq_self k c).symm
    | some x => rfl

theorem mem_all (k : Key) : k ∈ Key.all := by cases k <;> decide

theorem nodup_all : Key.all.Nodup := by decide +kernel

/-- `from_json` takes key by key what is there. -/
theorem fromJson_apply {j : JsonValue F} (h : ∀ k, bad j k = false) (c : Config F) (k : Key) :
    (fromJson j c).1 k = ((at? k.path j).bind k.kind.decode).getD (c k) := by
  have hpart := assignAll_part (readKey_snd j) (fun c => c k) k
    (fun x => ((at? k.path j).bind k.kind.decode).getD x)
    (fun c => by rw [readKey_fst,Function.update_self])
    (fun hbad => absurd (h k) (by simp [hbad]))
    (fun i c hi => by rw [readKey_fst,Function.update_of_ne hi.symm]) Key.all nodup_all c
  have hall : Key.all.takeWhile (fun k => !bad j k) = Key.all :=
    List.takeWhile_eq_self_iff.mpr fun i _ => by simp [h i]
  rw [hall,if_pos (mem_all k)] at hpart
  exact hpart

theorem fromJson_snd (j : JsonValue F) (c : Config F) :
    (fromJson j c).2 = true ↔ ∀ k, bad j k = false := by
  rw [fromJson,assignAll_snd (readKey_snd j),Bool.not_eq_true',List.any_eq_false]
  exact forall_congr' fun k => by simp [mem_all k]

/-! ## Merging -/

omit [Double F] in
theorem at?_merged (c : Config F) (j : JsonValue F) (k : Key) :
    at? k.path (mergePatch (toJson c) j) =
      if touches j k.path then at? k.path (mergePatch .null j) else some (Kind.encode (c k)) := by
  cases htouch : touches j k.path with
  | true =>
    rw [if_pos rfl]
    exact at?_mergePatch_of_touches k.path htouch (bare_toJson c k) (bare_null k.path)
  | false => rw [at?_mergePatch_of_not_touches k.path htouch,at?_toJson,if_neg (by decide)]

/-- What a key is after the file has been merged. -/
def merged (base : Config F) (j : JsonValue F) : Config F := fun k =>
  if touches j k.path then (fileValue? j k).getD (initialised k) else base k

/-- Every value in the file that belongs to a key converts. -/
def Readable (j : JsonValue F) : Prop :=
  ∀ k : Key, touches j k.path = true → ∀ v ∈ at? k.path (mergePatch .null j),
    (k.kind.decode v).isSome = true

theorem bad_merged (c : Config F) (j : JsonValue F) (k : Key) :
    bad (mergePatch (toJson c) j) k = false ↔ (touches j k.path = true →
      ∀ v ∈ at? k.path (mergePatch .null j), (k.kind.decode v).isSome = true) := by
  rw [bad,at?_merged]
  cases htouch : touches j k.path with
  | true =>
    rw [if_pos rfl]
    cases at? k.path (mergePatch .null j) with
    | none => simp
    | some v => simp
  | false => simp [decode_encode]

/-- Merging a file fails for every configuration or for none. -/
theorem mergeConfig_eq (base : Config F) (j : JsonValue F) :
    (Readable j → mergeConfig base j = some (merged base j)) ∧
      (¬ Readable j → mergeConfig base j = none) := by
  have hiff : (fromJson (mergePatch (toJson base) j) initialised).2 = true ↔ Readable j := by
    rw [fromJson_snd]
    exact forall_congr' fun k => bad_merged base j k
  constructor
  · intro hreadable
    have hok := hiff.mpr hreadable
    rw [mergeConfig,if_pos hok]
    refine congrArg some (funext fun k => ?_)
    rw [fromJson_apply ((fromJson_snd _ _).mp hok),at?_merged,merged,fileValue?]
    split
    · rfl
    · rw [Option.bind_some,decode_encode,Option.getD_some]
  · intro hreadable
    rw [mergeConfig,if_neg (mt hiff.mp hreadable)]

/-! ## Sanitizing -/

/-- The ranges depend on two keys only. -/
theorem sanitizeKey_congr {c c' : Config F} (htargets : maxTargets c = maxTargets c')
    (hrank : enterRank c = enterRank c') (k : Key) : sanitizeKey c k = sanitizeKey c' k := by
  cases k with
  | minTargets =>
    show clamp (1 : UInt32) (maxTargets c) = clamp 1 (maxTargets c')
    rw [htargets]
  | leaveRank =>
    show clamp (enterRank c) (4096 : UInt32) = clamp (enterRank c') 4096
    rw [hrank]
  | _ => rfl

theorem sanitize_eq_iff {c c' : Config F} :
    sanitize c = sanitize c' ↔ ∀ k, sanitizeKey c' k (c k) = sanitizeKey c' k (c' k) := by
  constructor
  · intro h k
    have htargets : maxTargets c = maxTargets c' := congrFun h .maxTargets
    have hrank : enterRank c = enterRank c' := congrFun h .enterRank
    rw [← sanitizeKey_congr htargets hrank k]
    exact (congrFun h k).trans (by rw [sanitize,sanitizeKey_congr htargets hrank k])
  · intro h
    have htargets : maxTargets c = maxTargets c' := h .maxTargets
    have hrank : enterRank c = enterRank c' := h .enterRank
    funext k
    rw [sanitize,sanitizeKey_congr htargets hrank k,h k,sanitize]

/-! ## What the sources give -/

variable (cl : CommandLine) (env : Environment) (file : File F)

/-- The JSON that is merged, if any. -/
def patch? : Option (JsonValue F) :=
  if cl.config then file.json? else none

/-- There is no file to read, or it can be read. -/
def Usable : Prop := cl.config = false ∨ ∃ j, file.json? = some j ∧ Readable j

/-- What the environment or the file make of a key. -/
def given? (k : Key) : Option (k.kind.Val F) :=
  (envValue? env k).or ((patch? cl file).bind fun j =>
    if touches j k.path then some ((fileValue? j k).getD (initialised k)) else none)

/-- What a start sanitizes. -/
def fresh : Config F := fun k => (cl.value? k).getD ((given? cl env file k).getD (defaultConfig k))

/-- The value of the first source that sets the key. -/
def highest : Config F := fun k =>
  ((cl.value? k).or ((envValue? env k).or ((patch? cl file).bind fun j => fileValue? j k))).getD
    (defaultConfig k)

variable {cl env file}

theorem merged_eq {base : Config F} {j : JsonValue F} (h : patch? cl file = some j) (k : Key) :
    (applyEnvOverrides (F:=F) env (merged base j)) k =
      (given? cl env file k).getD (base k) := by
  rw [applyEnvOverrides,given?,h,merged]
  cases envValue? (F:=F) env k with
  | some x => rfl
  | none =>
    rw [Option.none_or,Option.bind_some]
    split <;> rfl

theorem unmerged_eq {base : Config F} (h : patch? cl file = none) (k : Key) :
    (applyEnvOverrides (F:=F) env base) k = (given? cl env file k).getD (base k) := by
  rw [applyEnvOverrides,given?,h]
  cases envValue? (F:=F) env k <;> rfl

/-- A start fails or sanitizes what the sources give. -/
theorem start_eq_some {c : Config F} (h : start cl env file = some c) :
    Usable cl file ∧ c = sanitize (fresh cl env file) := by
  rw [start] at h
  cases hconfig : cl.config with
  | false =>
    have hpatch : patch? cl file = none := by rw [patch?,hconfig,if_neg (by decide)]
    rw [hconfig,if_neg (by decide),Option.map_some] at h
    refine ⟨Or.inl hconfig,(Option.some.inj h).symm.trans (congrArg sanitize (funext fun k => ?_))⟩
    rw [CommandLine.apply,unmerged_eq hpatch,fresh]
  | true =>
    rw [hconfig,if_pos rfl] at h
    cases hj : file.json? with
    | none => rw [hj] at h; cases h
    | some j =>
      have hpatch : patch? cl file = some j := by rw [patch?,hconfig,if_pos rfl,hj]
      rw [hj,Option.bind_some] at h
      by_cases hreadable : Readable j
      · rw [(mergeConfig_eq defaultConfig j).1 hreadable,Option.map_some] at h
        refine ⟨Or.inr ⟨j,hj,hreadable⟩,
          (Option.some.inj h).symm.trans (congrArg sanitize (funext fun k => ?_))⟩
        rw [CommandLine.apply,merged_eq hpatch,fresh]
      · rw [(mergeConfig_eq defaultConfig j).2 hreadable] at h
        cases h

theorem reload_eq (h : Usable cl file) (base : Config F) : reload cl env base file =
    sanitize fun k => (given? cl env file k).getD (base k) := by
  rw [reload]
  cases hconfig : cl.config with
  | false =>
    have hpatch : patch? cl file = none := by rw [patch?,hconfig,if_neg (by decide)]
    rw [if_neg (by decide)]
    exact congrArg sanitize (funext fun k => unmerged_eq hpatch k)
  | true =>
    obtain ⟨j,hj,hreadable⟩ := h.resolve_left (by simp [hconfig])
    have hpatch : patch? cl file = some j := by rw [patch?,hconfig,if_pos rfl,hj]
    rw [if_pos rfl,hj,Option.bind_some,(mergeConfig_eq base j).1 hreadable,Option.getD_some]
    exact congrArg sanitize (funext fun k => merged_eq hpatch k)

/-! ## Precedence -/

theorem fileValue?_of_not_touches {j : JsonValue F} {k : Key} (h : touches j k.path = false) :
    fileValue? j k = none := by
  have hnull : at? k.path (.null : JsonValue F) = none := by cases k <;> rfl
  rw [fileValue?,at?_mergePatch_of_not_touches k.path h,hnull,Option.bind_none]

theorem sanitizeKey_initialised (c : Config F) (k : Key) :
    sanitizeKey c k (initialised k) = sanitizeKey c k (defaultConfig k) := by
  by_cases hk : k = .outputDir
  · subst hk
    rfl
  · rw [defaultConfig,Function.update_of_ne hk]

/-- What a start sanitizes comes out as the values of the first sources. -/
theorem sanitize_fresh : sanitize (fresh cl env file) = sanitize (highest cl env file) := by
  refine sanitize_eq_iff.mpr fun k => ?_
  rw [fresh,highest,given?]
  cases (cl.value? k : Option (k.kind.Val F)) with
  | some d => rfl
  | none =>
    rw [Option.none_or,Option.getD_none]
    cases (envValue? env k : Option (k.kind.Val F)) with
    | some x => rfl
    | none =>
      rw [Option.none_or,Option.none_or]
      cases patch? cl file with
      | none => rfl
      | some j =>
        rw [Option.bind_some,Option.bind_some]
        cases htouch : touches j k.path with
        | false => rw [fileValue?_of_not_touches htouch,if_neg (by decide)]
        | true =>
          rw [if_pos rfl,Option.getD_some]
          cases fileValue? j k with
          | some x => rfl
          | none => exact sanitizeKey_initialised _ k

variable (cl env file)

/-- At the start every key has the value of the first source that sets it, in its range; after
each reload the configuration is the one of a start with the new file. -/
structure Faithful (files : List (File F)) : Prop where
  startUp : ∀ c, start cl env file = some c → c = sanitize (highest cl env file)
  reloaded : ∀ initial, start cl env file = some initial →
    ∀ before new after, files = before++new::after → ∀ c, start cl env new = some c →
      reloads cl env initial (before++[new]) = c

/-- What neither the environment nor the new file gives was the same before as it is by default;
what they give agrees with the command line. Ranges apart. -/
structure Carries (initial : Config F) (new : File F) : Prop where
  commandLine : ∀ k d x, cl.value? k = some d → given? cl env new k = some x →
    sanitizeKey (fresh cl env new) k x = sanitizeKey (fresh cl env new) k d
  inherited : ∀ k, (cl.value? k : Option (k.kind.Val F)) = none → given? cl env new k = none →
    sanitizeKey (fresh cl env new) k (initial k) =
      sanitizeKey (fresh cl env new) k (defaultConfig k)

variable {cl env file}

/-- The command line sets a directory only, and it is still there after the start. -/
theorem sanitizeKey_of_value? {initial : Config F} (h : start cl env file = some initial)
    {k : Key} {d : k.kind.Val F} (hd : cl.value? k = some d) (c : Config F) :
    sanitizeKey c k (initial k) = sanitizeKey c k d := by
  have hinitial : initial k = sanitizeKey (fresh cl env file) k d := by
    rw [(start_eq_some h).2,sanitize,fresh,hd,Option.getD_some]
  rw [hinitial]
  cases k with
  | outputDir =>
    have hout : ("out" : String) ≠ "" := by decide
    dsimp only [sanitizeKey]
    by_cases hempty : d = ""
    · rw [if_pos hempty,if_neg hout]
    · rw [if_neg hempty,if_neg hempty]
  | _ => cases hd

theorem reload_eq_start_iff {initial : Config F} (h : start cl env file = some initial)
    {new : File F} {c : Config F} (hc : start cl env new = some c) :
    reload cl env initial new = c ↔ Carries cl env initial new := by
  obtain ⟨husable,rfl⟩ := start_eq_some hc
  rw [reload_eq husable,sanitize_eq_iff]
  have hkey : ∀ k, sanitizeKey (fresh cl env new) k ((given? cl env new k).getD (initial k)) =
      sanitizeKey (fresh cl env new) k (fresh cl env new k) ↔
      (∀ d x, cl.value? k = some d → given? cl env new k = some x →
        sanitizeKey (fresh cl env new) k x = sanitizeKey (fresh cl env new) k d) ∧
      ((cl.value? k : Option (k.kind.Val F)) = none → given? cl env new k = none →
        sanitizeKey (fresh cl env new) k (initial k) =
          sanitizeKey (fresh cl env new) k (defaultConfig k)) := by
    intro k
    have hfresh : fresh cl env new k =
        (cl.value? k).getD ((given? cl env new k).getD (defaultConfig k)) := rfl
    rw [hfresh]
    cases hd : (cl.value? k : Option (k.kind.Val F)) with
    | some d =>
      cases hx : given? cl env new k with
      | some x => simp
      | none => simp [sanitizeKey_of_value? h hd]
    | none => cases hx : given? cl env new k <;> simp
  constructor
  · intro hall
    exact ⟨fun k d x hd hx => ((hkey k).mp (hall k)).1 d x hd hx,
      fun k hd hx => ((hkey k).mp (hall k)).2 hd hx⟩
  · intro hcarries k
    exact (hkey k).mpr ⟨fun d x hd hx => hcarries.commandLine k d x hd hx,hcarries.inherited k⟩

theorem reloads_concat (initial : Config F) (before : List (File F)) (new : File F) :
    reloads cl env initial (before++[new]) = reload cl env initial new := by
  rw [reloads,List.foldl_append]
  rfl

/-- Starting and reloading agree with the precedence exactly when every new file carries what
the first start has put together. -/
theorem reload_faithful_iff (files : List (File F)) : Faithful cl env file files ↔
    ∀ initial, start cl env file = some initial → ∀ new ∈ files,
      ∀ c, start cl env new = some c → Carries cl env initial new := by
  constructor
  · intro h initial hinitial new hnew c hc
    obtain ⟨before,after,hfiles⟩ := List.append_of_mem hnew
    have hreload := h.reloaded initial hinitial before new after hfiles c hc
    rw [reloads_concat] at hreload
    exact (reload_eq_start_iff hinitial hc).mp hreload
  · intro h
    refine ⟨fun c hc => ?_,fun initial hinitial before new after hfiles c hc => ?_⟩
    · rw [(start_eq_some hc).2,sanitize_fresh]
    · rw [reloads_concat]
      have hnew : new ∈ files := by
        rw [hfiles]
        exact List.mem_append_right _ (List.mem_cons_self ..)
      exact (reload_eq_start_iff hinitial hc).mpr (h initial hinitial new hnew c hc)

end Reload

/-- Doubles with exact decimals; there is no text to read here. -/
instance : Double ℚ where
  ofInt i := mkRat i 1
  toUInt64 q := UInt64.ofInt q.floor
  toUInt32 q := UInt32.ofInt q.floor
  decLt := inferInstance
  lit n d := mkRat n (10^d)
  strtod _ := none

/-- A file that asks for another directory than the command line. -/
def logsFile : File ℚ := .json (.obj [("output",.obj [("dir",.str "logs")])])

/-- The directory of the command line is gone after a reload of the same file. -/
theorem outputDir_not_faithful :
    ¬ Faithful ⟨true,"/data"⟩ (fun _ => none) logsFile [logsFile] := by
  intro h
  have hstart : (start ⟨true,"/data"⟩ (fun _ => none) logsFile).map (fun c => c .outputDir) =
      some ("/data" : String) := by decide +kernel
  obtain ⟨c,hc,hdata⟩ := Option.map_eq_some_iff.mp hstart
  have hreload := congrFun (h.reloaded c hc [] logsFile [] rfl c hc) Key.outputDir
  rw [hdata] at hreload
  have hlogs : (start ⟨true,"/data"⟩ (fun _ => none) logsFile).map
      (fun c => reloads ⟨true,"/data"⟩ (fun _ => none) c [logsFile] .outputDir) =
      some ("logs" : String) := by decide +kernel
  rw [hc,Option.map_some] at hlogs
  have hsame : ("logs" : String) = "/data" := (Option.some.inj hlogs).symm.trans hreload
  exact absurd hsame (by decide)

end ConfigSources
end ETraceDiag
