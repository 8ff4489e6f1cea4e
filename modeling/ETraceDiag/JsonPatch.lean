import ETraceDiag.JsonValue

/-!
# Merging one JSON value into another

A patch that is an object changes what it mentions: null takes a field away, an object is
merged, and every other value takes the place of the old one. A field deep inside keeps what it
was exactly when the patch does not touch the path to it.
-/

namespace JsonPatch

open JsonValue

variable {F : Type}

/-- The fields of an object, none otherwise. -/
def fields : JsonValue F → List (String × JsonValue F)
  | .obj fs => fs
  | _ => []

def isNull : JsonValue F → Bool
  | .null => true
  | _ => false

def eraseKey (key : String) (fs : List (String × JsonValue F)) : List (String × JsonValue F) :=
  fs.filter fun f => f.1 != key

def setKey (key : String) (j : JsonValue F) (fs : List (String × JsonValue F)) :
    List (String × JsonValue F) := (key,j)::eraseKey key fs

mutual

/-- `merge_patch`. An object has no key twice, so the fields may be taken in any order. -/
def mergePatch : JsonValue F → JsonValue F → JsonValue F
  | j,.obj ps => .obj (mergeFields (fields j) ps)
  | _,.null => .null
  | _,.bool b => .bool b
  | _,.int i => .int i
  | _,.float x => .float x
  | _,.str s => .str s
  | _,.arr xs => .arr xs

def mergeFields : List (String × JsonValue F) → List (String × JsonValue F) →
    List (String × JsonValue F)
  | fs,[] => fs
  | fs,(key,p)::ps =>
    if isNull p then eraseKey key (mergeFields fs ps)
    else setKey key (mergePatch ((fs.lookup key).getD .null) p) (mergeFields fs ps)

end

/-- The value at the end of a path of keys. -/
def at? : List String → JsonValue F → Option (JsonValue F)
  | [],j => some j
  | key::path,j => (j.get? key).bind (at? path)

/-- The patch reaches what is at the end of the path: it has a value there, or one on the way
that is no object. -/
def touches : JsonValue F → List String → Bool
  | _,[] => true
  | .obj ps,key::path =>
    match ps.lookup key with
    | none => false
    | some p => touches p path
  | _,_::_ => true

/-! ## Fields -/

theorem lookup_eraseKey (key k : String) (fs : List (String × JsonValue F)) :
    (eraseKey key fs).lookup k = if k = key then none else fs.lookup k := by
  induction fs with
  | nil => simp [eraseKey]
  | cons f fs ih =>
    obtain ⟨k',j⟩ := f
    rw [eraseKey] at ih ⊢
    by_cases hk' : k' = key
    · subst hk'
      rw [List.filter_cons_of_neg (by simp),ih]
      by_cases hk : k = k'
      · rw [if_pos hk,if_pos hk]
      · rw [if_neg hk,if_neg hk,List.lookup_cons,beq_false_of_ne hk]
    · rw [List.filter_cons_of_pos (by simpa using hk'),List.lookup_cons,List.lookup_cons,ih]
      cases hkk : k == k' with
      | true => rw [eq_of_beq hkk,if_neg hk',if_neg hk']
      | false => rfl

theorem lookup_setKey (key k : String) (j : JsonValue F) (fs : List (String × JsonValue F)) :
    (setKey key j fs).lookup k = if k = key then some j else fs.lookup k := by
  rw [setKey,List.lookup_cons]
  by_cases hk : k = key
  · rw [if_pos hk,beq_iff_eq.mpr hk]
  · rw [if_neg hk,beq_false_of_ne hk,lookup_eraseKey,if_neg hk]

theorem get?_eq_lookup (key : String) (j : JsonValue F) : j.get? key = (fields j).lookup key := by
  cases j <;> rfl

/-- One field of a merged object. -/
theorem lookup_mergeFields (key : String) (fs ps : List (String × JsonValue F)) :
    (mergeFields fs ps).lookup key =
      match ps.lookup key with
      | none => fs.lookup key
      | some p => if isNull p then none else some (mergePatch ((fs.lookup key).getD .null) p) := by
  induction ps with
  | nil => rw [mergeFields]; rfl
  | cons p ps ih =>
    obtain ⟨k,p⟩ := p
    rw [mergeFields,List.lookup_cons]
    by_cases hk : key = k
    · subst hk
      rw [beq_self_eq_true]
      dsimp only
      cases hp : isNull p with
      | true => rw [if_pos rfl,lookup_eraseKey,if_pos rfl,if_pos rfl]
      | false => rw [if_neg (by decide),lookup_setKey,if_pos rfl,if_neg (by decide)]
    · rw [beq_false_of_ne hk]
      dsimp only
      rw [← ih]
      cases hp : isNull p with
      | true => rw [if_pos rfl,lookup_eraseKey,if_neg hk]
      | false => rw [if_neg (by decide),lookup_setKey,if_neg hk]

/-- A patch that is no object replaces everything. -/
theorem mergePatch_of_fields {p : JsonValue F} (h : ∀ ps, p ≠ .obj ps) (j : JsonValue F) :
    mergePatch j p = p := by
  cases p with
  | obj ps => exact absurd rfl (h ps)
  | _ => rw [mergePatch]

/-! ## Paths -/

/-- What a patch does not touch stays. -/
theorem at?_mergePatch_of_not_touches (path : List String) : ∀ {j p : JsonValue F},
    touches p path = false → at? path (mergePatch j p) = at? path j := by
  induction path with
  | nil => intro j p h; cases p <;> cases h
  | cons key path ih =>
    intro j p h
    cases p with
    | obj ps =>
      rw [touches] at h
      rw [mergePatch,at?,at?,get?,lookup_mergeFields,get?_eq_lookup]
      cases hp : ps.lookup key with
      | none => rfl
      | some p =>
        rw [hp] at h
        dsimp only at h ⊢
        have hnull : isNull p = false := by
          cases p with
          | null => cases path <;> cases h
          | _ => rfl
        rw [hnull,if_neg (by decide),Option.bind_some,ih h]
        cases hj : (fields j).lookup key with
        | none =>
          cases path with
          | nil => cases p <;> cases h
          | cons k path => rfl
        | some j => rfl
    | _ => cases h

/-- No value that is an object is at the end of the path. -/
def Bare (path : List String) (j : JsonValue F) : Prop := ∀ v ∈ at? path j, fields v = []

theorem bare_null (path : List String) : Bare path (.null : JsonValue F) := by
  intro v hv
  cases path with
  | nil =>
    cases hv
    rfl
  | cons key path => cases hv

theorem Bare.lookup {key : String} {path : List String} {j : JsonValue F}
    (h : Bare (key::path) j) : Bare path (((fields j).lookup key).getD .null) := by
  rw [Bare,at?,get?_eq_lookup] at h
  cases hl : (fields j).lookup key with
  | none => exact bare_null path
  | some v =>
    rw [hl] at h
    exact h

/-- What a patch touches depends on the patch alone. -/
theorem at?_mergePatch_of_touches (path : List String) : ∀ {j j' p : JsonValue F},
    touches p path = true → Bare path j → Bare path j' →
    at? path (mergePatch j p) = at? path (mergePatch j' p) := by
  induction path with
  | nil =>
    intro j j' p _ hj hj'
    have hfields : fields j = fields j' := (hj j rfl).trans (hj' j' rfl).symm
    cases p with
    | obj ps => rw [mergePatch,mergePatch,hfields]
    | _ => rw [mergePatch_of_fields (fun _ h => by cases h),mergePatch_of_fields fun _ h => by cases h]
  | cons key path ih =>
    intro j j' p h hj hj'
    cases p with
    | obj ps =>
      rw [touches] at h
      rw [mergePatch,mergePatch,at?,at?,get?,get?,lookup_mergeFields,lookup_mergeFields]
      cases hp : ps.lookup key with
      | none =>
        rw [hp] at h
        cases h
      | some p =>
        rw [hp] at h
        dsimp only at h ⊢
        cases hnull : isNull p with
        | true => rfl
        | false =>
          rw [if_neg (by decide),if_neg (by decide),Option.bind_some,Option.bind_some]
          exact ih h hj.lookup hj'.lookup
    | _ => rw [mergePatch_of_fields (fun _ h => by cases h),mergePatch_of_fields fun _ h => by cases h]

/-- A patch touches what it has. -/
theorem touches_of_at? (path : List String) : ∀ {p v : JsonValue F}, at? path p = some v →
    touches p path = true := by
  induction path with
  | nil => intro p v _; cases p <;> rfl
  | cons key path ih =>
    intro p v h
    cases p with
    | obj ps =>
      rw [at?,get?] at h
      rw [touches]
      cases hp : ps.lookup key with
      | none =>
        rw [hp] at h
        cases h
      | some p =>
        rw [hp] at h
        exact ih h
    | _ => cases h

/-- A value that a patch has takes part in the result. -/
theorem at?_mergePatch_of_value (path : List String) : ∀ {j p v : JsonValue F},
    at? path p = some v → isNull v = false → ∃ j', at? path (mergePatch j p) =
      some (mergePatch j' v) := by
  induction path with
  | nil =>
    intro j p v h _
    obtain rfl := Option.some.inj h
    exact ⟨j,rfl⟩
  | cons key path ih =>
    intro j p v h hv
    cases p with
    | obj ps =>
      rw [at?,get?] at h
      rw [mergePatch,at?,get?,lookup_mergeFields]
      cases hp : ps.lookup key with
      | none =>
        rw [hp] at h
        cases h
      | some p =>
        rw [hp,Option.bind_some] at h
        have hnull : isNull p = false := by
          cases p with
          | null =>
            cases path with
            | nil => rwa [← Option.some.inj h] at hv
            | cons k path => cases h
          | _ => rfl
        dsimp only
        rw [hnull,if_neg (by decide),Option.bind_some]
        exact ih h hv
    | _ => cases h

/-- Where a patch reaches something without a value, the result has none either. -/
theorem at?_mergePatch_of_no_value (path : List String) : ∀ {j p : JsonValue F},
    touches p path = true → (∀ v ∈ at? path p, isNull v = true) →
      ∀ v ∈ at? path (mergePatch j p), isNull v = true := by
  induction path with
  | nil =>
    intro j p _ h
    have hp : isNull p = true := h p rfl
    cases p with
    | null => exact h
    | _ => cases hp
  | cons key path ih =>
    intro j p htouch h
    cases p with
    | obj ps =>
      rw [touches] at htouch
      rw [at?,get?] at h
      rw [mergePatch,at?,get?,lookup_mergeFields]
      cases hp : ps.lookup key with
      | none =>
        rw [hp] at htouch
        cases htouch
      | some p =>
        rw [hp] at htouch h
        dsimp only at htouch ⊢
        cases hnull : isNull p with
        | true =>
          intro v hv
          cases hv
        | false =>
          rw [if_neg (by decide),Option.bind_some]
          exact ih htouch h
    | _ =>
      intro v hv
      cases hv

end JsonPatch
