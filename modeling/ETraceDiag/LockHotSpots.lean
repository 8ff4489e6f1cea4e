import ETraceDiag.DeepDump

/-!
# Lock hot spots of an episode

`lock_hot` is never wiped. `SaveLockHotBaseline` remembers the counts when an episode starts,
and the dump at its end subtracts them. The result says when the rows of `deep_lock` are the
waits of the episode.
-/

namespace ETraceDiag
namespace LockHotSpots

open CursorMap SqlTable EvidenceStore DeepMaps DeepDump

/-- The entries of `lock_hot`: the address of a lock, its `count` and its `lat_sum`. -/
abbrev LockHot := List (UInt64 × UInt64 × UInt64)

/-- `lock_hot_base_` after `SaveLockHotBaseline`. -/
def saveLockHotBaseline (lockHot : LockHot) : UInt64 → Option UInt64 :=
  lockHot.foldl (fun (base : UInt64 → Option UInt64) e =>
    Function.update base e.1 (some e.2.1)) fun _ => none

/-- The counters of a lock, zeros when it has no entry. -/
def counters (lockHot : LockHot) (addr : UInt64) : UInt64 × UInt64 :=
  (lookup lockHot addr).getD (0,0)

/-- What `lock_hot` holds when the baseline is saved and when it is dumped. -/
structure Episode where
  start : LockHot
  finish : LockHot
  nodup_start : (keys start).Nodup
  nodup_finish : (keys finish).Nodup
  grows : ∀ addr, (counters start addr).1 ≤ (counters finish addr).1 ∧
    (counters start addr).2 ≤ (counters finish addr).2

def Episode.count (ep : Episode) (addr : UInt64) : UInt64 :=
  (counters ep.finish addr).1-(counters ep.start addr).1

def Episode.latSum (ep : Episode) (addr : UInt64) : UInt64 :=
  (counters ep.finish addr).2-(counters ep.start addr).2

def Episode.env (ep : Episode) (env : Env) : Env :=
  { env with lockHot := ep.finish, lockHotBase := saveLockHotBaseline ep.start }

variable {F : Type} {ncpus : ℕ}

/-- A row of `deep_lock` has the waits of the episode and their average. -/
structure Episode.RowOk [Double F] (ep : Episode) (addr : UInt64) (row : Row F) : Prop where
  count : (key "count" row).toUInt64 = ep.count addr
  total : (key "total_wait_ns" row).toUInt64 = ep.latSum addr
  avg : (key "avg_wait_ns" row).toUInt64 = ep.latSum addr/ep.count addr

def Episode.Deltas [DumpFloat F] (ep : Episode) (env : Env) (n : Int32)
    (ms : EpisodeMaps ncpus) : Prop :=
  ∀ w ∈ (dumpDeepMaps (ep.env env) n ms : DeepTables F).deepLock, ep.RowOk w.1 w.2

/-! ## The baseline -/

theorem lookup_cons (e : UInt64 × UInt64 × UInt64) (es : LockHot) (addr : UInt64) :
    lookup (e::es) addr = if addr = e.1 then some e.2 else lookup es addr := by
  by_cases h : addr = e.1
  · simp [lookup,h]
  · simp [lookup,h,Ne.symm h]

theorem saveLockHotBaseline_eq {lockHot : LockHot} (h : (keys lockHot).Nodup) (addr : UInt64) :
    saveLockHotBaseline lockHot addr = (lookup lockHot addr).map Prod.fst := by
  have hfold : ∀ base : UInt64 → Option UInt64,
      lockHot.foldl (fun (base : UInt64 → Option UInt64) e =>
        Function.update base e.1 (some e.2.1)) base addr =
          ((lookup lockHot addr).map Prod.fst).or (base addr) := by
    induction lockHot with
    | nil => intro base; rfl
    | cons e es ih =>
      obtain ⟨hnew,hes⟩ := List.nodup_cons.mp h
      intro base
      rw [List.foldl_cons,ih hes,lookup_cons]
      split
      · next haddr =>
        have habsent : lookup es addr = none := by
          rw [lookup,Option.map_eq_none_iff,List.find?_eq_none]
          intro x hx hxa
          rw [haddr,decide_eq_true_eq] at hxa
          exact hnew (hxa ▸ List.mem_map_of_mem hx)
        rw [habsent,haddr,Function.update_self]
        rfl
      · next haddr => rw [Function.update_of_ne haddr]
  rw [saveLockHotBaseline,hfold,Option.or_none]

theorem Episode.base_eq (ep : Episode) (addr : UInt64) :
    (saveLockHotBaseline ep.start addr).getD 0 = (counters ep.start addr).1 := by
  rw [saveLockHotBaseline_eq ep.nodup_start,counters]
  cases lookup ep.start addr <;> rfl

theorem Episode.counters_finish (ep : Episode) {e : UInt64 × UInt64 × UInt64}
    (he : e ∈ ep.finish) : counters ep.finish e.1 = e.2 := by
  rw [counters,lookup_of_mem ep.nodup_finish he]
  rfl

theorem Episode.mem_finish (ep : Episode) {addr : UInt64}
    (h : (counters ep.start addr).1 < (counters ep.finish addr).1) :
    (addr,counters ep.finish addr) ∈ ep.finish := by
  cases hlookup : lookup ep.finish addr with
  | none =>
    rw [counters.eq_1 ep.finish,hlookup] at h
    exact absurd h UInt64.not_lt_zero
  | some v =>
    obtain ⟨e,he,rfl⟩ := Option.map_eq_some_iff.mp hlookup
    have haddr : e.1 = addr := by simpa using List.find?_some he
    rw [counters,hlookup,← haddr]
    exact List.mem_of_find?_eq_some he

theorem Episode.count_ne_zero (ep : Episode) {addr : UInt64}
    (h : (counters ep.start addr).1 < (counters ep.finish addr).1) : ep.count addr ≠ 0 := by
  have hlt := UInt64.lt_iff_toNat_lt.mp h
  rw [← UInt64.toNat_inj.ne,Episode.count,UInt64.toNat_sub_of_le _ _ (UInt64.le_of_lt h),
    UInt64.toNat_zero]
  omega

/-! ## The rows -/

/-- The row of a lock: a count from the episode and a wait from the start. -/
def Episode.row (ep : Episode) (env : Env) (n : Int32) (addr : UInt64) : Row F :=
  lockRow n ⟨addr,ep.count addr,(counters ep.finish addr).2,some (env.kernelSym addr)⟩

/-- A lock gets a row when somebody has waited for it in the episode. -/
theorem Episode.mem_deepLock_iff [DumpFloat F] (ep : Episode) (env : Env) (n : Int32)
    (ms : EpisodeMaps ncpus) (w : UInt64 × Row F) :
    w ∈ (dumpDeepMaps (ep.env env) n ms : DeepTables F).deepLock ↔
      (counters ep.start w.1).1 < (counters ep.finish w.1).1 ∧ w.2 = ep.row env n w.1 := by
  have hdump : ∀ e ∈ ep.finish, dumpLock (ep.env env) n e =
      if (counters ep.start e.1).1 < (counters ep.finish e.1).1 then
        some (e.1,(ep.row env n e.1 : Row F))
      else none := by
    intro e he
    have hfinish := ep.counters_finish he
    have hbase := ep.base_eq e.1
    simp only [dumpLock,Episode.env,hbase,Episode.row,Episode.count,hfinish]
    split
    · next hlt =>
      rw [← hfinish] at hlt
      have hne := ep.count_ne_zero hlt
      rw [Episode.count,hfinish] at hne
      exact if_neg hne
    · rfl
  have hrows : (dumpDeepMaps (ep.env env) n ms : DeepTables F).deepLock =
      ep.finish.filterMap (dumpLock (ep.env env) n) := rfl
  rw [hrows,List.mem_filterMap]
  constructor
  · rintro ⟨e,he,hw⟩
    rw [hdump e he] at hw
    split at hw
    · next hlt =>
      obtain rfl := Option.some.inj hw
      exact ⟨hlt,rfl⟩
    · cases hw
  · rintro ⟨hlt,hrow⟩
    refine ⟨_,ep.mem_finish hlt,?_⟩
    rw [hdump _ (ep.mem_finish hlt),if_pos hlt,← hrow]

theorem Episode.latSum_eq_iff (ep : Episode) (addr : UInt64) :
    (counters ep.finish addr).2 = ep.latSum addr ↔ (counters ep.start addr).2 = 0 := by
  have hle := UInt64.le_iff_toNat_le.mp (ep.grows addr).2
  rw [← UInt64.toNat_inj,← UInt64.toNat_inj,Episode.latSum,
    UInt64.toNat_sub_of_le _ _ (ep.grows addr).2,UInt64.toNat_zero]
  omega

/-- The wait of a row is the episode's exactly when nothing had been waited before. -/
theorem Episode.rowOk_iff [Double F] (ep : Episode) (env : Env) (n : Int32) {addr : UInt64}
    (h : (counters ep.start addr).1 < (counters ep.finish addr).1) :
    ep.RowOk addr (ep.row env n addr : Row F) ↔ (counters ep.start addr).2 = 0 := by
  have hcount : (key "count" (ep.row env n addr : Row F)).toUInt64 = ep.count addr := rfl
  have htotal : (key "total_wait_ns" (ep.row env n addr : Row F)).toUInt64 =
      (counters ep.finish addr).2 := rfl
  have havg : (key "avg_wait_ns" (ep.row env n addr : Row F)).toUInt64 =
      (counters ep.finish addr).2/ep.count addr := by
    have hcolumn : get (ep.row env n addr : Row F) "avg_wait_ns" =
        if ep.count addr ≠ 0 then bindU64 ((counters ep.finish addr).2/ep.count addr)
        else bindInt64 0 := rfl
    rw [key,hcolumn,if_pos (ep.count_ne_zero h)]
    rfl
  rw [← ep.latSum_eq_iff]
  constructor
  · intro hok
    exact htotal.symm.trans hok.total
  · intro hlat
    exact ⟨hcount,htotal.trans hlat,havg.trans (by rw [hlat])⟩

/-- The dump shows the waits of the episode exactly when no lock that was waited for in it had
been waited for before. -/
theorem Episode.deltas_iff [DumpFloat F] (ep : Episode) (env : Env) (n : Int32)
    (ms : EpisodeMaps ncpus) : ep.Deltas (F:=F) env n ms ↔
      ∀ addr, (counters ep.start addr).1 < (counters ep.finish addr).1 →
        (counters ep.start addr).2 = 0 := by
  constructor
  · intro h addr hlt
    have hok := h (addr,ep.row env n addr) ((ep.mem_deepLock_iff env n ms _).mpr ⟨hlt,rfl⟩)
    exact (ep.rowOk_iff env n hlt).mp hok
  · intro h w hw
    obtain ⟨hlt,hrow⟩ := (ep.mem_deepLock_iff env n ms w).mp hw
    rw [hrow]
    exact (ep.rowOk_iff env n hlt).mpr (h w.1 hlt)

/-- Nine waits of a second before the episode, one of a millisecond in it. -/
def oldWaits : Episode where
  start := [(0xffffffff81a2b3c0,9,9000000000)]
  finish := [(0xffffffff81a2b3c0,10,9001000000)]
  nodup_start := by simp [keys]
  nodup_finish := by simp [keys]
  grows addr := by
    simp only [counters,lookup_cons]
    split
    · decide
    · exact ⟨UInt64.le_refl _,UInt64.le_refl _⟩

theorem oldWaits_not_deltas : ¬ ∀ (ep : Episode) (env : Env) (ms : EpisodeMaps 1),
    ep.Deltas (F:=ℚ) env 1 ms := by
  intro h
  let env : Env := ⟨[],fun _ => none,fun _ _ _ => "",fun _ => "",[],fun _ => none⟩
  have hlt : (counters oldWaits.start 0xffffffff81a2b3c0).1 <
      (counters oldWaits.finish 0xffffffff81a2b3c0).1 := by decide
  have hok := h oldWaits env .empty (_,oldWaits.row env 1 _)
    ((oldWaits.mem_deepLock_iff env 1 .empty _).mpr ⟨hlt,rfl⟩)
  exact absurd ((oldWaits.rowOk_iff env 1 hlt).mp hok) (by decide)

end LockHotSpots
end ETraceDiag
