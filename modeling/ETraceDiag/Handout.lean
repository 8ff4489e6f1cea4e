import Mathlib.Algebra.GroupWithZero.Nat
import Mathlib.Algebra.Order.BigOperators.Group.List
import Mathlib.Algebra.Order.Group.Nat
import Mathlib.Data.Finset.Card
import Mathlib.Data.Finset.Dedup

/-!
# Handing out places group by group

There are `cap` places, and some are taken. The groups come one after the other; each of them
puts its first `n` members in as long as there are places left. A member that has a place
already costs its group one of the `n`, and takes no other place.
-/

namespace Handout

variable {α κ : Type} [DecidableEq α]

/-- One group. -/
def place (cap : ℕ) : ℕ → Finset α → List α → Finset α
  | 0, d, _ => d
  | _+1, d, [] => d
  | n+1, d, t::ts => if cap ≤ d.card ∧ t ∉ d then d else place cap n (insert t d) ts

/-- The groups in the order of their keys. -/
def fill (cap n : ℕ) (g : κ → List α) (d : Finset α) (keys : List κ) : Finset α :=
  keys.foldl (fun d k => place cap n d (g k)) d

/-- The members of a group that want a place. -/
def wants (n : ℕ) (d : Finset α) (ts : List α) : List α := (ts.take n).filter (· ∉ d)

@[simp] theorem fill_nil (cap n : ℕ) (g : κ → List α) (d : Finset α) :
    fill cap n g d [] = d := rfl

@[simp] theorem fill_cons (cap n : ℕ) (g : κ → List α) (d : Finset α) (k : κ) (keys : List κ) :
    fill cap n g d (k::keys) = fill cap n g (place cap n d (g k)) keys := rfl

theorem fill_append (cap n : ℕ) (g : κ → List α) (d : Finset α) (keys keys' : List κ) :
    fill cap n g d (keys++keys') = fill cap n g (fill cap n g d keys) keys' :=
  List.foldl_append

theorem place_card_le (cap : ℕ) (ts : List α) : ∀ (n : ℕ) (d : Finset α),
    (place cap n d ts).card ≤ max cap d.card := by
  induction ts with
  | nil => intro n d; cases n <;> exact le_max_right ..
  | cons t ts ih =>
    intro n d
    cases n with
    | zero => exact le_max_right ..
    | succ n =>
      rw [place]
      split
      · exact le_max_right ..
      · next hroom =>
        refine (ih n _).trans (max_le (le_max_left ..) ?_)
        by_cases ht : t ∈ d
        · rw [Finset.insert_eq_of_mem ht]
          exact le_max_right ..
        · have hlt : d.card < cap := by
            by_contra hfull
            exact hroom ⟨Nat.le_of_not_lt hfull,ht⟩
          rw [Finset.card_insert_of_notMem ht]
          exact le_max_of_le_left hlt

theorem fill_card_le (cap n : ℕ) (g : κ → List α) (keys : List κ) : ∀ d : Finset α,
    (fill cap n g d keys).card ≤ max cap d.card := by
  induction keys with
  | nil => intro d; exact le_max_right ..
  | cons k keys ih =>
    intro d
    exact (ih _).trans (max_le (le_max_left ..) (place_card_le cap _ n d))

theorem subset_place (cap : ℕ) (ts : List α) : ∀ (n : ℕ) (d : Finset α),
    d ⊆ place cap n d ts := by
  induction ts with
  | nil => intro n d; cases n <;> exact Finset.Subset.refl _
  | cons t ts ih =>
    intro n d
    cases n with
    | zero => exact Finset.Subset.refl _
    | succ n =>
      rw [place]
      split
      · exact Finset.Subset.refl _
      · exact (Finset.subset_insert t d).trans (ih n _)

theorem subset_fill (cap n : ℕ) (g : κ → List α) (keys : List κ) : ∀ d : Finset α,
    d ⊆ fill cap n g d keys := by
  induction keys with
  | nil => intro d; exact Finset.Subset.refl _
  | cons k keys ih => intro d; exact (subset_place cap _ n d).trans (ih _)

theorem place_nonempty {cap n : ℕ} (hcap : 0 < cap) (hn : 0 < n) {ts : List α} (hts : ts ≠ [])
    (d : Finset α) : (place cap n d ts).Nonempty := by
  obtain ⟨t,ts,rfl⟩ := List.exists_cons_of_ne_nil hts
  obtain ⟨n,rfl⟩ := Nat.exists_eq_add_one_of_ne_zero hn.ne'
  rw [place]
  split
  · next hfull => exact Finset.card_pos.mp (hcap.trans_le hfull.1)
  · exact (Finset.insert_nonempty t d).mono (subset_place cap ts n _)

/-- With a place to give, somebody gets one as soon as a group has members. -/
theorem fill_nonempty {cap n : ℕ} (hcap : 0 < cap) (hn : 0 < n) {g : κ → List α} {k : κ}
    (hk : g k ≠ []) {keys : List κ} (hmem : k ∈ keys) (d : Finset α) :
    (fill cap n g d keys).Nonempty := by
  obtain ⟨before,after,rfl⟩ := List.append_of_mem hmem
  rw [fill_append,fill_cons]
  exact (place_nonempty hcap hn hk _).mono (subset_fill cap n g after _)

/-- A group gets places for the first of its members that want one. -/
theorem place_eq (cap : ℕ) (ts : List α) : ts.Nodup → ∀ (n : ℕ) (d : Finset α),
    place cap n d ts = d ∪ ((wants n d ts).take (cap-d.card)).toFinset := by
  induction ts with
  | nil => intro _ n d; cases n <;> simp [place,wants]
  | cons t ts ih =>
    intro hnd n d
    obtain ⟨ht,hnd⟩ := List.nodup_cons.mp hnd
    cases n with
    | zero => simp [place,wants]
    | succ n =>
      rw [place]
      by_cases hmem : t ∈ d
      · have hwants : wants (n+1) d (t::ts) = wants n d ts := by
          rw [wants,List.take_succ_cons,List.filter_cons_of_neg (by simpa using hmem),wants]
        rw [if_neg fun h => h.2 hmem,ih hnd,Finset.insert_eq_of_mem hmem,hwants]
      · have hwants : wants (n+1) d (t::ts) = t::wants n (insert t d) ts := by
          rw [wants,List.take_succ_cons,List.filter_cons_of_pos (by simpa using hmem),wants]
          refine congrArg _ (List.filter_congr fun a ha => ?_)
          have hne : a ≠ t := by
            rintro rfl
            exact ht (List.mem_of_mem_take ha)
          simp [Finset.mem_insert,hne]
        by_cases hfull : cap ≤ d.card
        · rw [if_pos ⟨hfull,hmem⟩,Nat.sub_eq_zero_of_le hfull]
          simp
        · have hroom : cap-d.card = cap-(insert t d).card+1 := by
            rw [Finset.card_insert_of_notMem hmem]
            omega
          rw [if_neg fun h => hfull h.1,ih hnd,hwants,hroom,List.take_succ_cons,
            List.toFinset_cons,Finset.insert_union,← Finset.union_insert]

theorem wants_nodup {ts : List α} (h : ts.Nodup) (n : ℕ) (d : Finset α) :
    (wants n d ts).Nodup := (h.sublist (List.take_sublist n ts)).filter _

theorem mem_of_mem_wants {n : ℕ} {d : Finset α} {ts : List α} {a : α} (h : a ∈ wants n d ts) :
    a ∈ ts ∧ a ∉ d := by
  obtain ⟨htake,hd⟩ := List.mem_filter.mp h
  exact ⟨List.mem_of_mem_take htake,by simpa using hd⟩

theorem place_card (cap n : ℕ) (d : Finset α) {ts : List α} (h : ts.Nodup) :
    (place cap n d ts).card = d.card+min (wants n d ts).length (cap-d.card) := by
  have hdisj : Disjoint d ((wants n d ts).take (cap-d.card)).toFinset := by
    refine Finset.disjoint_right.mpr fun a ha => ?_
    exact (mem_of_mem_wants (List.mem_of_mem_take (List.mem_toFinset.mp ha))).2
  have hnd := (wants_nodup h n d).sublist (List.take_sublist (cap-d.card) _)
  rw [place_eq cap ts h,Finset.card_union_of_disjoint hdisj,List.toFinset_card_of_nodup hnd,
    List.length_take,min_comm]

/-! ## Disjoint groups -/

section Disjoint

variable {cap n : ℕ} {g : κ → List α} (hnd : ∀ k, (g k).Nodup)
  (hdisj : ∀ j k a, a ∈ g j → a ∈ g k → j = k)

include hnd hdisj

theorem wants_place {j k : κ} (h : j ≠ k) (d : Finset α) :
    wants n (place cap n d (g j)) (g k) = wants n d (g k) := by
  refine List.filter_congr fun a ha => ?_
  have hiff : a ∈ place cap n d (g j) ↔ a ∈ d := by
    rw [place_eq cap _ (hnd j),Finset.mem_union,List.mem_toFinset]
    refine or_iff_left fun htake => h ?_
    exact hdisj j k a (mem_of_mem_wants (List.mem_of_mem_take htake)).1 (List.mem_of_mem_take ha)
  exact decide_eq_decide.mpr (not_congr hiff)

theorem mem_fill_of_notMem {k : κ} {a : α} (ha : a ∈ g k) (keys : List κ) : k ∉ keys →
    ∀ d : Finset α, a ∈ fill cap n g d keys ↔ a ∈ d := by
  induction keys with
  | nil => exact fun _ _ => Iff.rfl
  | cons j keys ih =>
    intro hk d
    obtain ⟨hjk,hk⟩ := not_or.mp (mt List.mem_cons.mpr hk)
    rw [fill_cons,ih hk,place_eq cap _ (hnd j),Finset.mem_union,List.mem_toFinset]
    refine or_iff_left fun htake => hjk ?_
    exact hdisj k j a ha (mem_of_mem_wants (List.mem_of_mem_take htake)).1

theorem wants_fill {k : κ} (keys : List κ) (hk : k ∉ keys) (d : Finset α) :
    wants n (fill cap n g d keys) (g k) = wants n d (g k) := by
  refine List.filter_congr fun a ha => ?_
  have hiff : a ∈ fill cap n g d keys ↔ a ∈ d :=
    mem_fill_of_notMem hnd hdisj (List.mem_of_mem_take ha) keys hk d
  exact decide_eq_decide.mpr (not_congr hiff)

/-- How many places are taken in the end. -/
theorem fill_card (keys : List κ) : keys.Nodup → ∀ d : Finset α,
    (fill cap n g d keys).card =
      d.card+min (keys.map fun k => (wants n d (g k)).length).sum (cap-d.card) := by
  induction keys with
  | nil => intro _ d; simp
  | cons k keys ih =>
    intro hkeys d
    obtain ⟨hk,hkeys⟩ := List.nodup_cons.mp hkeys
    have hrest : (keys.map fun j => (wants n (place cap n d (g k)) (g j)).length) =
        keys.map fun j => (wants n d (g j)).length := by
      refine List.map_congr_left fun j hj => ?_
      have hkj : k ≠ j := by
        rintro rfl
        exact hk hj
      rw [wants_place hnd hdisj hkj]
    rw [fill_cons,ih hkeys,hrest,place_card cap n d (hnd k),List.map_cons,List.sum_cons]
    omega

/-- With places for all of them, everyone who wants one gets one. -/
theorem mem_fill_of_room (keys : List κ) : keys.Nodup → ∀ d : Finset α,
    (keys.map fun k => (wants n d (g k)).length).sum ≤ cap-d.card → ∀ a,
      a ∈ fill cap n g d keys ↔ a ∈ d ∨ ∃ k ∈ keys, a ∈ wants n d (g k) := by
  induction keys with
  | nil => intro _ d _ a; simp
  | cons k keys ih =>
    intro hkeys d hroom a
    obtain ⟨hk,hkeys⟩ := List.nodup_cons.mp hkeys
    have hwants : ∀ j ∈ keys, wants n (place cap n d (g k)) (g j) = wants n d (g j) := by
      intro j hj
      refine wants_place hnd hdisj (fun heq => ?_) d
      rw [heq] at hk
      exact hk hj
    have hrest : (keys.map fun j => (wants n (place cap n d (g k)) (g j)).length) =
        keys.map fun j => (wants n d (g j)).length :=
      List.map_congr_left fun j hj => by rw [hwants j hj]
    rw [List.map_cons,List.sum_cons] at hroom
    have hplace : place cap n d (g k) = d ∪ (wants n d (g k)).toFinset := by
      rw [place_eq cap _ (hnd k),List.take_of_length_le (by omega)]
    rw [fill_cons,ih hkeys _ (by rw [hrest,place_card cap n d (hnd k)]; omega)]
    have hex : (∃ j ∈ keys, a ∈ wants n (place cap n d (g k)) (g j)) ↔
        ∃ j ∈ keys, a ∈ wants n d (g j) :=
      exists_congr fun j => and_congr_right fun hj => by rw [hwants j hj]
    rw [hex,hplace,Finset.mem_union,List.mem_toFinset,List.exists_mem_cons_iff,or_assoc]

omit hdisj in
theorem fill_of_full (keys : List κ) : ∀ d : Finset α, cap ≤ d.card →
    fill cap n g d keys = d := by
  induction keys with
  | nil => exact fun _ _ => rfl
  | cons k keys ih =>
    intro d hfull
    have hplace : place cap n d (g k) = d := by
      rw [place_eq cap _ (hnd k),Nat.sub_eq_zero_of_le hfull,List.take_zero,List.toFinset_nil,
        Finset.union_empty]
    rw [fill_cons,hplace,ih d hfull]

omit hdisj in
theorem fill_of_wants_nil (keys : List κ) : ∀ d : Finset α,
    (∀ k ∈ keys, wants n d (g k) = []) → fill cap n g d keys = d := by
  induction keys with
  | nil => exact fun _ _ => rfl
  | cons k keys ih =>
    intro d h
    have hplace : place cap n d (g k) = d := by
      rw [place_eq cap _ (hnd k),h k (List.mem_cons_self ..),List.take_nil,List.toFinset_nil,
        Finset.union_empty]
    rw [fill_cons,hplace]
    exact ih d fun j hj => h j (List.mem_cons_of_mem _ hj)

/-! ## When the order of the groups matters -/

/-- No place is left, or there is one for everyone, or only one group wants any. -/
def Uncontended (cap n : ℕ) (g : κ → List α) (d : Finset α) (keys : List κ) : Prop :=
  cap ≤ d.card ∨ (keys.map fun k => (wants n d (g k)).length).sum ≤ cap-d.card ∨
    ∀ j ∈ keys, ∀ k ∈ keys, wants n d (g j) ≠ [] → wants n d (g k) ≠ [] → j = k

omit hnd hdisj in
theorem fill_nonempty_of_contended {keys keys' : List κ} (h : keys'.Perm keys) {d : Finset α}
    (hun : ¬ Uncontended cap n g d keys) : (fill cap n g d keys').Nonempty := by
  simp only [Uncontended,not_or,not_le] at hun
  obtain ⟨hleft,-,hone⟩ := hun
  push Not at hone
  obtain ⟨p,hp,-,-,hwp,-⟩ := hone
  have hn : 0 < n := by
    refine Nat.pos_of_ne_zero fun hn => hwp ?_
    rw [wants,hn,List.take_zero,List.filter_nil]
  have hgp : g p ≠ [] := fun hgp => hwp (by rw [wants,hgp,List.take_nil,List.filter_nil])
  exact fill_nonempty (Nat.zero_lt_of_lt hleft) hn hgp (h.mem_iff.mpr hp) d

/-- When only one group wants places the others do not matter. -/
theorem fill_of_single {p : κ} {d : Finset α} {keys : List κ} (hkeys : keys.Nodup)
    (hp : p ∈ keys) (hnil : ∀ k ∈ keys, k ≠ p → wants n d (g k) = []) :
    fill cap n g d keys = place cap n d (g p) := by
  obtain ⟨before,after,rfl⟩ := List.append_of_mem hp
  have hp' : p ∉ before++after := (List.nodup_cons.mp (List.nodup_middle.mp hkeys)).1
  rw [fill_append,fill_cons,fill_of_wants_nil hnd before d]
  · refine fill_of_wants_nil hnd after _ fun k hk => ?_
    have hkp : p ≠ k := by
      rintro rfl
      exact hp' (List.mem_append_right _ hk)
    rw [wants_place hnd hdisj hkp]
    exact hnil k (by simp [hk]) hkp.symm
  · intro k hk
    refine hnil k (by simp [hk]) ?_
    rintro rfl
    exact hp' (List.mem_append_left _ hk)

theorem fill_eq_of_perm {keys keys' : List κ} (hkeys : keys.Nodup) (h : keys'.Perm keys)
    {d : Finset α} (hun : Uncontended cap n g d keys) :
    fill cap n g d keys' = fill cap n g d keys := by
  obtain hfull | hroom | hone := hun
  · rw [fill_of_full hnd keys d hfull,fill_of_full hnd keys' d hfull]
  · have hroom' : (keys'.map fun k => (wants n d (g k)).length).sum ≤ cap-d.card := by
      rwa [(h.map _).sum_eq]
    ext a
    rw [mem_fill_of_room hnd hdisj keys hkeys d hroom,
      mem_fill_of_room hnd hdisj keys' (h.nodup_iff.mpr hkeys) d hroom']
    exact or_congr_right (exists_congr fun k => and_congr_left fun _ => h.mem_iff)
  · by_cases hnone : ∀ k ∈ keys, wants n d (g k) = []
    · rw [fill_of_wants_nil hnd keys d hnone,
        fill_of_wants_nil hnd keys' d fun k hk => hnone k (h.subset hk)]
    · push Not at hnone
      obtain ⟨p,hp,hwp⟩ := hnone
      have hnil : ∀ k ∈ keys, k ≠ p → wants n d (g k) = [] := by
        intro k hk hkp
        by_contra hwk
        exact hkp (hone k hk p hp hwk hwp)
      rw [fill_of_single hnd hdisj hkeys hp hnil,fill_of_single hnd hdisj (h.nodup_iff.mpr hkeys)
        (h.mem_iff.mpr hp) fun k hk => hnil k (h.subset hk)]

/-- A group that comes last gets places for as many of its members as the others have left. -/
theorem getElem_notMem_fill_last {p : κ} {rest : List κ} (hrest : rest.Nodup) (hp : p ∉ rest)
    {d : Finset α} {i : ℕ} (hi : i < (wants n d (g p)).length)
    (hleft : cap-d.card-(rest.map fun k => (wants n d (g k)).length).sum ≤ i) :
    (wants n d (g p))[i] ∉ fill cap n g d (rest++[p]) := by
  have hx := List.getElem_mem hi
  have hcard : cap-(fill cap n g d rest).card ≤ i := by
    rw [fill_card hnd hdisj rest hrest]
    omega
  have hxfill : (wants n d (g p))[i] ∉ fill cap n g d rest := by
    rw [mem_fill_of_notMem hnd hdisj (mem_of_mem_wants hx).1 rest hp]
    exact (mem_of_mem_wants hx).2
  rw [fill_append,fill_cons,fill_nil,place_eq cap _ (hnd p),Finset.mem_union,List.mem_toFinset,
    wants_fill hnd hdisj rest hp]
  refine not_or.mpr ⟨hxfill,fun htake => ?_⟩
  obtain ⟨j,hj,hxj⟩ := List.mem_take_iff_getElem.mp htake
  have hij : j = i := (List.Nodup.getElem_inj_iff (wants_nodup (hnd p) n d)).mp hxj
  omega

/-- Of two groups that both want places, the one that comes last gets fewer of them. -/
theorem fill_ne_of_contended [DecidableEq κ] {keys : List κ} (hkeys : keys.Nodup) {d : Finset α}
    (hun : ¬ Uncontended cap n g d keys) : ∃ p ∈ keys,
      fill cap n g d (p::keys.erase p) ≠ fill cap n g d (keys.erase p++[p]) := by
  simp only [Uncontended,not_or,not_le] at hun
  obtain ⟨hleft,hsum,hone⟩ := hun
  push Not at hone
  obtain ⟨p,hp,q,hq,hwp,hwq,hpq⟩ := hone
  refine ⟨p,hp,fun heq => ?_⟩
  let rest := keys.erase p
  let others := (rest.map fun k => (wants n d (g k)).length).sum
  have htotal : (wants n d (g p)).length+others > cap-d.card := by
    have hperm := (List.perm_cons_erase hp).map fun k => (wants n d (g k)).length
    rw [hperm.sum_eq,List.map_cons,List.sum_cons] at hsum
    exact hsum
  have hothers : 0 < others := by
    have hqrest : q ∈ rest := (List.mem_erase_of_ne hpq.symm).mpr hq
    have hle : (wants n d (g q)).length ≤ others :=
      List.le_sum_of_mem (List.mem_map_of_mem hqrest)
    exact lt_of_lt_of_le (List.length_pos_of_ne_nil hwq) hle
  have hpos := List.length_pos_of_ne_nil hwp
  -- the first member that gets no place when the group comes last
  let i := cap-d.card-others
  have hi : i < (wants n d (g p)).length := by omega
  have hfirst : (wants n d (g p))[i] ∈ fill cap n g d (p::rest) := by
    refine subset_fill cap n g rest _ ?_
    dsimp only
    rw [place_eq cap _ (hnd p),Finset.mem_union,List.mem_toFinset]
    refine Or.inr (List.mem_take_iff_getElem.mpr ⟨i,?_,rfl⟩)
    omega
  exact getElem_notMem_fill_last hnd hdisj (hkeys.erase p) hkeys.not_mem_erase hi le_rfl
    (heq ▸ hfirst)

end Disjoint

end Handout
