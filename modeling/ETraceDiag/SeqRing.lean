import Mathlib.Logic.Function.Basic
import Mathlib.Data.List.Basic

/-!
# A ring of sequence-stamped slots

One producer numbers its items 0,1,2,... and puts item `i` into slot `i % cap` in three steps:
it starts the item, copies it into the slot under the odd stamp `2*i+1`, and commits it under
the even stamp `2*i`. A reader that knows the number of the item it wants can tell from the
stamp whether the slot holds it.
-/

namespace SeqRing

structure Slot (α : Type*) where
  seq : ℕ
  val : α

/-- How far the latest started item is. -/
inductive Stage
  | idle
  | started
  | copied
  deriving DecidableEq,Repr

/-- The slots, the producer's stage and the items started so far. -/
structure Ring (α : Type*) where
  slots : ℕ → Slot α
  stage : Stage
  items : List α

variable {α : Type*}

def Ring.head (r : Ring α) : ℕ := r.items.length

/-- The number of items that have been copied into their slot. -/
def Ring.copied (r : Ring α) : ℕ :=
  match r.stage with
  | .started => r.head-1
  | _ => r.head

def Ring.committed (r : Ring α) : ℕ :=
  match r.stage with
  | .idle => r.head
  | _ => r.head-1

/-- All slots hold the same value under stamp 0; nothing has been started. -/
def Ring.init (v : α) : Ring α := ⟨fun _ => ⟨0,v⟩,.idle,[]⟩

def Ring.start (v : α) (r : Ring α) : Ring α :=
  match r.stage with
  | .idle => { r with stage := .started, items := r.items++[v] }
  | _ => r

def Ring.copy (ix : ℕ → ℕ) (r : Ring α) : Ring α :=
  match r.stage,r.items.getLast? with
  | .started,some v =>
    { r with
      slots := Function.update r.slots (ix (r.head-1)) ⟨2*(r.head-1)+1,v⟩
      stage := .copied }
  | _,_ => r

def Ring.commit (ix : ℕ → ℕ) (r : Ring α) : Ring α :=
  match r.stage with
  | .copied =>
    { r with
      slots := Function.update r.slots (ix (r.head-1))
        ⟨2*(r.head-1),(r.slots (ix (r.head-1))).val⟩
      stage := .idle }
  | _ => r

/-- Every copied item that is among the last `cap` ones is in its slot, with an even stamp
when it is committed; no slot carries a stamp older than its latest item. -/
structure Ring.Wf (cap : ℕ) (r : Ring α) : Prop where
  busy : r.stage ≠ .idle → 0 < r.head
  inPlace : ∀ i v, r.items[i]? = some v → i < r.copied → r.copied ≤ i+cap →
    r.slots (i % cap) = ⟨2*i+(if i < r.committed then 0 else 1),v⟩
  stamp : ∀ i, i < r.copied → 2*i ≤ (r.slots (i % cap)).seq

theorem wf_init (cap : ℕ) (v : α) : (Ring.init v).Wf cap :=
  ⟨fun h => absurd rfl h,fun i w h => by simp [Ring.init] at h,nofun⟩

theorem committed_le_copied (r : Ring α) : r.committed ≤ r.copied := by
  cases hs : r.stage <;> simp [Ring.committed,Ring.copied,hs]

theorem copied_le_head (r : Ring α) : r.copied ≤ r.head := by
  cases hs : r.stage <;> simp [Ring.copied,hs]

theorem committed_le_head (r : Ring α) : r.committed ≤ r.head :=
  Nat.le_trans (committed_le_copied r) (copied_le_head r)

/-! ### What each step of the producer changes -/

@[simp] theorem committed_start (v : α) (r : Ring α) : (r.start v).committed = r.committed := by
  cases hs : r.stage <;> simp [Ring.start,Ring.committed,Ring.head,hs]

@[simp] theorem copied_start (v : α) (r : Ring α) : (r.start v).copied = r.copied := by
  cases hs : r.stage <;> simp [Ring.start,Ring.copied,Ring.head,hs]

theorem start_items (v : α) (r : Ring α) : ∃ rest, (r.start v).items = r.items++rest := by
  cases hs : r.stage with
  | idle => exact ⟨[v],by simp [Ring.start,hs]⟩
  | started => exact ⟨[],by simp [Ring.start,hs]⟩
  | copied => exact ⟨[],by simp [Ring.start,hs]⟩

@[simp] theorem items_copy (ix : ℕ → ℕ) (r : Ring α) : (r.copy ix).items = r.items := by
  unfold Ring.copy
  split <;> rfl

@[simp] theorem committed_copy (ix : ℕ → ℕ) (r : Ring α) :
    (r.copy ix).committed = r.committed := by
  unfold Ring.copy
  split
  · next hs _ => simp [Ring.committed,Ring.head,hs]
  · rfl

theorem copied_copy (ix : ℕ → ℕ) (r : Ring α) :
    (r.copy ix).copied = if r.stage = .started then r.head else r.copied := by
  unfold Ring.copy
  split
  · next hs _ => simp [Ring.copied,Ring.head,hs]
  · next hne =>
    split
    · next hs =>
      have hnil : r.items = [] := by
        cases hi : r.items.getLast? with
        | none => simpa using hi
        | some v => exact absurd hi (hne v hs)
      simp [Ring.copied,Ring.head,hs,hnil]
    · rfl

@[simp] theorem items_commit (ix : ℕ → ℕ) (r : Ring α) : (r.commit ix).items = r.items := by
  cases hs : r.stage <;> simp [Ring.commit,hs]

@[simp] theorem copied_commit (ix : ℕ → ℕ) (r : Ring α) : (r.commit ix).copied = r.copied := by
  cases hs : r.stage <;> simp [Ring.commit,Ring.copied,Ring.head,hs]

theorem committed_commit (ix : ℕ → ℕ) (r : Ring α) :
    (r.commit ix).committed = if r.stage = .copied then r.head else r.committed := by
  cases hs : r.stage <;> simp [Ring.commit,Ring.committed,Ring.head,hs]

/-! ### The slots -/

theorem exists_item {r : Ring α} {i : ℕ} (h : i < r.head) : ∃ v, r.items[i]? = some v := by
  rw [Ring.head] at h
  exact ⟨r.items.get ⟨i,h⟩,by simp⟩

/-- Two items among `cap` consecutive ones share a slot only if they are the same. -/
theorem eq_of_slot {cap i j : ℕ} (hij : i ≤ j) (hj : j < i+cap) (h : j % cap = i % cap) :
    i = j := by
  have hd : (j-i) % cap = 0 := Nat.sub_mod_eq_zero_of_mod_eq h
  rw [Nat.mod_eq_of_lt (by omega)] at hd
  omega

theorem wf_start {cap : ℕ} {r : Ring α} (h : r.Wf cap) (v : α) : (r.start v).Wf cap := by
  cases hs : r.stage with
  | idle =>
    have hcopied : (r.start v).copied = r.copied := by
      simp [Ring.start,Ring.copied,Ring.head,hs]
    have hcommitted : (r.start v).committed = r.committed := by
      simp [Ring.start,Ring.committed,Ring.head,hs]
    have hslots : (r.start v).slots = r.slots := by simp [Ring.start,hs]
    have hitems : (r.start v).items = r.items++[v] := by simp [Ring.start,hs]
    refine ⟨?_,?_,?_⟩
    · intro _
      simp [Ring.head,hitems]
    · intro i w hi hlt hle
      rw [hcopied] at hlt hle
      rw [hslots,hcommitted]
      have hhead := copied_le_head r
      rw [hitems,List.getElem?_append_left (by simp only [Ring.head] at hhead; omega)] at hi
      exact h.inPlace i w hi hlt hle
    · intro i hi
      rw [hcopied] at hi
      rw [hslots]
      exact h.stamp i hi
  | started => simpa [Ring.start,hs] using h
  | copied => simpa [Ring.start,hs] using h

theorem copy_eq {r : Ring α} (hs : r.stage = .started) (hpos : 0 < r.head) (ix : ℕ → ℕ) :
    ∃ v, r.items[r.head-1]? = some v ∧ r.copy ix = ⟨Function.update r.slots (ix (r.head-1))
      ⟨2*(r.head-1)+1,v⟩,.copied,r.items⟩ := by
  obtain ⟨v,hv⟩ := exists_item (r:=r) (i:=r.head-1) (by omega)
  have hl : r.items.getLast? = some v := by rw [List.getLast?_eq_getElem?]; exact hv
  exact ⟨v,hv,by simp [Ring.copy,hs,hl]⟩

theorem commit_eq {r : Ring α} (hs : r.stage = .copied) (ix : ℕ → ℕ) :
    r.commit ix = ⟨Function.update r.slots (ix (r.head-1))
      ⟨2*(r.head-1),(r.slots (ix (r.head-1))).val⟩,.idle,r.items⟩ := by
  simp [Ring.commit,hs]

theorem wf_copy {cap : ℕ} {r : Ring α} (h : r.Wf cap) : (r.copy (· % cap)).Wf cap := by
  cases hs : r.stage with
  | started =>
    have hpos : 0 < r.head := h.busy (by simp [hs])
    obtain ⟨v,hv,hcopy⟩ := copy_eq hs hpos (· % cap)
    have hold : r.copied = r.head-1 := by simp [Ring.copied,hs]
    have hcom : r.committed = r.head-1 := by simp [Ring.committed,hs]
    have hnew : (r.copy (· % cap)).copied = r.head := by rw [hcopy]; rfl
    have hnewc : (r.copy (· % cap)).committed = r.head-1 := by rw [hcopy]; rfl
    have hslots : (r.copy (· % cap)).slots =
        Function.update r.slots ((r.head-1) % cap) ⟨2*(r.head-1)+1,v⟩ := by rw [hcopy]
    refine ⟨fun _ => by rw [hcopy]; exact hpos,?_,?_⟩
    · intro i w hi hlt hle
      rw [hcopy] at hi
      rw [hnew] at hlt hle
      rw [hslots,hnewc]
      by_cases hlast : i = r.head-1
      · subst hlast
        rw [Function.update_self,if_neg (Nat.lt_irrefl _),Option.some.inj (hv.symm.trans hi)]
      · have hne : i % cap ≠ (r.head-1) % cap := by
          intro heq
          exact hlast (eq_of_slot (by omega) (by omega) heq.symm)
        have hin := h.inPlace i w hi (by omega) (by omega)
        rwa [Function.update_of_ne hne,← hcom]
    · intro i hi
      rw [hnew] at hi
      rw [hslots]
      by_cases heq : i % cap = (r.head-1) % cap
      · rw [heq,Function.update_self]
        show 2*i ≤ 2*(r.head-1)+1
        omega
      · have hne : i ≠ r.head-1 := fun hh => heq (by rw [hh])
        rw [Function.update_of_ne heq]
        exact h.stamp i (by omega)
  | idle => simpa [Ring.copy,hs] using h
  | copied => simpa [Ring.copy,hs] using h

theorem wf_commit {cap : ℕ} {r : Ring α} (h : r.Wf cap) : (r.commit (· % cap)).Wf cap := by
  cases hs : r.stage with
  | copied =>
    have hpos : 0 < r.head := h.busy (by simp [hs])
    have hcommit := commit_eq hs (· % cap)
    have hold : r.copied = r.head := by simp [Ring.copied,hs]
    have hcom : r.committed = r.head-1 := by simp [Ring.committed,hs]
    have hnew : (r.commit (· % cap)).copied = r.head := by rw [hcommit]; rfl
    have hnewc : (r.commit (· % cap)).committed = r.head := by rw [hcommit]; rfl
    have hslots : (r.commit (· % cap)).slots = Function.update r.slots ((r.head-1) % cap)
        ⟨2*(r.head-1),(r.slots ((r.head-1) % cap)).val⟩ := by rw [hcommit]
    refine ⟨fun hh => absurd (by rw [hcommit]) hh,?_,?_⟩
    · intro i w hi hlt hle
      rw [hcommit] at hi
      rw [hnew] at hlt hle
      have hin := h.inPlace i w hi (by omega) (by omega)
      rw [hslots,hnewc,if_pos hlt]
      by_cases hlast : i = r.head-1
      · subst hlast
        rw [Function.update_self,hin]
        rfl
      · have hne : i % cap ≠ (r.head-1) % cap := by
          intro heq
          exact hlast (eq_of_slot (by omega) (by omega) heq.symm)
        rw [Function.update_of_ne hne,hin,if_pos (by omega)]
    · intro i hi
      rw [hnew] at hi
      rw [hslots]
      by_cases heq : i % cap = (r.head-1) % cap
      · rw [heq,Function.update_self]
        show 2*i ≤ 2*(r.head-1)
        omega
      · rw [Function.update_of_ne heq]
        exact h.stamp i (by omega)
  | idle => simpa [Ring.commit,hs] using h
  | started => simpa [Ring.commit,hs] using h

/-- A committed item that no later item has been copied over is read under its even stamp. -/
theorem slot_of_committed {cap : ℕ} {r : Ring α} (h : r.Wf cap) {i : ℕ} {v : α}
    (hv : r.items[i]? = some v) (hi : i < r.committed) (hle : r.copied ≤ i+cap) :
    r.slots (i % cap) = ⟨2*i,v⟩ := by
  have hlt : i < r.copied := Nat.lt_of_lt_of_le hi (committed_le_copied r)
  have hin := h.inPlace i v hv hlt hle
  rwa [if_pos hi] at hin

/-- Once a later item has been copied over it, the slot's stamp gives the item away. -/
theorem seq_of_overwritten {cap : ℕ} (hcap : 0 < cap) {r : Ring α} (h : r.Wf cap) {i : ℕ}
    (hi : i+cap < r.copied) : (r.slots (i % cap)).seq ≠ 2*i := by
  have hs := h.stamp (i+cap) hi
  rw [Nat.add_mod_right] at hs
  omega

end SeqRing
