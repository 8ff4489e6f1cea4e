import Mathlib.Data.Nat.Digits.Defs

/-!
# Records with a length in front

A buffer holds records one after the other. Each starts with a header that says how long it is,
and the next one starts at the next multiple of the alignment. A reader walks from record to
record; where it would read behind the buffer it has no result.
-/

namespace AlignedRecords

/-! ## Numbers in a buffer -/

/-- The `n` bytes at a position, least significant first. -/
def readAt (mem : List UInt8) (pos n : ℕ) : Option ℕ :=
  if pos+n ≤ mem.length then some (Nat.ofDigits 256 (((mem.drop pos).take n).map UInt8.toNat))
  else none

theorem take_drop_append {α : Type} (front bytes back : List α) {k n : ℕ}
    (h : k+n ≤ bytes.length) :
    ((front++(bytes++back)).drop (front.length+k)).take n = (bytes.drop k).take n := by
  rw [List.drop_append,List.drop_eq_nil_of_le (Nat.le_add_right _ _),List.nil_append,
    Nat.add_sub_cancel_left,List.drop_append_of_le_length (by omega),
    List.take_append_of_le_length (by rw [List.length_drop]; omega)]

/-- A number in a part of the buffer. -/
theorem readAt_append (front bytes back : List UInt8) {k n : ℕ} (h : k+n ≤ bytes.length) :
    readAt (front++(bytes++back)) (front.length+k) n = readAt bytes k n := by
  have hin : front.length+k+n ≤ (front++(bytes++back)).length := by
    simp only [List.length_append]
    omega
  rw [readAt,if_pos hin,readAt,if_pos h,take_drop_append front bytes back h]

theorem readAt_append_of_some (front : List UInt8) {bytes : List UInt8} (back : List UInt8)
    {k n v : ℕ} (h : readAt bytes k n = some v) :
    readAt (front++(bytes++back)) (front.length+k) n = some v := by
  have hle : k+n ≤ bytes.length := by
    by_contra hlt
    rw [readAt,if_neg hlt] at h
    cases h
  rw [readAt_append front bytes back hle,h]

/-! ## Records -/

structure Layout where
  hdr : ℕ
  lenSize : ℕ
  align : ℕ
  hdr_pos : 0 < hdr
  lenSize_le : lenSize ≤ hdr

variable {L : Layout}

def Layout.alignUp (L : Layout) (n : ℕ) : ℕ := (n+L.align-1)/L.align*L.align

/-- A record with the bytes up to the next one. -/
structure Record (L : Layout) where
  bytes : List UInt8
  padding : List UInt8
  hdr_le : L.hdr ≤ bytes.length
  len_eq : readAt bytes 0 L.lenSize = some bytes.length
  aligned : (bytes++padding).length = L.alignUp bytes.length

def Record.whole (r : Record L) : List UInt8 := r.bytes++r.padding

/-- A record and what it is about. -/
structure Message (L : Layout) {ι : Type} (C : Record L → ι → Prop) where
  record : Record L
  item : ι
  carries : C record item

variable {ι : Type} {C : Record L → ι → Prop}

def encode (ms : List (Message L C)) : List UInt8 := ms.flatMap fun m => m.record.whole

def items (ms : List (Message L C)) : List ι := ms.map Message.item

/-! ## The walk -/

variable {σ : Type}

/-- From `pos` on there are `n` bytes left, which the check of the loop sees as `view n`; the
body may stop the loop. -/
def walk (L : Layout) (view : ℤ → ℤ) (mem : List UInt8) (body : σ → ℕ → Option (Bool × σ)) :
    ℕ → ℕ → ℤ → σ → Option σ
  | 0, _, _, s => some s
  | fuel+1, pos, n, s =>
    if view n < L.hdr then some s
    else
      (readAt mem pos L.lenSize).bind fun len =>
        if len < L.hdr ∨ view n < len then some s
        else
          (body s pos).bind fun q =>
            if q.1 then some q.2
            else walk L view mem body fuel (pos+L.alignUp len) (n-L.alignUp len) q.2

/-- What the walk is meant to do, item by item. -/
def process (g : σ → ι → Bool × σ) : List ι → σ → σ
  | [], s => s
  | i::is, s => if (g s i).1 then (g s i).2 else process g is (g s i).2

theorem process_of_go_on {g : σ → ι → Bool × σ} {κ : Type} {f : κ → ι} {h : σ → κ → σ}
    (hg : ∀ s k, g s (f k) = (false,h s k)) (ks : List κ) (is : List ι) :
    ∀ s, process g (ks.map f++is) s = process g is (ks.foldl h s) := by
  induction ks with
  | nil => exact fun _ => rfl
  | cons k ks ih =>
    intro s
    rw [List.map_cons,List.cons_append,process,hg,if_neg Bool.false_ne_true]
    exact ih _

/-- A loop whose state says whether it was stopped goes on where it stands. -/
theorem process_append {g : σ → ι → Bool × σ} {done : σ → Bool}
    (hdone : ∀ s i, done s = false → done (g s i).2 = (g s i).1) (is js : List ι) :
    ∀ s, done s = false → process g (is++js) s =
      if done (process g is s) then process g is s else process g js (process g is s) := by
  induction is with
  | nil => exact fun s hs => (if_neg (by rw [process,hs]; exact Bool.false_ne_true)).symm
  | cons i is ih =>
    intro s hs
    have hi := hdone s i hs
    rw [List.cons_append,process,process]
    cases hstop : (g s i).1 with
    | true => rw [if_pos rfl,if_pos rfl,if_pos (hi.trans hstop)]
    | false =>
      rw [if_neg Bool.false_ne_true,if_neg Bool.false_ne_true]
      exact ih _ (hi.trans hstop)

/-- Where the body reads every record right, the walk goes through all records of the buffer, and
never reads behind it. -/
theorem walk_encode {view : ℤ → ℤ} {limit : ℕ} (hview : ∀ n : ℕ, n ≤ limit → view n = n)
    {mem : List UInt8} {body : σ → ℕ → Option (Bool × σ)} {g : σ → ι → Bool × σ}
    (ms : List (Message L C))
    (hbody : ∀ m ∈ ms, ∀ front back, mem = front++(m.record.bytes++back) →
      ∀ s, body s front.length = some (g s m.item)) :
    ∀ front back fuel s, mem = front++(encode ms++back) → (encode ms).length < fuel →
      (encode ms).length ≤ limit →
        walk L view mem body fuel front.length (encode ms).length s =
          some (process g (items ms) s) := by
  induction ms with
  | nil =>
    intro front back fuel s hmem hfuel hlimit
    obtain ⟨fuel,rfl⟩ := Nat.exists_eq_succ_of_ne_zero (Nat.pos_iff_ne_zero.mp hfuel)
    have hview0 : view 0 < L.hdr := by
      have h0 : view 0 = 0 := hview 0 (Nat.zero_le _)
      rw [h0]
      exact_mod_cast L.hdr_pos
    exact if_pos hview0
  | cons m ms ih =>
    intro front back fuel s hmem hfuel hlimit
    obtain ⟨hm,hms⟩ := List.forall_mem_cons.mp hbody
    let r := m.record
    have hcons : encode (m::ms) = r.whole++encode ms := rfl
    have hlen : (encode (m::ms)).length = L.alignUp r.bytes.length+(encode ms).length := by
      rw [hcons,List.length_append,Record.whole,r.aligned]
    have hle : r.bytes.length ≤ L.alignUp r.bytes.length := by
      rw [← r.aligned,List.length_append]
      exact Nat.le_add_right _ _
    have hpos := L.hdr_pos
    have hhdr := r.hdr_le
    obtain ⟨fuel,rfl⟩ := Nat.exists_eq_succ_of_ne_zero (Nat.ne_zero_of_lt hfuel)
    have hsplit : mem = front++(r.bytes++(r.padding++(encode ms++back))) := by
      rw [hmem,hcons,Record.whole,List.append_assoc,List.append_assoc]
    have hnext : mem = (front++r.whole)++(encode ms++back) := by
      rw [hmem,hcons,List.append_assoc,List.append_assoc]
    have hread : readAt mem front.length L.lenSize = some r.bytes.length := by
      rw [hsplit]
      exact readAt_append_of_some front _ r.len_eq
    have hfront : (front++r.whole).length = front.length+L.alignUp r.bytes.length := by
      rw [List.length_append,Record.whole,r.aligned]
    have hrest : ((encode (m::ms)).length : ℤ)-L.alignUp r.bytes.length = (encode ms).length := by
      rw [hlen]
      push_cast
      ring
    have hv := hview _ hlimit
    rw [walk,if_neg (by rw [hv]; omega),hread,Option.bind_some,if_neg (by rw [hv]; omega),
      hm front _ hsplit s,Option.bind_some,items,List.map_cons,process]
    split
    · rfl
    · rw [hrest,← hfront]
      exact ih hms (front++r.whole) back fuel _ hnext (by omega) (by omega)

end AlignedRecords
