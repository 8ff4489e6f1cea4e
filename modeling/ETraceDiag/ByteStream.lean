import Mathlib.Algebra.Ring.Nat
import Mathlib.Data.List.Basic
import Mathlib.Tactic.Ring

/-!
# Bytes that arrive in chunks

A receiver sees a stream as the chunks its receive calls return, none of them empty. Reading
an exact number of bytes depends on the bytes only, not on where the chunks end. Numbers
stand in the stream with their most significant byte first.
-/

namespace ByteStream

/-- The last `w` bytes of a number. -/
def beBytes : ℕ → ℕ → List UInt8
  | 0, _ => []
  | w+1, n => UInt8.ofNat (n/256^w) :: beBytes w n

def beValue (bs : List UInt8) : ℕ := bs.foldl (fun a b => 256*a+b.toNat) 0

@[simp] theorem beBytes_length (w n : ℕ) : (beBytes w n).length = w := by
  induction w with
  | zero => rfl
  | succ w ih => simp [beBytes,ih]

theorem foldl_beBytes (w n : ℕ) : ∀ a : ℕ,
    (beBytes w n).foldl (fun a b => 256*a+b.toNat) a = a*256^w+n%256^w := by
  induction w with
  | zero => intro a; simp [beBytes,Nat.mod_one]
  | succ w ih =>
    intro a
    have hbyte : (UInt8.ofNat (n/256^w)).toNat = n/256^w%256 := by simp
    rw [beBytes,List.foldl_cons,ih,hbyte,Nat.mod_pow_succ]
    ring

theorem beValue_beBytes {w n : ℕ} (h : n < 256^w) : beValue (beBytes w n) = n := by
  rw [beValue,foldl_beBytes,Nat.mod_eq_of_lt h,Nat.zero_mul,Nat.zero_add]

/-- The first `n` bytes and what follows them. -/
def splitExact (n : ℕ) (bs : List UInt8) : Option (List UInt8 × List UInt8) :=
  if n ≤ bs.length then some (bs.take n,bs.drop n) else none

@[simp] theorem splitExact_append (front rest : List UInt8) :
    splitExact front.length (front++rest) = some (front,rest) := by
  simp [splitExact]

theorem splitExact_beBytes (w n : ℕ) (rest : List UInt8) :
    splitExact w (beBytes w n++rest) = some (beBytes w n,rest) := by
  have h := splitExact_append (beBytes w n) rest
  rwa [beBytes_length] at h

/-- The chunks that are still to be received. -/
structure Chunks where
  list : List (List UInt8)
  nonempty : ∀ c ∈ list, c ≠ []

def Chunks.bytes (s : Chunks) : List UInt8 := s.list.flatten

/-- One receive call into a buffer of `n` bytes; it fails when nothing comes any more. -/
def recv (n : ℕ) : List (List UInt8) → Option (List UInt8 × List (List UInt8))
  | [] => none
  | c::cs => some (c.take n,if c.drop n = [] then cs else c.drop n :: cs)

theorem recv_nonempty {n : ℕ} {cs : List (List UInt8)} {r : List UInt8 × List (List UInt8)}
    (h : recv n cs = some r) (hcs : ∀ c ∈ cs, c ≠ []) : ∀ c ∈ r.2, c ≠ [] := by
  cases cs with
  | nil => cases h
  | cons c cs =>
    cases h
    by_cases hd : c.drop n = []
    · simp only [if_pos hd]
      exact fun x hx => hcs x (List.mem_cons_of_mem _ hx)
    · simp only [if_neg hd]
      rintro x (_ | ⟨_,hx⟩)
      · exact hd
      · exact hcs x (List.mem_cons_of_mem _ hx)

theorem recv_flatten {n : ℕ} {cs : List (List UInt8)} {r : List UInt8 × List (List UInt8)}
    (h : recv n cs = some r) : r.1++r.2.flatten = cs.flatten := by
  cases cs with
  | nil => cases h
  | cons c cs =>
    cases h
    by_cases hd : c.drop n = []
    · have hc : c.take n = c := List.take_of_length_le (List.drop_eq_nil_iff.mp hd)
      simp only [if_pos hd,hc,List.flatten_cons]
    · simp only [if_neg hd,List.flatten_cons,← List.append_assoc,List.take_append_drop]

theorem recv_length {n : ℕ} {cs : List (List UInt8)} {r : List UInt8 × List (List UInt8)}
    (h : recv (n+1) cs = some r) (hcs : ∀ c ∈ cs, c ≠ []) :
    0 < r.1.length ∧ r.1.length ≤ n+1 := by
  cases cs with
  | nil => cases h
  | cons c cs =>
    cases h
    have hc : 0 < c.length := List.length_pos_iff.mpr (hcs c List.mem_cons_self)
    simp only [List.length_take]
    omega

/-- The loop that receives until `n` bytes are there; every call brings at least one. -/
def readLoop : ℕ → ℕ → List (List UInt8) → Option (List UInt8 × List (List UInt8))
  | _, 0, cs => some ([],cs)
  | 0, _+1, _ => none
  | fuel+1, n+1, cs =>
    match recv (n+1) cs with
    | none => none
    | some r => (readLoop fuel (n+1-r.1.length) r.2).map fun t => (r.1++t.1,t.2)

theorem readLoop_spec (fuel : ℕ) : ∀ (n : ℕ) (cs : List (List UInt8)), n ≤ fuel →
    (∀ c ∈ cs, c ≠ []) → n ≤ cs.flatten.length → ∃ cs', readLoop fuel n cs =
      some (cs.flatten.take n,cs') ∧ cs'.flatten = cs.flatten.drop n ∧ ∀ c ∈ cs', c ≠ [] := by
  induction fuel with
  | zero =>
    intro n cs hn hcs _
    obtain rfl : n = 0 := by omega
    exact ⟨cs,rfl,rfl,hcs⟩
  | succ fuel ih =>
    intro n cs hn hcs hlen
    cases n with
    | zero => exact ⟨cs,rfl,rfl,hcs⟩
    | succ n =>
      cases hr : recv (n+1) cs with
      | none =>
        cases cs with
        | nil => simp at hlen
        | cons c cs => cases hr
      | some r =>
        have hflat := recv_flatten hr
        have hpos := recv_length hr hcs
        have htotal : r.1.length+r.2.flatten.length = cs.flatten.length := by
          rw [← hflat,List.length_append]
        obtain ⟨cs',hread,hrest,hne⟩ := ih (n+1-r.1.length) r.2 (by omega)
          (recv_nonempty hr hcs) (by omega)
        have hdrop : r.1.drop (n+1) = [] := List.drop_eq_nil_iff.mpr hpos.2
        have htake : r.1.take (n+1) = r.1 := List.take_of_length_le hpos.2
        refine ⟨cs',?_,?_,hne⟩
        · simp only [readLoop,hr,hread,Option.map_some,← hflat,List.take_append,htake]
        · rw [hrest,← hflat,List.drop_append,hdrop,List.nil_append]

theorem readLoop_none (fuel : ℕ) : ∀ (n : ℕ) (cs : List (List UInt8)),
    (∀ c ∈ cs, c ≠ []) → cs.flatten.length < n → readLoop fuel n cs = none := by
  induction fuel with
  | zero =>
    intro n cs _ hlen
    obtain ⟨n,rfl⟩ : ∃ m, n = m+1 := ⟨n-1,by omega⟩
    rfl
  | succ fuel ih =>
    intro n cs hcs hlen
    obtain ⟨n,rfl⟩ : ∃ m, n = m+1 := ⟨n-1,by omega⟩
    cases hr : recv (n+1) cs with
    | none => simp only [readLoop,hr]
    | some r =>
      have htotal : r.1.length+r.2.flatten.length = cs.flatten.length := by
        rw [← recv_flatten hr,List.length_append]
      have htail := ih (n+1-r.1.length) r.2 (recv_nonempty hr hcs) (by omega)
      simp only [readLoop,hr,htail,Option.map_none]

/-- Exactly `n` bytes, or a failure. -/
def readExact (n : ℕ) (s : Chunks) : Option (List UInt8 × Chunks) :=
  match h : readLoop n n s.list with
  | none => none
  | some r => some (r.1,⟨r.2,by
      by_cases hlen : n ≤ s.list.flatten.length
      · obtain ⟨cs',hread,_,hne⟩ := readLoop_spec n n s.list le_rfl s.nonempty hlen
        rw [hread] at h
        cases h
        exact hne
      · rw [readLoop_none n n s.list s.nonempty (by omega)] at h
        cases h⟩)

/-- Where the chunks end makes no difference. -/
theorem readExact_append {front rest : List UInt8} {s : Chunks} (h : s.bytes = front++rest) :
    ∃ s', readExact front.length s = some (front,s') ∧ s'.bytes = rest := by
  have hlen : front.length ≤ s.list.flatten.length := by
    change front.length ≤ s.bytes.length
    simp [h]
  obtain ⟨cs',hread,hrest,hne⟩ := readLoop_spec front.length front.length s.list le_rfl
    s.nonempty hlen
  have htake : s.list.flatten.take front.length = front := by
    change s.bytes.take front.length = front
    simp [h]
  have hdrop : cs'.flatten = rest := by
    rw [hrest]
    change s.bytes.drop front.length = rest
    simp [h]
  rw [htake] at hread
  refine ⟨⟨cs',hne⟩,?_,hdrop⟩
  unfold readExact
  split
  · rename_i hnone
    rw [hread] at hnone
    cases hnone
  · rename_i r hsome
    rw [hread] at hsome
    cases hsome
    rfl

theorem splitExact_length {n : ℕ} {bs : List UInt8} {r : List UInt8 × List UInt8}
    (h : splitExact n bs = some r) : r.1.length = n := by
  unfold splitExact at h
  split at h
  · cases h
    simpa
  · cases h

/-- Reading from the chunks is splitting their bytes. -/
theorem readExact_of_splitExact {n : ℕ} {s : Chunks} {r : List UInt8 × List UInt8}
    (h : splitExact n s.bytes = some r) : ∃ s', readExact n s = some (r.1,s') ∧ s'.bytes = r.2 := by
  have hlen := splitExact_length h
  unfold splitExact at h
  split at h
  · cases h
    have hread := readExact_append (List.take_append_drop n s.bytes).symm
    rwa [hlen] at hread
  · cases h

theorem readExact_none {n : ℕ} {s : Chunks} (h : s.bytes.length < n) : readExact n s = none := by
  have hnone := readLoop_none n n s.list s.nonempty h
  unfold readExact
  split
  · rfl
  · rename_i r hsome
    rw [hnone] at hsome
    cases hsome

/-- What was read and what is left make up the stream. -/
theorem readExact_eq {n : ℕ} {s : Chunks} {r : List UInt8 × Chunks} (h : readExact n s = some r) :
    r.1.length = n ∧ s.bytes = r.1++r.2.bytes := by
  by_cases hlen : n ≤ s.bytes.length
  · have hsplit : splitExact n s.bytes = some (s.bytes.take n,s.bytes.drop n) := if_pos hlen
    obtain ⟨s',hread,hrest⟩ := readExact_of_splitExact hsplit
    rw [hread] at h
    cases h
    exact ⟨by simpa using hlen,by rw [hrest,List.take_append_drop]⟩
  · rw [readExact_none (by omega)] at h
    cases h

end ByteStream
