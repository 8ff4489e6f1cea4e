import ETraceDiag.CursorWalk
import ETraceDiag.MapReader
import ETraceDiag.Transition

/-!
# Iterating while the hooks run

`MapSlice::ForEach` one system call at a time; between two of them the hooks delete entries and
put entries in, anywhere in the order of the map. An update of an entry that is there puts it
anywhere too.
-/

namespace ETraceDiag
namespace MapIteration

open CursorMap MapReader Transition

variable {κ : Type} [DecidableEq κ]

/-- Before `bpf_map_get_next_key` after a key (none at first), before `bpf_map_lookup_elem` of
the key it gave, or out of the loop. -/
inductive Pc (κ : Type)
  | next (prev : Option κ)
  | lookup (next : κ)
  | done

/-- `stayed` is history: the keys that have been in the map all the time of the iteration. -/
structure State (κ : Type) where
  map : Entries κ
  pc : Pc κ := .next none
  calls : List (κ × List UInt8) := []
  stayed : List κ

/-- A system call of `ForEach`, or a change by a hook. -/
inductive Event (κ : Type)
  | advance
  | delete (k : κ)
  | update (k : κ) (slots : List (List UInt8)) (place : ℕ)

def started (m : Entries κ) : State κ := { map := m, stayed := keys m }

def State.advance (sl : MapSlice) (s : State κ) : State κ :=
  match s.pc with
  | .next prev =>
    match nextKey s.map prev with
    | none => { s with pc := .done }
    | some next => { s with pc := .lookup next }
  | .lookup next =>
    match bpfMapLookupElem s.map next [] with
    | none => { s with pc := .done }
    | some buf =>
      { s with pc := .next (some next), calls := s.calls++[(next,sl.callbackValue buf)] }
  | .done => s

/-- What is left in the map until the iteration ends has stayed. -/
def State.change (m : Entries κ) (s : State κ) : State κ :=
  match s.pc with
  | .done => { s with map := m }
  | _ => { s with map := m, stayed := s.stayed.filter (· ∈ keys m) }

def step (sl : MapSlice) (s : State κ) : Event κ → State κ
  | .advance => s.advance sl
  | .delete k => s.change (erase s.map k)
  | .update k slots place => s.change (insertAt s.map k slots place)

/-! ## Without changes -/

/-- Alone it makes the calls of `forEachLoop`, two steps for each. -/
theorem run_alone (sl : MapSlice) (n : ℕ) : ∀ (prev : Option κ) (s : State κ), s.pc = .next prev →
    (run (step sl) s (List.replicate (2*n) .advance)).calls =
      s.calls++sl.forEachLoop s.map n prev := by
  have hdone : ∀ (k : ℕ) (s : State κ), s.pc = .done →
      (run (step sl) s (List.replicate k .advance)).calls = s.calls := by
    intro k
    induction k with
    | zero => intro s _; rfl
    | succ k ih =>
      intro s hs
      have hstay : step sl s .advance = s := by simp [step,State.advance,hs]
      rw [List.replicate_succ,run_cons,hstay,ih s hs]
  induction n with
  | zero => intro prev s _; simp [MapSlice.forEachLoop]
  | succ n ih =>
    intro prev s hs
    rw [Nat.mul_succ,List.replicate_succ,List.replicate_succ,run_cons,run_cons]
    cases hnext : nextKey s.map prev with
    | none =>
      have hfirst : step sl s .advance = { s with pc := .done } := by
        simp [step,State.advance,hs,hnext]
      have hsecond : step sl { s with pc := .done } .advance = { s with pc := .done } := by
        simp [step,State.advance]
      rw [hfirst,hsecond,hdone _ _ rfl]
      simp [MapSlice.forEachLoop,hnext]
    | some next =>
      have hfirst : step sl s .advance = { s with pc := .lookup next } := by
        simp [step,State.advance,hs,hnext]
      rw [hfirst]
      cases hlookup : bpfMapLookupElem s.map next [] with
      | none =>
        have hsecond : step sl { s with pc := .lookup next } .advance =
            { s with pc := .done } := by
          simp [step,State.advance,hlookup]
        rw [hsecond,hdone _ _ rfl]
        simp [MapSlice.forEachLoop,hnext,hlookup]
      | some buf =>
        have hsecond : step sl { s with pc := .lookup next } .advance =
            { s with
              pc := .next (some next)
              calls := s.calls++[(next,sl.callbackValue buf)] } := by
          simp [step,State.advance,hlookup]
        rw [hsecond,ih (some next) _ rfl]
        simp [MapSlice.forEachLoop,hnext,hlookup]

theorem alone_forEach (sl : MapSlice) (hvalid : sl.valid = true) (m : Entries κ) :
    (run (step sl) (started m) (List.replicate (2*(m.length+1)) .advance)).calls =
      sl.forEach m := by
  rw [run_alone sl _ none (started m) rfl,MapSlice.forEach,if_pos hvalid]
  rfl

/-! ## It ends -/

theorem lookup_of_mem_keys {m : Entries κ} {k : κ} (h : k ∈ keys m) :
    ∃ buf, bpfMapLookupElem m k [] = some buf := by
  obtain ⟨pre,e,post,rfl,rfl,hpre⟩ := exists_split h
  exact ⟨_,bpfMapLookupElem_split hpre⟩

/-- On its own the iteration comes to an end. -/
def Ends (sl : MapSlice) (s : State κ) : Prop :=
  ∃ n, (run (step sl) s (List.replicate n .advance)).pc = .done

theorem ends_of_done {sl : MapSlice} {s : State κ} (h : s.pc = .done) : Ends sl s := ⟨0,h⟩

theorem ends_of_step {sl : MapSlice} {s : State κ} (h : Ends sl (s.advance sl)) : Ends sl s := by
  obtain ⟨n,hn⟩ := h
  exact ⟨n+1,hn⟩

/-- From a key of the map, by induction on the keys ahead. -/
theorem ends_of_ahead (sl : MapSlice) (left : List κ) : ∀ (prev : Option κ) (s : State κ),
    (keys s.map).Nodup → s.pc = .next prev → Present s.map prev → ahead s.map prev = left →
      Ends sl s := by
  induction left with
  | nil =>
    intro prev s _ hpc hprev hleft
    refine ends_of_step (ends_of_done ?_)
    simp [State.advance,hpc,nextKey_eq_head? hprev,hleft]
  | cons k left ih =>
    intro prev s hn hpc hprev hleft
    have hmem : k ∈ keys s.map := mem_of_mem_ahead (hleft ▸ List.mem_cons_self)
    obtain ⟨buf,hbuf⟩ := lookup_of_mem_keys hmem
    refine ends_of_step ?_
    have hfirst : s.advance sl = { s with pc := .lookup k } := by
      simp [State.advance,hpc,nextKey_eq_head? hprev,hleft]
    rw [hfirst]
    refine ends_of_step (ih (some k) _ ?_ ?_ ?_ ?_)
    · simpa [State.advance,hbuf] using hn
    · simp [State.advance,hbuf]
    · simpa [State.advance,hbuf,Present] using hmem
    · simpa [State.advance,hbuf] using ahead_step hn hprev hleft

theorem ends_of_next (sl : MapSlice) {s : State κ} (hn : (keys s.map).Nodup) {prev : Option κ}
    (hpc : s.pc = .next prev) : Ends sl s := by
  by_cases hprev : Present s.map prev
  · exact ends_of_ahead sl _ prev s hn hpc hprev rfl
  · -- the key is gone and the walk starts again
    obtain ⟨k,rfl,hk⟩ : ∃ k, prev = some k ∧ k ∉ keys s.map := by
      simpa [Present] using hprev
    have hends := ends_of_ahead sl _ none { s with pc := .next none } hn rfl nofun rfl
    obtain ⟨n,hdone⟩ := hends
    cases n with
    | zero => cases hdone
    | succ n =>
      refine ⟨n+1,?_⟩
      have hsame : s.advance sl = ({ s with pc := .next none } : State κ).advance sl := by
        simp [State.advance,hpc,nextKey_absent hk]
      rw [List.replicate_succ,run_cons] at hdone ⊢
      exact (congrArg (fun t => (run (step sl) t _).pc) hsame).trans hdone

theorem ends (sl : MapSlice) {s : State κ} (hn : (keys s.map).Nodup) : Ends sl s := by
  cases hpc : s.pc with
  | next prev => exact ends_of_next sl hn hpc
  | lookup k =>
    refine ends_of_step ?_
    cases hbuf : bpfMapLookupElem s.map k [] with
    | none => exact ends_of_done (by simp [State.advance,hpc,hbuf])
    | some buf =>
      have hnext : (s.advance sl).pc = .next (some k) := by simp [State.advance,hpc,hbuf]
      refine ends_of_next sl ?_ hnext
      simpa [State.advance,hpc,hbuf] using hn
  | done => exact ends_of_done hpc

/-! ## Every key once -/

/-- The key the iteration stands at. -/
def State.cursor (s : State κ) : Option κ :=
  match s.pc with
  | .next prev => prev
  | .lookup next => some next
  | .done => none

/-- The keys it has still to call. -/
def State.left (s : State κ) : List κ :=
  match s.pc with
  | .next prev => ahead s.map prev
  | .lookup next => next::ahead s.map (some next)
  | .done => []

/-- No hook takes away the entry that the iteration stands at, or moves another one across it. -/
def Event.Undisturbed (s : State κ) : Event κ → Prop
  | .advance => True
  | .delete k => s.pc ≠ .done → Steady s.map (erase s.map k) s.cursor
  | .update k slots place => s.pc ≠ .done → Steady s.map (insertAt s.map k slots place) s.cursor

structure Inv (s : State κ) : Prop where
  nodup : (keys s.map).Nodup
  cursor : Present s.map s.cursor
  stayed : s.pc ≠ .done → ∀ k ∈ s.stayed, k ∈ keys s.map
  once : ∀ k ∈ s.stayed, (s.calls.map Prod.fst++s.left).count k = 1

theorem inv_started {m : Entries κ} (hn : (keys m).Nodup) : Inv (started m) :=
  ⟨hn,nofun,fun _ _ => id,fun _ => List.count_eq_one_of_mem hn⟩

theorem Inv.advance {s : State κ} (h : Inv s) (sl : MapSlice) : Inv (s.advance sl) := by
  cases hpc : s.pc with
  | next prev =>
    have hprev : Present s.map prev := by simpa [State.cursor,hpc] using h.cursor
    cases hahead : ahead s.map prev with
    | nil =>
      have hstep : s.advance sl = { s with pc := .done } := by
        simp [State.advance,hpc,nextKey_eq_head? hprev,hahead]
      rw [hstep]
      refine ⟨h.nodup,nofun,fun hne => absurd rfl hne,fun k hk => ?_⟩
      simpa [State.left,hpc,hahead] using h.once k hk
    | cons k rest =>
      have hstep : s.advance sl = { s with pc := .lookup k } := by
        simp [State.advance,hpc,nextKey_eq_head? hprev,hahead]
      rw [hstep]
      refine ⟨h.nodup,?_,fun _ => h.stayed (by simp [hpc]),fun j hj => ?_⟩
      · rintro j ⟨⟩
        exact mem_of_mem_ahead (hahead ▸ List.mem_cons_self)
      · simpa [State.left,hpc,hahead,ahead_step h.nodup hprev hahead] using h.once j hj
  | lookup k =>
    obtain ⟨buf,hbuf⟩ := lookup_of_mem_keys (h.cursor k (by simp [State.cursor,hpc]))
    have hstep : s.advance sl = { s with
        pc := .next (some k)
        calls := s.calls++[(k,sl.callbackValue buf)] } := by
      simp [State.advance,hpc,hbuf]
    rw [hstep]
    refine ⟨h.nodup,?_,fun _ => h.stayed (by simp [hpc]),fun j hj => ?_⟩
    · simpa [State.cursor,hpc] using h.cursor
    · simpa [State.left,hpc] using h.once j hj
  | done =>
    have hstep : s.advance sl = s := by simp [State.advance,hpc]
    rwa [hstep]

theorem State.left_nodup {s : State κ} (hn : (keys s.map).Nodup) : s.left.Nodup := by
  have hahead : ∀ c, (ahead s.map c).Nodup := fun c => by
    cases c with
    | none => exact hn
    | some c =>
      exact ((hn.sublist ((List.dropWhile_sublist _).map _)).sublist (List.tail_sublist _))
  cases hpc : s.pc with
  | next prev => simpa [State.left,hpc] using hahead prev
  | lookup k =>
    have hself : k ∉ ahead s.map (some k) := fun hmem => by
      have hpair := hn.sublist (mem_ahead_some.mp hmem)
      simp at hpair
    simpa [State.left,hpc] using ⟨hself,hahead (some k)⟩
  | done => simp [State.left,hpc]

theorem Inv.change {s : State κ} (h : Inv s) {m : Entries κ} (hn : (keys m).Nodup)
    (hsteady : s.pc ≠ .done → Steady s.map m s.cursor) : Inv (s.change m) := by
  by_cases hdone : s.pc = .done
  · have hstep : s.change m = { s with map := m } := by simp [State.change,hdone]
    rw [hstep]
    refine ⟨hn,?_,fun hne => absurd hdone hne,fun k hk => ?_⟩
    · simp [State.cursor,hdone,Present]
    · simpa [State.left,hdone] using h.once k hk
  · have hst := hsteady hdone
    have hstep : s.change m = { s with map := m, stayed := s.stayed.filter (· ∈ keys m) } := by
      cases hpc : s.pc with
      | done => exact absurd hpc hdone
      | next prev => simp [State.change,hpc]
      | lookup k => simp [State.change,hpc]
    rw [hstep]
    refine ⟨hn,hst.present,fun _ k hk => by simpa using (List.mem_filter.mp hk).2,fun k hk => ?_⟩
    have hk' := List.mem_filter.mp hk
    have hmem : k ∈ s.left ↔ k ∈ ({ s with map := m } : State κ).left := by
      have hahead := hst.ahead k (h.stayed hdone k hk'.1) (by simpa using hk'.2)
      cases hpc : s.pc with
      | done => exact absurd hpc hdone
      | next prev => simpa [State.left,State.cursor,hpc] using hahead
      | lookup c => simpa [State.left,State.cursor,hpc] using or_congr_right hahead
    have honce := h.once k hk'.1
    rw [List.count_append,(State.left_nodup h.nodup).count] at honce
    rw [List.count_append]
    have hleft := (State.left_nodup (s:={ s with map := m }) hn).count (a:=k)
    change _+List.count k ({ s with map := m } : State κ).left = 1
    rw [hleft]
    simpa only [hmem] using honce

theorem Inv.step {s : State κ} (h : Inv s) (sl : MapSlice) {e : Event κ} (he : e.Undisturbed s) :
    Inv (step sl s e) := by
  cases e with
  | advance => exact h.advance sl
  | delete k => exact h.change (nodup_keys_erase h.nodup k) he
  | update k slots place => exact h.change (nodup_keys_insertAt h.nodup k slots place) he

theorem nodup_step {s : State κ} (hn : (keys s.map).Nodup) (sl : MapSlice) (e : Event κ) :
    (keys (step sl s e).map).Nodup := by
  have hchange : ∀ {m : Entries κ}, (keys m).Nodup → (keys (s.change m).map).Nodup := by
    intro m hm
    rw [State.change]
    split <;> exact hm
  cases e with
  | advance =>
    rw [step,State.advance]
    split
    · split <;> exact hn
    · split <;> exact hn
    · exact hn
  | delete k => exact hchange (nodup_keys_erase hn k)
  | update k slots place => exact hchange (nodup_keys_insertAt hn k slots place)

theorem nodup_run (sl : MapSlice) (events : List (Event κ)) : ∀ {s : State κ},
    (keys s.map).Nodup → (keys (run (step sl) s events).map).Nodup := by
  induction events with
  | nil => exact id
  | cons e events ih => exact fun hn => ih (nodup_step hn sl e)

/-- A delete of any other key leaves the iteration undisturbed. -/
theorem Inv.undisturbed_delete {s : State κ} (h : Inv s) {k : κ} (hk : s.cursor ≠ some k) :
    (Event.delete k).Undisturbed s := fun _ => steady_erase h.cursor hk

/-- So does an insert of a key that is not there. -/
theorem Inv.undisturbed_insert {s : State κ} (h : Inv s) {k : κ} (hk : k ∉ keys s.map)
    (slots : List (List UInt8)) (place : ℕ) : (Event.update k slots place).Undisturbed s :=
  fun _ => steady_insertAt h.cursor hk slots place

/-- The iteration ends once the changes do, and has called every key that stayed once if they
left it undisturbed. -/
theorem forEach_run (sl : MapSlice) {m : Entries κ} (hn : (keys m).Nodup)
    (events : List (Event κ)) :
    (∃ n, (run (step sl) (started m) (events++List.replicate n .advance)).pc = .done) ∧
      (Along (step sl) (fun s e => e.Undisturbed s) (started m) events →
        (run (step sl) (started m) events).pc = .done →
          ∀ k ∈ (run (step sl) (started m) events).stayed,
            ((run (step sl) (started m) events).calls.map Prod.fst).count k = 1) := by
  refine ⟨?_,fun hundisturbed hdone k hk => ?_⟩
  · obtain ⟨n,hends⟩ := ends sl (nodup_run sl events (s:=started m) hn)
    exact ⟨n,by rwa [run_append]⟩
  · have hinv := (Along.of_invariant (step sl) (P:=fun _ _ => True)
      (fun s e h he => Inv.step (s:=s) h sl he) (fun _ _ _ _ => trivial) events _
      (inv_started hn) hundisturbed).2
    have honce := hinv.once k hk
    simpa [State.left,hdone] using honce

/-! ## A socket that closes -/

def flows : MapSlice := ⟨true,false,8,1⟩

def twoSockets : Entries ℕ := [(1,[[1]]),(2,[[2]])]

/-- A socket that has been called closes while the next one is looked up. -/
def closedBehind : List (Event ℕ) := [.advance,.advance,.advance,.delete 1,.advance,.advance]

theorem forEach_run_closedBehind :
    (run (step flows) (started twoSockets) closedBehind).pc = .done ∧
      ((run (step flows) (started twoSockets) closedBehind).calls.map Prod.fst).count 2 = 1 := by
  have hsteady : Steady twoSockets (erase twoSockets 1) (some 2) :=
    steady_erase (by rintro k ⟨⟩; decide) (by decide)
  exact ⟨rfl,(forEach_run flows (m:=twoSockets) (by decide) closedBehind).2
    ⟨trivial,trivial,trivial,fun _ => hsteady,trivial,trivial,trivial⟩ rfl 2 (by decide)⟩

/-- The first socket closes before it is looked up. -/
theorem closed_not_called : ¬∀ (sl : MapSlice) (m : Entries ℕ), (keys m).Nodup →
    ∀ events : List (Event ℕ), (run (step sl) (started m) events).pc = .done →
      ∀ k ∈ (run (step sl) (started m) events).stayed,
        ((run (step sl) (started m) events).calls.map Prod.fst).count k = 1 := by
  intro h
  have hcount := h flows twoSockets (by decide) [.advance,.delete 1,.advance] rfl 2 (by decide)
  revert hcount
  decide

end MapIteration
end ETraceDiag
