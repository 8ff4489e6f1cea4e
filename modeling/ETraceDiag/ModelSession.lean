import ETraceDiag.ModelClient
import ETraceDiag.WsClient

/-!
# The model client over its calls

`InferAnomaly` is called again and again on one client: connections are made when they are
needed and given up where a request fails, and the failures are counted. A reply that comes too
late is left in a connection that is not read any more.
-/

namespace ETraceDiag
namespace ModelSession

open ByteStream WebSocket WsClient ModelClient JsonGet

variable {F : Type} [Number F]

/-! ## The client -/

/-- What a call meets: whether its text can be sent, and the connection it would get if it needs
a new one, with all that is received on it before a `recv` times out. -/
structure Meeting where
  sends : Bool := true
  connect : Option (UInt32 × Chunks) := none

/-- `InferAnomaly` with the text of its features. -/
structure Call where
  features : AnomalyFeatures
  payload : List UInt8
  meeting : Meeting

structure Client where
  anomaly : Connection
  failures : ℕ := 0

/-- What a call gives: its result, the reply behind it, and whether `NoteFailure` warns. -/
structure Answer (F : Type) where
  result : AnomalyResult F
  reply : Option (List UInt8)
  warned : Bool

/-- `RoundTrip`, where also sending may fail. -/
def trip (m : Meeting) (ws : Connection) (payload : List UInt8) : Trip :=
  let ws := if ws.fd.isSome then ws else
    m.connect.elim { ws with fd := none } fun c => ⟨c.1,some c.2⟩
  if ws.fd.isNone || !m.sends then ⟨none,[],{ ws with fd := none }⟩
  else roundTrip none ws payload

def infer (p : JsonParser F) (s : Client) (c : Call) : Client × Answer F :=
  let t := trip c.meeting s.anomaly c.payload
  match t.reply with
  | none =>
    let n := s.failures+1
    (⟨t.ws,n⟩,⟨c.features.quiet,none,n = 1 || n % 100 = 0⟩)
  | some out => (⟨t.ws,0⟩,⟨inferAnomaly p c.features out,some out,false⟩)

def run (p : JsonParser F) : Client → List Call → List (Answer F)
  | _, [] => []
  | s, c::cs => (infer p s c).2::run p (infer p s c).1 cs

/-! ## Streams with more behind them -/

theorem readExact_more {n : ℕ} {s t : Chunks} {r : List UInt8 × Chunks}
    (h : readExact n s = some r) {rest : List UInt8} (ht : t.bytes = s.bytes++rest) :
    ∃ t', readExact n t = some (r.1,t') ∧ t'.bytes = r.2.bytes++rest := by
  obtain ⟨hn,hs⟩ := readExact_eq h
  rw [hs,List.append_assoc] at ht
  obtain ⟨t',hread,hrest⟩ := readExact_append ht
  exact ⟨t',hn ▸ hread,hrest⟩

theorem readLength_more {short : UInt8} {s t : Chunks} {r : ℕ × Chunks}
    (h : readLength short s = some r) {rest : List UInt8} (ht : t.bytes = s.bytes++rest) :
    ∃ t', readLength short t = some (r.1,t') ∧ t'.bytes = r.2.bytes++rest := by
  unfold readLength at h ⊢
  split_ifs at h ⊢
  · obtain ⟨q,hq,rfl⟩ := Option.map_eq_some_iff.mp h
    obtain ⟨t',hread,hrest⟩ := readExact_more hq ht
    exact ⟨t',by rw [hread]; rfl,hrest⟩
  · obtain ⟨q,hq,rfl⟩ := Option.map_eq_some_iff.mp h
    obtain ⟨t',hread,hrest⟩ := readExact_more hq ht
    exact ⟨t',by rw [hread]; rfl,hrest⟩
  · cases h
    exact ⟨t,rfl,ht⟩

theorem readPayload_more {masked : Bool} {n : ℕ} {s t : Chunks} {r : List UInt8 × Chunks}
    (h : readPayload masked n s = some r) {rest : List UInt8} (ht : t.bytes = s.bytes++rest) :
    ∃ t', readPayload masked n t = some (r.1,t') ∧ t'.bytes = r.2.bytes++rest := by
  unfold readPayload at h ⊢
  split_ifs at h ⊢
  · obtain ⟨k,hk,h⟩ := Option.bind_eq_some_iff.mp h
    obtain ⟨q,hq,rfl⟩ := Option.map_eq_some_iff.mp h
    obtain ⟨t₁,hread₁,hrest₁⟩ := readExact_more hk ht
    obtain ⟨t₂,hread₂,hrest₂⟩ := readExact_more hq hrest₁
    exact ⟨t₂,by rw [hread₁,Option.bind_some,hread₂]; rfl,hrest₂⟩
  · exact readExact_more h ht

theorem readFrame_more {s t : Chunks} {r : (UInt8 × List UInt8) × Chunks}
    (h : readFrame s = some r) {rest : List UInt8} (ht : t.bytes = s.bytes++rest) :
    ∃ t', readFrame t = some (r.1,t') ∧ t'.bytes = r.2.bytes++rest := by
  obtain ⟨hdr,hhdr,h⟩ := Option.bind_eq_some_iff.mp h
  obtain ⟨len,hlen,h⟩ := Option.bind_eq_some_iff.mp h
  obtain ⟨t₁,hread₁,hrest₁⟩ := readExact_more hhdr ht
  obtain ⟨t₂,hread₂,hrest₂⟩ := readLength_more hlen hrest₁
  split_ifs at h with hcap
  obtain ⟨q,hq,rfl⟩ := Option.map_eq_some_iff.mp h
  obtain ⟨t₃,hread₃,hrest₃⟩ := readPayload_more hq hrest₂
  refine ⟨t₃,?_,hrest₃⟩
  rw [readFrame,hread₁,Option.bind_some,hread₂,Option.bind_some,if_neg hcap,hread₃]
  rfl

/-- What is received does not depend on what comes behind it. -/
theorem recvLoop_more (key : UInt32) (fuel : ℕ) : ∀ {s t : Chunks} {r : List UInt8 × Chunks}
    {rest : List UInt8}, (recvLoop key fuel s).1 = some r → t.bytes = s.bytes++rest →
      ∃ t', (recvLoop key fuel t).1 = some (r.1,t') ∧ t'.bytes = r.2.bytes++rest := by
  induction fuel with
  | zero =>
    intro s t r rest h _
    cases h
  | succ fuel ih =>
    intro s t r rest h ht
    cases hread : readFrame s with
    | none =>
      simp only [recvLoop,hread] at h
      cases h
    | some q =>
      obtain ⟨t',hread',hrest'⟩ := readFrame_more hread ht
      obtain ⟨⟨opcode,payload⟩,s'⟩ := q
      simp only [recvLoop,hread,hread'] at h ⊢
      split_ifs at h ⊢
      · cases h
        exact ⟨t',rfl,hrest'⟩
      · cases h
        exact ⟨t',rfl,hrest'⟩
      · exact ih h hrest'
      · exact ih h hrest'

theorem recvText_more {key : UInt32} {s t : Chunks} {r : List UInt8 × Chunks}
    (h : (recvText key s).1 = some r) {rest : List UInt8} (ht : t.bytes = s.bytes++rest) :
    ∃ t', (recvText key t).1 = some (r.1,t') ∧ t'.bytes = r.2.bytes++rest := by
  have hlen : s.bytes.length+1+rest.length = t.bytes.length+1 := by
    rw [ht,List.length_append]
    omega
  have hfuel := recvLoop_fuel key (s.bytes.length+1) s rest.length (Nat.lt_succ_self _)
  refine recvLoop_more key (t.bytes.length+1) ?_ ht
  rw [← hlen,hfuel]
  exact h

/-! ## Replies in order -/

/-- The frame of a reply. -/
def replyFrame (reply : List UInt8) : Frame := ⟨true,.text,none,reply⟩

/-- The beginning of a stream of the replies from the `k`-th request on, cut anywhere, with pings
and pongs anywhere in it. -/
def Replies (reply : ℕ → List UInt8) (k : ℕ) (bytes : List UInt8) : Prop :=
  ∃ (frames : List Frame) (n : ℕ) (missing : List UInt8), (∀ f ∈ frames, Served f) ∧
    (frames.filter fun f => !f.opcode.control) =
      (List.range n).map (fun j => replyFrame (reply (k+j))) ∧
    frames.flatMap encode = bytes++missing

theorem exists_chunks (bytes : List UInt8) : ∃ t : Chunks, t.bytes = bytes := by
  by_cases h : bytes = []
  · exact ⟨⟨[],List.forall_mem_nil _⟩,h.symm⟩
  · exact ⟨⟨[bytes],List.forall_mem_singleton.mpr h⟩,List.append_nil _⟩

theorem filter_dropWhile_control (frames : List Frame) :
    frames.filter (fun f => !f.opcode.control) =
      (frames.dropWhile fun f => f.opcode.control).filter fun f => !f.opcode.control := by
  induction frames with
  | nil => rfl
  | cons f frames ih =>
    cases hf : f.opcode.control with
    | true => simpa only [List.filter_cons,List.dropWhile_cons,hf,Bool.not_true,if_true,
        Bool.false_eq_true,if_false] using ih
    | false => simp only [List.dropWhile_cons,hf,Bool.false_eq_true,if_false]

/-- What is received first is the reply to the first request. -/
theorem Replies.recvText {reply : ℕ → List UInt8} {k : ℕ} {key : UInt32} {s : Chunks}
    (h : Replies reply k s.bytes) {r : List UInt8 × Chunks} (hr : (recvText key s).1 = some r) :
    r.1 = reply k ∧ Replies reply (k+1) r.2.bytes := by
  obtain ⟨frames,n,missing,hserved,hdata,hbytes⟩ := h
  obtain ⟨t,ht⟩ := exists_chunks (frames.flatMap encode)
  obtain ⟨t',hloop,hrest⟩ := recvText_more hr (ht.trans hbytes)
  have hfuel : frames.length < t.bytes.length+1 := by
    rw [ht]
    exact Nat.lt_succ_of_le (length_le_flatMap_encode frames)
  have hserve := recvLoop_served key frames _ t hfuel hserved ht
  rw [filter_dropWhile_control] at hdata
  cases hdrop : frames.dropWhile fun f => f.opcode.control with
  | nil =>
    rw [hdrop] at hserve
    exact absurd (hserve.symm.trans hloop) (by simp)
  | cons d rest =>
    rw [hdrop] at hserve hdata
    obtain ⟨s',hd,hs'⟩ := hserve
    obtain ⟨hout,rfl⟩ := Prod.mk.inj (Option.some.inj (hd.symm.trans hloop))
    have hcontrol : d.opcode.control = false := by
      have hne : frames.dropWhile (fun f => f.opcode.control) ≠ [] := by
        rw [hdrop]
        exact List.cons_ne_nil _ _
      have hhead := List.head_dropWhile_not (fun f : Frame => f.opcode.control) hne
      simpa [hdrop] using hhead
    rw [List.filter_cons,hcontrol,Bool.not_false,if_pos rfl] at hdata
    cases n with
    | zero => cases hdata
    | succ n =>
      rw [List.range_succ_eq_map,List.map_cons,List.map_map] at hdata
      obtain ⟨hfirst,hothers⟩ := List.cons.inj hdata
      refine ⟨?_,rest,n,missing,?_,?_,hs'.symm.trans hrest⟩
      · rw [← hout,hfirst]
        rfl
      · exact fun f hf => hserved f ((List.dropWhile_sublist _).subset
          (hdrop ▸ List.mem_cons_of_mem _ hf))
      · rw [hothers]
        refine List.map_congr_left fun j _ => ?_
        rw [Function.comp_apply,Nat.add_right_comm k 1 j]
        rfl

/-! ## One call -/

/-- The connection a call works on. -/
def stream (m : Meeting) (ws : Connection) : Option (UInt32 × Chunks) :=
  match ws.fd with
  | some s => some (ws.maskKey,s)
  | none => m.connect

/-- What a call receives. -/
def received (m : Meeting) (ws : Connection) : Option (List UInt8 × Chunks) :=
  (if m.sends then stream m ws else none).bind fun c => (recvText c.1 c.2).1

theorem trip_eq (m : Meeting) (ws : Connection) (payload : List UInt8) :
    (trip m ws payload).reply = (received m ws).map Prod.fst ∧
      (trip m ws payload).ws.fd = (received m ws).map Prod.snd := by
  obtain ⟨key,fd⟩ := ws
  obtain ⟨sends,connect⟩ := m
  cases fd <;> cases sends <;> cases connect <;>
    exact ⟨rfl,rfl⟩

/-- How many of the last calls have failed. -/
def streak (answers : List (Answer F)) : ℕ :=
  (answers.reverse.takeWhile fun a => a.reply.isNone).length

omit [Number F] in
theorem streak_concat (answers : List (Answer F)) (a : Answer F) :
    streak (answers++[a]) = if a.reply.isNone then streak answers+1 else 0 := by
  rw [streak,List.reverse_concat,List.takeWhile_cons]
  split <;> rfl

/-- The client after some answers: its counter is their streak, and a connection is open only
behind an answered call. -/
structure After (answers : List (Answer F)) (s : Client) : Prop where
  failures : s.failures = streak answers
  closed : 0 < streak answers ∨ answers = [] → s.anomaly.fd = none

/-- What a call says, given the answers before it. -/
structure Says (p : JsonParser F) (before : List (Answer F)) (c : Call) (a : Answer F) : Prop where
  result : a.result = a.reply.elim c.features.quiet (inferAnomaly p c.features)
  warned : a.warned = true ↔ a.reply = none ∧
    (streak (before++[a]) = 1 ∨ streak (before++[a]) % 100 = 0)
  fresh : 0 < streak before ∨ before = [] → a.reply =
    ((if c.meeting.sends then c.meeting.connect else none).bind fun con =>
      (recvText con.1 con.2).1).map Prod.fst

theorem infer_says (p : JsonParser F) {before : List (Answer F)} {s : Client}
    (h : After before s) (c : Call) :
    Says p before c (infer p s c).2 ∧ After (before++[(infer p s c).2]) (infer p s c).1 := by
  obtain ⟨hreply,hfd⟩ := trip_eq c.meeting s.anomaly c.payload
  have hfresh : 0 < streak before ∨ before = [] → (trip c.meeting s.anomaly c.payload).reply =
      ((if c.meeting.sends then c.meeting.connect else none).bind fun con =>
        (recvText con.1 con.2).1).map Prod.fst := by
    intro hb
    rw [hreply,received,stream,h.closed hb]
  cases hr : received c.meeting s.anomaly with
  | none =>
    rw [hr] at hreply hfd
    have hinfer : infer p s c = (⟨(trip c.meeting s.anomaly c.payload).ws,s.failures+1⟩,
        ⟨c.features.quiet,none,s.failures+1 = 1 || (s.failures+1) % 100 = 0⟩) := by
      rw [infer,hreply]
      rfl
    rw [hinfer]
    refine ⟨⟨rfl,?_,fun hb => hreply.symm.trans (hfresh hb)⟩,⟨?_,fun _ => hfd⟩⟩
    · simp [streak_concat,h.failures]
    · rw [streak_concat,h.failures]
      rfl
  | some r =>
    rw [hr] at hreply hfd
    have hinfer : infer p s c = (⟨(trip c.meeting s.anomaly c.payload).ws,0⟩,
        ⟨inferAnomaly p c.features r.1,some r.1,false⟩) := by
      rw [infer,hreply]
      rfl
    rw [hinfer]
    refine ⟨⟨rfl,?_,fun hb => hreply.symm.trans (hfresh hb)⟩,⟨?_,fun hb => ?_⟩⟩
    · simp
    · rw [streak_concat]
      rfl
    · rcases hb with hb | hb
      · rw [streak_concat] at hb
        exact absurd hb (Nat.lt_irrefl 0)
      · exact absurd hb (by simp)

/-! ## All calls -/

/-- Each new connection carries the replies to the requests from its call on. -/
def Reached (reply : ℕ → List UInt8) (calls : List Call) : Prop :=
  ∀ (k : ℕ) (c : Call), calls[k]? = some c → ∀ con, c.meeting.connect = some con →
    Replies reply k con.2.bytes

theorem received_replies {reply : ℕ → List UInt8} {k : ℕ} {m : Meeting} {ws : Connection}
    (hopen : ∀ s, ws.fd = some s → Replies reply k s.bytes)
    (hnew : ∀ con, m.connect = some con → Replies reply k con.2.bytes)
    {r : List UInt8 × Chunks} (hr : received m ws = some r) :
    r.1 = reply k ∧ Replies reply (k+1) r.2.bytes := by
  obtain ⟨con,hcon,hr⟩ := Option.bind_eq_some_iff.mp hr
  have hstream : Replies reply k con.2.bytes := by
    split at hcon
    · rw [stream] at hcon
      split at hcon
      · next s hs =>
        obtain rfl := Option.some.inj hcon
        exact hopen s hs
      · exact hnew con hcon
    · cases hcon
  exact hstream.recvText hr

theorem run_says (p : JsonParser F) {reply : ℕ → List UInt8} (calls : List Call) :
    ∀ (before : List (Answer F)) (s : Client), After before s →
      (∀ st, s.anomaly.fd = some st → Replies reply before.length st.bytes) →
      (∀ k c, calls[k]? = some c → ∀ con, c.meeting.connect = some con →
        Replies reply (before.length+k) con.2.bytes) →
      ∀ k c a, calls[k]? = some c → (run p s calls)[k]? = some a →
        Says p (before++(run p s calls).take k) c a ∧
          ∀ out, a.reply = some out → out = reply (before.length+k) := by
  induction calls with
  | nil =>
    intro _ _ _ _ _ k c a hc
    cases hc
  | cons c₀ calls ih =>
    intro before s hafter hopen hreached k c a hc ha
    obtain ⟨hanswer,hafter'⟩ := infer_says p hafter c₀
    obtain ⟨hreply,hfd⟩ := trip_eq c₀.meeting s.anomaly c₀.payload
    have hinfer : (infer p s c₀).2.reply = (received c₀.meeting s.anomaly).map Prod.fst ∧
        (infer p s c₀).1.anomaly.fd = (received c₀.meeting s.anomaly).map Prod.snd := by
      rw [infer,hreply,← hfd]
      cases received c₀.meeting s.anomaly <;> exact ⟨rfl,rfl⟩
    have hown : ∀ r, received c₀.meeting s.anomaly = some r →
        r.1 = reply before.length ∧ Replies reply (before.length+1) r.2.bytes :=
      fun r hr => received_replies hopen (fun con hcon => hreached 0 c₀ rfl con hcon) hr
    cases k with
    | zero =>
      obtain rfl := Option.some.inj hc
      obtain rfl := Option.some.inj ha
      refine ⟨by simpa using hanswer,fun out hout => ?_⟩
      obtain ⟨r,hr,rfl⟩ := Option.map_eq_some_iff.mp (hinfer.1.symm.trans hout)
      exact (hown r hr).1
    | succ k =>
      have hlen : (before++[(infer p s c₀).2]).length = before.length+1 := List.length_append
      have hnext := ih (before++[(infer p s c₀).2]) (infer p s c₀).1 hafter'
        (fun st hst => by
          obtain ⟨r,hr,rfl⟩ := Option.map_eq_some_iff.mp (hinfer.2.symm.trans hst)
          rw [hlen]
          exact (hown r hr).2)
        (fun j d hd con hcon => by
          rw [hlen,Nat.add_assoc,Nat.add_comm 1 j]
          exact hreached (j+1) d hd con hcon) k c a hc ha
      rw [hlen,List.append_assoc,Nat.add_assoc,Nat.add_comm 1 k] at hnext
      exact hnext

/-- Every call gets the reply to its own request or none, however connections fail, are cut off
or come back in between: a late reply is never taken for another one. Without a reply there is no
anomaly, the warnings count the calls that have failed in a row, and after a failure a call works
on a connection of its own. -/
theorem replies_matched (p : JsonParser F) {reply : ℕ → List UInt8} {calls : List Call}
    (h : Reached reply calls) (key : UInt32) (k : ℕ) (c : Call) (a : Answer F)
    (hc : calls[k]? = some c) (ha : (run p ⟨⟨key,none⟩,0⟩ calls)[k]? = some a) :
    Says p ((run p ⟨⟨key,none⟩,0⟩ calls).take k) c a ∧ ∀ out, a.reply = some out → out = reply k := by
  have hrun := run_says p calls [] ⟨⟨key,none⟩,0⟩ ⟨rfl,fun _ => rfl⟩
    (fun _ hst => absurd hst (Option.some_ne_none _).symm)
    (fun j d hd con hcon => by
      rw [List.length_nil,Nat.zero_add]
      exact h j d hd con hcon) k c a hc ha
  rw [List.nil_append,List.length_nil,Nat.zero_add] at hrun
  exact hrun

/-- The service is down at the first call and up at the second. -/
def lateService : List Call :=
  [⟨⟨1,10⟩,[97],{}⟩,⟨⟨2,20⟩,[98],{ connect := some (7,⟨[encode (replyFrame [120])],by decide⟩) }⟩]

theorem reached_lateService : Reached (fun _ => [120]) lateService := by
  intro k c hc con hcon
  match k with
  | 0 =>
    obtain rfl := Option.some.inj hc
    cases hcon
  | 1 =>
    obtain rfl := Option.some.inj hc
    obtain rfl := Option.some.inj hcon
    refine ⟨[replyFrame [120]],1,[],?_,rfl,by decide⟩
    intro f hf
    obtain rfl := List.mem_singleton.mp hf
    exact ⟨⟨fun hc => Bool.noConfusion hc,by decide⟩,by decide,.inl rfl⟩
  | k+2 => cases hc

theorem replies_matched_lateService : ∃ a,
    (run badTypeParser ⟨⟨0,none⟩,0⟩ lateService)[1]? = some a ∧
      (a.reply = none ∨ a.reply = some [120]) := by
  refine ⟨_,rfl,?_⟩
  have hreply := (replies_matched badTypeParser reached_lateService 0 1 _ _ rfl rfl).2
  refine or_iff_not_imp_left.mpr fun hne => ?_
  obtain ⟨out,hout⟩ := Option.ne_none_iff_exists'.mp hne
  exact hout.trans (congrArg some (hreply out hout))

end ModelSession
end ETraceDiag
