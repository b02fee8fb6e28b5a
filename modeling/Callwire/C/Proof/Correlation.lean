import Callwire.C.Client
import Callwire.C.Proof.Replies

/-!
# The client and the ids of its calls

The client takes whatever frame is next: it never looks at an id, and every type but `error` is a
result. That is right as long as nothing but the answer can be next. `Client.owed` are the requests
whose answer has not been read to its end. If an operation begins only when nothing is owed and the
server sends only frames that answer an owed request in its call pattern (`InTurn`), then every call
gets its own answer.
-/

namespace Callwire.C

open Lib List Conn Client

/-! ## What the server owes -/

def endsCall (msg : WireMessage) : Bool :=
  typeIs msg "response" || typeIs msg "error" || typeIs msg "stream_end"

def Pattern.answers : Pattern → WireMessage → Bool
  | .unary, msg | .clientStream, msg => typeIs msg "response" || typeIs msg "error"
  | .serverStream, msg | .bidi, msg =>
    typeIs msg "stream_chunk" || typeIs msg "stream_end" || typeIs msg "error"

/-- The requests owed an answer after one more event. -/
def owedAfter (owed : List (Pattern × BitVec 64)) : ClientEvent → List (Pattern × BitVec 64)
  | .asked pattern id => owed ++ [(pattern, id)]
  | .returned r =>
    match r.frame with
    | some msg => if endsCall msg then owed.eraseP (·.2 == msg.id) else owed
    | none => owed

def Client.owed (c : Client) : List (Pattern × BitVec 64) := c.trace.foldl owedAfter []

/-- The call pattern a waiting call belongs to, with the id it was given. -/
def Api.awaits : Api → Option (Pattern × Option (BitVec 64))
  | .call _ _ => some (.unary, none)
  | .streamRecv id => some (.serverStream, some id)
  | .exportStreamClose id => some (.clientStream, some id)
  | .bidiStreamRecv id => some (.bidi, some id)
  | _ => none

/-- One operation after the other, and a server that only answers: a call that sends a request is
made when nothing is owed, one that reads from a stream when that stream's answer is owed, and the
frame read answers a request that is owed. -/
def InTurn (c : Client) : ClientLabel → Prop
  | .invoke api _ =>
    match api with
    | .call _ _ | .streamBegin _ _ | .exportStreamBegin _ | .bidiStreamBegin _ => c.owed = []
    | .streamRecv id => c.owed = [(.serverStream, id)]
    | .exportStreamClose id => c.owed = [(.clientStream, id)]
    | .bidiStreamRecv id => c.owed = [(.bidi, id)]
    | _ => True
  | .read none => True
  | .read (some p) => ∃ msg, callwireCodecDecode .ok p = .ok (some msg) ∧
      ∃ o ∈ c.owed, o.2 = msg.id ∧ o.1.answers msg = true

/-! ## Correlation -/

/-- The value is the result of a response under the id `k`. -/
def HasResponse (r : Returned) (k : BitVec 64) : Prop :=
  ∀ out, r.ret = .rc 0 out → ∃ msg, r.frame = some msg ∧ typeIs msg "response" = true ∧
    msg.id = k ∧ out = some msg.result

/-- The frame read for a chunk or the end of a stream has the id `k`. -/
def HasFrame (r : Returned) (k : BitVec 64) : Prop :=
  ∀ code out, r.ret = .rc code out → code = 0 ∨ code = 1 → ∃ msg, r.frame = some msg ∧ msg.id = k

/-- A call that succeeds has the result of the response under its own id; a receive that succeeds
has read a frame of its own stream. -/
def Correlated (r : Returned) : Prop :=
  match r.api with
  | .call _ _ => HasResponse r r.id
  | .exportStreamClose streamId => HasResponse r streamId
  | .streamRecv streamId | .bidiStreamRecv streamId => HasFrame r streamId
  | _ => True

/-- The invariant: every call that has returned is correlated, and what the waiting call waits for
is all that is owed. -/
structure Corresponds (c : Client) : Prop where
  trace : ∀ r, .returned r ∈ c.trace → Correlated r
  waiting : ∀ api id, c.waiting = some (api, id) →
    ∃ pattern given, api.awaits = some (pattern, given) ∧
    c.owed = [(pattern, id)] ∧ ∀ k, given = some k → k = id

theorem Corresponds.connect : Corresponds .connect :=
  ⟨nofun, nofun⟩

section
variable {c d : Client} {api : Api} {id : BitVec 64} {pattern : Pattern}
  {frame : Option WireMessage}

theorem Corresponds.done (h : Corresponds c) (htr : d.trace = c.trace) {ret : Return}
    (hr : Correlated ⟨api, id, frame, ret⟩) : Corresponds (d.done api id frame ret) := by
  refine ⟨fun r hm => ?_, nofun⟩
  rw [Client.done, htr] at hm
  rcases mem_concat_cases hm with hm | hm
  · exact h.trace r hm
  · cases hm
    exact hr

theorem correlated_failed : Correlated ⟨api, id, frame, .rc (-1) none⟩ := by
  unfold Correlated
  cases api <;> simp [HasResponse, HasFrame]

theorem correlated_of_awaits {ret : Return} (h : api.awaits = none) :
    Correlated ⟨api, id, frame, ret⟩ := by
  unfold Correlated
  cases api <;> trivial

theorem Corresponds.returned_asked (h : Corresponds c) {k : BitVec 64} :
    ∀ r, .returned r ∈ c.trace ++ [.asked pattern k] → Correlated r := by
  intro r hr
  rcases mem_concat_cases hr with hr | hr
  · exact h.trace r hr
  · cases hr

theorem writeFrame_cases (c : Client) (m : Outgoing) (text : Bytes) (ok : Bool) :
    (∃ p, m.payload = some p ∧ p.length ≤ callwireMaxFrameSize ∧ ok = true ∧
      c.writeFrame m text ok = (true, { c with out := c.out ++ [m] })) ∨
    ∃ e, c.writeFrame m text ok = (false, { c with error := e }) := by
  unfold writeFrame
  split
  · exact .inr ⟨_, rfl⟩
  · rename_i p hp
    split
    · rename_i hw
      refine .inl ⟨p, hp, ?_, rfl, rfl⟩
      unfold callwireFramingWriteFrame at hw
      split at hw
      · cases hw
      · omega
    · exact .inr ⟨_, rfl⟩

theorem Client.writeFrame_frameable (c : Client) {m : Outgoing} (text : Bytes) (h : m.Frameable) :
    c.writeFrame m text true = (true, { c with out := c.out ++ [m] }) := by
  obtain ⟨p, hp, hl⟩ := h
  simp only [writeFrame, hp, callwireFramingWriteFrame, if_neg (Nat.not_lt.2 hl)]

theorem ask_cases (c : Client) (pattern : Pattern) (m : BitVec 64 → Outgoing) (text : Bytes)
    (ok : Bool) :
    (∃ p, (m (c.nextId + 1)).payload = some p ∧ p.length ≤ callwireMaxFrameSize ∧ ok = true ∧
      c.ask pattern m text ok = (some (c.nextId + 1), { c with
        nextId := c.nextId + 1, out := c.out ++ [m (c.nextId + 1)],
        trace := c.trace ++ [.asked pattern (c.nextId + 1)] })) ∨
    ∃ e, c.ask pattern m text ok = (none, { c with nextId := c.nextId + 1, error := e }) := by
  unfold ask
  rcases writeFrame_cases { c with nextId := c.nextId + 1 } (m (c.nextId + 1)) text ok with
    ⟨p, hp, hl, hok, hw⟩ | ⟨e, hw⟩
  · exact .inl ⟨p, hp, hl, hok, by simp only [hw]⟩
  · exact .inr ⟨e, by simp only [hw]⟩

theorem Client.ask_frameable (c : Client) (pattern : Pattern) {m : BitVec 64 → Outgoing}
    (text : Bytes) (h : (m (c.nextId + 1)).Frameable) :
    c.ask pattern m text true = (some (c.nextId + 1), { c with
      nextId := c.nextId + 1, out := c.out ++ [m (c.nextId + 1)],
      trace := c.trace ++ [.asked pattern (c.nextId + 1)] }) := by
  simp only [ask, writeFrame_frameable _ text h]

theorem owed_asked (h : c.owed = []) {c' : Client}
    (ht : c'.trace = c.trace ++ [.asked pattern id]) : c'.owed = [(pattern, id)] := by
  rw [owed, ht, foldl_append, ← owed, h]
  rfl

theorem Corresponds.beginStream (h : Corresponds c) {func : Option CString}
    {m : BitVec 64 → CString → Outgoing} {text : Bytes} {ok : Bool} (ha : api.awaits = none) :
    Corresponds (c.beginStream api pattern func m text ok) := by
  unfold Client.beginStream
  split
  · exact h.done (by rfl) (correlated_of_awaits ha)
  · rename_i f
    rcases ask_cases c pattern (m · f) text ok with ⟨p, -, -, -, hw⟩ | ⟨e, hw⟩ <;> simp only [hw]
    · refine Corresponds.done (c := { c with
        trace := c.trace ++ [.asked pattern (c.nextId + 1)], waiting := none }) ?_ (by rfl)
        (correlated_of_awaits ha)
      exact ⟨h.returned_asked, nofun⟩
    · exact h.done (by rfl) (correlated_of_awaits ha)

theorem Corresponds.sendOnly (h : Corresponds c) {m : Outgoing} {text : Bytes} {ok : Bool}
    (ha : api.awaits = none) : Corresponds (c.sendOnly api id m text ok) := by
  unfold Client.sendOnly
  rcases writeFrame_cases c m text ok with ⟨p, -, -, -, hw⟩ | ⟨e, hw⟩ <;> rw [hw] <;>
    exact h.done (by rfl) (correlated_of_awaits ha)

theorem Corresponds.wait (htr : ∀ r, .returned r ∈ d.trace → Correlated r)
    (hw : d.waiting = some (api, id)) {given : Option (BitVec 64)}
    (ha : api.awaits = some (pattern, given)) (ho : d.owed = [(pattern, id)])
    (hg : ∀ k, given = some k → k = id) : Corresponds d := by
  refine ⟨htr, fun api' id' hw' => ?_⟩
  rw [hw] at hw'
  cases hw'
  exact ⟨pattern, given, ha, ho, hg⟩

theorem Corresponds.invoke (h : Corresponds c) (ok : Bool) (ht : InTurn c (.invoke api ok)) :
    Corresponds (c.invoke api ok) := by
  unfold Client.invoke
  cases api with
  | call func args =>
    cases func with
    | none => exact h.done (by rfl) correlated_failed
    | some f =>
      simp only
      rcases ask_cases c .unary (.request · (some f) args) (lit "failed to encode request") ok with
        ⟨p, -, -, -, hw⟩ | ⟨e, hw⟩ <;> rw [hw]
      · exact .wait h.returned_asked rfl rfl (owed_asked ht rfl) nofun
      · exact h.done (by rfl) correlated_failed
  | streamBegin | exportStreamBegin | bidiStreamBegin => exact h.beginStream rfl
  | exportStreamSend | bidiStreamSend | bidiStreamCloseSend => exact h.sendOnly rfl
  | streamRecv streamId | bidiStreamRecv streamId =>
    exact .wait h.trace rfl rfl ht fun k hk => (Option.some.inj hk).symm
  | exportStreamClose streamId =>
    simp only
    rcases writeFrame_cases c (.streamClose streamId) (lit "failed to encode stream close") ok with
      ⟨p, -, -, -, hw⟩ | ⟨e, hw⟩ <;> rw [hw]
    · exact .wait h.trace rfl rfl ht fun k hk => (Option.some.inj hk).symm
    · exact h.done (by rfl) correlated_failed

theorem takeReply_trace (c : Client) (msg : WireMessage) :
    (c.takeReply msg).2.trace = c.trace := by
  unfold takeReply
  split <;> rfl

theorem takeChunk_trace (c : Client) (msg : WireMessage) :
    (c.takeChunk msg).2.trace = c.trace := by
  unfold takeChunk
  split
  · rfl
  split
  · rfl
  split <;> rfl

theorem takeReply_response (c : Client) {msg : WireMessage} {k : BitVec 64}
    (ha : (typeIs msg "response" || typeIs msg "error") = true) (hk : msg.id = k) :
    HasResponse ⟨api, id, some msg, (c.takeReply msg).1⟩ k := by
  intro out h
  unfold takeReply at h
  split at h
  · simp at h
  · rename_i he
    simp only [Return.rc.injEq, true_and] at h
    rw [Bool.not_eq_true] at he
    rw [he, Bool.or_false] at ha
    exact ⟨msg, rfl, ha, hk, h.symm⟩

theorem Corresponds.read (h : Corresponds c) (hw : c.waiting = some (api, id))
    {payload : Option Payload} (ht : InTurn c (.read payload)) :
    Corresponds (c.read api id payload) := by
  obtain ⟨pattern, given, ha, howed, hgiven⟩ := h.waiting api id hw
  unfold Client.read Client.readWireMessage
  cases payload with
  | none => exact h.done (by rfl) correlated_failed
  | some p =>
    obtain ⟨msg, hd, o, ho, hoid, hans⟩ := ht
    -- all that is owed is what the call waits for
    rw [howed] at ho
    obtain rfl := mem_singleton.1 ho
    simp only [hd]
    cases api with
    | call func args =>
      cases ha
      exact h.done (takeReply_trace c msg) (takeReply_response c hans hoid.symm)
    | exportStreamClose streamId =>
      cases ha
      obtain rfl := hgiven _ rfl
      exact h.done (takeReply_trace c msg) (takeReply_response c hans hoid.symm)
    | streamRecv streamId | bidiStreamRecv streamId =>
      cases ha
      obtain rfl := hgiven _ rfl
      exact h.done (takeChunk_trace c msg) fun _ _ _ _ => ⟨msg, rfl, hoid.symm⟩
    | _ => cases ha

theorem Corresponds.step {l : ClientLabel} (h : Corresponds c) (ht : InTurn c l)
    (hs : c.step l = some d) : Corresponds d := by
  unfold Client.step at hs
  split at hs
  · split at hs
    · cases hs
      exact h.invoke _ ht
    · cases hs
  · split at hs
    · rename_i hw
      cases hs
      exact h.read hw ht
    · cases hs

end

/-- **In turn, every call gets its own answer.** -/
theorem client_correlated (ls : List ClientLabel) (c : Client)
    (hok : Along Client.step InTurn .connect ls) (hrun : run Client.step .connect ls = some c) :
    ∀ r, .returned r ∈ c.trace → Correlated r := by
  have hstep : ∀ s l s', Corresponds s → InTurn s l → s.step l = some s' → Corresponds s' :=
    fun s l s' h ht hs => h.step ht hs
  exact (run_invariant hstep .connect hok hrun).trace

/-! ## Out of turn -/

section

def nameF : CString := ⟨lit "f", lit_f⟩

theorem requestF_frameable (id : BitVec 64) : (Outgoing.request id (some nameF) []).Frameable :=
  frameable_of_size (Nat.le_of_ble_eq_true rfl)

def replyF : Payload :=
  .mem ([0x83, 0xA2] ++ lit "id" ++ [0x01, 0xA4] ++ lit "type" ++ [0xA8] ++ lit "response" ++
    [0xA6] ++ lit "result" ++ [0xC0]) (by decide)

/-- The client after `f` was begun as a stream and one chunk received. -/
def begunF : Client where
  nextId := 1
  waiting := none
  error := []
  out := [.request 1 (some nameF) []]
  trace := [.asked .serverStream 1, .returned ⟨.streamBegin (some nameF) [], 1, none, .id 1⟩,
    .returned ⟨.streamRecv 1, 1, some { id := 1, type := some (lit "stream_chunk") },
      .rc 0 (some .null)⟩]

theorem run_begunF : run Client.step .connect
    [.invoke (.streamBegin (some nameF) []) true, .invoke (.streamRecv 1) true,
      .read (some chunkF)] = some begunF := by
  have hbegin : Client.step .connect (.invoke (.streamBegin (some nameF) []) true) =
      some { Client.connect with
        nextId := 1, out := [.request 1 (some nameF) []],
        trace := [.asked .serverStream 1,
          .returned ⟨.streamBegin (some nameF) [], 1, none, .id 1⟩] } := by
    simp only [Client.step, Client.connect, Client.invoke, Client.beginStream]
    rw [ask_frameable _ _ _ (requestF_frameable _)]
    rfl
  rw [run, hbegin]
  rfl

/-- **A call gets the chunk of an abandoned stream**: it returns 0 with a value that is no response
and is not its own. -/
theorem client_abandoned : ∃ c, run Client.step .connect
    ([.invoke (.streamBegin (some nameF) []) true, .invoke (.streamRecv 1) true,
      .read (some chunkF)] ++ [.invoke (.call (some nameF) []) true, .read (some chunkF)]) =
        some c ∧
      ∃ r, .returned r ∈ c.trace ∧ r.id = 2 ∧ r.ret = .rc 0 (some .null) ∧ ¬ Correlated r := by
  have hcall : Client.step begunF (.invoke (.call (some nameF) []) true) =
      some { begunF with
        nextId := 2, waiting := some (.call (some nameF) [], 2),
        out := begunF.out ++ [.request 2 (some nameF) []],
        trace := begunF.trace ++ [.asked .unary 2] } := by
    simp only [Client.step, begunF, Client.invoke]
    rw [ask_frameable _ _ _ (requestF_frameable _)]
    rfl
  rw [run_append, run_begunF, Option.bind_some, run, hcall]
  refine ⟨_, rfl, ⟨.call (some nameF) [], 2, some { id := 1, type := some (lit "stream_chunk") },
    .rc 0 (some .null)⟩, mem_append_right _ (mem_singleton_self _), rfl, rfl, fun h => ?_⟩
  obtain ⟨msg, hmsg, -, hid, -⟩ := h _ rfl
  cases hmsg
  exact absurd hid (by decide)

theorem client_correlated_call : ∃ c, run Client.step .connect
    [.invoke (.call (some nameF) []) true, .read (some replyF)] = some c ∧ c.trace.length = 2 ∧
      ∀ r, .returned r ∈ c.trace → Correlated r := by
  have hcall : Client.step .connect (.invoke (.call (some nameF) []) true) =
      some { Client.connect with
        nextId := 1, waiting := some (.call (some nameF) [], 1),
        out := [.request 1 (some nameF) []], trace := [.asked .unary 1] } := by
    simp only [Client.step, Client.connect, Client.invoke]
    rw [ask_frameable _ _ _ (requestF_frameable _)]
    rfl
  have hrun : run Client.step .connect
      [.invoke (.call (some nameF) []) true, .read (some replyF)] =
      some ⟨1, none, [], [.request 1 (some nameF) []], [.asked .unary 1,
        .returned ⟨.call (some nameF) [], 1, some { id := 1, type := some (lit "response") },
          .rc 0 (some .null)⟩]⟩ := by
    rw [run, hcall]
    rfl
  refine ⟨_, hrun, rfl, client_correlated _ _ ?_ hrun⟩
  refine .cons rfl hcall (.cons ⟨{ id := 1, type := some (lit "response") }, rfl, ?_⟩ rfl trivial)
  exact ⟨(.unary, 1), mem_singleton_self _, rfl, by decide⟩

end

end Callwire.C
