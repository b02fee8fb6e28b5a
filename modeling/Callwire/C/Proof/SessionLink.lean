import Callwire.C.Proof.Framing
import Callwire.C.Proof.SessionNet

/-!
# A session, byte by byte

A step of `Link` moves some bytes, or is the step of `Net` whose frame it completes or begins
(`Link.step_inv`). So the outcomes of a session over a connection are those of its handlers run
locally (`session_refines_local`): every run of the two parties is finite, and at its end every
operation has returned its outcome.
-/

namespace Callwire.C

open Lib List Link

/-! ## Frames only come to what is written -/

section
variable {entries : List Entry} {c c' : Conn} {l : Label} {d d' : Driver} {p : Payload}

theorem step_out (hs : step entries c l = some c') :
    c'.out = c.out ∨ ∃ m, c'.out = c.out ++ [m] := by
  have hwrite : ∀ m ok, (c.write m ok).2.out = c.out ∨
      ∃ m', (c.write m ok).2.out = c.out ++ [m'] := by
    intro m ok
    rcases c.write_cases m ok with ⟨h, -⟩ | ⟨h, -⟩ <;> rw [h]
    · exact .inr ⟨m, rfl⟩
    · exact .inl rfl
  cases step_move hs with
  | drain =>
    obtain ⟨-, -, -, -, hout⟩ := drainInputs_eq c
    exact .inl hout
  | refuse | emit | reply => exact hwrite _ _
  | _ => exact .inl rfl

theorem settle_client (d : Driver) (c : Client) : (d.settle c).client = c := by
  unfold Driver.settle
  split
  · unfold Driver.onReturn
    split <;> (try split) <;> rfl
  · rfl

theorem writeFrame_out (c : Client) (m : Outgoing) (text : Bytes) (ok : Bool) :
    ∃ new, (c.writeFrame m text ok).2.out = c.out ++ new := by
  rcases writeFrame_cases c m text ok with ⟨p, -, -, -, hw⟩ | ⟨e, hw⟩ <;> rw [hw]
  · exact ⟨[m], rfl⟩
  · exact ⟨[], (append_nil _).symm⟩

theorem ask_out (c : Client) (pattern : Pattern) (m : BitVec 64 → Outgoing) (text : Bytes)
    (ok : Bool) : ∃ new, (c.ask pattern m text ok).2.out = c.out ++ new := by
  rcases ask_cases c pattern m text ok with ⟨p, -, -, -, hw⟩ | ⟨e, hw⟩ <;> rw [hw]
  · exact ⟨[_], rfl⟩
  · exact ⟨[], (append_nil _).symm⟩

theorem client_invoke_out (c : Client) (api : Api) (ok : Bool) :
    ∃ new, (c.invoke api ok).out = c.out ++ new := by
  have hbegin : ∀ pattern func m text,
      ∃ new, (c.beginStream api pattern func m text ok).out = c.out ++ new := by
    intro pattern func m text
    unfold Client.beginStream
    split
    · exact ⟨[], (append_nil _).symm⟩
    · rename_i f
      have hnew := ask_out c pattern (m · f) text ok
      generalize c.ask pattern (m · f) text ok = r at hnew
      obtain ⟨_ | id, c₁⟩ := r <;> exact hnew
  have hsend : ∀ id m text, ∃ new, (c.sendOnly api id m text ok).out = c.out ++ new := by
    intro id m text
    have hnew := writeFrame_out c m text ok
    unfold Client.sendOnly
    generalize c.writeFrame m text ok = r at hnew
    obtain ⟨_ | _, c₁⟩ := r <;> exact hnew
  unfold Client.invoke
  split
  · exact ⟨[], (append_nil _).symm⟩
  · rename_i f args
    have hnew := ask_out c .unary (.request · (some f) args) (lit "failed to encode request") ok
    generalize c.ask .unary (.request · (some f) args)
      (lit "failed to encode request") ok = r at hnew
    obtain ⟨_ | id, c₁⟩ := r <;> exact hnew
  · exact hbegin _ _ _ _
  · exact ⟨[], (append_nil _).symm⟩
  · exact hbegin _ _ _ _
  · exact hsend _ _ _
  · rename_i id
    have hnew := writeFrame_out c (.streamClose id) (lit "failed to encode stream close") ok
    generalize c.writeFrame (.streamClose id) (lit "failed to encode stream close") ok = r at hnew
    obtain ⟨_ | _, c₁⟩ := r <;> exact hnew
  · exact hbegin _ _ _ _
  · exact hsend _ _ _
  · exact ⟨[], (append_nil _).symm⟩
  · exact hsend _ _ _

theorem client_read_out (c : Client) (api : Api) (id : BitVec 64) (payload : Option Payload) :
    (c.read api id payload).out = c.out := by
  have hrm : (c.readWireMessage payload).2.out = c.out := by
    unfold Client.readWireMessage
    split
    · rfl
    · split <;> rfl
  unfold Client.read
  split
  · rename_i h
    rw [h] at hrm
    exact hrm
  · rename_i msg c₁ h
    rw [h] at hrm
    obtain ⟨e, he⟩ := takeReply_eq c₁ msg
    obtain ⟨e', he'⟩ := takeChunk_eq c₁ msg
    rw [← hrm]
    cases api <;> simp only [Client.done, he, he']

theorem invoke_out (h : d.invoke = some d') : ∃ new, d'.client.out = d.client.out ++ new := by
  unfold Driver.invoke at h
  split at h
  · cases h
    rw [settle_client]
    exact client_invoke_out _ _ _
  · cases h

theorem read_out (h : d.read p = some d') : d'.client.out = d.client.out := by
  unfold Driver.read at h
  split at h
  · cases h
    rw [settle_client]
    exact client_read_out _ _ _ _
  · cases h

end

/-! ## The invariant -/

namespace Link

/-- The frames behind the bytes: `u` and `v` were received. -/
def net (s : Link) (u v : Nat) : Net := ⟨s.driver, s.server, u, v⟩

structure Inv (entries : List Entry) (os : List Outcome) (s : Link) (fuel u v : Nat) : Prop where
  net : (s.net u v).Inv entries os fuel
  up : s.up.At s.driver.client.out u
  down : s.down.At s.server.out v

/-- The bytes that are still to be sent or received. -/
def bytesLeft (s : Link) : Nat :=
  (s.upBytes.length - s.up.sent) + (s.upBytes.length - s.up.got) +
    ((s.downBytes.length - s.down.sent) + (s.downBytes.length - s.down.got))

/-- The session's rank, then the bytes. -/
def Ranked (entries : List Entry) (os : List Outcome) (s : Link)
    (m : (Nat × Nat × Nat × Nat × Nat) × Nat) : Prop :=
  ∃ fuel u v, s.Inv entries os fuel u v ∧ m = ((s.net u v).rank fuel, s.bytesLeft)

def Below : (Nat × Nat × Nat × Nat × Nat) × Nat → (Nat × Nat × Nat × Nat × Nat) × Nat → Prop :=
  Prod.Lex Net.Below (· < ·)

theorem below_wf : WellFounded Below := WellFounded.prod_lex Net.below_wf Nat.lt_wfRel.wf

section
variable {entries : List Entry} {os : List Outcome} {s s' : Link} {fuel u v : Nat}
  {m : (Nat × Nat × Nat × Nat × Nat) × Nat}

theorem Inv.upFits (h : s.Inv entries os fuel u v) : ∀ m ∈ s.driver.client.out, m.Frameable := by
  obtain ⟨k, n, hb, -⟩ := h.net
  exact hb.upFits

theorem Inv.downFits (h : s.Inv entries os fuel u v) : ∀ m ∈ s.server.out, m.Frameable := by
  obtain ⟨k, n, hb, -⟩ := h.net
  exact hb.downFits

theorem Inv.bytes (hi : s'.Inv entries os fuel u v) (hd : s'.driver = s.driver)
    (hs : s'.server = s.server) (hlt : s'.bytesLeft < s.bytesLeft) :
    ∃ m', s'.Ranked entries os m' ∧ Below m' ((s.net u v).rank fuel, s.bytesLeft) := by
  refine ⟨_, ⟨fuel, u, v, hi, rfl⟩, ?_⟩
  rw [Link.net, hd, hs]
  exact Prod.Lex.right _ hlt

theorem Inv.session {u' v' : Nat} (h : s.Inv entries os fuel u v)
    (hs : Net.Step entries (s.net u v) (s'.net u' v')) (hup : s'.up.At s'.driver.client.out u')
    (hdown : s'.down.At s'.server.out v') :
    ∃ m', s'.Ranked entries os m' ∧ Below m' ((s.net u v).rank fuel, s.bytesLeft) := by
  obtain ⟨fuel', hi, hlt⟩ := Net.step_inv h.net hs
  exact ⟨_, ⟨fuel', u', v', ⟨hi, hup, hdown⟩, rfl⟩, Prod.Lex.left _ _ hlt⟩

/-- **Every step keeps the invariant and goes down.** -/
theorem step_inv (h : s.Ranked entries os m) (hs : Step entries s s') :
    ∃ m', s'.Ranked entries os m' ∧ Below m' m := by
  obtain ⟨fuel, u, v, h, rfl⟩ := h
  -- what the server has written stays in its direction
  have grow : ∀ {l : Label} {c : Conn}, step entries s.server l = some c → s.down.At c.out v := by
    intro l c hc
    rcases step_out hc with hout | ⟨m, hout⟩ <;> rw [hout]
    · exact h.down
    · exact h.down.append [m]
  cases hs with
  | sendUp n hn hle =>
    refine Inv.bytes ⟨h.net, h.up.send hle, h.down⟩ rfl rfl ?_
    have hle : s.up.sent + n ≤ s.upBytes.length := hle
    simp only [bytesLeft, upBytes, downBytes] at hle ⊢
    omega
  | sendDown n hn hle =>
    refine Inv.bytes ⟨h.net, h.up, h.down.send hle⟩ rfl rfl ?_
    simp only [bytesLeft, upBytes, downBytes] at hle ⊢
    omega
  | @recvUp r n hn hw hle hl hfree hf =>
    obtain ⟨m, hm, ⟨r', hr, hat⟩ | ⟨q, hq, -⟩⟩ := h.up.recv h.upFits hn hw hle
    · have hsent := h.up.sent
      rw [upBytes, hr] at hf
      cases hf
      refine Inv.bytes ⟨h.net, hat, h.down⟩ rfl rfl ?_
      simp only [bytesLeft, upBytes, downBytes]
      omega
    · rw [upBytes, hq] at hf
      cases hf
  | @deliver p c n hn hw hle hfree hf hc =>
    obtain ⟨m, hm, ⟨r', hr, -⟩ | ⟨q, hq, hp, hat⟩⟩ := h.up.recv h.upFits hn hw hle
    · rw [upBytes, hr] at hf
      cases hf
    · rw [upBytes, hq] at hf
      cases hf
      exact h.session (.deliver hm hp hc) hat (grow hc)
  | @recvDown r n hn hw hle hl hfree hf =>
    obtain ⟨m, hm, ⟨r', hr, hat⟩ | ⟨q, hq, -⟩⟩ := h.down.recv h.downFits hn hw hle
    · have hsent := h.down.sent
      rw [downBytes, hr] at hf
      cases hf
      refine Inv.bytes ⟨h.net, h.up, hat⟩ rfl rfl ?_
      simp only [bytesLeft, upBytes, downBytes]
      omega
    · rw [downBytes, hq] at hf
      cases hf
  | @read p d n hn hw hle hfree hf hd =>
    obtain ⟨m, hm, ⟨r', hr, -⟩ | ⟨q, hq, hp, hat⟩⟩ := h.down.recv h.downFits hn hw hle
    · rw [downBytes, hr] at hf
      cases hf
    · rw [downBytes, hq] at hf
      cases hf
      refine h.session (.read hm hp hd) ?_ hat
      rw [read_out hd]
      exact h.up
  | @invoke d hfree hd =>
    obtain ⟨new, hnew⟩ := invoke_out hd
    refine h.session (.invoke hd) ?_ h.down
    rw [hnew]
    exact h.up.append new
  | own hl hfree hc hout | write hl hlock hc hout => exact h.session (.own hl hc) h.up (grow hc)

/-! ## At rest -/

theorem stuck_sent (h : s.Inv entries os fuel u v) (hstuck : ∀ s', ¬ Step entries s s') :
    s.up.sent = s.upBytes.length ∧ s.down.sent = s.downBytes.length := by
  constructor
  · by_contra hne
    have hle : s.up.sent ≤ s.upBytes.length := h.up.sent
    exact hstuck _ (.sendUp 1 Nat.one_pos (by omega))
  · by_contra hne
    have hle : s.down.sent ≤ s.downBytes.length := h.down.sent
    exact hstuck _ (.sendDown 1 Nat.one_pos (by omega))

theorem stuck_net (h : s.Inv entries os fuel u v) (hstuck : ∀ s', ¬ Step entries s s') :
    ∀ s', ¬ Net.Step entries (s.net u v) s' := by
  obtain ⟨hup, hdown⟩ := stuck_sent h hstuck
  have hfree : ∀ p, s.free p := fun p _ => hdown
  intro s' hs
  cases hs with
  | @deliver m p c hm hp hc =>
    have hlt := h.up.got_lt h.upFits hm
    have hl : s.server.loop = .reading := by
      cases hl : s.server.loop with
      | reading => rfl
      | _ =>
        unfold step at hc
        simp only [net, hl] at hc
        cases hc
    obtain ⟨-, -, ⟨r, hr, -⟩ | ⟨q, hq, -⟩⟩ := h.up.recv h.upFits Nat.one_pos h.up.inside.want_pos
      (by rw [hup]; exact hlt)
    · exact hstuck _ (.recvUp 1 Nat.one_pos h.up.inside.want_pos (by rw [hup]; exact hlt) hl
        (hfree _) hr)
    · refine hstuck _ (.deliver (c := s.server.handleFrame q) 1 Nat.one_pos h.up.inside.want_pos
        (by rw [hup]; exact hlt) (hfree _) hq ?_)
      unfold step
      rw [hl]
  | @read m p d hm hp hd =>
    have hlt := h.down.got_lt h.downFits hm
    have hw : s.driver.client.waiting ≠ none := by
      intro hw
      unfold Driver.read at hd
      simp only [net, hw] at hd
      cases hd
    obtain ⟨w, hw'⟩ := Option.ne_none_iff_exists'.1 hw
    obtain ⟨-, -, ⟨r, hr, -⟩ | ⟨q, hq, -⟩⟩ := h.down.recv h.downFits Nat.one_pos
      h.down.inside.want_pos (by rw [hdown]; exact hlt)
    · exact hstuck _ (.recvDown 1 Nat.one_pos h.down.inside.want_pos (by rw [hdown]; exact hlt) hw
        hup hr)
    · refine hstuck _ (.read (d := s.driver.settle (s.driver.client.read w.1 w.2 (some q))) 1
        Nat.one_pos h.down.inside.want_pos (by rw [hdown]; exact hlt) hup hq ?_)
      unfold Driver.read
      rw [hw']
  | invoke hd => exact hstuck _ (.invoke hup hd)
  | own hl hc =>
    rcases step_out hc with hout | ⟨m, hout⟩
    · exact hstuck _ (.own hl (hfree _) hc hout)
    · exact hstuck _ (.write hl hdown hc hout)

end

end Link

/-! ## The session -/

/-- An exported handler of this name is of the kind the operation is for, and reads its streaming
input to the end. -/
def Op.Matches (entries : List Entry) (op : Op) : Prop :=
  ∀ e, findHandler entries op.func.bytes = some e →
    op.fits e.kind = true ∧ (e.kind = .clientStreamCtx → e.Drains)

/-- The messages of an operation are within the frame limit: what it sends, and what the handler
makes of it as its call number `call`. -/
def Op.Fits (entries : List Entry) (call k : Nat) (op : Op) : Prop :=
  (∀ m ∈ op.request (opId k) :: op.body (opId k), m.Frameable) ∧
  ∀ e fuel chunks rc result, findHandler entries op.func.bytes = some e →
    e.runLocal call op.args fuel op.input [] [] = some (chunks, rc, result) →
    ∀ m ∈ chunks.map (.streamChunk (opId k)) ++ [op.finalReply (opId k) rc result], m.Frameable

/-- All messages of a session are within the frame limit. -/
def SessionFits (entries : List Entry) : (call k : Nat) → List Op → Prop
  | _, _, [] => True
  | call, k, op :: ops => op.Fits entries call k ∧
      SessionFits entries (call + (findHandler entries op.func.bytes).toList.length) (k + 1) ops

theorem plan_of_local {entries : List Entry} {call : Nat} {ops : List Op} {os : List Outcome}
    (h : LocalSession entries call ops os) : ∀ {k : Nat}, (∀ op ∈ ops, op.Matches entries) →
      SessionFits entries call k ops → Plan entries call k ops os := by
  induction h with
  | nil => exact fun _ _ => .nil
  | @missing call op ops os he h ih =>
    intro k hm hf
    rw [SessionFits, he] at hf
    refine .cons (a := .missing) ⟨?_, he⟩ hf.1.1
      (ih (fun op' h' => hm op' (mem_cons_of_mem _ h')) hf.2)
    intro m hmem
    rw [mem_singleton.1 hmem]
    exact error_frameable (by decide)
  | @found call fuel op ops os e chunks rc result he hr h ih =>
    intro k hm hf
    rw [SessionFits, he] at hf
    obtain ⟨hk, hd⟩ := hm op (mem_cons_self ..) e he
    exact .cons (a := .found e fuel chunks rc result)
      ⟨hf.1.2 e fuel chunks rc result he hr, he, hk, hd, hr⟩ hf.1.1
      (ih (fun op' h' => hm op' (mem_cons_of_mem _ h')) hf.2)

/-- **A session over a connection gives the outcomes of its handlers run locally.** No run of the
two parties goes on forever; the operations that have returned have returned the local outcomes, in
order; and a run ends only when all of them have. -/
theorem session_refines_local (entries : List Entry) (ops : List Op) (os : List Outcome)
    (hos : LocalSession entries 0 ops os) (hm : ∀ op ∈ ops, op.Matches entries)
    (hf : SessionFits entries 0 0 ops) (hlen : ops.length < 2 ^ 64) :
    Acc (fun s' s => Step entries s s') (init ops) ∧
    ∀ s, Relation.ReflTransGen (Step entries) (init ops) s →
      s.driver.results <+: os ∧
      ((∀ s', ¬ Step entries s s') → s.driver.ops = [] ∧ s.driver.results = os) := by
  have hplan := plan_of_local hos hm hf
  have hinit : (init ops).Inv entries os 0 0 0 := ⟨Net.Inv.init hplan hlen, .start, .start⟩
  refine ⟨acc_of_rank below_wf (Ranked entries os)
    (fun s m s' hr hs => step_inv hr hs) ⟨0, 0, 0, hinit, rfl⟩, fun s hs => ?_⟩
  have hreach : ∃ m, s.Ranked entries os m := by
    induction hs with
    | refl => exact ⟨_, 0, 0, 0, hinit, rfl⟩
    | tail _ hstep ih =>
      obtain ⟨m, hr⟩ := ih
      obtain ⟨m', hr', -⟩ := step_inv hr hstep
      exact ⟨m', hr'⟩
  obtain ⟨m, fuel, u, v, hi, -⟩ := hreach
  exact ⟨hi.net.results, fun hstuck => Net.stuck_done hi.net (stuck_net hi hstuck)⟩

/-- A handler that reads its input to the end. -/
def sink : Entry where
  name := nameF
  kind := .clientStreamCtx
  fn _ _ events :=
    match events.getLast? with
    | some (.received .fin) => .ret 0 .null
    | _ => .recv
  allowed _ _ events := by
    split
    · exact trivial
    · rfl

theorem sink_drains : sink.Drains := by
  intro call args events rc result h
  simp only [sink] at h
  split at h
  · rename_i hl
    exact mem_of_getLast? hl
  · cases h

def nameG : CString := ⟨lit "g", lit_g⟩

/-- An export stream of one chunk, and then a call of a name that is not exported. -/
theorem session_refines_local_sink :
    Acc (fun s' s => Step [sink] s s') (init [.exportStream nameF [.null], .call nameG []]) ∧
    ∀ s, Relation.ReflTransGen (Step [sink])
        (init [.exportStream nameF [.null], .call nameG []]) s →
      s.driver.results <+: [.reply 0 (some .null), .reply (-1) none] ∧
      ((∀ s', ¬ Step [sink] s s') →
        s.driver.ops = [] ∧ s.driver.results = [.reply 0 (some .null), .reply (-1) none]) := by
  have hfind : findHandler [sink] nameF.bytes = some sink := rfl
  have hnone : findHandler [sink] nameG.bytes = none := rfl
  have hrun : sink.runLocal 0 [] 3 [.chunk .null, .fin] [] [] = some ([], 0, .null) := rfl
  have hlocal : LocalSession [sink] 0 [.exportStream nameF [.null], .call nameG []]
      [.reply 0 (some .null), .reply (-1) none] :=
    @LocalSession.found _ 0 3 (.exportStream nameF [.null]) _ _ _ _ _ _ hfind hrun
      (@LocalSession.missing _ 1 (.call nameG []) _ _ hnone .nil)
  refine session_refines_local [sink] _ _ hlocal ?_ ?_ (by decide)
  · intro op hop e he
    rcases mem_cons.1 hop with rfl | hop
    · obtain rfl : sink = e := Option.mem_unique hfind he
      exact ⟨rfl, fun _ => sink_drains⟩
    · rw [mem_singleton.1 hop] at he
      cases hnone.symm.trans he
  · have hsent : ∀ m ∈ [Outgoing.request 1 (some nameF) [], .streamChunk 1 (some .null),
        .streamClose 1, .response 1 (some .null), .request 2 (some nameG) []],
        (Value.map m.entries).size ≤ callwireMaxFrameSize := by decide
    refine ⟨⟨fun m hm => frameable_of_size (hsent m ?_),
      fun e fuel chunks rc result he hr m hm => ?_⟩,
      ⟨fun m hm => frameable_of_size (hsent m ?_), fun e _ _ _ _ he => nomatch hnone.symm.trans he⟩,
      trivial⟩
    · exact mem_append_left [_, _] hm
    · obtain rfl : sink = e := Option.mem_unique hfind he
      -- two items, then the handler returns
      obtain ⟨_, _, _, -, hin, hr⟩ := runLocal_recv hr rfl
      cases hin
      obtain ⟨_, _, _, -, hin, hr⟩ := runLocal_recv hr rfl
      cases hin
      cases runLocal_ret hr rfl
      rw [mem_singleton.1 hm]
      exact frameable_of_size (hsent _ (mem_of_getElem? (i := 3) rfl))
    · exact mem_append_right [_, _, _, _] hm

end Callwire.C
