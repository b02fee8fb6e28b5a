import Callwire.Rust.Callers
import Callwire.Rust.Proof.CallFrames

/-!
# The fate of a call

`calls_settled` reads the invariant of the calls at the end of a run: a call without a stream is
completed by the first frame of its id that came while it was pending, a stream is sent exactly the
frames that came while it was (`Sent`), and a stopped actor has no sender but those that a task of
`drain_pending` is about to use (`Ending`). The caller of a call that is not completed then gets
`ConnectionClosed` (`Told`), if no `CallStream` was left in the queue; one that was ends like a
stream without items (`stream_cut_short`).
-/

namespace Callwire.Rust

open Lib List

/-! ## Stopped actors -/

/-- A stopped actor has dropped its commands and drained `pending`. -/
def StoppedEmpty (a : Actor) : Prop := a.pc = .stopped → a.cmds = [] ∧ a.pending = ∅

section
variable {reconnect : Bool} {a a' : Actor} {l : Label}

theorem StoppedEmpty.of_stop (a : Actor) : StoppedEmpty a.stop := by
  obtain ⟨_, _, he⟩ := a.stop_eq
  rw [he]
  exact fun _ => ⟨rfl, rfl⟩

theorem StoppedEmpty.of_reconnectOrStop (a : Actor) :
    StoppedEmpty (a.reconnectOrStop reconnect) := by
  rcases a.reconnectOrStop_cases reconnect with he | he <;> rw [he]
  · exact fun hpc => nomatch hpc
  · exact .of_stop a

theorem StoppedEmpty.step (h : StoppedEmpty a)
    (hstep : Callwire.Rust.step reconnect a l = some a') : StoppedEmpty a' := by
  cases step_move hstep with
  | submit hst | close hst => exact fun hpc => absurd hpc hst
  | @skip side => cases side <;> exact fun hpc => nomatch hpc
  | enter | miss | empty | check | call | exportStream | importBidi | delivered | undelivered
  | connected => exact fun hpc => nomatch hpc
  | @leave side | @unpumped side => cases side <;> exact fun hpc => nomatch hpc
  | pumped hpc => exact fun hst => nomatch hpc.symm.trans hst
  | shutdown | noClients => exact .of_stop _
  | callFailed | exportFailed | lost => exact .of_reconnectOrStop _
  | @message n msg reader =>
    obtain ⟨pc, pending, replies, he, hpc⟩ := Actor.handleFrame_eq { a with reader } msg
    rw [he]
    rcases hpc with rfl | ⟨tx, rfl⟩ <;> exact fun hpc => nomatch hpc
  | _ => exact h

end

/-! ## Calls -/

/-- The call is completed by this frame. -/
def Request.Completes (msg : WireMessage) : Request → Prop
  | .call _ _ _ | .exportStream _ _ => True
  | .callStream _ _ _ | .importBidi _ _ => msg.msgType ≠ "stream_chunk"

/-- What the channel of a call has when it has no sender: the frame that completes it at its end, or
nothing for which the caller does not return `ConnectionClosed` after the chunks. -/
def Told (r : Request) (reply : Reply) : Prop :=
  (∃ got msg, reply.got = got ++ [.ok msg] ∧ r.Completes msg) ∨
    ∃ received : List WireMessage, (∀ msg ∈ received, msg.msgType = "stream_chunk") ∧
      received.map .ok <+: reply.got ∧
      ∀ (Resp : Type) (fromValue : Value → Except String Resp),
        r.ReturnsClosed fromValue reply.got[received.length]?

/-- A task of `drain_pending` has the last sender of the call: as soon as the channel has room, or
the caller has gone, it sends `ConnectionClosed` and drops it. -/
def Ending (reconnect : Bool) (a : Actor) (tx : Nat) (r : Request) (reply : Reply) : Prop :=
  ∃ i, a.spawned[i]? = some tx ∧ (reply.dropped = true ∨ reply.unread < streamCapacity →
    ∃ a', step reconnect a (.notify i) = some a' ∧ a'.place (.stream tx) = none ∧
      (reply.dropped = false → ∃ reply', a'.replies[tx]? = some reply' ∧
        reply'.got = reply.got ++ [.connectionClosed] ∧ Told r reply'))

/-- What has become of call `tx` in a stopped actor: it has no sender, or a task has it. -/
def Concluded (reconnect : Bool) (a : Actor) (tx : Nat) (r : Request) (reply : Reply) : Prop :=
  a.place (r.sender tx) = none ∧ (reply.dropped = false → Told r reply) ∨
    r.sender tx = .stream tx ∧ Ending reconnect a tx r reply

/-- The calls of the run have different ids, and no `CallStream` is left in the queue. -/
def Fine (reconnect : Bool) (ls : List Label) : Prop :=
  DistinctIds (trace (step reconnect) events .init ls) ∧
    Along (step reconnect) (NoStreamLeft reconnect) .init ls

section
variable {C : Prop} {reconnect : Bool} {log : List Event} {a : Actor} {tx : Nat} {reply : Reply}
  {r : Request} {frames : List WireMessage} {p : Option Place} {hand : Option WireMessage}

/-! ## What the channel has -/

theorem framesFor_id {s : PendingSender} {id : BitVec 64} {msg : WireMessage}
    (h : msg ∈ framesFor log s id) : msg.id = id := by
  obtain ⟨e, -, he⟩ := mem_filterMap.1 h
  cases e with
  | submitted => cases he
  | handled waiting msg' =>
    simp only [Option.ite_none_right_eq_some, Option.some.injEq] at he
    rw [← he.2]
    exact he.1.1

theorem Sent.mem {s : PendingSender} (h : Sent C r s frames p hand reply) {msg : WireMessage}
    (hm : .ok msg ∈ reply.got) : msg ∈ frames := by
  have hsub : ∀ {received}, received ⊆ frames → .ok msg ∈ received.map Outcome.ok →
    msg ∈ frames := by
    intro received hsub hm
    obtain ⟨m, hm, he⟩ := mem_map.1 hm
    cases he
    exact hsub hm
  cases s with
  | unary =>
    rcases (h : Answered ..) with hg | ⟨-, -, hg⟩ <;> rw [hg] at hm
    · exact hsub (take_subset ..) hm
    · cases mem_singleton.1 hm
  | stream =>
    cases (h : Streamed ..) with
    | going _ _ _ hg | ended _ _ _ _ _ hg | cut _ _ _ _ hg => exact hsub (Subset.refl _) (hg ▸ hm)
    | sending hf _ _ _ hg =>
      subst hf
      exact hsub (subset_append_left ..) (hg ▸ hm)
    | closed _ _ _ hg =>
      rw [hg] at hm
      exact hsub (Subset.refl _) ((mem_concat_cases hm).resolve_right nofun)
    | dropped _ _ _ _ hr hg => exact hsub hr.subset (hg ▸ hm)

theorem notify_dropped {i : Nat} (hi : a.spawned[i]? = some tx) (hr : a.replies[tx]? = some reply)
    (hd : reply.dropped = true) :
    step reconnect a (.notify i) = some { a with spawned := a.spawned.eraseIdx i } := by
  simp only [step, Actor.trySend, hi, hr, hd, Option.bind_eq_bind, Option.bind_some, if_true,
    Option.pure_def]

theorem notify_room {i : Nat} (hi : a.spawned[i]? = some tx) (hr : a.replies[tx]? = some reply)
    (hd : reply.dropped = false) (hu : reply.unread < streamCapacity) :
    step reconnect a (.notify i) =
      some (Actor.sendStream { a with spawned := a.spawned.eraseIdx i } tx .connectionClosed) := by
  simp only [step, Actor.trySend, hi, hr, hd, hu, Option.bind_eq_bind, Option.bind_some, if_true,
    Bool.false_eq_true, if_false, Option.pure_def]

/-! ## What the caller is told -/

/-- After `ConnectionClosed` in the channel of a stream. -/
theorem told_of_closed (hsender : r.sender tx = .stream tx) (hchunks : Chunks frames)
    (hgot : reply.got = frames.map .ok ++ [.connectionClosed]) : Told r reply := by
  refine .inr ⟨frames, hchunks, hgot ▸ prefix_append .., fun Resp fromValue => ?_⟩
  have hnext : reply.got[frames.length]? = some .connectionClosed := by
    rw [hgot, ← length_map (f := Outcome.ok), getElem?_concat_length]
  rw [hnext]
  cases r with
  | call | exportStream => cases hsender
  | callStream | importBidi => rfl

theorem Answered.told (h : Answered frames p reply.got) (hsender : r.sender tx = .unary tx) :
    Told r reply := by
  have hclosed : ∀ o : Option Outcome, (o = none ∨ o = some .connectionClosed) →
      ∀ (Resp : Type) (fromValue : Value → Except String Resp), r.ReturnsClosed fromValue o := by
    rintro o ho Resp fromValue
    cases r with
    | call | exportStream => rcases ho with rfl | rfl <;> rfl
    | callStream | importBidi => cases hsender
  rcases h with h | ⟨-, -, h⟩
  · cases frames with
    | nil =>
      refine .inr ⟨[], nofun, nil_prefix, hclosed _ (.inl ?_)⟩
      rw [h]
      rfl
    | cons msg rest =>
      refine .inl ⟨[], msg, h, ?_⟩
      cases r with
      | call | exportStream => trivial
      | callStream | importBidi => cases hsender
  · refine .inr ⟨[], nofun, nil_prefix, hclosed _ (.inr ?_)⟩
    rw [h]
    rfl

/-- A stream without a sender: its last message is there, or `recv` says that the channel is
closed. -/
theorem Streamed.told (h : Streamed (r.Cut C) frames none none reply)
    (hsender : r.sender tx = .stream tx) (hC : ¬ C) (hd : reply.dropped = false) :
    Told r reply := by
  cases h with
  | going hp => exact absurd rfl hp
  | sending _ _ hh => cases hh
  | @ended init msg hf hl _ _ _ hg =>
    refine .inl ⟨init.map .ok, msg, by rw [hg, hf, map_append]; rfl, ?_⟩
    cases r with
    | call | exportStream => cases hsender
    | callStream | importBidi => exact hl
  | closed _ _ hc hg => exact told_of_closed hsender hc hg
  | dropped hd' => cases hd.symm.trans hd'
  | cut hcut _ _ hc hg =>
    cases r with
    | call | exportStream => cases hsender
    | callStream => exact absurd hcut hC
    | importBidi =>
      refine .inr ⟨frames, hc, hg ▸ prefix_rfl, fun Resp fromValue => ?_⟩
      have hnext : reply.got[frames.length]? = none := by
        rw [hg, ← length_map (f := Outcome.ok)]
        exact getElem?_eq_none (Nat.le_refl _)
      rw [hnext]
      rfl

theorem ending_of_task (h : Owned log a) (hm : tx ∈ a.spawned)
    (hreply : a.replies[tx]? = some reply)
    (hsender : r.sender tx = .stream tx) (hsent : Streamed C frames (some .task) hand reply) :
    Ending reconnect a tx r reply := by
  obtain ⟨i, hi⟩ := mem_iff_getElem?.1 hm
  obtain ⟨-, hc, hg⟩ := hsent.at_task
  have hgone := (moves_task hi).after h.nodup
  refine ⟨i, hi, fun hroom => ?_⟩
  cases hd : reply.dropped with
  | true => exact ⟨_, notify_dropped hi hreply hd, hgone, nofun⟩
  | false =>
    have hu : reply.unread < streamCapacity := by
      rcases hroom with ht | hu
      · cases hd.symm.trans ht
      · exact hu
    refine ⟨_, notify_room hi hreply hd hu, hgone, fun _ => ⟨_, sendStream_reply _ hreply, rfl, ?_⟩⟩
    exact told_of_closed hsender hc (congrArg (· ++ [.connectionClosed]) hg)

theorem Settling.concluded (h : Settling C log a) (hC : ¬ C) (hst : StoppedEmpty a)
    (hpc : a.pc = .stopped)
    (hsent : Sent C r (r.sender tx) frames (a.place (r.sender tx)) (a.inFlight tx) reply)
    (hreply : a.replies[tx]? = some reply) : Concluded reconnect a tx r reply := by
  have hflight : a.inFlight tx = none := by rw [Actor.inFlight, hpc]
  rw [hflight] at hsent
  cases hp : a.place (r.sender tx) with
  | some p =>
    -- a sender that is left is with a task
    obtain ⟨hc, hpend⟩ := hst hpc
    have hm := of_mem_dlookup hp
    rw [Actor.tokens, hc, hpend] at hm
    obtain ⟨tx', ht, he⟩ := mem_map.1 (show _ ∈ map _ a.spawned from hm)
    obtain ⟨hs, hp'⟩ := Sigma.mk.inj he
    obtain rfl : tx' = tx := (congrArg PendingSender.tx hs).trans (r.sender_tx tx)
    cases eq_of_heq hp'
    rw [hp, ← hs] at hsent
    exact .inr ⟨hs.symm, ending_of_task h.toOwned ht hreply hs.symm hsent⟩
  | none =>
    refine .inl ⟨hp, fun hd => ?_⟩
    rw [hp] at hsent
    cases hs : r.sender tx with
    | unary tx' =>
      obtain rfl : tx' = tx := (congrArg PendingSender.tx hs).symm.trans (r.sender_tx tx)
      rw [hs] at hsent
      exact Answered.told hsent hs
    | stream tx' =>
      obtain rfl : tx' = tx := (congrArg PendingSender.tx hs).symm.trans (r.sender_tx tx)
      rw [hs] at hsent
      exact Streamed.told hsent hs hC hd

end

/-! ## Runs -/

theorem Settling.init {C : Prop} : Settling C [] .init where
  length := rfl
  nodup := nodupKeys_nil
  queued := forall_mem_nil _
  pending _ _ h := nomatch h
  tasks := forall_mem_nil _
  hand _ _ _ h := nomatch h
  logged _ _ h := nomatch h
  calls _ _ h := nomatch h

theorem DistinctIds.of_append {log log' : List Event} (h : DistinctIds (log ++ log')) :
    DistinctIds log := by
  rw [DistinctIds, requests, filterMap_append, map_append] at h
  exact (nodup_append.1 h).1

theorem settling_run {C : Prop} {reconnect : Bool} {ls : List Label} {a : Actor}
    (hC : ¬ C → Fine reconnect ls) (hrun : run (step reconnect) .init ls = some a) :
    Settling C (trace (step reconnect) events .init ls) a := by
  have hok : Along (step reconnect) (fun a l => ¬ C → NoStreamLeft reconnect a l) .init ls := by
    by_cases h : C
    · exact (Along.trivial ls _).imp fun _ _ _ hC => absurd h hC
    · exact (hC h).2.imp fun _ _ hl _ => hl
  have hstep : ∀ log a l a', ((¬ C → DistinctIds log) → Settling C log a) →
      (¬ C → NoStreamLeft reconnect a l) → step reconnect a l = some a' →
      (¬ C → DistinctIds (log ++ events a l)) → Settling C (log ++ events a l) a' := by
    intro log a l a' h hl hs hids
    have hids : ¬ C → DistinctIds log := fun hC => (hids hC).of_append
    exact (h hids).step hids hl hs
  exact trace_invariant hstep ls [] .init a (fun _ => .init) hok hrun fun h => (hC h).1

/-- **Every call is settled**: in every run, the channel of every call that was made has got what
`Sent` says, with the record of the run, and only frames with the id of the call; and if ids are
distinct and no `CallStream` was left in the queue, the caller of a call that a stopped actor has
not completed gets `ConnectionClosed`. -/
theorem calls_settled {reconnect : Bool} {ls : List Label} {a : Actor}
    (hrun : run (step reconnect) .init ls = some a) :
    ∀ tx r, (requests (trace (step reconnect) events .init ls))[tx]? = some r →
      ∃ reply, a.replies[tx]? = some reply ∧
        Sent (¬ Fine reconnect ls) r (r.sender tx)
          (framesFor (trace (step reconnect) events .init ls) (r.sender tx) r.id)
          (a.place (r.sender tx)) (a.inFlight tx) reply ∧
        (∀ msg, .ok msg ∈ reply.got → msg.id = r.id) ∧
        (Fine reconnect ls → a.pc = .stopped → Concluded reconnect a tx r reply) := by
  intro tx r hr
  have h : Settling (¬ Fine reconnect ls) _ a := settling_run not_not.1 hrun
  have hst : StoppedEmpty a :=
    run_kept (s := .init) (fun _ _ _ => StoppedEmpty.step) (fun hpc => nomatch hpc) hrun
  obtain ⟨reply, hreply, hsent⟩ := h.calls tx r hr
  exact ⟨reply, hreply, hsent, fun msg hm => framesFor_id (hsent.mem hm),
    fun hfine hpc => h.concluded (not_not.2 hfine) hst hpc hsent hreply⟩

/-- A stream and a call are answered, and the client is closed. -/
def answeredLabels : List Label :=
  toSelect ++ [.submit (.callStream 1 "f" .nil), .submit (.call 2 "g" .nil), .command true] ++
    toSelect ++ [.command true] ++ toSelect ++
    [.frame 0 (packStreamChunk 1 .nil), .frame 0 (packResponse 2 .nil), .frame 0 (packStreamEnd 1),
      .message, .deliver] ++
    toSelect ++ [.message] ++ toSelect ++ [.message, .deliver] ++ toSelect ++
      [.close, .command true]

/-- The actor then: the chunk and the end are in the channel of the stream. -/
def answeredActor : Actor :=
  { Actor.init with
    pc := .stopped
    writer := none
    replies := [⟨[.ok (packStreamChunk 1 .nil), .ok (packStreamEnd 1)], 2, false⟩,
      ⟨[.ok (packResponse 2 .nil)], 1, false⟩]
    wire := [⟨0, packRequest 1 "f" .nil, some 0⟩, ⟨0, packRequest 2 "g" .nil, some 1⟩] }

theorem calls_settled_two : run (step true) .init answeredLabels = some answeredActor ∧
    framesFor (trace (step true) events .init answeredLabels) (.stream 0) 1 =
      [packStreamChunk 1 .nil, packStreamEnd 1] ∧
    (∃ reply, answeredActor.replies[0]? = some reply ∧
      Sent (¬ Fine true answeredLabels) (.callStream 1 "f" .nil) (.stream 0)
        [packStreamChunk 1 .nil, packStreamEnd 1] none none reply ∧
      Concluded true answeredActor 0 (.callStream 1 "f" .nil) reply) ∧
    ∃ reply, answeredActor.replies[1]? = some reply ∧
      Sent (¬ Fine true answeredLabels) (.call 2 "g" .nil) (.unary 1)
        [packResponse 2 .nil] none none
        reply ∧
      Concluded true answeredActor 1 (.call 2 "g" .nil) reply := by
  have hrun : run (step true) .init answeredLabels = some answeredActor := rfl
  have hreq : requests (trace (step true) events .init answeredLabels) =
      [.callStream 1 "f" .nil, .call 2 "g" .nil] := rfl
  have hfine : Fine true answeredLabels := by
    refine ⟨by rw [DistinctIds, hreq]; decide, ?_⟩
    iterate 38 refine Along.cons (fun _ _ _ h => nomatch h) rfl ?_
    trivial
  obtain ⟨reply, hreply, hsent, -, hcon⟩ := calls_settled hrun 0 _ (by rw [hreq]; rfl)
  obtain ⟨reply', hreply', hsent', -, hcon'⟩ := calls_settled hrun 1 _ (by rw [hreq]; rfl)
  exact ⟨hrun, rfl, ⟨reply, hreply, hsent, hcon hfine rfl⟩, reply', hreply', hsent',
    hcon' hfine rfl⟩

/-- A stream is called after `close`, before the actor has taken the `Shutdown`. -/
def cutShortLabels : List Label :=
  toSelect ++ [.close, .submit (.callStream 1 "f" .nil), .command true]

/-- **The stream of a `CallStream` behind a `Shutdown` ends like one without items**: its channel is
dropped with the queue, and its caller is not told that the connection is closed. -/
theorem stream_cut_short : ∃ a reply, run (step true) .init cutShortLabels = some a ∧
    a.pc = .stopped ∧
    requests (trace (step true) events .init cutShortLabels) = [.callStream 1 "f" .nil] ∧
    a.replies[0]? = some reply ∧ reply.dropped = false ∧ a.place (.stream 0) = none ∧
    pollNext Except.ok (.ready reply.got[0]?) = .ready none ∧
    ¬ Concluded true a 0 (.callStream 1 "f" .nil) reply := by
  refine ⟨_, ⟨[], 0, false⟩, rfl, rfl, rfl, rfl, rfl, rfl, rfl, ?_⟩
  rintro (⟨-, htold⟩ | ⟨-, i, hi, -⟩)
  · obtain ⟨got, msg, hgot, -⟩ | ⟨received, -, -, hclosed⟩ := htold rfl
    · exact absurd hgot (by simp)
    · cases hclosed Value Except.ok
  · cases hi

end Callwire.Rust
