import Callwire.Rust.Proof.Calls

/-!
# New calls and frames

The steps that add to the record of a run keep `Settling`: a call is made (`Settling.submit`), a
frame is handled (`Settling.message`), and what a stream call is sent comes out of the actor's hand
(`Settling.delivered`, `Settling.undelivered`) or from a task of `drain_pending`
(`Settling.notified`). `Settling.step` puts the steps together. The one step that drops the sender
of a stream without a message is the end of the loop with a `CallStream` in the queue
(`Actor.left`).
-/

namespace Callwire.Rust

open Lib List Actor

section
variable {C : Prop} {log : List Event} {a a' b : Actor} {id : BitVec 64} {msg : WireMessage}
    {tx : Nat}
  {s : PendingSender} {frames : List WireMessage} {reply : Reply}

/-! ## New calls -/

theorem requests_submit (log : List Event) (r : Request) :
    requests (log ++ [.submitted r]) = requests log ++ [r] := by
  rw [requests, filterMap_append]
  rfl

theorem framesFor_submit (log : List Event) (r : Request) (s : PendingSender) (id : BitVec 64) :
    framesFor (log ++ [.submitted r]) s id = framesFor log s id := by
  rw [framesFor, filterMap_append]
  exact append_nil _

theorem Made.submit {r : Request} (h : Made log id s) : Made (log ++ [.submitted r]) id s := by
  obtain ⟨r', hr, h'⟩ := h
  refine ⟨r', ?_, h'⟩
  rw [requests_submit, getElem?_append_left (lt_of_some hr)]
  exact hr

theorem Owned.key_lt (h : Owned log a) (hs : s ∈ a.tokens.keys) : s.tx < a.replies.length := by
  rw [h.length]
  obtain ⟨t, ht, rfl⟩ := mem_map.1 hs
  rcases mem_append.1 ht with hq | ht
  · obtain ⟨⟨id, s⟩, hm, rfl⟩ := mem_map.1 hq
    obtain ⟨cmd, hc, hm⟩ := mem_filterMap.1 hm
    exact (h.ticket hc hm).lt
  · rcases mem_append.1 ht with hp | ht
    · obtain ⟨e, he, rfl⟩ := mem_map.1 hp
      exact (h.pending e.1 e.2 (AList.mem_lookup_iff.2 he)).lt
    · obtain ⟨tx, hm, rfl⟩ := mem_map.1 ht
      obtain ⟨id, hm⟩ := h.tasks tx hm
      exact hm.lt

theorem framesFor_eq_nil (h : Owned log a) (hs : s.tx = a.replies.length) :
    framesFor log s id = [] := by
  refine filterMap_eq_nil_iff.2 fun e he => ?_
  cases e with
  | submitted r => rfl
  | handled waiting msg =>
    refine if_neg fun hc => ?_
    exact Nat.lt_irrefl _ (hs ▸ h.logged waiting msg he s hc.2)

theorem Owned.inFlight_new (h : Owned log a) : a.inFlight a.replies.length = none := by
  unfold inFlight
  split
  · rename_i id tx msg hpc
    refine if_neg fun he => ?_
    exact Nat.lt_irrefl _ (he ▸ h.length ▸ (h.hand id tx msg hpc).1.lt)
  · rfl

theorem Settling.submit (h : Settling C log a) (r : Request) (rx : Nat) (chans : List Chan) :
    Settling C (log ++ [.submitted r]) { a with
      replies := a.replies ++ [Reply.mk [] 0 false]
      chans
      cmds := a.cmds ++ [r.command rx a.replies.length] } := by
  let b : Actor := { a with
    replies := a.replies ++ [Reply.mk [] 0 false]
    chans
    cmds := a.cmds ++ [r.command rx a.replies.length] }
  have hperm : b.tokens.Perm (⟨r.sender a.replies.length, .queued⟩ :: a.tokens) := by
    have hq : b.cmds.filterMap ActorCommand.ticket =
        a.cmds.filterMap ActorCommand.ticket ++ [(r.id, r.sender a.replies.length)] := by
      rw [filterMap_append, filterMap_cons_some (r.command_ticket ..)]
      rfl
    rw [tokens, hq, map_append, append_assoc]
    exact perm_middle
  have hnew : r.sender a.replies.length ∉ a.tokens.keys := by
    intro hm
    have hlt := h.key_lt hm
    rw [r.sender_tx] at hlt
    exact Nat.lt_irrefl _ hlt
  have hnodup : b.tokens.NodupKeys :=
    (perm_nodupKeys hperm).2 (nodupKeys_cons.2 ⟨hnew, h.nodup⟩)
  have hlen : b.replies.length = a.replies.length + 1 := length_append
  refine ⟨⟨?_, hnodup, ?_, fun id s hl => (h.pending id s hl).submit, fun tx ht => ?_,
    fun id tx msg hpc => ?_, fun waiting msg hm s hs => ?_⟩, fun tx r' hr' => ?_⟩
  · rw [hlen, requests_submit, length_append, h.length]
    rfl
  · intro cmd hm hsh
    rw [requests_submit]
    rcases mem_concat_cases hm with hm | rfl
    · obtain ⟨rx', tx', r', hr', he⟩ := h.queued cmd hm hsh
      exact ⟨rx', tx', r', concat_of_some hr', he⟩
    · refine ⟨rx, _, r, ?_, rfl⟩
      rw [h.length, getElem?_concat_length]
  · obtain ⟨id, hm⟩ := h.tasks tx ht
    exact ⟨id, hm.submit⟩
  · obtain ⟨hm, hp⟩ := h.hand id tx msg hpc
    exact ⟨hm.submit, hp⟩
  · rw [hlen]
    rcases mem_concat_cases hm with hm | hm
    · exact Nat.lt_succ_of_lt (h.logged waiting msg hm s hs)
    · cases hm
  · rw [requests_submit] at hr'
    rw [framesFor_submit]
    rcases concat_cases hr' with hr' | ⟨rfl, rfl⟩
    · obtain ⟨reply, hreply, hsent⟩ := h.calls tx r' hr'
      have hplace : b.place (r'.sender tx) = a.place (r'.sender tx) := by
        refine (perm_dlookup _ hnodup hperm).trans (dlookup_cons_ne _ _ fun he => ?_)
        have htx := congrArg PendingSender.tx he
        rw [r'.sender_tx, r.sender_tx, h.length] at htx
        exact Nat.ne_of_lt (lt_of_some hr') htx
      exact ⟨reply, concat_of_some hreply, hplace ▸ hsent⟩
    · rw [← h.length]
      have hplace : b.place (r'.sender a.replies.length) = some .queued :=
        (perm_dlookup _ hnodup hperm).trans (dlookup_cons_eq ..)
      have hhand : b.inFlight a.replies.length = none := h.inFlight_new
      rw [framesFor_eq_nil h.toOwned (r'.sender_tx _)]
      refine ⟨_, getElem?_concat_length, ?_⟩
      cases hs : r'.sender a.replies.length with
      | unary => exact .inl rfl
      | stream =>
        rw [hs] at hplace
        exact .going (fun hn => by cases hplace.symm.trans hn) hhand (forall_mem_nil _) rfl

/-! ## Frames out of the hand -/

theorem inFlight_self (hpc : a.pc = .delivering id tx msg) : a.inFlight tx = some msg := by
  rw [inFlight, hpc]
  exact if_pos rfl

theorem inFlight_other {tx' : Nat} (hpc : a.pc = .delivering id tx msg) (hne : tx' ≠ tx) :
    a.inFlight tx' = none := by
  rw [inFlight, hpc]
  exact if_neg (Ne.symm hne)

theorem Streamed.in_flight {p : Option Place} (h : Streamed C frames p (some msg) reply) :
    ∃ init, frames = init ++ [msg] ∧ Chunks init ∧ reply.got = init.map .ok ∧
      (msg.msgType = "stream_chunk" ∧ p = some .pending ∨
        msg.msgType ≠ "stream_chunk" ∧ p = none) := by
  cases h with
  | sending hf hp hh hc hg =>
    cases hh
    exact ⟨_, hf, hc, hg, hp⟩
  | going _ hh | ended _ _ _ hh | closed _ hh | dropped _ _ hh | cut _ _ hh => cases hh

theorem chunks_concat (h : Chunks frames) (hm : msg.msgType = "stream_chunk") :
    Chunks (frames ++ [msg]) := forall_concat h hm

theorem Settling.delivered (h : Settling C log a) (hpc : a.pc = .delivering id tx msg) :
    Settling C log { a.sendStream tx (.ok msg) with pc := .enter .exports } := by
  obtain ⟨⟨r, hr, rfl, hs⟩, -⟩ := h.hand id tx msg hpc
  have hlen : (a.sendStream tx (.ok msg)).replies.length = a.replies.length := length_modify ..
  refine h.one { h.toOwned.replies hlen with hand := nofun } tx rfl
    (fun _ _ _ _ => rfl) (fun tx' hne => getElem?_modify_ne _ _ (Ne.symm hne)) (fun _ _ => rfl)
    (fun tx' hne => (inFlight_other hpc hne).symm) fun r' reply hr' hreply hsent =>
      ⟨_, sendStream_reply _ hreply, ?_⟩
  cases hr.symm.trans hr'
  have hs : r.sender tx = .stream tx := hs
  rw [hs, inFlight_self hpc] at hsent
  rw [hs]
  obtain ⟨init, hf, hc, hg, hp⟩ := Streamed.in_flight hsent
  have hgot : reply.got ++ [.ok msg] = (init ++ [msg]).map .ok := by
    rw [hg, map_append]
    rfl
  rcases hp with ⟨hm, hp⟩ | ⟨hm, hp⟩
  · refine .going ?_ rfl (hf ▸ chunks_concat hc hm) (hf ▸ hgot)
    exact fun hn => nomatch hp.symm.trans hn
  · exact .ended hf hm hp rfl hc (hf ▸ hgot)

/-- The caller has dropped its end: the frame is lost, and the call is forgotten. -/
theorem Settling.undelivered (h : Settling C log a) (hpc : a.pc = .delivering id tx msg)
    (hr : a.replies[tx]? = some reply) (hd : reply.dropped = true) :
    Settling C log { a with pending := a.pending.erase id, pc := .enter .exports } := by
  obtain ⟨hm, hpend⟩ := h.hand id tx msg hpc
  have hdropped : ∀ {r : Request} {p : Option Place},
      Sent C r (.stream tx) (framesFor log (.stream tx) id) p (some msg) reply →
      Sent C r (.stream tx) (framesFor log (.stream tx) id) none none reply := by
    intro r p hsent
    obtain ⟨init, hf, hc, hg, -⟩ := Streamed.in_flight hsent
    refine .dropped hd rfl rfl ?_ (hf ▸ prefix_append ..) hg
    rw [hf, dropLast_concat]
    exact hc
  cases hl : a.pending.lookup id with
  | some s =>
    obtain rfl := hpend s hl
    refine h.move hm (moves_erase hl) (fun hn => { h.toOwned with
        nodup := hn
        pending := fun id' s' hl' => h.pending id' s' (lookup_of_erase hl').2
        hand := nofun }) (fun _ _ => rfl) (fun tx' hne => (inFlight_other hpc hne).symm)
      fun r reply' _ hreply hsent => ⟨reply', hreply, ?_⟩
    cases hr.symm.trans hreply
    rw [show (PendingSender.stream tx).tx = tx from rfl, inFlight_self hpc] at hsent
    exact hdropped hsent
  | none =>
    rw [erase_of_lookup_none hl]
    refine h.one { h.toOwned with hand := nofun } tx rfl (fun _ _ _ _ => rfl) (fun _ _ => rfl)
      (fun _ _ => rfl) (fun tx' hne => (inFlight_other hpc hne).symm)
      fun r reply' hreq hreply hsent => ⟨reply', hreply, ?_⟩
    cases hr.symm.trans hreply
    obtain ⟨r', hreq', rfl, hs⟩ := hm
    cases hreq.symm.trans hreq'
    rw [show r.sender tx = .stream tx from hs, inFlight_self hpc] at hsent
    rw [show r.sender tx = .stream tx from hs]
    -- the frame was the last one: the sender is not in `pending`
    have hplace : a.place (.stream tx) = none := by
      obtain ⟨-, -, -, -, ⟨-, hp⟩ | ⟨-, hp⟩⟩ := Streamed.in_flight hsent
      · obtain ⟨id', hl'⟩ := place_pending hp
        cases Made.unique ⟨r, hreq, rfl, hs⟩ (h.pending id' _ hl')
        cases hl.symm.trans hl'
      · exact hp
    rw [show Actor.place { a with pc := .enter .exports } (.stream tx) = none from hplace]
    exact hdropped hsent

theorem Streamed.at_task {hand : Option WireMessage}
    (h : Streamed C frames (some .task) hand reply) :
    hand = none ∧ Chunks frames ∧ reply.got = frames.map .ok := by
  cases h with
  | going _ hh hc hg => exact ⟨hh, hc, hg⟩
  | sending _ hp => rcases hp with ⟨-, hp⟩ | ⟨-, hp⟩ <;> cases hp
  | ended _ _ hp | closed hp | dropped _ hp | cut _ hp => cases hp

/-- A task sends its message. -/
theorem Settling.notified {i : Nat} (h : Settling C log a) (hi : a.spawned[i]? = some tx) :
    Settling C log
      (sendStream { a with spawned := a.spawned.eraseIdx i } tx .connectionClosed) := by
  obtain ⟨id, hm⟩ := h.tasks tx (mem_of_getElem? hi)
  have hlen : (a.sendStream tx .connectionClosed).replies.length = a.replies.length :=
    length_modify ..
  refine h.move hm (moves_task hi) (fun hn => { h.toOwned.replies hlen with
      nodup := hn
      tasks := fun tx ht => h.tasks tx (mem_of_mem_eraseIdx ht) })
    (fun tx' hne => getElem?_modify_ne _ _ (Ne.symm hne)) (fun _ _ => rfl)
    fun r reply hr hreply hsent => ⟨_, sendStream_reply _ hreply, ?_⟩
  obtain ⟨hh, hc, hg⟩ := Streamed.at_task hsent
  exact .closed rfl hh hc (congrArg (· ++ [.connectionClosed]) hg)

theorem Settling.unnotified {i : Nat} (h : Settling C log a) (hi : a.spawned[i]? = some tx)
    (hr : a.replies[tx]? = some reply) (hd : reply.dropped = true) :
    Settling C log { a with spawned := a.spawned.eraseIdx i } := by
  obtain ⟨id, hm⟩ := h.tasks tx (mem_of_getElem? hi)
  refine h.move hm (moves_task hi) (fun hn => { h.toOwned with
      nodup := hn
      tasks := fun tx ht => h.tasks tx (mem_of_mem_eraseIdx ht) })
    (fun _ _ => rfl) (fun _ _ => rfl) fun r reply' _ hreply hsent => ⟨reply', hreply, ?_⟩
  cases hr.symm.trans hreply
  obtain ⟨hh, hc, hg⟩ := Streamed.at_task hsent
  exact .dropped hd rfl hh (fun m hm => hc m ((dropLast_subset _) hm)) prefix_rfl hg

/-! ## Handling a frame -/

theorem requests_handled (log : List Event) (waiting : List PendingSender) (msg : WireMessage) :
    requests (log ++ [.handled waiting msg]) = requests log := by
  rw [requests, filterMap_append]
  exact append_nil _

theorem framesFor_handled (log : List Event) (waiting : List PendingSender) (msg : WireMessage)
    (s : PendingSender) (id : BitVec 64) : framesFor (log ++ [.handled waiting msg]) s id =
      framesFor log s id ++ if msg.id = id ∧ s ∈ waiting then [msg] else [] := by
  rw [framesFor, filterMap_append]
  congr 1
  by_cases hc : msg.id = id ∧ s ∈ waiting
  · rw [if_pos hc]
    exact filterMap_cons_some (if_pos hc)
  · rw [if_neg hc]
    exact filterMap_cons_none (if_neg hc)

/-- A frame is for the call that `pending` leads to. -/
theorem Owned.pending_iff {k : BitVec 64} (h : Owned log a) (hm : Made log id s) :
    k = id ∧ s ∈ a.pending.entries.map (·.2) ↔ a.pending.lookup k = some s := by
  constructor
  · rintro ⟨rfl, hs⟩
    obtain ⟨⟨k', s⟩, he, rfl⟩ := mem_map.1 hs
    have hl := AList.mem_lookup_iff.2 he
    cases hm.unique (h.pending _ _ hl)
    exact hl
  · intro hl
    cases hm.unique (h.pending _ _ hl)
    exact ⟨rfl, mem_map.2 ⟨_, AList.mem_lookup_iff.1 hl, rfl⟩⟩

/-- The record of the run with a frame. -/
def Actor.record (a : Actor) (log : List Event) (msg : WireMessage) : List Event :=
  log ++ [.handled (a.pending.entries.map (·.2)) msg]

theorem Owned.record (h : Owned log a) (msg : WireMessage) : Owned (a.record log msg) a := by
  have hreq : requests (a.record log msg) = requests log := requests_handled ..
  have hmade : ∀ {id s}, Made log id s → Made (a.record log msg) id s := by
    intro id s hm
    rwa [Made, hreq]
  refine ⟨by rw [hreq]; exact h.length, h.nodup, by rw [hreq]; exact h.queued,
    fun id s hl => hmade (h.pending id s hl), fun tx ht => ?_, fun id tx msg hpc => ?_,
    fun waiting msg' hm s hs => ?_⟩
  · obtain ⟨id, hm⟩ := h.tasks tx ht
    exact ⟨id, hmade hm⟩
  · obtain ⟨hm, hp⟩ := h.hand id tx msg hpc
    exact ⟨hmade hm, hp⟩
  · rcases mem_concat_cases hm with hm | hm
    · exact h.logged waiting msg' hm s hs
    · cases hm
      obtain ⟨e, he, rfl⟩ := mem_map.1 hs
      rw [h.length]
      exact (h.pending e.1 e.2 (AList.mem_lookup_iff.2 he)).lt

theorem Owned.framesFor_other (h : Owned log a) (hm : Made log id s)
    (hl : a.pending.lookup msg.id ≠ some s) :
    framesFor (a.record log msg) s id = framesFor log s id := by
  rw [Actor.record, framesFor_handled, if_neg fun hc => hl ((h.pending_iff hm).1 hc), append_nil]

theorem Owned.framesFor_self (h : Owned log a) (hl : a.pending.lookup msg.id = some s) :
    framesFor (a.record log msg) s msg.id = framesFor log s msg.id ++ [msg] := by
  rw [Actor.record, framesFor_handled, if_pos ((h.pending_iff (h.pending _ _ hl)).2 hl)]

theorem made_of_request {r : Request} (hr : (requests log)[tx]? = some r) :
    Made log r.id (r.sender tx) := ⟨r, by rwa [r.sender_tx], rfl, by rw [r.sender_tx]⟩

/-- A frame for no call. -/
theorem Settling.unclaimed (h : Settling C log a) (hno : a.pending.lookup msg.id = none) :
    Settling C (a.record log msg) a := by
  refine ⟨h.toOwned.record msg, fun tx r hr => ?_⟩
  rw [Actor.record, requests_handled] at hr
  rw [h.framesFor_other (made_of_request hr) (by simp [hno])]
  exact h.calls tx r hr

/-- A frame for the call with sender `s`: a chunk leaves it pending, another frame takes it away. -/
theorem Settling.claimed (h : Settling C log a) (hfree : a.FreeHanded)
    (hl : a.pending.lookup msg.id = some s)
    (hp : b.pending = if msg.msgType ≠ "stream_chunk" then a.pending.erase msg.id else a.pending)
    (hc : b.cmds = a.cmds) (hs : b.spawned = a.spawned) (hlen : b.replies.length = a.replies.length)
    (hreplies : ∀ tx, tx ≠ s.tx → b.replies[tx]? = a.replies[tx]?)
    (hpc : ∀ id tx msg', b.pc = .delivering id tx msg' → id = msg.id ∧ s = .stream tx)
    (h₀ : ∀ r reply p, a.replies[s.tx]? = some reply →
      p = (if msg.msgType ≠ "stream_chunk" then none else some .pending) →
      Sent C r s (framesFor log s msg.id) (some .pending) none reply →
      ∃ reply', b.replies[s.tx]? = some reply' ∧
        Sent C r s (framesFor log s msg.id ++ [msg]) p (b.inFlight s.tx) reply') :
    Settling C (a.record log msg) b := by
  have hm := h.pending _ _ hl
  have hmoves : Moves s .pending (if msg.msgType ≠ "stream_chunk" then none else some .pending)
      a.tokens b.tokens := by
    have hb : b.tokens = tokens { a with pending := b.pending } := by
      rw [tokens, tokens, hc, hs]
    rw [hb, hp]
    split
    · exact moves_erase hl
    · exact ⟨_, tokens_perm_erase hl, tokens_perm_erase hl⟩
  have hsub : ∀ id s, b.pending.lookup id = some s → a.pending.lookup id = some s := by
    intro id s hl
    rw [hp] at hl
    split at hl
    · exact (lookup_of_erase hl).2
    · exact hl
  have hrec := h.toOwned.record msg
  have howned : Owned (a.record log msg) b := by
    refine ⟨hlen.trans hrec.length, hmoves.nodupKeys h.nodup, hc ▸ hrec.queued,
      fun id s hl => hrec.pending id s (hsub id s hl), hs ▸ hrec.tasks, fun id tx msg' hd => ?_,
      hlen ▸ hrec.logged⟩
    obtain ⟨rfl, rfl⟩ := hpc id tx msg' hd
    exact ⟨hrec.pending _ _ hl, fun s' hl' => Option.some.inj ((hsub _ _ hl').symm.trans hl)⟩
  have hhand : ∀ tx, tx ≠ s.tx → b.inFlight tx = none := by
    intro tx hne
    unfold inFlight
    split
    · rename_i hd
      obtain ⟨-, rfl⟩ := hpc _ _ _ hd
      exact if_neg (Ne.symm hne)
    · rfl
  refine h.one howned s.tx (requests_handled ..) (fun tx r hne hr => ?_) hreplies
    (fun s' hne => hmoves.other h.nodup fun he => hne (congrArg _ he))
    (fun tx hne => (hhand tx hne).trans (hfree.inFlight tx).symm) fun r reply hr hreply hsent => ?_
  · refine h.framesFor_other (made_of_request hr) fun hl' => hne ?_
    rw [← r.sender_tx tx, Option.some.inj (hl'.symm.trans hl)]
  · obtain ⟨r', hr', hid, hsender⟩ := hm
    cases hr.symm.trans hr'
    rw [hsender, hid, hfree.inFlight, Actor.place, hmoves.before h.nodup] at hsent
    rw [hsender, hid, h.framesFor_self hl, Actor.place, hmoves.after h.nodup]
    exact h₀ r reply _ hreply rfl hsent

theorem Answered.frame {p : Place} {got : List Outcome} (h : Answered frames (some p) got)
    (msg : WireMessage) (o : Option Place) :
    Answered (frames ++ [msg]) o (if got.isEmpty then [.ok msg] else got) := by
  rcases h with rfl | ⟨-, hp, -⟩
  · cases frames <;> exact .inl rfl
  · cases hp

theorem handleFrame_cases (a : Actor) (msg : WireMessage) (pending : IdMap PendingSender)
    (hp : pending = if msg.msgType ≠ "stream_chunk" then a.pending.erase msg.id else a.pending) :
    (∀ tx, a.pending.lookup msg.id = some (.stream tx) →
      a.handleFrame msg = { a with pending, pc := .delivering msg.id tx msg }) ∧
    (∀ tx, a.pending.lookup msg.id = some (.unary tx) →
      a.handleFrame msg = { a.sendUnary tx (.ok msg) with pending, pc := .enter .exports }) ∧
    (a.pending.lookup msg.id = none → a.handleFrame msg = { a with pending, pc := .enter .exports })
    := by
  refine ⟨fun tx hl => ?_, fun tx hl => ?_, fun hl => ?_⟩ <;>
    simp only [handleFrame, hl, hp] <;> split <;> rfl

theorem Settling.message (h : Settling C log a) (hfree : a.FreeHanded)
    (reader : List (Nat × ReaderMessage)) :
    Settling C (a.record log msg) (handleFrame { a with reader } msg) := by
  obtain ⟨hstream, hunary, hnone⟩ := handleFrame_cases { a with reader } msg _ rfl
  cases hl : a.pending.lookup msg.id with
  | none =>
    rw [hnone hl]
    have hp : (if msg.msgType ≠ "stream_chunk" then a.pending.erase msg.id else a.pending) =
        a.pending := by
      rw [erase_of_lookup_none hl, ite_self]
    rw [show _ = a.pending from hp]
    exact (h.unclaimed hl).congr rfl (fun _ hm _ => hm) rfl rfl rfl
      (.inr ⟨hfree, rfl⟩)
  | some s =>
    cases s with
    | unary tx =>
      rw [hunary tx hl]
      refine h.claimed hfree hl rfl rfl rfl (length_modify ..)
        (fun tx' hne => getElem?_modify_ne _ _ (Ne.symm hne)) nofun
        fun r reply p hreply _ hsent => ?_
      obtain ⟨reply', hreply', hg⟩ := sendUnary_reply (.ok msg) hreply
      refine ⟨reply', hreply', ?_⟩
      rw [Sent, hg]
      exact Answered.frame hsent msg p
    | stream tx =>
      rw [hstream tx hl]
      refine h.claimed hfree hl rfl rfl rfl rfl (fun _ _ => rfl) (fun _ _ _ hd => ?_)
        fun r reply p hreply hp hsent => ⟨reply, hreply, ?_⟩
      · cases hd
        exact ⟨rfl, rfl⟩
      · obtain ⟨hc, hg⟩ := Streamed.at_rest hsent
        refine .sending rfl ?_ (inFlight_self rfl) hc hg
        by_cases hm : msg.msgType = "stream_chunk"
        · exact .inl ⟨hm, hp.trans (if_neg (not_not.2 hm))⟩
        · exact .inr ⟨hm, hp.trans (if_pos hm)⟩

/-! ## All steps -/

/-- The commands that are left in the queue if this step ends the loop. -/
def Actor.left (reconnect : Bool) (a : Actor) : Label → List ActorCommand
  | .command ok =>
    match a.cmds with
    | [] => []
    | .shutdown :: cmds => cmds
    | _ :: cmds => if reconnect = false ∧ (ok = false ∨ a.writer = none) then cmds else []
  | .message =>
    match a.reader with
    | (_, .closed) :: _ => if reconnect then [] else a.cmds
    | _ => []
  | _ => []

/-- The loop does not end with a `CallStream` in the queue. -/
def NoStreamLeft (reconnect : Bool) (a : Actor) (l : Label) : Prop :=
  ∀ id payload tx, .callStream id payload tx ∉ a.left reconnect l

theorem left_failed {ok : Bool} {cmd : ActorCommand} {cmds : List ActorCommand}
    (hc : a.cmds = cmd :: cmds) (hsh : cmd ≠ .shutdown) (hok : ok = false ∨ a.writer = none) :
    a.left false (.command ok) = cmds := by
  rw [Actor.left, hc]
  cases cmd with
  | shutdown => exact absurd rfl hsh
  | _ => exact if_pos ⟨rfl, hok⟩

theorem cmds_disconnect (a : Actor) : a.disconnect.cmds = a.cmds := by
  obtain ⟨_, _, he⟩ := a.disconnect_eq
  rw [he]

/-- `drain_pending` makes tasks for streams only. -/
theorem place_disconnect {p : Place} (h : a.disconnect.place (.unary tx) = some p) :
    a.place (.unary tx) ≠ none := by
  obtain ⟨replies, spawned, he⟩ := a.disconnect_eq
  rw [he] at h
  rcases mem_append.1 (of_mem_dlookup h) with hm | hm
  · intro hn
    exact dlookup_eq_none.1 hn (mem_map_of_mem (mem_append_left _ hm))
  · obtain ⟨t, -, ht⟩ := mem_map.1 (show _ ∈ map _ spawned from hm)
    cases ht

/-- An `ExportStream` whose request is not written gets its end, after the pending calls. -/
theorem Settling.exportFailed {cmds : List ActorCommand} {payload : WireMessage} {rx : Nat}
    (h : Settling C log a) (hf : a.FreeHanded)
    (hc : a.cmds = .exportStream id payload rx tx :: cmds) :
    Settling C log ((Actor.disconnect { a with cmds }).sendUnary tx .connectionClosed) := by
  have hdrop := h.drop hf hc (by simp)
  have hm : Made log id (.unary tx) := h.ticket (hc ▸ mem_cons_self ..) rfl
  have hgone : Actor.place { a with cmds } (.unary tx) = none :=
    (moves_command hc rfl).after h.nodup
  refine (hdrop.disconnect hf).sendUnary hm ?_
  cases hp : (Actor.disconnect { a with cmds }).place (.unary tx) with
  | none => rfl
  | some p => exact absurd hgone (place_disconnect hp)

theorem Settling.step_quiet {reconnect : Bool} {l : Label} (h : Settling C log a)
    (hids : ¬ C → DistinctIds log) (hleft : ¬ C → NoStreamLeft reconnect a l)
    (hmove : Move reconnect a l a') (hev : events a l = []) : Settling C log a' := by
  cases hmove with
  | submit => cases hev
  | message _ hr =>
    rw [events, hr] at hev
    cases hev
  | close =>
    refine h.congr (by simp [tokens, ActorCommand.ticket]) (fun cmd hm hsh => ?_) rfl rfl rfl
      (.inl rfl)
    exact (mem_concat_cases hm).resolve_right hsh
  | @receive tx r hr hu =>
    refine h.read tx length_set (fun tx' hne => getElem?_set_ne (Ne.symm hne))
      fun reply hreply => ?_
    cases hr.symm.trans hreply
    exact ⟨_, set_of_some hr, rfl, (·)⟩
  | @dropReply tx =>
    refine h.read tx (length_modify ..) (fun tx' hne => getElem?_modify_ne _ _ (Ne.symm hne))
      fun reply hreply => ?_
    exact ⟨_, (getElem?_modify_eq ..).trans (congrArg _ hreply), rfl, fun _ => rfl⟩
  | @skip side order hpc =>
    refine h.congr rfl (fun _ hm _ => hm) rfl rfl rfl (.inr ⟨.of_pc hpc rfl, ?_⟩)
    cases side <;> rfl
  | enter hpc | miss hpc | empty hpc | check hpc | connected hpc =>
    exact h.congr rfl (fun _ hm _ => hm) rfl rfl rfl
      (.inr ⟨.of_pc hpc rfl, rfl⟩)
  | @leave side gone ok hpc | @unpumped side _ _ _ _ _ _ _ hpc =>
    have hf : a.FreeHanded := .of_pc hpc rfl
    cases side <;>
      exact h.congr rfl (fun _ hm _ => hm) rfl rfl rfl (.inr ⟨hf, rfl⟩)
  | shutdown hpc hc =>
    have hf : a.FreeHanded := .of_pc hpc rfl
    refine (h.drop hf hc (by simp)).stop hf fun hC id payload tx hm => ?_
    refine hleft hC id payload tx ?_
    rw [Actor.left, hc]
    exact hm
  | noClients hpc hc =>
    refine h.stop (.of_pc hpc rfl) fun _ _ _ _ hm => ?_
    rw [hc] at hm
    cases hm
  | call hpc hc hp =>
    have hf : a.FreeHanded := .of_pc hpc rfl
    exact (h.take hf hids hc (ActorCommand.plain_ticket hp)).congr rfl
      (fun _ hm _ => hm) rfl rfl rfl
      (.inr ⟨hf, rfl⟩)
  | exportStream hpc hc | importBidi hpc hc =>
    have hf : a.FreeHanded := .of_pc hpc rfl
    exact (h.take hf hids hc rfl).congr rfl (fun _ hm _ => hm) rfl rfl rfl
      (.inr ⟨hf, rfl⟩)
  | callFailed hpc hc hsh ht hfail =>
    have hf : a.FreeHanded := .of_pc hpc rfl
    refine ((h.take hf hids hc ht).disconnect hf).reconnectOrStop (Actor.FreeHanded.disconnect hf)
      fun hC hrec id payload tx hm => ?_
    rw [cmds_disconnect] at hm
    subst hrec
    exact hleft hC id payload tx (left_failed hc hsh hfail ▸ hm)
  | @exportFailed cmds _ _ _ _ _ hpc hc hfail =>
    have hf : a.FreeHanded := .of_pc hpc rfl
    refine (h.exportFailed hf hc).reconnectOrStop (Actor.FreeHanded.disconnect hf)
      fun hC hrec id payload tx hm => ?_
    have hm : .callStream id payload tx ∈ (Actor.disconnect { a with cmds }).cmds := hm
    rw [cmds_disconnect] at hm
    subst hrec
    exact hleft hC id payload tx (left_failed hc (by simp) hfail ▸ hm)
  | @lost n reader hpc hr =>
    have hf : a.FreeHanded := .of_pc hpc rfl
    have hb : Settling C log { a with reader } :=
      h.congr rfl (fun _ hm _ => hm) rfl rfl rfl (.inl rfl)
    refine (hb.disconnect hf).reconnectOrStop (Actor.FreeHanded.disconnect hf)
      fun hC hrec id payload tx hm => hleft hC id payload tx ?_
    rw [cmds_disconnect] at hm
    subst hrec
    rw [Actor.left, hr]
    exact hm
  | delivered hpc => exact h.delivered hpc
  | undelivered hpc hr hd => exact h.undelivered hpc hr hd
  | notified hi => exact h.notified hi
  | unnotified hi hr hd => exact h.unnotified hi hr hd
  | _ => exact h.congr rfl (fun _ hm _ => hm) rfl rfl rfl (.inl rfl)

/-- **Every step keeps the invariant**, with what it adds to the record. -/
theorem Settling.step {reconnect : Bool} {l : Label} (h : Settling C log a)
    (hids : ¬ C → DistinctIds log) (hleft : ¬ C → NoStreamLeft reconnect a l)
    (hstep : Callwire.Rust.step reconnect a l = some a') : Settling C (log ++ events a l) a' := by
  have hmove := step_move hstep
  by_cases hev : events a l = []
  · rw [hev, append_nil]
    exact h.step_quiet hids hleft hmove hev
  · cases hmove with
    | submit => exact h.submit ..
    | @message n msg reader hpc hr =>
      rw [events, hr]
      exact h.message (.of_pc hpc rfl) reader
    | lost _ hr =>
      rw [events, hr] at hev
      exact absurd rfl hev
    | send hl =>
      cases l <;> first | exact absurd rfl hev | cases hl
    | _ => exact absurd rfl hev

end

end Callwire.Rust
