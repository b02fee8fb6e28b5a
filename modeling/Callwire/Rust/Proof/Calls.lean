import Callwire.Lib.Transition
import Callwire.Rust.Proof.ActorStep

/-!
# The calls of the actor

A run is read with its record (`events`): the calls that were made, in order, and the frames the
actor handled, each with the calls that were pending then. The channel of call `tx` is the `tx`-th
of `replies`. Its sender is in one place at a time (`Actor.place`): with the command in the queue,
in `pending`, or in a task of `drain_pending`; the frame a stream call is being sent is in the
actor's hand (`Actor.inFlight`). `Settling` is the invariant from which the fate of every call is
read off: a call without a stream is completed by the first frame with its id that came while it was
pending, and a stream is sent exactly the frames that came while it was.

The actor moves one sender at a time, also where it drains `pending` or drops the queue
(`Settling.move`). Here are the moves without a frame.
-/

namespace Callwire.Rust

open Lib List Actor

/-! ## The record of a run -/

def Request.id : Request → BitVec 64
  | .call id _ _ | .callStream id _ _ | .exportStream id _ | .importBidi id _ => id

/-- The sender that `pending` keeps for the call. -/
def Request.sender (tx : Nat) : Request → PendingSender
  | .call _ _ _ | .exportStream _ _ => .unary tx
  | .callStream _ _ _ | .importBidi _ _ => .stream tx

inductive Event where
  | submitted (r : Request)
  /-- a frame, and the senders that were pending -/
  | handled (waiting : List PendingSender) (msg : WireMessage)

/-- What a step adds to the record. -/
def events (a : Actor) : Label → List Event
  | .submit r => [.submitted r]
  | .message =>
    match a.reader with
    | (_, .frame msg) :: _ => [.handled (a.pending.entries.map (·.2)) msg]
    | _ => []
  | _ => []

def requests (log : List Event) : List Request :=
  log.filterMap fun
    | .submitted r => some r
    | .handled _ _ => none

/-- The frames with this id that were handled while the call with sender `s` was pending. -/
def framesFor (log : List Event) (s : PendingSender) (id : BitVec 64) : List WireMessage :=
  log.filterMap fun
    | .submitted _ => none
    | .handled waiting msg => if msg.id = id ∧ s ∈ waiting then some msg else none

/-- The calls have different ids. -/
def DistinctIds (log : List Event) : Prop := ((requests log).map Request.id).Nodup

/-! ## Senders -/

def PendingSender.tx : PendingSender → Nat
  | .unary tx | .stream tx => tx

/-- Where a sender can be. -/
inductive Place where
  | queued
  | pending
  | task

def Pc.delivers : Pc → Bool
  | .delivering _ _ _ => true
  | _ => false

namespace Actor

/-- The senders outside the actor's hand, with their places. -/
def tokens (a : Actor) : List (Sigma fun _ : PendingSender => Place) :=
  (a.cmds.filterMap ActorCommand.ticket).map (fun t => ⟨t.2, .queued⟩) ++
    (a.pending.entries.map (fun e => ⟨e.2, .pending⟩) ++
      a.spawned.map fun tx => ⟨.stream tx, .task⟩)

def place (a : Actor) (s : PendingSender) : Option Place := a.tokens.dlookup s

/-- The frame that is being sent to stream call `tx`. -/
def inFlight (a : Actor) (tx : Nat) : Option WireMessage :=
  match a.pc with
  | .delivering _ tx' msg => if tx' = tx then some msg else none
  | _ => none

/-- The actor is not sending a frame to a stream. -/
def FreeHanded (a : Actor) : Prop := a.pc.delivers = false

end Actor

/-! ## What a call has been sent -/

def Chunks (frames : List WireMessage) : Prop := ∀ m ∈ frames, m.msgType = "stream_chunk"

/-- A call without a stream has been sent the first of the frames handled while it was pending, or
the end by `drain_pending`, after which no frame comes. -/
def Answered (frames : List WireMessage) (place : Option Place) (got : List Outcome) : Prop :=
  got = (frames.take 1).map .ok ∨ frames = [] ∧ place = none ∧ got = [.connectionClosed]

/-- A stream has been sent the frames handled while it was pending: chunks as long as it has a
sender, one more frame at the end, or the end by `drain_pending`. If the sender was dropped without
a message, `Cut` holds. -/
inductive Streamed (Cut : Prop) (frames : List WireMessage) (place : Option Place)
    (hand : Option WireMessage) (reply : Reply) : Prop where
  | going (hp : place ≠ none) (hh : hand = none) (hc : Chunks frames)
      (hg : reply.got = frames.map .ok)
  | sending {init : List WireMessage} {msg : WireMessage} (hf : frames = init ++ [msg])
      (hp : msg.msgType = "stream_chunk" ∧ place = some .pending ∨
        msg.msgType ≠ "stream_chunk" ∧ place = none)
      (hh : hand = some msg) (hc : Chunks init) (hg : reply.got = init.map .ok)
  | ended {init : List WireMessage} {msg : WireMessage} (hf : frames = init ++ [msg])
      (hl : msg.msgType ≠ "stream_chunk") (hp : place = none) (hh : hand = none) (hc : Chunks init)
      (hg : reply.got = frames.map .ok)
  | closed (hp : place = none) (hh : hand = none) (hc : Chunks frames)
      (hg : reply.got = frames.map .ok ++ [.connectionClosed])
  /-- the caller has dropped its end -/
  | dropped {received : List WireMessage} (hd : reply.dropped = true) (hp : place = none)
      (hh : hand = none) (hc : Chunks frames.dropLast) (hr : received <+: frames)
      (hg : reply.got = received.map .ok)
  | cut (hcut : Cut) (hp : place = none) (hh : hand = none) (hc : Chunks frames)
      (hg : reply.got = frames.map .ok)

/-- `Cut`, if it matters to the caller: `BidiStream::recv` takes a channel without a sender for a
closed connection. -/
def Request.Cut (C : Prop) : Request → Prop
  | .callStream _ _ _ => C
  | _ => True

/-- What the call with this sender has been sent. -/
def Sent (C : Prop) (r : Request) (s : PendingSender) (frames : List WireMessage)
    (place : Option Place) (hand : Option WireMessage) (reply : Reply) : Prop :=
  match s with
  | .unary _ => Answered frames place reply.got
  | .stream _ => Streamed (r.Cut C) frames place hand reply

/-! ## The invariant -/

/-- The call with this id and sender was made. -/
def Made (log : List Event) (id : BitVec 64) (s : PendingSender) : Prop :=
  ∃ r, (requests log)[s.tx]? = some r ∧ r.id = id ∧ r.sender s.tx = s

/-- Every sender belongs to a call that was made, and is in one place. -/
structure Owned (log : List Event) (a : Actor) : Prop where
  length : a.replies.length = (requests log).length
  nodup : a.tokens.NodupKeys
  queued : ∀ cmd ∈ a.cmds, cmd ≠ .shutdown →
    ∃ (rx tx : Nat) (r : Request), (requests log)[tx]? = some r ∧ cmd = r.command rx tx
  pending : ∀ id s, a.pending.lookup id = some s → Made log id s
  tasks : ∀ tx ∈ a.spawned, ∃ id, Made log id (.stream tx)
  hand : ∀ id tx msg, a.pc = .delivering id tx msg →
    Made log id (.stream tx) ∧ ∀ s, a.pending.lookup id = some s → s = .stream tx
  logged : ∀ waiting msg, .handled waiting msg ∈ log → ∀ s ∈ waiting, s.tx < a.replies.length

structure Settling (C : Prop) (log : List Event) (a : Actor) : Prop extends Owned log a where
  calls : ∀ tx r, (requests log)[tx]? = some r → ∃ reply, a.replies[tx]? = some reply ∧
    Sent C r (r.sender tx) (framesFor log (r.sender tx) r.id) (a.place (r.sender tx))
      (a.inFlight tx) reply

section
variable {C : Prop} {log : List Event} {a a' b : Actor} {id : BitVec 64} {tx : Nat}
    {s : PendingSender}
  {cmd : ActorCommand} {cmds : List ActorCommand} {frames : List WireMessage}
  {place : Option Place} {hand : Option WireMessage} {reply reply' : Reply}

theorem Request.command_ticket (r : Request) (rx tx : Nat) :
    (r.command rx tx).ticket = some (r.id, r.sender tx) := by
  cases r <;> rfl

theorem Request.sender_tx (r : Request) (tx : Nat) : (r.sender tx).tx = tx := by
  cases r <;> rfl

theorem Request.cut_of {C : Prop} (r : Request) (h : ¬ C → r.Cut False) : r.Cut C := by
  cases r with
  | callStream => exact not_not.1 h
  | call | exportStream | importBidi => exact trivial

theorem Owned.ticket (h : Owned log a) (hc : cmd ∈ a.cmds) (ht : cmd.ticket = some (id, s)) :
    Made log id s := by
  have hsh : cmd ≠ .shutdown := by
    rintro rfl
    cases ht
  obtain ⟨rx, tx, r, hr, rfl⟩ := h.queued cmd hc hsh
  rw [r.command_ticket] at ht
  cases ht
  exact ⟨r, by rwa [r.sender_tx], rfl, by rw [r.sender_tx]⟩

theorem Owned.replies (h : Owned log a) {replies : List Reply}
    (hlen : replies.length = a.replies.length) : Owned log { a with replies } :=
  { h with length := hlen.trans h.length, logged := hlen ▸ h.logged }

theorem Made.unique {id' : BitVec 64} (h : Made log id s) (h' : Made log id' s) : id' = id := by
  obtain ⟨r, hr, rfl, -⟩ := h
  obtain ⟨r', hr', rfl, -⟩ := h'
  cases hr.symm.trans hr'
  rfl

theorem DistinctIds.sender_eq {s' : PendingSender} (h : DistinctIds log) (hm : Made log id s)
    (hm' : Made log id s') : s' = s := by
  obtain ⟨r, hr, rfl, hs⟩ := hm
  obtain ⟨r', hr', hid, hs'⟩ := hm'
  have htx : s'.tx = s.tx := by
    refine (getElem?_inj (length_map (f := Request.id) ▸ lt_of_some hr') h).1 ?_
    rw [getElem?_map, getElem?_map, hr, hr', Option.map_some, Option.map_some, hid]
  rw [htx] at hr' hs'
  cases hr.symm.trans hr'
  exact hs'.symm.trans hs

theorem Made.lt (h : Made log id s) : s.tx < (requests log).length := by
  obtain ⟨r, hr, -⟩ := h
  exact lt_of_some hr

theorem Actor.FreeHanded.ne {msg : WireMessage} (h : a.FreeHanded) :
    a.pc ≠ .delivering id tx msg := by
  intro hpc
  rw [FreeHanded, hpc] at h
  cases h

theorem Actor.FreeHanded.inFlight (h : a.FreeHanded) (tx : Nat) : a.inFlight tx = none := by
  unfold Actor.inFlight
  split
  · rename_i hpc
    exact absurd hpc h.ne
  · rfl

theorem Actor.FreeHanded.of_pc {pc : Pc} (hpc : a.pc = pc) (h : pc.delivers = false) :
    a.FreeHanded := by
  rw [FreeHanded, hpc]
  exact h

/-! ## Places -/

theorem place_pending (h : a.place s = some .pending) : ∃ id, a.pending.lookup id = some s := by
  rcases mem_append.1 (of_mem_dlookup h) with hm | hm
  · obtain ⟨t, -, ht⟩ := mem_map.1 hm
    cases ht
  · rcases mem_append.1 hm with hm | hm
    · obtain ⟨e, he, ht⟩ := mem_map.1 hm
      cases ht
      exact ⟨e.1, AList.mem_lookup_iff.2 he⟩
    · obtain ⟨t, -, ht⟩ := mem_map.1 hm
      cases ht

theorem moves_command (hc : a.cmds = cmd :: cmds) (ht : cmd.ticket = some (id, s)) :
    Moves s .queued none a.tokens (tokens { a with cmds }) := by
  refine ⟨tokens { a with cmds }, ?_, .refl _⟩
  rw [tokens, hc, filterMap_cons_some ht]
  exact .refl _

theorem moves_insert (hc : a.cmds = cmd :: cmds) (ht : cmd.ticket = some (id, s))
    (hid : id ∉ a.pending) : Moves s .queued (some .pending) a.tokens
      (tokens { a with cmds, pending := a.pending.insert id s }) := by
  refine ⟨tokens { a with cmds }, ?_, ?_⟩
  · rw [tokens, hc, filterMap_cons_some ht]
    exact .refl _
  · rw [tokens, AList.entries_insert_of_notMem hid]
    exact perm_middle

theorem tokens_perm_erase (hl : a.pending.lookup id = some s) :
    a.tokens.Perm (⟨s, .pending⟩ :: tokens { a with pending := a.pending.erase id }) :=
  ((((entries_perm_erase hl).map _).append_right _).append_left _).trans perm_middle

theorem moves_erase (hl : a.pending.lookup id = some s) :
    Moves s .pending none a.tokens (tokens { a with pending := a.pending.erase id }) :=
  ⟨_, tokens_perm_erase hl, .refl _⟩

theorem moves_task {i : Nat} (hi : a.spawned[i]? = some tx) :
    Moves (.stream tx) .task none a.tokens (tokens { a with spawned := a.spawned.eraseIdx i }) := by
  refine ⟨tokens { a with spawned := a.spawned.eraseIdx i }, ?_, .refl _⟩
  obtain ⟨hlt, rfl⟩ := List.getElem?_eq_some_iff.1 hi
  have hperm := (getElem_cons_eraseIdx_perm hlt).symm.map
    fun tx => (⟨.stream tx, .task⟩ : Sigma fun _ : PendingSender => Place)
  rw [tokens, ← append_assoc]
  refine (hperm.append_left _).trans (perm_middle.trans ?_)
  rw [append_assoc]
  exact .refl _

/-! ## One call moves -/

/-- **One call moves**: the others keep their replies, their frames, their senders and what is on
its way to them. -/
theorem Settling.one {log' : List Event} (h : Settling C log a) (howned : Owned log' a') (tx₀ : Nat)
    (hreq : requests log' = requests log)
    (hframes : ∀ tx r, tx ≠ tx₀ → (requests log)[tx]? = some r →
      framesFor log' (r.sender tx) r.id = framesFor log (r.sender tx) r.id)
    (hreplies : ∀ tx, tx ≠ tx₀ → a'.replies[tx]? = a.replies[tx]?)
    (hplace : ∀ s : PendingSender, s.tx ≠ tx₀ → a'.place s = a.place s)
    (hhand : ∀ tx, tx ≠ tx₀ → a'.inFlight tx = a.inFlight tx)
    (h₀ : ∀ r reply, (requests log)[tx₀]? = some r → a.replies[tx₀]? = some reply →
      Sent C r (r.sender tx₀) (framesFor log (r.sender tx₀) r.id) (a.place (r.sender tx₀))
        (a.inFlight tx₀) reply →
      ∃ reply', a'.replies[tx₀]? = some reply' ∧
        Sent C r (r.sender tx₀) (framesFor log' (r.sender tx₀) r.id) (a'.place (r.sender tx₀))
          (a'.inFlight tx₀) reply') : Settling C log' a' := by
  refine ⟨howned, fun tx r hr => ?_⟩
  rw [hreq] at hr
  obtain ⟨reply, hreply, hsent⟩ := h.calls tx r hr
  by_cases htx : tx = tx₀
  · subst htx
    exact h₀ r reply hr hreply hsent
  · rw [hreplies tx htx, hframes tx r htx hr, hhand tx htx, hplace _ (by rwa [r.sender_tx])]
    exact ⟨reply, hreply, hsent⟩

/-- The sender of a call goes to another place, or is dropped. -/
theorem Settling.move {p : Place} {o : Option Place} (h : Settling C log a) (hm : Made log id s)
    (hmoves : Moves s p o a.tokens a'.tokens) (howned : a'.tokens.NodupKeys → Owned log a')
    (hreplies : ∀ tx, tx ≠ s.tx → a'.replies[tx]? = a.replies[tx]?)
    (hhand : ∀ tx, tx ≠ s.tx → a'.inFlight tx = a.inFlight tx)
    (h₀ : ∀ r reply, (requests log)[s.tx]? = some r → a.replies[s.tx]? = some reply →
      Sent C r s (framesFor log s id) (some p) (a.inFlight s.tx) reply →
      ∃ reply', a'.replies[s.tx]? = some reply' ∧
        Sent C r s (framesFor log s id) o (a'.inFlight s.tx) reply') : Settling C log a' := by
  refine h.one (howned (hmoves.nodupKeys h.nodup)) s.tx rfl (fun _ _ _ _ => rfl) hreplies
    (fun s' hs => hmoves.other h.nodup fun he => hs (congrArg _ he)) hhand
    fun r reply hr hreply hsent => ?_
  obtain ⟨r', hr', rfl, hs⟩ := hm
  cases hr.symm.trans hr'
  rw [hs, Actor.place, hmoves.before h.nodup] at hsent
  rw [hs, Actor.place, hmoves.after h.nodup]
  exact h₀ r reply hr hreply hsent

/-- No sender moves. -/
theorem Settling.congr (h : Settling C log a) (ht : a'.tokens = a.tokens)
    (hc : ∀ cmd ∈ a'.cmds, cmd ≠ .shutdown → cmd ∈ a.cmds) (hp : a'.pending = a.pending)
    (hs : a'.spawned = a.spawned) (hr : a'.replies = a.replies)
    (hpc : a'.pc = a.pc ∨ a.FreeHanded ∧ a'.FreeHanded) : Settling C log a' := by
  have hflight : ∀ tx, a'.inFlight tx = a.inFlight tx := by
    intro tx
    rcases hpc with hpc | ⟨hfree, hfree'⟩
    · rw [Actor.inFlight, hpc, Actor.inFlight]
    · rw [hfree.inFlight, hfree'.inFlight]
  refine ⟨⟨hr ▸ h.length, ht ▸ h.nodup, fun cmd hm hsh => h.queued cmd (hc cmd hm hsh) hsh,
    hp ▸ h.pending, hs ▸ h.tasks, fun id tx msg hd => ?_, hr ▸ h.logged⟩, fun tx r hreq => ?_⟩
  · rcases hpc with hpc | ⟨-, hfree'⟩
    · rw [hp]
      exact h.hand id tx msg (hpc ▸ hd)
    · exact absurd hd hfree'.ne
  · rw [hr, Actor.place, ht, hflight]
    exact h.calls tx r hreq

/-- The caller of one call reads or drops its end. -/
theorem Settling.read (h : Settling C log a) (tx₀ : Nat) {replies : List Reply}
    (hlen : replies.length = a.replies.length)
      (hother : ∀ tx, tx ≠ tx₀ → replies[tx]? = a.replies[tx]?)
    (h₀ : ∀ reply, a.replies[tx₀]? = some reply → ∃ reply', replies[tx₀]? = some reply' ∧
      reply'.got = reply.got ∧ (reply.dropped = true → reply'.dropped = true)) :
    Settling C log { a with replies } := by
  refine h.one (h.toOwned.replies hlen) tx₀ rfl
    (fun _ _ _ _ => rfl) hother (fun _ _ => rfl) (fun _ _ => rfl) fun r reply hr hreply hsent => ?_
  obtain ⟨reply', hreply', hg, hd⟩ := h₀ reply hreply
  refine ⟨reply', hreply', ?_⟩
  cases hs : r.sender tx₀ with
  | unary tx =>
    rw [hs] at hsent
    exact (congrArg (Answered _ _) hg).mpr hsent
  | stream tx =>
    rw [hs] at hsent
    cases (hsent : Streamed ..) with
    | going hp hh hc hg' => exact .going hp hh hc (hg.trans hg')
    | sending hf hp hh hc hg' => exact .sending hf hp hh hc (hg.trans hg')
    | ended hf hl hp hh hc hg' => exact .ended hf hl hp hh hc (hg.trans hg')
    | closed hp hh hc hg' => exact .closed hp hh hc (hg.trans hg')
    | dropped hd' hp hh hc hr hg' => exact .dropped (hd hd') hp hh hc hr (hg.trans hg')
    | cut hcut hp hh hc hg' => exact .cut hcut hp hh hc (hg.trans hg')

/-! ## Moves -/

theorem sendUnary_reply (o : Outcome) (h : a.replies[tx]? = some reply) :
    ∃ reply', (a.sendUnary tx o).replies[tx]? = some reply' ∧
      reply'.got = if reply.got.isEmpty then [o] else reply.got := by
  refine ⟨_, (getElem?_modify_eq ..).trans (congrArg _ h), ?_⟩
  exact apply_ite Reply.got ..

theorem sendStream_reply (o : Outcome) (h : a.replies[tx]? = some reply) :
    (a.sendStream tx o).replies[tx]? =
      some { reply with got := reply.got ++ [o], unread := reply.unread + 1 } :=
  (getElem?_modify_eq ..).trans (congrArg _ h)

theorem Answered.close {got : List Outcome} (h : Answered frames place got) :
    Answered frames none (if got.isEmpty then [.connectionClosed] else got) := by
  rcases h with rfl | ⟨rfl, -, rfl⟩
  · cases frames with
    | nil => exact .inr ⟨rfl, rfl, rfl⟩
    | cons => exact .inl rfl
  · exact .inr ⟨rfl, rfl, rfl⟩

theorem Streamed.at_rest {p : Place} (h : Streamed C frames (some p) none reply) :
    Chunks frames ∧ reply.got = frames.map .ok := by
  cases h with
  | going _ _ hc hg => exact ⟨hc, hg⟩
  | sending _ _ hh => cases hh
  | ended _ _ hp | closed hp | dropped _ hp | cut _ hp => cases hp

/-- A sender is dropped without a message. -/
theorem Sent.drop {r : Request} {p : Place} (hcut : r.Cut C)
    (h : Sent C r s frames (some p) none reply) :
    Sent C r s frames none none reply := by
  cases s with
  | unary => exact .inl ((h : Answered ..).resolve_right fun hc => nomatch hc.2.1)
  | stream =>
    obtain ⟨hc, hg⟩ := Streamed.at_rest h
    exact .cut hcut rfl rfl hc hg

/-- A sender goes elsewhere. -/
theorem Sent.carry {r : Request} {p q : Place} (h : Sent C r s frames (some p) none reply) :
    Sent C r s frames (some q) none reply := by
  cases s with
  | unary => exact .inl ((h : Answered ..).resolve_right fun hc => nomatch hc.2.1)
  | stream =>
    obtain ⟨hc, hg⟩ := Streamed.at_rest h
    exact .going nofun rfl hc hg

section
variable (h : Settling C log a) (hfree : a.FreeHanded)
include h hfree

/-- The first command leaves the queue. -/
theorem Settling.drop (hc : a.cmds = cmd :: cmds)
    (hleft : ¬ C → ∀ id payload tx, cmd ≠ .callStream id payload tx) :
    Settling C log { a with cmds } := by
  have hqueued : ∀ cmd' ∈ cmds, cmd' ≠ .shutdown →
      ∃ (rx tx : Nat) (r : Request), (requests log)[tx]? = some r ∧ cmd' = r.command rx tx :=
    fun cmd' hm => h.queued cmd' (hc ▸ mem_cons_of_mem _ hm)
  by_cases hsh : cmd = .shutdown
  · subst hsh
    refine h.congr ?_ (fun cmd' hm _ => hc ▸ mem_cons_of_mem _ hm) rfl rfl rfl (.inl rfl)
    rw [tokens, tokens, hc]
    rfl
  · obtain ⟨rx, tx, r, hr, rfl⟩ := h.queued cmd (hc ▸ mem_cons_self ..) hsh
    have ht := r.command_ticket rx tx
    refine h.move (h.ticket (hc ▸ mem_cons_self ..) ht) (moves_command hc ht)
      (fun hn => { h.toOwned with nodup := hn, queued := hqueued }) (fun _ _ => rfl)
        (fun _ _ => rfl)
      fun r' reply hr' hreply hsent => ⟨reply, hreply, ?_⟩
    rw [r.sender_tx] at hr'
    cases hr.symm.trans hr'
    rw [hfree.inFlight] at hsent
    have hflight : Actor.inFlight { a with cmds } (r.sender tx).tx = none := hfree.inFlight _
    rw [hflight]
    refine hsent.drop (r.cut_of fun hC => ?_)
    cases r with
    | callStream => exact hleft hC _ _ _ rfl
    | call | exportStream | importBidi => exact trivial

/-- A pending call is forgotten. -/
theorem Settling.erase (hl : a.pending.lookup id = some s)
    (hcut : ∀ r, (requests log)[s.tx]? = some r → s = .stream s.tx → r.Cut C) :
    Settling C log { a with pending := a.pending.erase id } := by
  refine h.move (h.pending id s hl) (moves_erase hl)
    (fun hn => { h.toOwned with
      nodup := hn
      pending := fun id' s' hl' => h.pending id' s' (lookup_of_erase hl').2
      hand := fun id tx msg hd => absurd hd hfree.ne }) (fun _ _ => rfl) (fun _ _ => rfl)
    fun r reply hr hreply hsent => ⟨reply, hreply, ?_⟩
  rw [hfree.inFlight] at hsent
  have hflight : Actor.inFlight { a with pending := a.pending.erase id } s.tx = none :=
    hfree.inFlight _
  rw [hflight]
  cases s with
  | unary => exact .inl ((hsent : Answered ..).resolve_right fun hc => nomatch hc.2.1)
  | stream => exact hsent.drop (hcut r hr rfl)

omit hfree in
/-- A call without a sender gets its end, if it has got nothing. -/
theorem Settling.sendUnary (hm : Made log id (.unary tx)) (hp : a.place (.unary tx) = none) :
    Settling C log (a.sendUnary tx .connectionClosed) := by
  refine h.one (h.toOwned.replies (length_modify ..)) tx rfl (fun _ _ _ _ => rfl)
    (fun tx' hne => getElem?_modify_ne _ _ (Ne.symm hne)) (fun _ _ => rfl) (fun _ _ => rfl)
    fun r reply hr hreply hsent => ?_
  obtain ⟨reply', hreply', hg⟩ := sendUnary_reply .connectionClosed hreply
  refine ⟨reply', hreply', ?_⟩
  obtain ⟨r', hr', -, hs⟩ := hm
  cases hr.symm.trans hr'
  rw [show r.sender tx = .unary tx from hs] at hsent ⊢
  have hplace : (a.sendUnary tx .connectionClosed).place (.unary tx) = none := hp
  rw [Sent, hg, hplace]
  exact Answered.close hsent

/-- A command's call becomes pending. -/
theorem Settling.take (hids : ¬ C → DistinctIds log) (hc : a.cmds = cmd :: cmds)
    (ht : cmd.ticket = some (id, s)) :
    Settling C log { a with cmds, pending := a.pending.insert id s } := by
  have hmem : cmd ∈ a.cmds := hc ▸ mem_cons_self ..
  have hm := h.ticket hmem ht
  -- a call that is pending with the same id is forgotten, and ids are not distinct
  have herase : Settling C log { a with pending := a.pending.erase id } := by
    cases hl : a.pending.lookup id with
    | none =>
      rw [erase_of_lookup_none hl]
      exact h
    | some s' =>
      refine h.erase hfree hl fun r _ _ => r.cut_of fun hC => ?_
      obtain rfl := (hids hC).sender_eq hm (h.pending id s' hl)
      cases ((moves_command hc ht).before h.nodup).symm.trans ((moves_erase hl).before h.nodup)
  have hnew : id ∉ a.pending.erase id := fun hin => (AList.mem_erase.1 hin).1 rfl
  have hmove : Settling C log { a with cmds, pending := (a.pending.erase id).insert id s } := by
    refine herase.move hm (moves_insert hc ht hnew) (fun hn => { herase.toOwned with
        nodup := hn
        queued := fun cmd' hm => h.queued cmd' (hc ▸ mem_cons_of_mem _ hm)
        pending := fun id' s' hl => ?_
        hand := fun id tx msg hd => absurd hd hfree.ne }) (fun _ _ => rfl) (fun _ _ => rfl)
      fun r reply hr hreply hsent => ⟨reply, hreply, ?_⟩
    · rcases lookup_insert_cases hl with ⟨rfl, rfl⟩ | ⟨-, hl⟩
      · exact hm
      · exact herase.pending id' s' hl
    · have hflight : ∀ {cmds pending}, Actor.inFlight { a with cmds, pending } s.tx = none :=
        hfree.inFlight _
      rw [hflight] at hsent ⊢
      exact hsent.carry
  rwa [insert_erase] at hmove

/-! ## The ends of a connection -/

theorem Settling.drainOne (hl : a.pending.lookup id = some s) :
    Settling C log { a.drainOne s with pending := a.pending.erase id } := by
  have hm := h.pending id s hl
  cases s with
  | unary tx =>
    exact Settling.sendUnary (h.erase hfree hl nofun) hm ((moves_erase hl).after h.nodup)
  | stream tx =>
    refine h.move hm (o := some .task) ⟨_, tokens_perm_erase hl, ?_⟩
      (fun hn => { h.toOwned with
        nodup := hn
        pending := fun id' s' hl' => h.pending id' s' (lookup_of_erase hl').2
        tasks := forall_concat h.tasks ⟨id, hm⟩
        hand := fun id tx msg hd => absurd hd hfree.ne }) (fun _ _ => rfl) (fun _ _ => rfl)
      fun r reply hr hreply hsent => ⟨reply, hreply, ?_⟩
    · simp only [tokens, Actor.drainOne, map_append, ← append_assoc]
      exact perm_append_singleton ..
    · have hflight : ∀ {spawned pending}, Actor.inFlight { a with spawned, pending } tx = none :=
        hfree.inFlight _
      rw [show (PendingSender.stream tx).tx = tx from rfl, hfree.inFlight] at hsent
      exact hflight ▸ hsent.carry

end

theorem Settling.drainAll (es : List (Sigma fun _ : BitVec 64 => PendingSender)) :
    ∀ (b : Actor) (m : IdMap PendingSender), m.entries = es → b.FreeHanded →
      Settling C log { b with pending := m } →
      Settling C log { es.foldl (fun a e => a.drainOne e.2) b with pending := ∅ } := by
  induction es with
  | nil =>
    intro b m hm _ h
    rwa [show m = ∅ from AList.ext hm] at h
  | cons e es ih =>
    obtain ⟨id, s⟩ := e
    intro b m hm hfree h
    have hl : m.lookup id = some s := by
      refine AList.mem_lookup_iff.2 ?_
      rw [hm]
      exact mem_cons_self ..
    have he : (m.erase id).entries = es := by
      refine (congrArg (kerase id) hm).trans ?_
      exact kerase_cons_eq rfl
    have hone := h.drainOne hfree hl
    refine ih (b.drainOne s) (m.erase id) he ?_ ?_
    · cases s <;> exact hfree
    · cases s <;> exact hone

theorem Settling.drain (h : Settling C log a) (hfree : a.FreeHanded) :
    Settling C log a.drainPending :=
  Settling.drainAll _ a a.pending rfl hfree h

theorem Settling.dropAll (cmds : List ActorCommand) : ∀ a : Actor, a.cmds = cmds → a.FreeHanded →
    (¬ C → ∀ id payload tx, .callStream id payload tx ∉ cmds) → Settling C log a →
    Settling C log { a with cmds := [] } := by
  induction cmds with
  | nil =>
    intro a hc _ _ h
    rwa [← hc]
  | cons cmd cmds ih =>
    intro a hc hfree hleft h
    have hdrop := h.drop hfree hc fun hC id payload tx he => hleft hC id payload tx
      (he ▸ mem_cons_self ..)
    exact ih { a with cmds } rfl hfree
      (fun hC id payload tx hm => hleft hC id payload tx (mem_cons_of_mem _ hm)) hdrop

/-- The end of the loop. -/
theorem Settling.stop (h : Settling C log a) (hfree : a.FreeHanded)
    (hleft : ¬ C → ∀ id payload tx, .callStream id payload tx ∉ a.cmds) :
    Settling C log a.stop := by
  have hd := h.drain hfree
  obtain ⟨replies, spawned, he⟩ := a.drainPending_eq
  rw [Actor.stop]
  rw [he] at hd ⊢
  have hdrop := Settling.dropAll a.cmds { a with replies, spawned, pending := ∅ } rfl hfree hleft hd
  exact hdrop.congr rfl (fun _ hm _ => hm) rfl rfl rfl (.inr ⟨hfree, rfl⟩)

theorem Settling.disconnect (h : Settling C log a) (hfree : a.FreeHanded) :
    Settling C log a.disconnect :=
  Settling.drain (h.congr rfl (fun _ hm _ => hm) rfl rfl rfl (.inl rfl)) hfree

theorem Actor.FreeHanded.disconnect (h : a.FreeHanded) : a.disconnect.FreeHanded := by
  obtain ⟨_, _, he⟩ := a.disconnect_eq
  rw [he]
  exact h

theorem Settling.reconnectOrStop {reconnect : Bool} (h : Settling C log a) (hfree : a.FreeHanded)
    (hleft : ¬ C → reconnect = false → ∀ id payload tx, .callStream id payload tx ∉ a.cmds) :
    Settling C log (a.reconnectOrStop reconnect) := by
  cases reconnect with
  | true =>
    exact h.congr rfl (fun _ hm _ => hm) rfl rfl rfl (.inr ⟨hfree, rfl⟩)
  | false => exact h.stop hfree fun hC => hleft hC rfl

end

end Callwire.Rust
