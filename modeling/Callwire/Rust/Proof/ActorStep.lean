import Callwire.Lib.ArrayUpdate
import Callwire.Lib.AssocUpdate
import Callwire.Rust.Actor

/-!
# The moves of the connection actor

`Move` lists what `step` can do, one constructor for each branch of the code, with the conditions
that lead there; `step_move` is the inversion lemma from which the invariants of the actor are
proved. The other lemmas say which fields `drain_pending` and the ends of the loop leave alone.
-/

namespace Callwire.Rust

open Lib List Actor Option

/-- The payload an owner's step puts into its channel, and the owner after it. -/
def Label.sends : Label → Option (Nat × (Chan → WireMessage) × Owner)
  | .send ch item => some (ch, fun c => packStreamChunk c.id item, .active)
  | .closeAndRecv ch => some (ch, fun c => packStreamClose c.id, .closing)
  | .closeSend ch => some (ch, fun c => packStreamEnd c.id, .active)
  | _ => none

theorem Label.sends_cases {l : Label} {ch : Nat} {payload : Chan → WireMessage} {owner : Owner}
    (h : l.sends = some (ch, payload, owner)) :
    (∀ c, (payload c).id = c.id) ∧ owner ≠ .dropped := by
  cases l <;> simp only [Label.sends, reduceCtorEq, some.injEq, Prod.mk.injEq] at h
  all_goals
    obtain ⟨-, rfl, rfl⟩ := h
    exact ⟨fun _ => rfl, nofun⟩

theorem Request.chans_empty (r : Request) : ∀ c ∈ r.chans, c.queue = [] := by
  cases r with
  | call | callStream => exact nofun
  | exportStream | importBidi =>
    intro c h
    rw [mem_singleton.1 h]

/-- The call a command stands for, if it has no outgoing stream. -/
def ActorCommand.plain : ActorCommand → Option (BitVec 64 × WireMessage × PendingSender × Nat)
  | .call id payload tx => some (id, payload, .unary tx, tx)
  | .callStream id payload tx => some (id, payload, .stream tx, tx)
  | _ => none

/-- The id and the sender of the command. -/
def ActorCommand.ticket : ActorCommand → Option (BitVec 64 × PendingSender)
  | .call id _ tx | .exportStream id _ _ tx => some (id, .unary tx)
  | .callStream id _ tx | .importBidi id _ _ tx => some (id, .stream tx)
  | .shutdown => none

theorem ActorCommand.plain_ticket {cmd : ActorCommand} {id : BitVec 64} {payload : WireMessage}
    {sender : PendingSender} {tx : Nat} (h : cmd.plain = some (id, payload, sender, tx)) :
    cmd.ticket = some (id, sender) := by
  cases cmd <;> cases h <;> rfl

inductive Move (reconnect : Bool) (a : Actor) : Label → Actor → Prop
  | submit {r : Request} (hst : a.pc ≠ .stopped) : Move reconnect a (.submit r)
      { a with
        replies := a.replies ++ [Reply.mk [] 0 false]
        chans := a.chans ++ r.chans
        cmds := a.cmds ++ [r.command a.chans.length a.replies.length] }
  | close (hst : a.pc ≠ .stopped) :
      Move reconnect a .close { a with cmds := a.cmds ++ [.shutdown] }
  | dropClient : Move reconnect a .dropClient { a with clients := false }
  | send {l : Label} {ch : Nat} {payload : Chan → WireMessage} {owner : Owner} {c : Chan}
      (hl : l.sends = some (ch, payload, owner)) (hc : a.chans[ch]? = some c)
      (hr : ch ∈ a.receivers) (ho : c.owner = .active) : Move reconnect a l
      { a with chans := a.chans.set ch { c with queue := c.queue ++ [payload c], owner } }
  | dropStream {ch : Nat} : Move reconnect a (.dropStream ch)
      { a with chans := a.chans.modify ch fun c => { c with owner := .dropped } }
  | receive {tx : Nat} {r : Reply} (hr : a.replies[tx]? = some r) (hu : 0 < r.unread) :
      Move reconnect a (.receive tx)
        { a with replies := a.replies.set tx { r with unread := r.unread - 1 } }
  | dropReply {tx : Nat} : Move reconnect a (.dropReply tx)
      { a with replies := a.replies.modify tx fun r => { r with dropped := true } }
  | frame {n : Nat} {msg : WireMessage} (hn : a.readers[n]? = some true) :
      Move reconnect a (.frame n msg) { a with reader := a.reader ++ [(n, .frame msg)] }
  | closed {n : Nat} (hn : a.readers[n]? = some true) : Move reconnect a (.closed n)
      { a with reader := a.reader ++ [(n, .closed)], readers := a.readers.set n false }
  | skip {side : Side} {order : List (BitVec 64)} (hpc : a.pc = .enter side)
      (hw : a.writer = none) :
      Move reconnect a (.enter order) { a with pc := afterPump side }
  | enter {side : Side} {order : List (BitVec 64)} (hpc : a.pc = .enter side)
      (hw : a.writer ≠ none) (hp : order.Perm (a.streams side).keys) :
      Move reconnect a (.enter order) { a with pc := .pump side order [] }
  | leave {side : Side} {gone : List (BitVec 64)} {ok : Bool} (hpc : a.pc = .pump side [] gone) :
      Move reconnect a (.pump ok) (a.leavePump side gone)
  | miss {side : Side} {id : BitVec 64} {todo gone : List (BitVec 64)} {ok : Bool}
      (hpc : a.pc = .pump side (id :: todo) gone) (hs : (a.streams side).lookup id = none) :
      Move reconnect a (.pump ok) { a with pc := .pump side todo gone }
  | empty {side : Side} {id : BitVec 64} {todo gone : List (BitVec 64)} {ok : Bool} {ch : Nat}
      (hpc : a.pc = .pump side (id :: todo) gone) (hs : (a.streams side).lookup id = some ch)
      (hq : a.queueOf ch = []) :
      Move reconnect a (.pump ok) { a with pc := .check side id todo gone }
  | pumped {side : Side} {id : BitVec 64} {todo gone : List (BitVec 64)} {ch conn : Nat}
      {payload : WireMessage} {queue : List WireMessage}
      (hpc : a.pc = .pump side (id :: todo) gone) (hs : (a.streams side).lookup id = some ch)
      (hq : a.queueOf ch = payload :: queue) (hw : a.writer = some conn) :
      Move reconnect a (.pump true)
        { a with
          chans := a.chans.modify ch fun c => { c with queue }
          wire := a.wire ++ [⟨conn, payload, none⟩] }
  | unpumped {side : Side} {id : BitVec 64} {todo gone : List (BitVec 64)} {ok : Bool} {ch : Nat}
      {payload : WireMessage} {queue : List WireMessage}
      (hpc : a.pc = .pump side (id :: todo) gone) (hs : (a.streams side).lookup id = some ch)
      (hq : a.queueOf ch = payload :: queue) (hok : ok = false ∨ a.writer = none) :
      Move reconnect a (.pump ok)
        (leavePump { a with
          chans := a.chans.modify ch fun c => { c with queue }
          writer := none } side gone)
  | check {side : Side} {id : BitVec 64} {todo gone : List (BitVec 64)} {ok : Bool}
      (hpc : a.pc = .check side id todo gone) :
      Move reconnect a (.pump ok) (a.checkStep side id todo gone)
  | shutdown {cmds : List ActorCommand} {ok : Bool} (hpc : a.pc = .select)
      (hc : a.cmds = .shutdown :: cmds) :
      Move reconnect a (.command ok) (stop { a with cmds })
  | call {cmd : ActorCommand} {cmds : List ActorCommand} {id : BitVec 64} {payload : WireMessage}
      {sender : PendingSender} {tx conn : Nat} (hpc : a.pc = .select) (hc : a.cmds = cmd :: cmds)
      (hp : cmd.plain = some (id, payload, sender, tx)) (hw : a.writer = some conn) :
      Move reconnect a (.command true)
        { a with
          cmds
          pending := a.pending.insert id sender
          wire := a.wire ++ [⟨conn, payload, some tx⟩]
          pc := .enter .exports }
  | exportStream {cmds : List ActorCommand} {id : BitVec 64} {payload : WireMessage}
      {rx tx conn : Nat} (hpc : a.pc = .select)
        (hc : a.cmds = .exportStream id payload rx tx :: cmds)
      (hw : a.writer = some conn) : Move reconnect a (.command true)
        { a with
          cmds
          pending := a.pending.insert id (.unary tx)
          exportStreams := a.exportStreams.insert id rx
          wire := a.wire ++ [⟨conn, payload, some tx⟩]
          pc := .enter .exports }
  | importBidi {cmds : List ActorCommand} {id : BitVec 64} {payload : WireMessage}
      {rx tx conn : Nat} (hpc : a.pc = .select) (hc : a.cmds = .importBidi id payload rx tx :: cmds)
      (hw : a.writer = some conn) : Move reconnect a (.command true)
        { a with
          cmds
          pending := a.pending.insert id (.stream tx)
          bidiStreams := a.bidiStreams.insert id rx
          wire := a.wire ++ [⟨conn, payload, some tx⟩]
          pc := .enter .exports }
  | callFailed {cmd : ActorCommand} {cmds : List ActorCommand} {id : BitVec 64}
      {sender : PendingSender} {ok : Bool} (hpc : a.pc = .select) (hc : a.cmds = cmd :: cmds)
      (hsh : cmd ≠ .shutdown) (ht : cmd.ticket = some (id, sender))
      (hok : ok = false ∨ a.writer = none) :
      Move reconnect a (.command ok)
        ((disconnect { a with cmds, pending := a.pending.insert id sender }).reconnectOrStop
          reconnect)
  | exportFailed {cmds : List ActorCommand} {id : BitVec 64} {payload : WireMessage} {rx tx : Nat}
      {ok : Bool} (hpc : a.pc = .select) (hc : a.cmds = .exportStream id payload rx tx :: cmds)
      (hok : ok = false ∨ a.writer = none) : Move reconnect a (.command ok)
        (((disconnect { a with cmds }).sendUnary tx .connectionClosed).reconnectOrStop
          reconnect)
  | noClients {ok : Bool} (hpc : a.pc = .select) (hc : a.cmds = []) (hcl : a.clients = false) :
      Move reconnect a (.command ok) a.stop
  | message {n : Nat} {msg : WireMessage} {reader : List (Nat × ReaderMessage)}
      (hpc : a.pc = .select) (hr : a.reader = (n, .frame msg) :: reader) :
      Move reconnect a .message (handleFrame { a with reader } msg)
  | lost {n : Nat} {reader : List (Nat × ReaderMessage)} (hpc : a.pc = .select)
      (hr : a.reader = (n, .closed) :: reader) :
      Move reconnect a .message
        ((disconnect { a with reader }).reconnectOrStop reconnect)
  | delivered {id : BitVec 64} {tx : Nat} {msg : WireMessage} {r : Reply}
      (hpc : a.pc = .delivering id tx msg) (hr : a.replies[tx]? = some r) (hd : r.dropped = false)
      (hu : r.unread < streamCapacity) :
      Move reconnect a .deliver { a.sendStream tx (.ok msg) with pc := .enter .exports }
  | undelivered {id : BitVec 64} {tx : Nat} {msg : WireMessage} {r : Reply}
      (hpc : a.pc = .delivering id tx msg) (hr : a.replies[tx]? = some r) (hd : r.dropped = true) :
      Move reconnect a .deliver
        { a with pending := a.pending.erase id, pc := .enter .exports }
  | connected (hpc : a.pc = .reconnecting) : Move reconnect a .connected
      { a with
        writer := some a.readers.length
        readers := a.readers ++ [true]
        pc := .enter .exports }
  | notified {i tx : Nat} {r : Reply} (hi : a.spawned[i]? = some tx) (hr : a.replies[tx]? = some r)
      (hd : r.dropped = false) (hu : r.unread < streamCapacity) : Move reconnect a (.notify i)
        (sendStream { a with spawned := a.spawned.eraseIdx i } tx .connectionClosed)
  | unnotified {i tx : Nat} {r : Reply} (hi : a.spawned[i]? = some tx)
      (hr : a.replies[tx]? = some r) (hd : r.dropped = true) :
      Move reconnect a (.notify i) { a with spawned := a.spawned.eraseIdx i }

section
variable {reconnect ok : Bool} {a a' : Actor} {l : Label} {cmd : ActorCommand}

theorem submitCommand_some (h : a.submitCommand cmd = some a') :
    a.pc ≠ .stopped ∧ a' = { a with cmds := a.cmds ++ [cmd] } := by
  unfold submitCommand at h
  split at h
  · cases h
  · rename_i hst
    split at h
    · cases h
      exact ⟨hst, rfl⟩
    · cases h

theorem ownerSend_move {ch : Nat} {payload : Chan → WireMessage} {owner : Owner}
    (hl : l.sends = some (ch, payload, owner)) (h : a.ownerSend ch payload owner = some a') :
    Move reconnect a l a' := by
  unfold ownerSend at h
  obtain ⟨c, hc, h⟩ := bind_eq_some_iff.1 h
  split at h
  · rename_i hcond
    cases h
    exact .send hl hc hcond.2.1 hcond.1
  · cases h

theorem readerSend_some {n : Nat} {msg : ReaderMessage} (h : a.readerSend n msg = some a') :
    a.readers[n]? = some true ∧ a' = { a with reader := a.reader ++ [(n, msg)] } := by
  unfold readerSend at h
  split at h
  · cases h
  · split at h
    · rename_i hc
      cases h
      exact ⟨hc.1, rfl⟩
    · cases h

theorem writeFrame_cases (a : Actor) (frame : WireMessage) (tx : Option Nat) (ok : Bool) :
    (∃ conn, a.writer = some conn ∧ ok = true ∧
      a.writeFrame frame tx ok = (true, { a with wire := a.wire ++ [⟨conn, frame, tx⟩] })) ∨
    (ok = false ∨ a.writer = none) ∧ a.writeFrame frame tx ok = (false, a) := by
  unfold writeFrame
  cases hw : a.writer with
  | none => exact .inr ⟨.inr rfl, rfl⟩
  | some conn =>
    cases ok with
    | true => exact .inl ⟨conn, rfl, rfl, rfl⟩
    | false => exact .inr ⟨.inl rfl, rfl⟩

theorem pumpStep_move {side : Side} {todo gone : List (BitVec 64)}
    (hpc : a.pc = .pump side todo gone) :
    Move reconnect a (.pump ok) (a.pumpStep side todo gone ok) := by
  cases todo with
  | nil => exact .leave hpc
  | cons id todo =>
    unfold pumpStep
    simp only
    cases hs : (a.streams side).lookup id with
    | none => exact .miss hpc hs
    | some ch =>
      simp only
      cases hq : a.queueOf ch with
      | nil => exact .empty hpc hs hq
      | cons payload queue =>
        simp only
        rcases writeFrame_cases { a with chans := a.chans.modify ch fun c => { c with queue } }
          payload none ok with ⟨conn, hw, rfl, hwf⟩ | ⟨hok, hwf⟩ <;> rw [hwf]
        · exact .pumped hpc hs hq hw
        · exact .unpumped hpc hs hq hok

theorem handleCall_move {cmds : List ActorCommand} {id : BitVec 64} {payload : WireMessage}
    {sender : PendingSender} {tx : Nat} (hpc : a.pc = .select) (hc : a.cmds = cmd :: cmds)
    (hp : cmd.plain = some (id, payload, sender, tx)) :
    Move reconnect a (.command ok)
      (handleCall { a with cmds } reconnect id payload sender tx ok) := by
  have hsh : cmd ≠ .shutdown := by
    rintro rfl
    cases hp
  unfold handleCall
  rcases writeFrame_cases { a with cmds, pending := a.pending.insert id sender } payload
    (some tx) ok
    with ⟨conn, hw, rfl, hwf⟩ | ⟨hok, hwf⟩ <;> simp only [hwf]
  · exact .call hpc hc hp hw
  · exact .callFailed hpc hc hsh (ActorCommand.plain_ticket hp) hok

theorem handleCommand_move {cmds : List ActorCommand} (hpc : a.pc = .select)
    (hc : a.cmds = cmd :: cmds) :
    Move reconnect a (.command ok) (handleCommand { a with cmds } reconnect ok cmd) := by
  cases cmd with
  | shutdown => exact .shutdown hpc hc
  | call | callStream => exact handleCall_move hpc hc rfl
  | exportStream id payload rx tx =>
    unfold handleCommand
    rcases writeFrame_cases { a with cmds } payload (some tx) ok
      with ⟨conn, hw, rfl, hwf⟩ | ⟨hok, hwf⟩ <;> simp only [hwf]
    · exact .exportStream hpc hc hw
    · exact .exportFailed hpc hc hok
  | importBidi id payload rx tx =>
    unfold handleCommand
    rcases writeFrame_cases { a with cmds, pending := a.pending.insert id (.stream tx) } payload
      (some tx) ok with ⟨conn, hw, rfl, hwf⟩ | ⟨hok, hwf⟩ <;> simp only [hwf]
    · exact .importBidi hpc hc hw
    · exact .callFailed hpc hc nofun rfl hok

theorem trySend_some {tx : Nat} {o : Outcome} (h : a.trySend tx o = some (ok, a')) :
    ∃ r, a.replies[tx]? = some r ∧
      (r.dropped = true ∧ ok = false ∧ a' = a ∨
        r.dropped = false ∧ r.unread < streamCapacity ∧ ok = true ∧ a' = a.sendStream tx o) := by
  unfold trySend at h
  obtain ⟨r, hr, h⟩ := bind_eq_some_iff.1 h
  refine ⟨r, hr, ?_⟩
  split at h
  · rename_i hd
    cases h
    exact .inl ⟨hd, rfl, rfl⟩
  · rename_i hd
    split at h
    · rename_i hu
      cases h
      exact .inr ⟨by simpa using hd, hu, rfl, rfl⟩
    · cases h

/-- **Every step is one of the moves.** -/
theorem step_move (h : step reconnect a l = some a') : Move reconnect a l a' := by
  cases l with
  | submit r =>
    obtain ⟨hst, rfl⟩ := submitCommand_some h
    exact .submit hst
  | close =>
    obtain ⟨hst, rfl⟩ := submitCommand_some h
    exact .close hst
  | dropClient =>
    cases h
    exact .dropClient
  | send ch item => exact ownerSend_move rfl h
  | closeAndRecv ch | closeSend ch =>
    obtain ⟨c, -, h⟩ := bind_eq_some_iff.1 h
    split at h
    · exact ownerSend_move rfl h
    · cases h
  | dropStream ch =>
    cases h
    exact .dropStream
  | receive tx =>
    obtain ⟨r, hr, h⟩ := bind_eq_some_iff.1 h
    split at h
    · rename_i hu
      cases h
      exact .receive hr hu
    · cases h
  | dropReply tx =>
    cases h
    exact .dropReply
  | frame n msg =>
    obtain ⟨hn, rfl⟩ := readerSend_some h
    exact .frame hn
  | closed n =>
    obtain ⟨b, hb, h⟩ := bind_eq_some_iff.1 h
    obtain ⟨hn, rfl⟩ := readerSend_some hb
    cases h
    exact .closed hn
  | enter order =>
    rw [step] at h
    split at h
    · rename_i side hpc
      unfold enterPump at h
      split at h
      · rename_i hw
        split at h
        · rename_i hp
          cases h
          exact .enter hpc (isSome_iff_ne_none.1 hw) hp
        · cases h
      · rename_i hw
        cases h
        exact .skip hpc (by simpa using hw)
    · cases h
  | pump ok =>
    rw [step] at h
    split at h
    · rename_i hpc
      cases h
      exact pumpStep_move hpc
    · rename_i hpc
      cases h
      exact .check hpc
    · cases h
  | command ok =>
    rw [step] at h
    split at h
    · rename_i hpc hc
      cases h
      exact handleCommand_move hpc hc
    · rename_i hpc hc
      split at h
      · cases h
      · rename_i hcl
        cases h
        exact .noClients hpc hc (by simpa using hcl)
    · cases h
  | message =>
    rw [step] at h
    split at h
    · rename_i n msg reader hpc hr
      cases h
      cases msg with
      | frame msg => exact .message hpc hr
      | closed => exact .lost hpc hr
    · cases h
  | deliver =>
    rw [step] at h
    split at h
    · rename_i id tx msg hpc
      obtain ⟨⟨ok, b⟩, hb, hret⟩ := bind_eq_some_iff.1 h
      obtain ⟨r, hr, ⟨hd, rfl, rfl⟩ | ⟨hd, hu, rfl, rfl⟩⟩ := trySend_some hb
      · cases hret
        exact .undelivered hpc hr hd
      · cases hret
        exact .delivered hpc hr hd hu
    · cases h
  | connected =>
    rw [step] at h
    split at h
    · rename_i hpc
      cases h
      exact .connected hpc
    · cases h
  | notify i =>
    obtain ⟨tx, hi, hsend⟩ := bind_eq_some_iff.1 h
    obtain ⟨⟨ok, b⟩, hb, hret⟩ := bind_eq_some_iff.1 hsend
    obtain ⟨r, hr, ⟨hd, -, rfl⟩ | ⟨hd, hu, -, rfl⟩⟩ := trySend_some hb
    · cases hret
      exact .unnotified hi hr hd
    · cases hret
      exact .notified hi hr hd hu

end

/-! ## Ends of a connection -/

namespace Actor

theorem drainPending_eq (a : Actor) :
    ∃ replies spawned, a.drainPending = { a with replies, spawned, pending := ∅ } := by
  have hfold : ∀ (es : List (Sigma fun _ : BitVec 64 => PendingSender)) (b : Actor),
      ∃ replies spawned, es.foldl (fun a e => a.drainOne e.2) b = { b with replies, spawned } := by
    intro es
    induction es with
    | nil => exact fun b => ⟨b.replies, b.spawned, rfl⟩
    | cons e es ih =>
      intro b
      rw [foldl_cons]
      obtain ⟨replies, spawned, h⟩ := ih (b.drainOne e.2)
      refine ⟨replies, spawned, ?_⟩
      rw [h]
      cases e.2 <;> rfl
  obtain ⟨replies, spawned, h⟩ := hfold a.pending.entries a
  refine ⟨replies, spawned, ?_⟩
  rw [drainPending, h]

theorem stop_eq (a : Actor) : ∃ replies spawned, a.stop = { a with
    replies, spawned, pending := ∅, pc := .stopped, writer := none, exportStreams := ∅,
    bidiStreams := ∅, cmds := [], reader := [] } := by
  obtain ⟨replies, spawned, h⟩ := a.drainPending_eq
  refine ⟨replies, spawned, ?_⟩
  rw [stop, h]

theorem stop_pc (a : Actor) : a.stop.pc = .stopped := by
  obtain ⟨replies, spawned, h⟩ := a.stop_eq
  rw [h]

theorem disconnect_eq (a : Actor) : ∃ replies spawned, a.disconnect = { a with
    replies, spawned, pending := ∅, writer := none } := by
  obtain ⟨replies, spawned, h⟩ := drainPending_eq { a with writer := none }
  refine ⟨replies, spawned, ?_⟩
  rw [disconnect, h]

theorem reconnectOrStop_cases (a : Actor) (reconnect : Bool) :
    a.reconnectOrStop reconnect = { a with pc := .reconnecting } ∨
      a.reconnectOrStop reconnect = a.stop := by
  unfold reconnectOrStop
  split
  · exact .inl rfl
  · exact .inr rfl

/-! ## Frames and the pump -/

/-- A frame is for the pending calls only; the actor then goes to the top, or delivers. -/
theorem handleFrame_eq (a : Actor) (msg : WireMessage) : ∃ pc pending replies,
    a.handleFrame msg = { a with pc, pending, replies } ∧
      (pc = .enter .exports ∨ ∃ tx, pc = .delivering msg.id tx msg) := by
  simp only [handleFrame]
  cases a.pending.lookup msg.id with
  | none =>
    simp only
    split <;> exact ⟨_, _, _, rfl, .inl rfl⟩
  | some sender =>
    cases sender with
    | unary tx =>
      simp only
      split <;> exact ⟨_, _, _, rfl, .inl rfl⟩
    | stream tx =>
      simp only
      split <;> exact ⟨_, _, _, rfl, .inr ⟨tx, rfl⟩⟩

theorem leavePump_eq (a : Actor) (side : Side) (gone : List (BitVec 64)) :
    ∃ exportStreams bidiStreams, a.leavePump side gone = { a with
      exportStreams, bidiStreams, pc := afterPump side } := by
  cases side <;> exact ⟨_, _, rfl⟩

theorem afterPump_ne (side : Side) : afterPump side ≠ .reconnecting := by
  cases side <;> exact nofun

/-! ## Streams -/

theorem queueOf_drop (a : Actor) (ch ch' : Nat) :
    queueOf { a with chans := a.chans.modify ch fun c => { c with owner := .dropped } } ch' =
      a.queueOf ch' := by
  have hq : (a.chans.modify ch fun c => { c with owner := .dropped }).map Chan.queue =
      a.chans.map Chan.queue := map_modify_of_eq _ _ _ _ fun _ => rfl
  simp only [queueOf, ← getElem?_map, hq]

theorem streams_leavePump {a : Actor} {side s : Side} {gone : List (BitVec 64)} {id : BitVec 64}
    {ch : Nat} (h : ((a.leavePump side gone).streams s).lookup id = some ch) :
    (a.streams s).lookup id = some ch := by
  cases side <;> cases s
  · exact (lookup_of_eraseAll h).2
  · exact h
  · exact h
  · exact (lookup_of_eraseAll h).2

/-- A stream that is registered is the new one or was there before. -/
theorem lookup_setStreams_insert {a : Actor} {side s : Side} {id k : BitVec 64} {rx ch : Nat}
    (h : ((a.setStreams ((a.streams side).insert id rx) side).streams s).lookup k = some ch) :
    k = id ∧ ch = rx ∨ (a.streams s).lookup k = some ch := by
  cases side <;> cases s
  · exact (lookup_insert_cases h).imp_right And.right
  · exact .inr h
  · exact .inr h
  · exact (lookup_insert_cases h).imp_right And.right

end Actor

/-- The loop up to its `select!`, without streams. -/
def toSelect : List Label := [.enter [], .pump true, .enter [], .pump true]

end Callwire.Rust
