import Mathlib.Data.List.AList
import Mathlib.Data.List.Perm.Basic
import Callwire.Rust.Codec

/-!
# The connection actor of the Rust client (`client.rs`)

`Actor` is the task `run_actor` with its channels: the command queue, the queue its readers send to,
the outgoing channel of every client-streaming and bidirectional call, and the channels the calls
wait on. `step` is one move of the actor, of a reader task, of the application or of a stream's
owner. The actor's own moves are as fine as its `await` points and its polls allow: `try_recv` and
`is_closed` of a stream are two moves, and everything that only the actor can see between two of
them is one.

Connections are numbered in the order they are made; a message in the reader queue and a frame on
the wire carry the number of their connection, which the code does not keep. The two maps of streams
and the map of pending calls are hash maps: the order in which the pump visits a map is the
environment's (`Label.enter`). `run_tls_actor` is the same code over another socket.
-/

namespace Callwire.Rust

/-! ## Channels -/

/-- A `HashMap` with `u64` keys. -/
abbrev IdMap (β : Type) := AList fun _ : BitVec 64 => β

/-- `mpsc::channel(1024)`, for commands and for reader messages. -/
def queueCapacity : Nat := 1024

/-- `mpsc::channel(256)`, for chunks and for stream replies. -/
def streamCapacity : Nat := 256

/-- The two maps of outgoing streams. -/
inductive Side where
  | exports
  | bidi
  deriving DecidableEq, Repr

/-- The sending half of an outgoing channel: `closing` is an `ExportStream` inside `close_and_recv`,
after its `stream_close`. -/
inductive Owner where
  | active
  | closing
  | dropped
  deriving DecidableEq, Repr

/-- The outgoing channel of an `ExportStream` or a `BidiStream` with this id. -/
structure Chan where
  id : BitVec 64
  side : Side
  queue : List WireMessage
  owner : Owner

/-- What a call's channel is sent. -/
inductive Outcome where
  | ok (msg : WireMessage)
  | connectionClosed

/-- A call's reply channel: what it was sent, oldest first, how many of these are still in the
channel, and whether the caller has dropped its end. -/
structure Reply where
  got : List Outcome
  unread : Nat
  dropped : Bool

/-- `PendingSender`, with the reply channel by its address. -/
inductive PendingSender where
  | unary (tx : Nat)
  | stream (tx : Nat)
  deriving DecidableEq, Repr

/-- `ActorCommand`, with channels by their addresses. -/
inductive ActorCommand where
  | call (id : BitVec 64) (payload : WireMessage) (tx : Nat)
  | callStream (id : BitVec 64) (payload : WireMessage) (tx : Nat)
  | exportStream (id : BitVec 64) (initialPayload : WireMessage) (chunkRx respTx : Nat)
  | importBidi (id : BitVec 64) (initialPayload : WireMessage) (outboundRx inboundTx : Nat)
  | shutdown

/-- The outgoing channel whose receiver the command carries. -/
def ActorCommand.rx : ActorCommand → Option Nat
  | .exportStream _ _ rx _ | .importBidi _ _ rx _ => some rx
  | _ => none

inductive ReaderMessage where
  | frame (msg : WireMessage)
  | closed

/-- A frame on the wire: its connection and, for a request, the reply channel of its call. -/
structure Written where
  conn : Nat
  frame : WireMessage
  tx : Option Nat

/-! ## The actor -/

/-- Where the actor stands. -/
inductive Pc where
  /-- before the pump of a map; for the export streams that is the top of the loop -/
  | enter (side : Side)
  /-- at `try_recv` of the first stream of `todo`; `gone` is `ids_to_remove` -/
  | pump (side : Side) (todo gone : List (BitVec 64))
  /-- the channel was empty, `is_closed` comes next -/
  | check (side : Side) (id : BitVec 64) (todo gone : List (BitVec 64))
  | select
  /-- at `tx.send(Ok(msg)).await` of a stream call -/
  | delivering (id : BitVec 64) (tx : Nat) (msg : WireMessage)
  /-- in `reconnect_loop` -/
  | reconnecting
  | stopped
  deriving Inhabited

/-- The actor with everything it shares. `readers` are the reader tasks by connection, `spawned` the
tasks of `drain_pending` that have not sent yet. -/
structure Actor where
  pc : Pc
  writer : Option Nat
  pending : IdMap PendingSender
  exportStreams : IdMap Nat
  bidiStreams : IdMap Nat
  cmds : List ActorCommand
  clients : Bool
  reader : List (Nat × ReaderMessage)
  readers : List Bool
  chans : List Chan
  replies : List Reply
  spawned : List Nat
  wire : List Written

/-- `run_actor` after the first connection. -/
def Actor.init : Actor where
  pc := .enter .exports
  writer := some 0
  pending := ∅
  exportStreams := ∅
  bidiStreams := ∅
  cmds := []
  clients := true
  reader := []
  readers := [true]
  chans := []
  replies := []
  spawned := []
  wire := []

namespace Actor

def streams (a : Actor) : Side → IdMap Nat
  | .exports => a.exportStreams
  | .bidi => a.bidiStreams

def setStreams (a : Actor) (m : IdMap Nat) : Side → Actor
  | .exports => { a with exportStreams := m }
  | .bidi => { a with bidiStreams := m }

/-- The payloads in a channel. -/
def queueOf (a : Actor) (ch : Nat) : List WireMessage := (a.chans[ch]?.map Chan.queue).getD []

/-- The channels whose receiver exists: it is in a queued command or in a map. -/
def receivers (a : Actor) : List Nat :=
  a.cmds.filterMap ActorCommand.rx ++ a.exportStreams.entries.map (·.2) ++
    a.bidiStreams.entries.map (·.2)

/-! ## Replies -/

/-- Send to a `oneshot`: a second send finds the sender taken. -/
def sendUnary (a : Actor) (tx : Nat) (o : Outcome) : Actor :=
  { a with replies := a.replies.modify tx fun r =>
      if r.got.isEmpty then { r with got := [o], unread := 1 } else r }

/-- Send to a stream's channel, with room in it. -/
def sendStream (a : Actor) (tx : Nat) (o : Outcome) : Actor :=
  { a with replies := a.replies.modify tx fun r =>
      { r with got := r.got ++ [o], unread := r.unread + 1 } }

def drainOne (a : Actor) : PendingSender → Actor
  | .unary tx => a.sendUnary tx .connectionClosed
  | .stream tx => { a with spawned := a.spawned ++ [tx] }

def drainPending (a : Actor) : Actor :=
  { a.pending.entries.foldl (fun a e => a.drainOne e.2) a with pending := ∅ }

/-! ## The connection -/

/-- `write_frame`, if a writer is connected; `ok` is whether the socket takes the frame. -/
def writeFrame (a : Actor) (frame : WireMessage) (tx : Option Nat) (ok : Bool) : Bool × Actor :=
  match a.writer, ok with
  | some conn, true => (true, { a with wire := a.wire ++ [⟨conn, frame, tx⟩] })
  | _, _ => (false, a)

/-- After the loop: the rest of the pending calls fails, and the actor's channels are dropped. -/
def stop (a : Actor) : Actor :=
  { a.drainPending with
    pc := .stopped, writer := none, exportStreams := ∅, bidiStreams := ∅, cmds := [], reader := [] }

/-- The writer is dropped and the pending calls fail. -/
def disconnect (a : Actor) : Actor := { a with writer := none }.drainPending

/-- Reconnect, or leave the loop. -/
def reconnectOrStop (a : Actor) (reconnect : Bool) : Actor :=
  if reconnect then { a with pc := .reconnecting } else a.stop

/-! ## The pump -/

/-- The pump of a map is over. -/
def afterPump : Side → Pc
  | .exports => .enter .bidi
  | .bidi => .select

/-- `ids_to_remove`, and on. -/
def leavePump (a : Actor) (side : Side) (gone : List (BitVec 64)) : Actor :=
  { a.setStreams (gone.foldl (fun m id => m.erase id) (a.streams side)) side with
    pc := afterPump side }

def enterPump (a : Actor) (side : Side) (order : List (BitVec 64)) : Option Actor :=
  if a.writer.isSome then
    if order.Perm (a.streams side).keys then some { a with pc := .pump side order [] } else none
  else some { a with pc := afterPump side }

def pumpStep (a : Actor) (side : Side) (todo gone : List (BitVec 64)) (ok : Bool) : Actor :=
  match todo with
  | [] => a.leavePump side gone
  | id :: todo' =>
    match (a.streams side).lookup id with
    | none => { a with pc := .pump side todo' gone }
    | some ch =>
      match a.queueOf ch with
      | [] => { a with pc := .check side id todo' gone }
      | payload :: queue =>
        let a := { a with chans := a.chans.modify ch fun c => { c with queue } }
        match a.writeFrame payload none ok with
        | (true, a) => a
        | (false, a) => { a with writer := none }.leavePump side gone

/-- `rx.is_closed()`: the sending half has been dropped. -/
def isClosed (a : Actor) (side : Side) (id : BitVec 64) : Bool :=
  (((a.streams side).lookup id).bind fun ch => a.chans[ch]?).any (·.owner = .dropped)

def checkStep (a : Actor) (side : Side) (id : BitVec 64) (todo gone : List (BitVec 64)) : Actor :=
  { a with pc := .pump side todo (if a.isClosed side id then gone ++ [id] else gone) }

/-! ## Commands -/

/-- `Call` and `CallStream`. -/
def handleCall (a : Actor) (reconnect : Bool) (id : BitVec 64) (payload : WireMessage)
    (sender : PendingSender) (tx : Nat) (ok : Bool) : Actor :=
  match { a with pending := a.pending.insert id sender }.writeFrame payload (some tx) ok with
  | (true, a) => { a with pc := .enter .exports }
  | (false, a) => a.disconnect.reconnectOrStop reconnect

def handleCommand (a : Actor) (reconnect ok : Bool) : ActorCommand → Actor
  | .shutdown => a.stop
  | .call id payload tx => a.handleCall reconnect id payload (.unary tx) tx ok
  | .callStream id payload tx => a.handleCall reconnect id payload (.stream tx) tx ok
  | .exportStream id payload rx tx =>
    match a.writeFrame payload (some tx) ok with
    | (true, a) =>
      { a with
        pending := a.pending.insert id (.unary tx)
        exportStreams := a.exportStreams.insert id rx
        pc := .enter .exports }
    | (false, a) => (a.disconnect.sendUnary tx .connectionClosed).reconnectOrStop reconnect
  | .importBidi id payload rx tx =>
    match { a with pending := a.pending.insert id (.stream tx) }.writeFrame payload
      (some tx) ok with
    | (true, a) => { a with bidiStreams := a.bidiStreams.insert id rx, pc := .enter .exports }
    | (false, a) => a.disconnect.reconnectOrStop reconnect

/-! ## Reader messages -/

/-- A frame for a pending call; every type but `stream_chunk` takes the call off the map. -/
def handleFrame (a : Actor) (msg : WireMessage) : Actor :=
  let entry := a.pending.lookup msg.id
  let a := if msg.msgType ≠ "stream_chunk" then { a with pending := a.pending.erase msg.id } else a
  match entry with
  | none => { a with pc := .enter .exports }
  | some (.unary tx) => { a.sendUnary tx (.ok msg) with pc := .enter .exports }
  | some (.stream tx) => { a with pc := .delivering msg.id tx msg }

def handleMessage (a : Actor) (reconnect : Bool) : ReaderMessage → Actor
  | .frame msg => a.handleFrame msg
  | .closed => a.disconnect.reconnectOrStop reconnect

/-- `tx.send(..).await` on a stream's channel: `none` while the channel is full, `false` if the
caller has dropped its end. -/
def trySend (a : Actor) (tx : Nat) (o : Outcome) : Option (Bool × Actor) := do
  let r ← a.replies[tx]?
  if r.dropped then return (false, a)
  else if r.unread < streamCapacity then return (true, a.sendStream tx o)
  else none

end Actor

/-! ## Steps -/

/-- A new call of the application, with the id it was given. -/
inductive Request where
  | call (id : BitVec 64) (func : String) (args : Value)
  | callStream (id : BitVec 64) (func : String) (args : Value)
  | exportStream (id : BitVec 64) (func : String)
  | importBidi (id : BitVec 64) (func : String)

/-- The outgoing channel of the call. -/
def Request.chans : Request → List Chan
  | .exportStream id _ => [⟨id, .exports, [], .active⟩]
  | .importBidi id _ => [⟨id, .bidi, [], .active⟩]
  | _ => []

/-- The command of the call. `export_stream` and `import_bidi` send `()` for the arguments. -/
def Request.command (rx tx : Nat) : Request → ActorCommand
  | .call id func args => .call id (packRequest id func args) tx
  | .callStream id func args => .callStream id (packRequest id func args) tx
  | .exportStream id func => .exportStream id (packRequest id func .nil) rx tx
  | .importBidi id func => .importBidi id (packBidiRequest id func .nil) rx tx

inductive Label where
  /-- `import_direct` and its siblings, up to their command in the queue -/
  | submit (r : Request)
  /-- `Client::close` -/
  | close
  /-- the last `Client` is dropped -/
  | dropClient
  /-- `send` of an `ExportStream` or `BidiStream` -/
  | send (ch : Nat) (item : Value)
  /-- `close_and_recv`, up to its `stream_close` in the channel -/
  | closeAndRecv (ch : Nat)
  | closeSend (ch : Nat)
  /-- the sending half goes out of scope -/
  | dropStream (ch : Nat)
  /-- a stream call's caller takes a message out of its channel -/
  | receive (tx : Nat)
  /-- a caller drops its end -/
  | dropReply (tx : Nat)
  /-- the reader of connection `n` has got a frame -/
  | frame (n : Nat) (msg : WireMessage)
  /-- the reader of connection `n` ends -/
  | closed (n : Nat)
  | enter (order : List (BitVec 64))
  | pump (ok : Bool)
  /-- `select!` takes a command, or the end of the command channel -/
  | command (ok : Bool)
  /-- `select!` takes a reader message -/
  | message
  | deliver
  /-- `reconnect_loop` has a new connection -/
  | connected
  /-- a task of `drain_pending` sends -/
  | notify (i : Nat)

namespace Actor

/-- Put a command into the queue. -/
def submitCommand (a : Actor) (cmd : ActorCommand) : Option Actor :=
  match a.pc with
  | .stopped => none
  | _ =>
    if a.clients = true ∧ a.cmds.length < queueCapacity then some { a with cmds := a.cmds ++ [cmd] }
    else none

/-- A call with its new channels. -/
def submit (a : Actor) (r : Request) : Option Actor :=
  { a with replies := a.replies ++ [Reply.mk [] 0 false],
           chans := a.chans ++ r.chans }.submitCommand
    (r.command a.chans.length a.replies.length)

/-- An owner's `send` completes: there is room and the receiver exists. -/
def ownerSend (a : Actor) (ch : Nat) (payload : Chan → WireMessage) (owner : Owner) :
    Option Actor := do
  let c ← a.chans[ch]?
  if c.owner = .active ∧ ch ∈ a.receivers ∧ c.queue.length < streamCapacity then
    return { a with chans := a.chans.set ch { c with queue := c.queue ++ [payload c], owner } }
  else none

/-- A reader puts a message into the reader queue. -/
def readerSend (a : Actor) (n : Nat) (msg : ReaderMessage) : Option Actor :=
  match a.pc with
  | .stopped => none
  | _ =>
    if a.readers[n]? = some true ∧ a.reader.length < queueCapacity then
      some { a with reader := a.reader ++ [(n, msg)] }
    else none

end Actor

/-- One step; `reconnect` is the parameter of `run_actor`. -/
def step (reconnect : Bool) (a : Actor) : Label → Option Actor
  | .submit r => a.submit r
  | .close => a.submitCommand .shutdown
  | .dropClient => some { a with clients := false }
  | .send ch item => a.ownerSend ch (fun c => packStreamChunk c.id item) .active
  | .closeAndRecv ch => do
    let c ← a.chans[ch]?
    if c.side = .exports then a.ownerSend ch (fun c => packStreamClose c.id) .closing else none
  | .closeSend ch => do
    let c ← a.chans[ch]?
    if c.side = .bidi then a.ownerSend ch (fun c => packStreamEnd c.id) .active else none
  | .dropStream ch =>
    some { a with chans := a.chans.modify ch fun c => { c with owner := .dropped } }
  | .receive tx => do
    let r ← a.replies[tx]?
    if 0 < r.unread then
      return { a with replies := a.replies.set tx { r with unread := r.unread - 1 } }
    else none
  | .dropReply tx =>
    some { a with replies := a.replies.modify tx fun r => { r with dropped := true } }
  | .frame n msg => a.readerSend n (.frame msg)
  | .closed n => do
    let a ← a.readerSend n .closed
    return { a with readers := a.readers.set n false }
  | .enter order =>
    match a.pc with
    | .enter side => a.enterPump side order
    | _ => none
  | .pump ok =>
    match a.pc with
    | .pump side todo gone => some (a.pumpStep side todo gone ok)
    | .check side id todo gone => some (a.checkStep side id todo gone)
    | _ => none
  | .command ok =>
    match a.pc, a.cmds with
    | .select, cmd :: cmds => some ({ a with cmds }.handleCommand reconnect ok cmd)
    | .select, [] => if a.clients then none else some a.stop
    | _, _ => none
  | .message =>
    match a.pc, a.reader with
    | .select, (_, msg) :: reader => some ({ a with reader }.handleMessage reconnect msg)
    | _, _ => none
  | .deliver =>
    match a.pc with
    | .delivering id tx msg => do
      let (ok, a) ← a.trySend tx (.ok msg)
      let a := if ok then a else { a with pending := a.pending.erase id }
      return { a with pc := .enter .exports }
    | _ => none
  | .connected =>
    match a.pc with
    | .reconnecting =>
      some { a with
        writer := some a.readers.length, readers := a.readers ++ [true], pc := .enter .exports }
    | _ => none
  | .notify i => do
    let tx ← a.spawned[i]?
    let (_, a) ← { a with spawned := a.spawned.eraseIdx i }.trySend tx .connectionClosed
    return a

end Callwire.Rust
