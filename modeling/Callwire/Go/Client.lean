import Mathlib.Data.List.AList
import Callwire.Lib.Transition
import Callwire.Go.Codec

/-!
# The Go client (`client.go`)

`Client` is a client with its read loop and its calls. A call is a goroutine in `Import`,
`ImportStream`, `ExportStream` or `ImportBidi`, with the goroutine that the last three start: the
consumer of an `ImportStream`, the sender of a `ClientStream` or a `BidiStream`. `Call.step` is a
move of a call, `loopStep` one of the read loop, `step` one of the client.

A section under `mu` or `writeMu` is one move, and a write of a frame is one section. `pendingMu` is
held over the sends of `drainPending`, which can block; it is free unless the read loop stands
there (`Client.locked`). A send blocks while the channel is full. A panic of any goroutine ends the
program (`crashed`).

Calls are numbered in the order they take their ids, and connections in the order they are dialled.
`handled` is the record of the frames that the read loop has decoded; a message in a pending channel
carries the number of its frame, and a frame on the wire the number of its connection, which the
code does not keep. A payload is represented by the message it encodes.
-/

namespace Callwire.Go

/-- A map with `uint64` keys. -/
abbrev IdMap (β : Type) := AList fun _ : BitVec 64 => β

/-! ## Calls -/

/-- The function that made the call. -/
inductive Kind where
  | importUnary
  | importStream
  | exportStream
  | importBidi
  deriving DecidableEq, Repr

/-- The capacity of the pending channel. -/
def Kind.capacity : Kind → Nat
  | .importUnary | .exportStream => 1
  | .importStream | .importBidi => 256

/-- The calls that send a stream of their own. -/
def Kind.sends : Kind → Bool
  | .exportStream | .importBidi => true
  | .importUnary | .importStream => false

/-- The capacity of `results`, `reqChan` and `sendChan`. -/
def streamCapacity : Nat := 64

/-- The request; `ExportStream` and `ImportBidi` send no arguments. -/
def Kind.request (id : BitVec 64) (func : String) (args : List Value) : Kind → WireMessage
  | .importUnary | .importStream => Go.request id func args
  | .exportStream => Go.request id func []
  | .importBidi => bidiRequest id func []

/-- The frame that ends the sent stream: `CloseAndRecv` or `CloseSend`. -/
def Kind.terminator (id : BitVec 64) : Kind → WireMessage
  | .importBidi => streamEnd id
  | _ => streamClose id

section
variable (m : Msgpack)

/-- What `Send` puts into its channel: the `BidiStream` encodes the value first. -/
def Kind.enqueue (v : Value) : Kind → Value
  | .importBidi => .bin (m.marshal v)
  | _ => v

/-- The frame that the sender writes for an item: that of a `ClientStream` encodes the item
first. -/
def Kind.chunk (id : BitVec 64) (item : Value) : Kind → WireMessage
  | .importBidi => streamChunk id item
  | _ => streamChunk id (.bin (m.marshal item))

end

/-- A message in a pending channel, with the number of its frame. -/
structure Delivery where
  msg : WireMessage
  frame : Option Nat

/-- How a call ends. -/
inductive Outcome where
  /-- with this message -/
  | reply (msg : WireMessage)
  | encodeFailed
  | connectionClosed
  | writeFailed
  | decodeFailed
  | contextDone
  /-- the application does not use the stream any more -/
  | abandoned

inductive CallPc where
  /-- the id is taken -/
  | allocated
  | registered
  /-- at the write of the request -/
  | writing (conn : Nat)
  /-- the application has the stream -/
  | opened
  /-- at the `select` for a reply -/
  | waiting
  /-- the consumer is at `results <- v` -/
  | delivering (msg : WireMessage)
  /-- the consumer is at its deferred functions -/
  | exiting (o : Outcome)
  | returned (o : Outcome)

/-- The sender goroutine. -/
inductive SenderPc where
  | unspawned
  /-- at the receive of `range` -/
  | receiving
  /-- at the write of a chunk -/
  | writing (item : Value)
  | done

/-- A call. `got` is what its pending channel has been sent, `taken` how many of these it has
received; likewise `results` and `resultsTaken`. `sent` is the values of the completed `Send`s and
`queue` what is in the channel of the sender. `terminating` is from the closing of that channel to
the write of the terminator. `since` is the number of frames handled when the call was registered,
and `late` whether the read loop had returned by then. -/
structure Call where
  kind : Kind
  id : BitVec 64
  payload : WireMessage
  pc : CallPc
  got : List Delivery
  taken : Nat
  sent : List Value
  queue : List Value
  closed : Bool
  terminating : Bool
  sender : SenderPc
  serverEnd : Bool
  results : List WireMessage
  resultsTaken : Nat
  errc : List Outcome
  since : Nat
  late : Bool

def Call.start (kind : Kind) (id : BitVec 64) (payload : WireMessage) : Call where
  kind := kind
  id := id
  payload := payload
  pc := .allocated
  got := []
  taken := 0
  sent := []
  queue := []
  closed := false
  terminating := false
  sender := .unspawned
  serverEnd := false
  results := []
  resultsTaken := 0
  errc := []
  since := 0
  late := false

/-- What a call sees of the client: `dead` are the connections that the client has closed. -/
structure View where
  conn : Option Nat
  closed : Bool
  dead : List Nat

/-- The connection, unless the client is closed. -/
def View.usable (v : View) : Option Nat := if v.closed then none else v.conn

/-- What a move of a call does to the client. -/
inductive Effect where
  | quiet
  | register
  | unregister
  | write (conn : Nat) (frame : WireMessage)
  | crash

/-- A write that the connection takes; `ok` is the environment's. -/
def View.write (v : View) (conn : Nat) (frame : WireMessage) (ok : Bool) : Bool × Effect :=
  if ok = true ∧ conn ∉ v.dead then (true, .write conn frame) else (false, .quiet)

inductive CallLabel where
  | register
  /-- the request is encoded, or not, and the connection is looked up -/
  | prepare (encoded : Bool)
  | write (ok : Bool)
  /-- a message is received from the pending channel; `decoded` is whether its result decodes -/
  | receive (decoded : Bool)
  /-- the context is done -/
  | expire
  | deliver
  /-- the application receives from `results` -/
  | takeResult
  | cleanup
  /-- `Send` -/
  | send (v : Value)
  /-- `CloseAndRecv` or `CloseSend`, up to the closing of the channel -/
  | closeSend
  | terminate (ok : Bool)
  /-- the sender takes an item, or ends -/
  | take
  | writeChunk (ok : Bool)
  | abandon

namespace Call

/-- The messages in the pending channel. -/
def unread (c : Call) : Nat := c.got.length - c.taken

/-- The function returns; an `ImportStream` closes `results` and tells `errc`. -/
def fail (c : Call) (o : Outcome) : Call :=
  match c.kind with
  | .importStream => { c with pc := .returned o, errc := c.errc ++ [o] }
  | _ => { c with pc := .returned o }

/-- The consumer ends. -/
def exit (c : Call) (o : Outcome) : Call := { c with pc := .exiting o, errc := c.errc ++ [o] }

/-- The stream is handed to the application, and its sender started. -/
def handOver (c : Call) : Call := { c with pc := .opened, sender := .receiving }

def prepare (c : Call) (v : View) (encoded : Bool) : Call :=
  match c.kind with
  | .importUnary | .importStream =>
    if encoded then
      match v.usable with
      | none => c.fail .connectionClosed
      | some conn => { c with pc := .writing conn }
    else c.fail .encodeFailed
  | .exportStream | .importBidi =>
    match v.usable with
    | none => c.handOver
    | some conn => { c with pc := .writing conn }

/-- The request is written; only `Import` and `ImportStream` look at the result. -/
def afterWrite (c : Call) (ok : Bool) : Call :=
  match c.kind with
  | .importUnary | .importStream => if ok then { c with pc := .waiting } else c.fail .writeFailed
  | .exportStream | .importBidi => c.handOver

/-- The consumer of an `ImportStream` has received a message. -/
def consume (c : Call) (msg : WireMessage) (decoded : Bool) : Call :=
  if msg.type = "stream_chunk" then
    if decoded then { c with pc := .delivering msg } else c.exit .decodeFailed
  else if msg.type = "stream_end" ∨ msg.type = "error" then c.exit (.reply msg)
  else c

/-- `Recv` has received a message; only a `stream_end` changes anything. -/
def recv (c : Call) (msg : WireMessage) : Call × Effect :=
  if msg.type = "stream_end" then
    if c.serverEnd then (c, .crash) else ({ c with serverEnd := true }, .quiet)
  else (c, .quiet)

/-- A receive from the pending channel. -/
def receive (c : Call) (decoded : Bool) : Option (Call × Effect) := do
  let d ← c.got[c.taken]?
  let c' := { c with taken := c.taken + 1 }
  match c.kind, c.pc with
  | .importUnary, .waiting | .exportStream, .waiting =>
    return ({ c' with pc := .returned (.reply d.msg) }, .quiet)
  | .importStream, .waiting => return (c'.consume d.msg decoded, .quiet)
  | .importBidi, .opened => return c'.recv d.msg
  | _, _ => none

def expire (c : Call) : Option Call :=
  match c.kind, c.pc with
  | .importUnary, .waiting | .exportStream, .waiting =>
    some { c with pc := .returned .contextDone }
  | .importStream, .waiting | .importStream, .delivering _ => some (c.exit .contextDone)
  | _, _ => none

/-- `Send` completes: the stream is not closed, and there is room. -/
def send (c : Call) (m : Msgpack) (v : Value) : Option Call :=
  match c.pc with
  | .opened =>
    if c.kind.sends = true ∧ c.closed = false ∧ c.queue.length < streamCapacity then
      some { c with queue := c.queue ++ [c.kind.enqueue m v], sent := c.sent ++ [v] }
    else none
  | _ => none

/-- A second `CloseAndRecv` closes a closed channel; a second `CloseSend` does nothing. -/
def closeSend (c : Call) : Option (Call × Effect) :=
  match c.kind, c.pc with
  | .exportStream, .opened =>
    if c.terminating then none
    else some ({ c with closed := true, terminating := true }, .quiet)
  | .exportStream, .returned .abandoned => none
  | .exportStream, .returned _ => some (c, .crash)
  | .importBidi, .opened =>
    if c.closed then some (c, .quiet)
    else some ({ c with closed := true, terminating := true }, .quiet)
  | _, _ => none

/-- The write of the terminator, on whatever `c.conn` is; it is not checked for nil. -/
def terminate (c : Call) (v : View) (ok : Bool) : Option (Call × Effect) :=
  if c.terminating then
    match v.conn with
    | none => some (c, .crash)
    | some conn =>
      let (ok', e) := v.write conn (c.kind.terminator c.id) ok
      let c' := { c with terminating := false }
      match c.kind with
      | .exportStream =>
        if ok' then some ({ c' with pc := .waiting }, e)
        else some ({ c' with pc := .returned .writeFailed }, e)
      | _ => some (c', e)
  else none

/-- The receive of the sender's `range`. -/
def take (c : Call) : Option Call :=
  match c.sender, c.queue with
  | .receiving, item :: queue => some { c with sender := .writing item, queue }
  | .receiving, [] => if c.closed then some { c with sender := .done } else none
  | _, _ => none

/-- The write of a chunk; its error is not looked at. -/
def writeChunk (c : Call) (m : Msgpack) (v : View) (ok : Bool) : Option (Call × Effect) :=
  match c.sender with
  | .writing item =>
    match v.conn with
    | none => some (c, .crash)
    | some conn =>
      some ({ c with sender := .receiving }, (v.write conn (c.kind.chunk m c.id item) ok).2)
  | _ => none

/-- The consumer puts a value into `results`, which has room. -/
def deliver (c : Call) : Option Call :=
  match c.pc with
  | .delivering msg =>
    if c.results.length - c.resultsTaken < streamCapacity then
      some { c with pc := .waiting, results := c.results ++ [msg] }
    else none
  | _ => none

/-- A move of a call. -/
def step (m : Msgpack) (v : View) (c : Call) : CallLabel → Option (Call × Effect)
  | .register =>
    match c.pc with
    | .allocated => some ({ c with pc := .registered }, .register)
    | _ => none
  | .prepare encoded =>
    match c.pc with
    | .registered => some (c.prepare v encoded, .quiet)
    | _ => none
  | .write ok =>
    match c.pc with
    | .writing conn =>
      let (ok', e) := v.write conn c.payload ok
      some (c.afterWrite ok', e)
    | _ => none
  | .receive decoded => c.receive decoded
  | .expire => c.expire.map (·, .quiet)
  | .deliver => c.deliver.map (·, .quiet)
  | .takeResult =>
    if c.resultsTaken < c.results.length then
      some ({ c with resultsTaken := c.resultsTaken + 1 }, .quiet)
    else none
  | .cleanup =>
    match c.pc with
    | .exiting o => some ({ c with pc := .returned o }, .unregister)
    | _ => none
  | .send v => (c.send m v).map (·, .quiet)
  | .closeSend => c.closeSend
  | .terminate ok => c.terminate v ok
  | .take => c.take.map (·, .quiet)
  | .writeChunk ok => c.writeChunk m v ok
  | .abandon =>
    match c.pc with
    | .opened =>
      if c.terminating then none else some ({ c with pc := .returned .abandoned }, .quiet)
    | _ => none

end Call

/-! ## The client -/

inductive LoopPc where
  /-- at the top of the loop -/
  | head
  /-- in `readFrame` -/
  | reading (conn : Nat)
  /-- at `ch <- msg` -/
  | sending (call : Nat) (d : Delivery)
  /-- in `drainPending`, before the next entry -/
  | draining
  /-- in `drainPending`, at `ch <- ..` -/
  | drainSend (id : BitVec 64) (call : Nat)
  /-- before the look at `closed` of the reconnect loop, or before the return of `readLoop` -/
  | drained
  /-- in `Sleep` or `Dial` -/
  | dialling
  /-- `Dial` has succeeded -/
  | dialled (conn : Nat)
  | returned

/-- The message of `drainPending`. -/
def connectionLost (id : BitVec 64) : WireMessage :=
  errorMessage id "TransportError" "connection lost"

/-- A frame on the wire. -/
structure Written where
  conn : Nat
  frame : WireMessage

/-- A client. `conns` is the number of connections dialled, `dead` those it has closed, `toClose`
those that a `Close` is about to close. -/
structure Client where
  conn : Option Nat
  closed : Bool
  conns : Nat
  dead : List Nat
  toClose : List Nat
  pending : IdMap Nat
  nextID : BitVec 64
  loop : LoopPc
  calls : List Call
  wire : List Written
  handled : List WireMessage
  crashed : Bool

/-- `Connect` or `ConnectWithReconnect`. -/
def Client.init : Client where
  conn := some 0
  closed := false
  conns := 1
  dead := []
  toClose := []
  pending := ∅
  nextID := 0
  loop := .head
  calls := []
  wire := []
  handled := []
  crashed := false

namespace Client

def view (c : Client) : View := ⟨c.conn, c.closed, c.dead⟩

/-- `drainPending` holds `pendingMu`. -/
def locked (c : Client) : Bool :=
  match c.loop with
  | .draining | .drainSend _ _ => true
  | _ => false

def loopReturned (c : Client) : Bool :=
  match c.loop with
  | .returned => true
  | _ => false

/-- The effect of a move of call `i`. -/
def apply (c : Client) (i : Nat) (call : Call) : Effect → Option Client
  | .quiet => some { c with calls := c.calls.set i call }
  | .register =>
    if c.locked then none
    else
      some { c with
        pending := c.pending.insert call.id i
        calls := c.calls.set i { call with since := c.handled.length, late := c.loopReturned } }
  | .unregister =>
    if c.locked then none
    else some { c with pending := c.pending.erase call.id, calls := c.calls.set i call }
  | .write conn frame =>
    some { c with wire := c.wire ++ [⟨conn, frame⟩], calls := c.calls.set i call }
  | .crash => some { c with crashed := true, calls := c.calls.set i call }

def callStep (m : Msgpack) (c : Client) (i : Nat) (l : CallLabel) : Option Client := do
  let call ← c.calls[i]?
  let (call', e) ← call.step m c.view l
  c.apply i call' e

/-- A call takes its id. -/
def startCall (c : Client) (kind : Kind) (func : String) (args : List Value) : Client :=
  let id := c.nextID + 1
  { c with nextID := id, calls := c.calls ++ [.start kind id (kind.request id func args)] }

/-- `Close`, up to the end of its section under `mu`. -/
def close (c : Client) : Client :=
  { c with conn := none, closed := true, toClose := c.toClose ++ c.conn.toList }

/-- `conn.Close()` of a `Close`. -/
def closeConn (c : Client) : Option Client :=
  match c.toClose with
  | [] => none
  | conn :: toClose => some { c with toClose, dead := c.dead ++ [conn] }

/-! ## The read loop -/

/-- The channel of call `i` is sent a message; it has room. -/
def sendTo (c : Client) (i : Nat) (d : Delivery) : Option Client := do
  let call ← c.calls[i]?
  if call.unread < call.kind.capacity then
    return { c with calls := c.calls.set i { call with got := call.got ++ [d] } }
  else none

/-- A decoded frame; every type but `stream_chunk` takes the call off the map. -/
def handleFrame (c : Client) (msg : WireMessage) : Client :=
  let c' := { c with handled := c.handled ++ [msg] }
  match c.pending.lookup msg.id with
  | none => { c' with loop := .head }
  | some i =>
    let c' := { c' with loop := .sending i ⟨msg, some c.handled.length⟩ }
    if msg.type = "stream_chunk" then c'
    else { c' with pending := c.pending.erase msg.id }

end Client

inductive LoopLabel where
  /-- the look at `conn` and `closed` -/
  | head
  /-- `readFrame` returns a payload that decodes -/
  | frame (msg : WireMessage)
  /-- `readFrame` returns a payload that does not decode -/
  | badFrame
  | readError
  /-- the send to a pending channel completes -/
  | send
  /-- `drainPending` comes to an entry -/
  | drain (id : BitVec 64)
  | drainEnd
  /-- the look at `closed` before the back-off; `readLoop` returns -/
  | redial
  | dial (ok : Bool)
  /-- the section under `mu` after a dial -/
  | install

/-- A move of the read loop: `readLoopWithReconnect`, or `readLoop` if not `reconnect`. -/
def loopStep (reconnect : Bool) (c : Client) : LoopLabel → Option Client
  | .head =>
    match c.loop with
    | .head =>
      match c.view.usable with
      | none => some { c with loop := .returned }
      | some conn => some { c with loop := .reading conn }
    | _ => none
  | .frame msg =>
    match c.loop with
    | .reading conn => if conn ∈ c.dead then none else some (c.handleFrame msg)
    | _ => none
  | .badFrame =>
    match c.loop with
    | .reading conn => if conn ∈ c.dead then none else some { c with loop := .head }
    | _ => none
  | .readError =>
    match c.loop with
    | .reading _ => some { c with loop := .draining }
    | _ => none
  | .send =>
    match c.loop with
    | .sending i d => (c.sendTo i d).map ({ · with loop := .head })
    | .drainSend id i =>
      (c.sendTo i ⟨connectionLost id, none⟩).map
        ({ · with loop := .draining, pending := c.pending.erase id })
    | _ => none
  | .drain id =>
    match c.loop, c.pending.lookup id with
    | .draining, some i => some { c with loop := .drainSend id i }
    | _, _ => none
  | .drainEnd =>
    match c.loop with
    | .draining => if c.pending.entries.isEmpty then some { c with loop := .drained } else none
    | _ => none
  | .redial =>
    match c.loop with
    | .drained =>
      if reconnect = true ∧ c.closed = false then some { c with loop := .dialling }
      else some { c with loop := .returned }
    | _ => none
  | .dial ok =>
    match c.loop with
    | .dialling =>
      if ok then some { c with loop := .dialled c.conns, conns := c.conns + 1 }
      else some { c with loop := .drained }
    | _ => none
  | .install =>
    match c.loop with
    | .dialled conn =>
      if c.closed then some { c with loop := .returned, dead := c.dead ++ [conn] }
      else some { c with loop := .head, conn := some conn }
    | _ => none

/-! ## Steps -/

inductive Label where
  | start (kind : Kind) (func : String) (args : List Value)
  | call (i : Nat) (l : CallLabel)
  | close
  | closeConn
  | loop (l : LoopLabel)

/-- A move of the client. -/
def step (m : Msgpack) (reconnect : Bool) (c : Client) (l : Label) : Option Client :=
  if c.crashed then none
  else
    match l with
    | .start kind func args => some (c.startCall kind func args)
    | .call i l => c.callStep m i l
    | .close => some c.close
    | .closeConn => c.closeConn
    | .loop l => loopStep reconnect c l

end Callwire.Go
