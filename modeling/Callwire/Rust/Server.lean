import Callwire.Lib.Transition
import Callwire.Rust.Actor

/-!
# One connection of the Rust server (`server.rs`)

`Connection` is `handle_connection` with the tasks it spawns. A task is a call of `dispatch`,
`dispatch_client_stream` or `dispatch_bidi`, together with the forwarding task and the two channels
between the read loop and the handler. `Task.step` is a move of a task, as fine as its `await`
points; `step` is a move of the connection.

A handler is any code: what it returns, what its output stream yields and when it reads its input
are the environment's. A frame that does not decode changes nothing and is left out. The functions
`pack_*` succeed on the values they are given here, and each frame is written under the lock of the
writer, in one step.
-/

namespace Callwire.Rust.Server

/-! ## Registry -/

/-- `RegistryEntry`, without its closure. -/
inductive RegistryEntry where
  | unary
  | stream
  | clientStream
  | bidi
  deriving DecidableEq, Repr

/-- `REGISTRY`. -/
abbrev Registry := AList fun _ : String => RegistryEntry

/-! ## Tasks -/

inductive StreamInputMsg where
  | chunk (value : Value)
  | close

/-- The function that the task runs. -/
inductive Dispatch where
  | dispatch
  | dispatchClientStream
  | dispatchBidi
  deriving DecidableEq, Repr

/-- What a task writes. -/
inductive Output where
  | chunk (value : Value)
  | response (value : Value)
  | error (errorType message : String)
  | streamEnd

def Output.pack (id : BitVec 64) : Output → WireMessage
  | .chunk value => packStreamChunk id value
  | .response value => packResponse id value
  | .error errorType message => packError id errorType message
  | .streamEnd => packStreamEnd id

inductive TaskPc where
  /-- before the look at the registry -/
  | start
  /-- at `handler(..).await` -/
  | calling (entry : RegistryEntry)
  /-- at `next().await` of the handler's output stream -/
  | streaming
  | writing (out : Output)
  /-- the function has returned -/
  | returned
  /-- the id is out of `stream_inputs` -/
  | done

/-- The forwarding task. -/
inductive ForwardPc where
  | unspawned
  /-- at `input_rx.recv().await` -/
  | receiving
  /-- at `value_tx.send(value).await` -/
  | sending (value : Value)
  | done

/-- A spawned task. `input` and `values` are the contents of its two channels, `taken` what the
handler has received from its input stream, `ended` whether it has received `None`. -/
structure Task where
  msg : WireMessage
  kind : Dispatch
  pc : TaskPc
  input : List StreamInputMsg
  forward : ForwardPc
  values : List Value
  valuesDropped : Bool
  taken : List Value
  ended : Bool

def Task.spawn (msg : WireMessage) (kind : Dispatch) : Task where
  msg := msg
  kind := kind
  pc := .start
  input := []
  forward := .unspawned
  values := []
  valuesDropped := false
  taken := []
  ended := false

/-- What the handler's future is ready with. -/
inductive HandlerResult where
  | value (value : Value)
  | stream
  | error (errorType message : String)

/-- What the handler's output stream is ready with. -/
inductive StreamItem where
  | item (value : Value)
  | error (errorType message : String)
  | fin

inductive TaskLabel where
  | start
  | handled (r : HandlerResult)
  | next (item : StreamItem)
  /-- the frame is written, if the socket takes it -/
  | write (ok : Bool)
  /-- the forwarding task moves -/
  | forward
  /-- the handler reads its input stream -/
  | take
  /-- the handler drops its input stream -/
  | dropValues

namespace Task

/-- The receiver of the input channel is dropped: with the forwarding task, or with a function that
returned before it spawned one. -/
def inputDropped (t : Task) : Bool :=
  match t.forward, t.pc with
  | .done, _ | .unspawned, .returned | .unspawned, .done => true
  | _, _ => false

/-- `dispatch`, up to the handler. -/
def startDispatch (registry : Registry) (t : Task) : Task :=
  match t.msg.func with
  | none => { t with pc := .writing (.error "TypeError" "missing func field") }
  | some func =>
    match registry.lookup func with
    | none =>
      { t with pc := .writing (.error "NotFoundError" ("function '" ++ func ++ "' not exported")) }
    | some .unary => { t with pc := .calling .unary }
    | some .stream => { t with pc := .calling .stream }
    | some .clientStream | some .bidi =>
      { t with
        pc := .writing (.error "TypeError"
          "function requires client-streaming or bidi-streaming call, not unary") }

/-- `dispatch_client_stream` and `dispatch_bidi`, up to the handler. -/
def startInput (registry : Registry) (t : Task) (entry : RegistryEntry) (suffix : String) : Task :=
  let func := t.msg.func.getD ""
  if registry.lookup func = some entry then
    { t with pc := .calling entry, forward := .receiving }
  else
    { t with
      pc := .writing (.error "NotFoundError" ("function '" ++ func ++ "' not exported as " ++
        suffix)) }

def start (registry : Registry) (t : Task) : Task :=
  match t.kind with
  | .dispatch => t.startDispatch registry
  | .dispatchClientStream => t.startInput registry .clientStream "client-stream"
  | .dispatchBidi => t.startInput registry .bidi "bidi-stream"

/-- The handler's result: a value, or a stream for the kinds with streaming output. -/
def handled (t : Task) (entry : RegistryEntry) : HandlerResult → Option Task
  | .error errorType message => some { t with pc := .writing (.error errorType message) }
  | .value value =>
    match entry with
    | .unary | .clientStream => some { t with pc := .writing (.response value) }
    | .stream | .bidi => none
  | .stream =>
    match entry with
    | .unary | .clientStream => none
    | .stream | .bidi => some { t with pc := .streaming }

def next (t : Task) : StreamItem → Task
  | .item value => { t with pc := .writing (.chunk value) }
  | .error errorType message => { t with pc := .writing (.error errorType message) }
  | .fin => { t with pc := .writing .streamEnd }

/-- After a chunk the loop goes on, unless the write has failed. -/
def written (t : Task) (ok : Bool) : Output → Task
  | .chunk _ => if ok then { t with pc := .streaming } else { t with pc := .returned }
  | _ => { t with pc := .returned }

/-- A move of the forwarding task; `connected` is whether the input channel has a sender. -/
def forwardStep (t : Task) (connected : Bool) : Option Task :=
  match t.forward, t.input with
  | .receiving, .chunk value :: input => some { t with input, forward := .sending value }
  | .receiving, .close :: _ => some { t with input := [], forward := .done }
  | .receiving, [] => if connected then none else some { t with forward := .done }
  | .sending value, _ =>
    if t.valuesDropped then some { t with input := [], forward := .done }
    else if t.values.length < streamCapacity then
      some { t with values := t.values ++ [value], forward := .receiving }
    else none
  | .unspawned, _ | .done, _ => none

/-- `poll_recv` of the value channel, once it is ready. -/
def takeStep (t : Task) : Option Task :=
  if t.valuesDropped then none
  else
    match t.values, t.forward with
    | value :: values, _ => some { t with values, taken := t.taken ++ [value] }
    | [], .done => some { t with ended := true }
    | [], _ => none

/-- A move of a task, and the frames it writes. -/
def step (registry : Registry) (connected : Bool) (t : Task) :
    TaskLabel → Option (Task × List WireMessage)
  | .start =>
    match t.pc with
    | .start => some (t.start registry, [])
    | _ => none
  | .handled r =>
    match t.pc with
    | .calling entry => (t.handled entry r).map (·, [])
    | _ => none
  | .next item =>
    match t.pc with
    | .streaming => some (t.next item, [])
    | _ => none
  | .write ok =>
    match t.pc with
    | .writing out => some (t.written ok out, if ok then [out.pack t.msg.id] else [])
    | _ => none
  | .forward => (t.forwardStep connected).map (·, [])
  | .take => t.takeStep.map (·, [])
  | .dropValues => some ({ t with valuesDropped := true, values := [] }, [])

end Task

/-! ## The connection -/

inductive LoopPc where
  | reading
  /-- the terminator was not the expected one, `error` is to be written -/
  | mismatch (task : Nat) (id : BitVec 64) (error : WireMessage)
  /-- at `sender.send(signal).await` -/
  | sending (task : Nat) (id : BitVec 64) (signal : StreamInputMsg)
  | closed

/-- A connection. The sender of an input channel is named by the number of its task, and stands in
`stream_inputs` with `is_bidi`. -/
structure Connection where
  registry : Registry
  loop : LoopPc
  streamInputs : IdMap (Nat × Bool)
  tasks : List Task
  wire : List WireMessage

def Connection.init (registry : Registry) : Connection where
  registry := registry
  loop := .reading
  streamInputs := ∅
  tasks := []
  wire := []

/-- The frame type that terminates the input of a call. -/
def expected (isBidi : Bool) : String := if isBidi then "stream_end" else "stream_close"

namespace Connection

/-- `stream_chunk`, `stream_close` and `stream_end`. -/
def routeInput (c : Connection) (msg : WireMessage) : Connection :=
  match c.streamInputs.lookup msg.id with
  | none => c
  | some (task, isBidi) =>
    if msg.msgType = "stream_chunk" then
      { c with loop := .sending task msg.id (.chunk (msg.result.getD .nil)) }
    else if msg.msgType ≠ expected isBidi then
      { c with
        loop := .mismatch task msg.id (packError msg.id "ProtocolError"
          ("expected '" ++ expected isBidi ++ "' to terminate this call, got '" ++ msg.msgType
            ++ "'")) }
    else { c with loop := .sending task msg.id .close }

/-- The function a request is dispatched to. -/
def dispatchOf (registry : Registry) (msg : WireMessage) : Dispatch :=
  match registry.lookup (msg.func.getD ""), msg.stream.getD false with
  | some .bidi, true => .dispatchBidi
  | some .clientStream, false => .dispatchClientStream
  | _, _ => .dispatch

def spawn (c : Connection) (msg : WireMessage) (kind : Dispatch) : Connection :=
  { c with
    tasks := c.tasks ++ [Task.spawn msg kind]
    streamInputs :=
      match kind with
      | .dispatch => c.streamInputs
      | .dispatchClientStream => c.streamInputs.insert msg.id (c.tasks.length, false)
      | .dispatchBidi => c.streamInputs.insert msg.id (c.tasks.length, true) }

def handleFrame (c : Connection) (msg : WireMessage) : Connection :=
  if msg.msgType = "stream_chunk" ∨ msg.msgType = "stream_close" ∨ msg.msgType = "stream_end" then
    c.routeInput msg
  else if msg.msgType ≠ "request" then c
  else c.spawn msg (dispatchOf c.registry msg)

/-- `sender.send(..).await` is over: the signal is in the channel, or the receiver is dropped. -/
def trySend (c : Connection) (task : Nat) (signal : StreamInputMsg) : Option Connection := do
  let t ← c.tasks[task]?
  if t.inputDropped then return c
  else if t.input.length < streamCapacity then
    return { c with tasks := c.tasks.set task { t with input := t.input ++ [signal] } }
  else none

/-- After a `Close` the id is removed. -/
def afterSend (c : Connection) (id : BitVec 64) : StreamInputMsg → Connection
  | .chunk _ => { c with loop := .reading }
  | .close => { c with loop := .reading, streamInputs := c.streamInputs.erase id }

/-- The input channel of the task has a sender: in the map, or in the hands of the read loop. -/
def hasSender (c : Connection) (task : Nat) : Bool :=
  c.streamInputs.entries.any (fun e => e.2.1 = task) ||
    match c.loop with
    | .mismatch i _ _ | .sending i _ _ => i = task
    | .reading | .closed => false

/-- The task removes its id, if it had streaming input. -/
def removeInput (c : Connection) (t : Task) : Connection :=
  match t.kind with
  | .dispatch => c
  | .dispatchClientStream | .dispatchBidi =>
    { c with streamInputs := c.streamInputs.erase t.msg.id }

end Connection

inductive Label where
  /-- `register_*`, anywhere in the program -/
  | register (name : String) (entry : RegistryEntry)
  /-- the read loop has got a message -/
  | frame (msg : WireMessage)
  /-- the read loop ends: a read fails, or the server shuts down -/
  | disconnect
  /-- the read loop writes the error for a wrong terminator -/
  | complain (ok : Bool)
  /-- the read loop's send is over -/
  | send
  | task (i : Nat) (l : TaskLabel)
  /-- the task ends -/
  | finish (i : Nat)

/-- A move of the connection. -/
def step (c : Connection) : Label → Option Connection
  | .register name entry => some { c with registry := c.registry.insert name entry }
  | .frame msg =>
    match c.loop with
    | .reading => some (c.handleFrame msg)
    | _ => none
  | .disconnect =>
    match c.loop with
    | .reading => some { c with loop := .closed, streamInputs := ∅ }
    | _ => none
  | .complain ok =>
    match c.loop with
    | .mismatch task id error =>
      some { c with
        loop := .sending task id .close
        wire := c.wire ++ if ok then [error] else [] }
    | _ => none
  | .send =>
    match c.loop with
    | .sending task id signal => (c.trySend task signal).map (·.afterSend id signal)
    | _ => none
  | .task i l => do
    let t ← c.tasks[i]?
    let (t', out) ← t.step c.registry (c.hasSender i) l
    return { c with tasks := c.tasks.set i t', wire := c.wire ++ out }
  | .finish i => do
    let t ← c.tasks[i]?
    match t.pc with
    | .returned => return { c with tasks := c.tasks.set i { t with pc := .done } }.removeInput t
    | _ => none

end Callwire.Rust.Server
