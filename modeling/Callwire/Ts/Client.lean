import Callwire.Lib.Mailbox
import Callwire.Lib.Transition
import Callwire.Ts.Codec

/-!
# The TypeScript client (`client.ts`)

`Client` is a client that sends its calls itself, without the registry. `Link` is its connection:
the sockets it has made, each with the loop that reads it, and its reconnect loops. As for the
server, a step is a piece of the program from one `await` to the next; the sockets, the timers and
the application are the environment's. Host and port are one address.

A call is known by its id. `ops` holds what it leaves to the application, and `pending` who gets the
next frame for it, as in the code. `wire` is the record of the frames written, each with the number
of its socket. Destroying a socket makes its reader fail some time later, as any socket may.
-/

namespace Callwire.Ts

open Lib

/-! ## The connection -/

/-- Who waits for a socket to connect. -/
inductive Owner where
  /-- a call of `connect` -/
  | app
  /-- a call of `connectRegistry` -/
  | registry
  /-- reconnect loop `j` -/
  | loop (j : Nat)
  deriving DecidableEq, Repr

inductive Phase where
  | connecting
  | opened
  | failed
  deriving DecidableEq, Repr

/-- The loop of `_startReading`. -/
inductive Reader where
  | unstarted
  /-- at `readFrame` -/
  | reading
  | exited
  deriving DecidableEq, Repr

structure Sock where
  addr : String
  owner : Owner
  phase : Phase
  reader : Reader
  deriving DecidableEq, Repr

/-- `_reconnectLoop`. -/
inductive Loop where
  | sleeping
  | connecting
  /-- `_connectSocket` has thrown -/
  | caught
  | done
  deriving DecidableEq, Repr

structure Link where
  reconnect : Bool
  connected : Bool
  /-- the number of the socket in use -/
  socket : Option Nat
  addr : String
  sockets : List Sock
  loops : List Loop
  deriving DecidableEq, Repr

inductive LinkEvent where
  /-- socket `s` is connected -/
  | connected (s : Nat)
  /-- socket `s` has an error before that -/
  | connectFailed (s : Nat)
  /-- `readFrame` or `unpack` throws -/
  | readFailed (s : Nat)
  /-- loop `j` has slept -/
  | loopWake (j : Nat)
  /-- loop `j` goes on after an error -/
  | loopRetry (j : Nat)
  deriving DecidableEq, Repr

namespace Link

def init (reconnect : Bool) : Link where
  reconnect := reconnect
  connected := false
  socket := none
  addr := ""
  sockets := []
  loops := []

/-- The first part of `_connectSocket`. -/
def connectSocket (k : Link) (owner : Owner) : Link :=
  { k with
    sockets := k.sockets ++
      [{ addr := k.addr, owner, phase := .connecting, reader := .unstarted }] }

/-- `connect` and `connectRegistry`. -/
def connect (k : Link) (addr : String) (owner : Owner) : Link :=
  { k with addr }.connectSocket owner

/-- The reconnect loop that waits for the socket goes on. -/
def settle (k : Link) (owner : Owner) (loop : Loop) : Link :=
  match owner with
  | .loop j => { k with loops := k.loops.set j loop }
  | _ => k

/-- The first part of `_handleDisconnect`. -/
def handleDisconnect (k : Link) : Link :=
  { k with
    connected := false
    loops := if k.reconnect then k.loops ++ [.sleeping] else k.loops }

/-- The condition of the read loop, after a frame. -/
def goOn (k : Link) (s : Nat) (sock : Sock) : Link :=
  if k.connected ∧ k.socket = some s then k
  else { k with sockets := k.sockets.set s { sock with reader := .exited } }

/-- The reader of socket `s` gets a frame. -/
def frame (k : Link) (s : Nat) : Option Link :=
  match k.sockets[s]? with
  | some sock => if sock.reader = .reading then some (k.goOn s sock) else none
  | none => none

def close (k : Link) : Link := { k with connected := false, socket := none }

def event (k : Link) : LinkEvent → Option Link
  | .connected s =>
    match k.sockets[s]? with
    | some sock =>
      if sock.phase = .connecting then
        some <| Link.settle
          { k with
            socket := some s
            connected := true
            sockets := k.sockets.set s { sock with phase := .opened, reader := .reading } }
          sock.owner .done
      else none
    | none => none
  | .connectFailed s =>
    match k.sockets[s]? with
    | some sock =>
      if sock.phase = .connecting then
        some <| Link.settle { k with sockets := k.sockets.set s { sock with phase := .failed } }
          sock.owner .caught
      else none
    | none => none
  | .readFailed s =>
    match k.sockets[s]? with
    | some sock =>
      if sock.reader = .reading then
        some <| Link.handleDisconnect
          { k with sockets := k.sockets.set s { sock with reader := .exited } }
      else none
    | none => none
  | .loopWake j =>
    if k.loops[j]? = some .sleeping then
      some <| Link.connectSocket { k with loops := k.loops.set j .connecting } (.loop j)
    else none
  | .loopRetry j =>
    if k.loops[j]? = some .caught then
      some { k with loops := k.loops.set j (if k.connected then .done else .sleeping) }
    else none

end Link

/-! ## Calls -/

section
variable (J : Js)

inductive Failure where
  /-- `CallwireError` -/
  | callwire (errorType : String) (errorMessage : J.Val)
  /-- `Error` -/
  | error (message : String)
  /-- what `encode` has thrown -/
  | encode (err : J.Val)
  /-- the error of a socket -/
  | socket

/-- A promise that is fulfilled or rejected. -/
inductive Settled where
  | resolved (v : J.Val)
  | rejected (failure : Failure J)

/-- A promise and the timer that rejects it. -/
structure Waiter where
  promise : Option (Settled J)
  timer : Bool

inductive Item where
  | chunk (v : J.Val)
  | done
  | error (failure : Failure J)

/-- What a call of `next` of a generator comes to. -/
inductive Step where
  | value (v : J.Val)
  | done
  | threw (failure : Failure J)

/-- A generator over a queue. -/
structure OutputData where
  queue : List (Item J)
  finished : Bool

abbrev Output := Mailbox (OutputData J) (Step J)

/-- What a call leaves to the application. -/
inductive Op where
  | call (func : String) (reply : Waiter J)
  | callStream (output : Output J)
  /-- `timer` is that of `exportStream`, and `recvs` the calls of `closeAndRecv` -/
  | exportStream (func : String) (timer : Bool) (recvs : List (Waiter J))
  /-- before the module is imported -/
  | importing (request : WireMessage J)
  | bidi (output : Output J)

end

/-- The closures in `pending`. -/
inductive Entry where
  | unary
  | stream
  /-- of `exportStream` -/
  | exported
  /-- of call `j` of `closeAndRecv` -/
  | receiving (j : Nat)
  | bidi
  deriving DecidableEq, Repr

inductive Method where
  | call
  | callStream
  | exportStream
  | importBidi
  deriving DecidableEq, Repr

section
variable {J : Js}

namespace Waiter

def new : Waiter J := { promise := none, timer := true }

/-- Only the first time counts. -/
def settle (w : Waiter J) (result : Settled J) : Waiter J :=
  { promise := w.promise.or (some result), timer := false }

end Waiter

/-- What `resolve` of a call or of `closeAndRecv` makes of a message. -/
def WireMessage.reply (msg : WireMessage J) : Settled J :=
  if msg.type = "error" then
    .rejected (.callwire (msg.errorType.getD "Error") (msg.message.getD (J.str "")))
  else .resolved msg.result

/-- The error of a stream. -/
def WireMessage.failure (msg : WireMessage J) : Failure J :=
  .callwire (msg.errorType.getD "Error") (msg.message.getD (J.str "unknown"))

/-- `next` of a generator, if it does not have to wait. -/
def OutputData.take (d : OutputData J) : Option (Step J × OutputData J) :=
  if d.finished then some (.done, d)
  else
    match d.queue with
    | [] => none
    | .chunk v :: queue => some (.value v, { d with queue })
    | .done :: queue => some (.done, { queue, finished := true })
    | .error failure :: queue => some (.threw failure, { queue, finished := true })

namespace Output

def new : Output J := Mailbox.new { queue := [], finished := false }

def enqueue (item : Item J) (output : Output J) : Output J :=
  output.put fun d => { d with queue := d.queue ++ [item] }

end Output

/-- `Connection closed`. -/
def closedError : Failure J := .error "Connection closed"

namespace Op

/-- Changes the queue of a stream. -/
def enqueue (item : Item J) : Op J → Op J
  | .callStream output => .callStream (Output.enqueue item output)
  | .bidi output => .bidi (Output.enqueue item output)
  | op => op

/-- `reject` or `error` of an entry. -/
def reject (failure : Failure J) : Entry → Op J → Op J
  | .unary, .call func reply => .call func (reply.settle (.rejected failure))
  | .exported, .exportStream func _ recvs => .exportStream func false recvs
  | .receiving j, .exportStream func timer recvs =>
    .exportStream func timer (recvs.modify j fun w => w.settle (.rejected failure))
  | .stream, op | .bidi, op => op.enqueue (.error failure)
  | _, op => op

/-- `resolve` of an entry. -/
def resolve (msg : WireMessage J) : Entry → Op J → Op J
  | .unary, .call func reply => .call func (reply.settle msg.reply)
  | .exported, .exportStream func _ recvs => .exportStream func false recvs
  | .receiving j, .exportStream func timer recvs =>
    .exportStream func timer (recvs.modify j fun w => w.settle msg.reply)
  | _, op => op

/-- The promise of call `j` of `closeAndRecv`. -/
def received (j : Nat) : Op J → Option (Settled J)
  | .exportStream _ _ recvs => recvs[j]?.bind Waiter.promise
  | _ => none

end Op

end

/-! ## The client -/

section
variable (J : Js)

structure Client where
  link : Link
  timeout : Nat
  nextId : Nat
  pending : AList fun _ : Nat => Entry
  ops : Nat → Option (Op J)
  wire : List (Nat × WireMessage J)

/-- What the application and the timers do with a call. -/
inductive OpEvent where
  /-- the timer of `call` or of `exportStream` -/
  | timeout
  /-- the timer of call `j` of `closeAndRecv` -/
  | recvTimeout (j : Nat)
  | send (item : J.Val)
  | closeAndRecv
  | closeSend
  /-- `importBidi` goes on -/
  | imported
  /-- `next` of the generator -/
  | next
  /-- a `next` that was woken goes on -/
  | resume

inductive Event where
  | link (e : LinkEvent)
  | frame (s : Nat) (msg : WireMessage J)
  | op (id : Nat) (e : OpEvent J)

end

variable {J : Js}

namespace Client

def init (reconnect : Bool) (timeout : Nat) : Client J where
  link := .init reconnect
  timeout := timeout
  nextId := 0
  pending := ∅
  ops _ := none
  wire := []

/-- `writeFrame` on the socket in use. -/
def write (c : Client J) (msg : WireMessage J) : Client J :=
  match c.link.socket with
  | some s => { c with wire := c.wire ++ [(s, msg)] }
  | none => c

def setOp (c : Client J) (id : Nat) (op : Op J) : Client J :=
  { c with ops := Function.update c.ops id (some op) }

def modifyOp (c : Client J) (id : Nat) (f : Op J → Op J) : Client J :=
  { c with ops := Function.update c.ops id ((c.ops id).map f) }

def insertPending (c : Client J) (id : Nat) (entry : Entry) : Client J :=
  { c with pending := c.pending.insert id entry }

def erasePending (c : Client J) (id : Nat) : Client J := { c with pending := c.pending.erase id }

/-- Every entry of `pending` gets the error, and `pending` is cleared. -/
def rejectAll (c : Client J) : Client J :=
  { c with
    ops := fun id =>
      match c.pending.lookup id with
      | some entry => (c.ops id).map (Op.reject closedError entry)
      | none => c.ops id
    pending := ∅ }

/-- `_dispatch`. -/
def dispatch (c : Client J) (msg : WireMessage J) : Client J :=
  match c.pending.lookup msg.id with
  | none => c
  | some .unary =>
    let c := if msg.type = "stream_chunk" then c else c.erasePending msg.id
    c.modifyOp msg.id (Op.resolve msg .unary)
  | some .stream =>
    if msg.type = "stream_chunk" then c.modifyOp msg.id (Op.enqueue (.chunk msg.result))
    else if msg.type = "stream_end" then
      (c.erasePending msg.id).modifyOp msg.id (Op.enqueue .done)
    else if msg.type = "error" then
      (c.erasePending msg.id).modifyOp msg.id (Op.enqueue (.error msg.failure))
    else c
  | some .exported =>
    if msg.type = "response" ∨ msg.type = "error" then
      (c.erasePending msg.id).modifyOp msg.id (Op.resolve msg .exported)
    else c
  | some (.receiving j) =>
    if msg.type = "response" ∨ msg.type = "error" then
      (c.erasePending msg.id).modifyOp msg.id (Op.resolve msg (.receiving j))
    else c
  | some .bidi =>
    if msg.type = "stream_chunk" then c.modifyOp msg.id (Op.enqueue (.chunk msg.result))
    else if msg.type = "stream_end" then c.modifyOp msg.id (Op.enqueue .done)
    else if msg.type = "error" then
      (c.erasePending msg.id).modifyOp msg.id (Op.enqueue (.error msg.failure))
    else c

/-- `++` on a number, which changes nothing from `2 ^ 53` on. -/
def increment (n : Nat) : Nat := if n < 9007199254740992 then n + 1 else n

/-- `call`, `callStream`, `exportStream` and `importBidi` from the check of the connection on. -/
def invoke (c : Client J) (method : Method) (func : String) (args : List J.Val) :
    Client J × Except (Failure J) Nat :=
  if ¬ c.link.connected ∨ c.link.socket = none then (c, .error (.error "Not connected"))
  else
    let id := increment c.nextId
    let c := { c with nextId := id }
    match method with
    | .call =>
      match packRequest id func args with
      | .error err => (c, .error (.encode err))
      | .ok payload =>
        (((c.setOp id (.call func .new)).insertPending id .unary).write payload, .ok id)
    | .callStream =>
      match packRequest id func args with
      | .error err => (c, .error (.encode err))
      | .ok payload =>
        -- the generator goes on to its queue
        (((c.setOp id (.callStream (Output.new.poll OutputData.take))).insertPending id
          .stream).write payload, .ok id)
    | .exportStream =>
      match packRequest id func [] with
      | .error err => (c, .error (.encode err))
      | .ok payload =>
        (((c.setOp id (.exportStream func true [])).insertPending id .exported).write payload,
          .ok id)
    | .importBidi =>
      (c.setOp id (.importing { id, type := "request", func := some func, args := some [] }),
        .ok id)

/-- The generator of `callStream` looks into its queue. -/
def pollStream (c : Client J) (id : Nat) (output : Output J) : Client J :=
  c.setOp id (.callStream (output.poll OutputData.take))

/-- The generator of `recv` looks into its queue; if it finds the end, the entry goes. -/
def pollBidi (c : Client J) (id : Nat) (output : Output J) : Client J :=
  let polled := output.poll OutputData.take
  let c := c.setOp id (.bidi polled)
  if polled.data.finished ∧ ¬ output.data.finished then c.erasePending id else c

def opEvent (c : Client J) (id : Nat) : OpEvent J → Option (Client J)
  | .timeout =>
    match c.ops id with
    | some (.call func reply) =>
      if reply.timer then
        some <| (c.erasePending id).setOp id <| .call func <| reply.settle <| .rejected <| .error
          ("call '" ++ func ++ "' timed out after " ++ toString c.timeout ++ "ms")
      else none
    | some (.exportStream func true recvs) =>
      some ((c.erasePending id).setOp id (.exportStream func false recvs))
    | _ => none
  | .recvTimeout j =>
    match c.ops id with
    | some (.exportStream func timer recvs) =>
      match recvs[j]? with
      | some w =>
        if w.timer then
          some <| (c.erasePending id).setOp id <| .exportStream func timer <| recvs.set j <|
            w.settle <| .rejected <| .error ("closeAndRecv '" ++ func ++ "' timed out")
        else none
      | none => none
    | _ => none
  | .send item =>
    match c.ops id with
    | some (.exportStream ..) | some (.bidi _) =>
      match packStreamChunk id item with
      | .ok payload => some (c.write payload)
      | .error _ => some c
    | _ => none
  | .closeAndRecv =>
    match c.ops id with
    | some (.exportStream func timer recvs) =>
      if c.link.socket = none then
        some <| c.setOp id <| .exportStream func timer <|
          recvs ++ [{ promise := some (.rejected (.error "Not connected")), timer := false }]
      else
        some <| ((c.write (packStreamClose id)).setOp id
          (.exportStream func timer (recvs ++ [.new]))).insertPending id (.receiving recvs.length)
    | _ => none
  | .closeSend =>
    match c.ops id with
    | some (.bidi _) => some (c.write (packStreamEnd id))
    | _ => none
  | .imported =>
    match c.ops id with
    | some (.importing request) =>
      -- without a socket the application gets an error, and the entry stays
      some (((c.setOp id (.bidi .new)).insertPending id .bidi).write request)
    | _ => none
  | .next =>
    match c.ops id with
    | some (.callStream output) =>
      if output.consumer = .idle then some (c.pollStream id output) else none
    | some (.bidi output) =>
      if output.consumer = .idle then some (c.pollBidi id output) else none
    | _ => none
  | .resume =>
    match c.ops id with
    | some (.callStream output) =>
      if output.consumer = .woken then some (c.pollStream id output) else none
    | some (.bidi output) =>
      if output.consumer = .woken then some (c.pollBidi id output) else none
    | _ => none

def connect (c : Client J) (addr : String) (owner : Owner) : Client J :=
  { c with link := c.link.connect addr owner }

def close (c : Client J) : Client J := { c with link := c.link.close }.rejectAll

def event (c : Client J) : Event J → Option (Client J)
  | .link (.readFailed s) => do
    let link ← c.link.event (.readFailed s)
    return { c with link }.rejectAll
  | .link e => do
    let link ← c.link.event e
    return { c with link }
  | .frame s msg => do
    let link ← c.link.frame s
    return { c.dispatch msg with link }
  | .op id e => c.opEvent id e

/-- The promise of a `call`. -/
def promise (c : Client J) (id : Nat) : Option (Settled J) :=
  match c.ops id with
  | some (.call _ reply) => reply.promise
  | _ => none

/-- The promise of call `j` of `closeAndRecv`. -/
def received (c : Client J) (id j : Nat) : Option (Settled J) := (c.ops id).bind (Op.received j)

inductive Label (J : Js) where
  | connect (addr : String)
  | invoke (method : Method) (func : String) (args : List J.Val)
  | event (e : Event J)
  | close

def step (c : Client J) : Label J → Option (Client J)
  | .connect addr => some (c.connect addr .app)
  | .invoke method func args => some (c.invoke method func args).1
  | .event e => c.event e
  | .close => some c.close

end Client

end Callwire.Ts
