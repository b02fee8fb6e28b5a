import Callwire.Lib.LinkedQueue
import Callwire.Lib.Transition
import Callwire.C.Codec
import Callwire.C.Framing

/-!
# One connection of the server (`server.c`)

`Conn` is a connection with its read loop (`handle_connection`) and its dispatch threads. Each
section under a mutex, and each write of a frame, is one step; `step` is the step function and its
`Label` says which party moves and what the environment answers: the frame that was read, whether
the socket took a frame, whether a thread was created. Stream inputs live in a heap and are named
by their address; `inputs` is the array `conn->inputs` of the registered ones. The block of a freed
input may be allocated again, for an input of another connection (`Label.reuse`), and whoever still
has its address then uses that one. A new input of this connection has a new address: the read loop,
which makes it, has none in hand.

Allocation succeeds. A handler is a function of the call, its arguments and what its calls of
`emit` and `recv` have returned so far: any code, with a state of its own, that talks to the
connection through these.
-/

namespace Callwire.C

open Lib

/-! ## Handlers -/

inductive HandlerKind where
  | unary
  | unaryCtx
  | streamCtx
  | clientStreamCtx
  | bidiCtx
  deriving DecidableEq, Repr

/-- The kinds with streaming input. -/
def HandlerKind.hasInput : HandlerKind → Bool
  | .clientStreamCtx | .bidiCtx => true
  | _ => false

/-- The kinds with streaming output. -/
def HandlerKind.hasOutput : HandlerKind → Bool
  | .streamCtx | .bidiCtx => true
  | _ => false

/-- A queued chunk, or the end marker (`is_end`). -/
inductive Item where
  | chunk (value : Value)
  | fin

/-- What a callback returned to the handler: `emit` a result code, `recv` an item (0 and the chunk,
or 1 at the end marker). -/
inductive Event where
  | emitted (rc : Int)
  | received (item : Item)

/-- The handler's next move. -/
inductive Act where
  | emit (chunk : Option Value)
  | recv
  | ret (rc : Int) (result : Value)

/-- A handler gets only the callbacks of its kind. -/
def HandlerKind.allows (k : HandlerKind) : Act → Prop
  | .emit _ => k.hasOutput = true
  | .recv => k.hasInput = true
  | .ret _ _ => True

/-- `registry_entry_t`. -/
structure Entry where
  name : CString
  kind : HandlerKind
  fn : (call : Nat) → (args : List Value) → List Event → Act
  allowed : ∀ call args events, kind.allows (fn call args events)

/-- `find_handler`: the first entry whose name is `func` to `strcmp`. -/
def findHandler (entries : List Entry) (func : Bytes) : Option Entry :=
  entries.find? fun e => e.name.bytes = cstr func

/-! ## The state of a connection -/

/-- `stream_input_t`; `freed` once `stream_input_free` is through, so that the block is not the
connection's any more. -/
structure Input where
  id : BitVec 64
  queue : Queue Item
  freed : Bool

/-- Where a dispatch thread stands. -/
inductive ThreadPc where
  /-- before `conn_find_input` -/
  | start
  /-- inside the handler, with the input it was given -/
  | running (input : Option Nat)
  /-- the handler has returned -/
  | reply (rc : Int) (result : Value)
  /-- the reply is written (or has failed), `conn_remove_input` comes next -/
  | remove
  /-- the input is out of the array, `stream_input_free` comes next -/
  | free (input : Nat)
  | done

/-- A dispatch thread with its `dispatch_ctx_t`. -/
structure Thread where
  entry : Entry
  id : BitVec 64
  args : List Value
  events : List Event
  pc : ThreadPc

/-- Where the read loop stands. -/
inductive LoopPc where
  | reading
  /-- `conn_find_input` has found an input, `stream_input_push` comes next -/
  | push (input : Nat) (item : Item)
  /-- a request is to be dispatched -/
  | request (msg : WireMessage)
  /-- `pthread_create` comes next -/
  | spawn (entry : Entry) (id : BitVec 64) (args : List Value)
  | closed

/-- `conn_state_t` with its parties. `out` are the frames written and `frames` the messages read so
far, oldest first. -/
structure Conn where
  inputs : List Nat
  heap : List Input
  threads : List Thread
  loop : LoopPc
  out : List Outgoing
  frames : List WireMessage

def Conn.init : Conn := ⟨[], [], [], .reading, [], []⟩

namespace Conn

/-! ## The input array -/

/-- `conn->inputs[i]->id == id`. -/
def hasId (c : Conn) (id : BitVec 64) (r : Nat) : Bool := c.heap[r]?.any (·.id == id)

def connFindInput (c : Conn) (id : BitVec 64) : Option Nat := c.inputs.find? (c.hasId id)

/-- A new input at the end of the array. -/
def connRegisterInput (c : Conn) (id : BitVec 64) : Conn :=
  { c with heap := c.heap ++ [⟨id, .empty, false⟩], inputs := c.inputs ++ [c.heap.length] }

/-- The part of `conn_remove_input` under the lock: the input found, the array without it. -/
def connRemoveInput (c : Conn) (id : BitVec 64) : Option (Nat × Conn) := do
  let i ← c.inputs.findIdx? (c.hasId id)
  let r ← c.inputs[i]?
  return (r, { c with inputs := swapRemove c.inputs i })

def streamInputPush (c : Conn) (r : Nat) (item : Item) : Conn :=
  { c with heap := c.heap.modify r fun inp => { inp with queue := inp.queue.push item } }

/-- `stream_input_recv` with an item at the head; `none` while it waits. -/
def streamInputRecv (c : Conn) (r : Nat) : Option (Item × Conn) := do
  let inp ← c.heap[r]?
  let (item, queue) ← inp.queue.pop?
  return (item, { c with heap := c.heap.set r { inp with queue } })

def streamInputFree (c : Conn) (r : Nat) : Conn :=
  { c with heap := c.heap.modify r fun inp => { inp with freed := true } }

/-! ## Writing -/

/-- Encode and `conn_write_frame`: the frame is written if it can be encoded, is not over the frame
limit and the socket takes it. -/
def write (c : Conn) (m : Outgoing) (ok : Bool) : Int × Conn :=
  match m.payload.bind callwireFramingWriteFrame with
  | some _ => if ok then (0, { c with out := c.out ++ [m] }) else (-1, c)
  | none => (-1, c)

def writeError (c : Conn) (id : BitVec 64) (errorType message : CString) (ok : Bool) : Conn :=
  (c.write (.error id (some errorType) (some message)) ok).2

/-! ## Dispatch -/

def errorText : CString := ⟨lit "Error", by decide⟩
def typeErrorText : CString := ⟨lit "TypeError", by decide⟩
def notFoundText : CString := ⟨lit "NotFoundError", by decide⟩

/-- `dispatch_request` up to the creation of the thread. The streaming kinds register their input
here, before the read loop goes on. -/
def dispatchRequest (entries : List Entry) (c : Conn) (msg : WireMessage) (ok : Bool) : Conn :=
  match msg.func with
  | none =>
    { c.writeError msg.id typeErrorText ⟨lit "missing func field", by decide⟩ ok with
      loop := .reading }
  | some func =>
    match findHandler entries func with
    | none =>
      { c.writeError msg.id notFoundText ⟨lit "function not exported", by decide⟩ ok with
        loop := .reading }
    | some e =>
      if e.kind = .bidiCtx ∧ msg.stream = 0 then
        { c.writeError msg.id typeErrorText
            ⟨lit "function requires stream:true (bidi call)", by decide⟩ ok with
          loop := .reading }
      else if e.kind = .clientStreamCtx ∧ msg.stream ≠ 0 then
        { c.writeError msg.id typeErrorText
            ⟨lit "function is client-streaming, not bidi", by decide⟩ ok with
          loop := .reading }
      else if e.kind.hasInput then
        { c.connRegisterInput msg.id with loop := .spawn e msg.id msg.args }
      else { c with loop := .spawn e msg.id msg.args }

/-- `pthread_create`: the new thread starts at its `conn_find_input`, or in its handler. The
streaming-input handlers are not given the arguments. -/
def spawnThread (c : Conn) (e : Entry) (id : BitVec 64) (args : List Value) (ok : Bool) : Conn :=
  if ok then
    let t : Thread :=
      if e.kind.hasInput then ⟨e, id, [], [], .start⟩ else ⟨e, id, args, [], .running none⟩
    { c with threads := c.threads ++ [t], loop := .reading }
  else { c with loop := .reading }

/-! ## The read loop -/

/-- `msg.type && strcmp(msg.type, type) == 0`. -/
def typeIs (msg : WireMessage) (type : String) : Bool := msg.type.map cstr = some (lit type)

/-- The item a stream frame carries to an input. -/
def itemOf (msg : WireMessage) : Item :=
  if typeIs msg "stream_chunk" then .chunk msg.result else .fin

def isStreamFrame (msg : WireMessage) : Bool :=
  typeIs msg "stream_chunk" || typeIs msg "stream_close" || typeIs msg "stream_end"

/-- A frame was read: decode it, and find the input of a stream frame. A malformed frame, one of
another type and one without an input are dropped. -/
def handleFrame (c : Conn) (payload : Payload) : Conn :=
  match callwireCodecDecode .ok payload with
  | .ok (some msg) =>
    let c := { c with frames := c.frames ++ [msg] }
    if isStreamFrame msg then
      match c.connFindInput msg.id with
      | some r => { c with loop := .push r (itemOf msg) }
      | none => c
    else if typeIs msg "request" then { c with loop := .request msg }
    else c
  | _ => c

/-- The end of the connection: an end marker to every registered input. -/
def drainInputs (c : Conn) : Conn :=
  { c.inputs.foldl (fun c r => c.streamInputPush r .fin) c with loop := .closed }

/-! ## The dispatch threads -/

def setThread (c : Conn) (i : Nat) (t : Thread) : Conn := { c with threads := c.threads.set i t }

/-- The frame a thread ends its call with. -/
def replyOf (t : Thread) (rc : Int) (result : Value) : Outgoing :=
  if rc ≠ 0 then .error t.id (some errorText) (some ⟨lit "handler returned an error", by decide⟩)
  else if t.entry.kind.hasOutput then .streamEnd t.id
  else .response t.id (some result)

/-- The handler of thread `i` moves. -/
def handlerStep (c : Conn) (i : Nat) (t : Thread) (input : Option Nat) (ok : Bool) : Option Conn :=
  match t.entry.fn i t.args t.events with
  | .ret rc result => some (c.setThread i { t with pc := .reply rc result })
  | .emit chunk =>
    let (rc, c) := c.write (.streamChunk t.id chunk) ok
    some (c.setThread i { t with events := t.events ++ [.emitted rc] })
  | .recv => do
    let r ← input
    let (item, c) ← c.streamInputRecv r
    return c.setThread i { t with events := t.events ++ [.received item] }

/-- One step of thread `i`. -/
def threadStep (c : Conn) (i : Nat) (t : Thread) (ok : Bool) : Option Conn :=
  match t.pc with
  | .start => some (c.setThread i { t with pc := .running (c.connFindInput t.id) })
  | .running input => c.handlerStep i t input ok
  | .reply rc result =>
    let c := (c.write (replyOf t rc result) ok).2
    some (c.setThread i { t with pc := if t.entry.kind.hasInput then .remove else .done })
  | .remove =>
    match c.connRemoveInput t.id with
    | some (r, c) => some (c.setThread i { t with pc := .free r })
    | none => some (c.setThread i { t with pc := .done })
  | .free r => some ((c.streamInputFree r).setThread i { t with pc := .done })
  | .done => none

end Conn

/-! ## Steps -/

/-- Who moves, with the environment's answer: `ok` is whether the socket takes the frame written in
the step, or whether the thread is created. -/
inductive Label where
  | frame (payload : Payload)
  | eof
  | loop (ok : Bool)
  | thread (i : Nat) (ok : Bool)
  /-- the block `r`, which was freed, is or becomes that of another input, in any state -/
  | reuse (r : Nat) (id : BitVec 64) (queue : Queue Item)

/-- One step of the connection under the exported `entries`. -/
def step (entries : List Entry) (c : Conn) : Label → Option Conn
  | .frame payload =>
    match c.loop with
    | .reading => some (c.handleFrame payload)
    | _ => none
  | .eof =>
    match c.loop with
    | .reading => some c.drainInputs
    | _ => none
  | .loop ok =>
    match c.loop with
    | .push r item => some { c.streamInputPush r item with loop := .reading }
    | .request msg => some (c.dispatchRequest entries msg ok)
    | .spawn e id args => some (c.spawnThread e id args ok)
    | _ => none
  | .thread i ok => do
    let t ← c.threads[i]?
    c.threadStep i t ok
  | .reuse r id queue => do
    let inp ← c.heap[r]?
    if inp.freed then some { c with heap := c.heap.set r ⟨id, queue, true⟩ } else none

end Callwire.C
