import Callwire.Lib.BoundedQueue
import Callwire.Lib.Transition
import Callwire.Py.Codec

/-!
# The Python client (`client.py`)

`Client` is a connected client with its reader thread, the threads in `call`, `batch`,
`call_stream`, `ExportStream` and `BidiStream` (`Op`), and the threads in `close`. `opStep` is a
move of a call, `readerStep` one of `_read_loop`, `closeStep` one of `close`, and `step` one of the
client.

A section under a lock is one move. Only `_drain_pending` blocks in such a section, at `q.put`:
`_pending_lock` is free unless the reader stands there (`Client.locked`). A call takes its id, makes
its queue and registers it in one move, since no other thread knows the id before. So `_next_id` is
the number of queues made: queue `q` is the one for the id `q + 1`, and `pending` lists the queues
that are registered under theirs, in the order of `_pending`.

Sockets are numbered in the order they are dialled. `wire` is the record of the payloads written,
with their sockets, and `handled` that of the messages for which the reader found a queue; `sends`
and `ends` of a stream are the arguments of its `send` and the number of its `close_send` or
`close_and_recv`. The code keeps none of these. `imports` are the names that the module has from
`codec.py`: an unbound one raises when it is used.
-/

namespace Callwire.Py

open Lib

/-- The functions of `codec.py`. -/
inductive CodecName where
  | packRequest
  | packStreamChunk
  | packStreamEnd
  | packStreamClose
  | packBidiRequest
  | unpack
  deriving DecidableEq, Repr

def CodecName.text : CodecName → String
  | .packRequest => "pack_request"
  | .packStreamChunk => "pack_stream_chunk"
  | .packStreamEnd => "pack_stream_end"
  | .packStreamClose => "pack_stream_close"
  | .packBidiRequest => "pack_bidi_request"
  | .unpack => "unpack"

/-- `from .codec import ...` of `client.py`. -/
def clientImports : List CodecName :=
  [.packRequest, .packStreamClose, .packStreamEnd, .packBidiRequest, .unpack]

/-- The use of a name of `codec.py`. -/
def bound {α : Type} (imports : List CodecName) (name : CodecName) (value : Except Exn α) :
    Except Exn α :=
  if name ∈ imports then value
  else .error ⟨"NameError", "name '" ++ name.text ++ "' is not defined"⟩

/-! ## Calls -/

/-- What is put into a pending queue. -/
inductive Item (P : Python) where
  /-- `DONE` -/
  | done
  | msg (m : WireMessage P)

/-- An element of the argument of `batch`, or the arguments of the other calls. -/
structure Call (P : Python) where
  func : String
  args : Option (List P.Val)

inductive Kind where
  | call
  | batch
  | callStream
  | exportStream
  | bidiStream
  deriving DecidableEq, Repr

def Kind.maxsize : Kind → Nat
  | .call | .batch => 1
  | .callStream | .exportStream | .bidiStream => 256

def Kind.packer : Kind → CodecName
  | .bidiStream => .packBidiRequest
  | .call | .batch | .callStream | .exportStream => .packRequest

section
variable {P : Python}

def Kind.request (id : Nat) (call : Call P) : Kind → Except Exn (WireMessage P)
  | .call | .batch | .callStream => packRequest id call.func (call.args.getD [])
  | .exportStream => packRequest id call.func []
  | .bidiStream => packBidiRequest id call.func []

/-- `CallwireError(msg["error_type"], msg["message"])`. -/
def WireMessage.error (m : WireMessage P) : Exn :=
  match m.errorType, m.message with
  | some errorType, some message => ⟨"CallwireError", errorType ++ ": " ++ message⟩
  | none, _ => ⟨"KeyError", "'error_type'"⟩
  | some _, none => ⟨"KeyError", "'message'"⟩

end

inductive Outcome where
  | returned
  | raised (e : Exn)
  /-- the application does not use the generator or the stream any more -/
  | abandoned
  deriving DecidableEq, Repr

inductive OpPc where
  /-- at the next id -/
  | registering
  /-- at the payload of the last id -/
  | packing
  /-- at the write of payload `k` -/
  | writing (k : Nat)
  /-- in `q.get` -/
  | waiting
  /-- at `_pending.pop` after `queue.Empty` -/
  | timedOut
  /-- the application has the stream, or the generator stands at its `yield` -/
  | opened
  | finished (o : Outcome)
  deriving DecidableEq, Repr

/-- A call: `qs` are its queues so far, `results` what it has collected, yielded or received. -/
structure Op (P : Python) where
  kind : Kind
  calls : List (Call P)
  qs : List Nat
  payloads : List (WireMessage P)
  pc : OpPc
  results : List P.Val
  sends : List P.Val
  ends : Nat

section
variable {P : Python}

def Op.start (kind : Kind) (calls : List (Call P)) : Op P where
  kind := kind
  calls := calls
  qs := []
  payloads := []
  pc := if calls.length = 0 then .finished .returned else .registering
  results := []
  sends := []
  ends := 0

/-- The queue of the next `q.get`. -/
def Op.queue (op : Op P) : Option Nat :=
  match op.kind with
  | .call | .batch => op.qs[op.results.length]?
  | .callStream | .exportStream | .bidiStream => op.qs[0]?

/-- After the write of payload `k`. -/
def Op.written (op : Op P) (k : Nat) : OpPc :=
  if k + 1 < op.payloads.length then .writing (k + 1)
  else
    match op.kind with
    | .call | .batch | .callStream => .waiting
    | .exportStream | .bidiStream => .opened

def Op.finish (op : Op P) (o : Outcome) : Op P := { op with pc := .finished o }

/-- The results with one more, and then at `pc`. -/
def Op.collect (op : Op P) (v : P.Val) (pc : OpPc) : Op P :=
  { op with results := op.results ++ [v], pc := pc }

/-- `call` and `batch` after `q.get`. -/
def Op.collectReply (op : Op P) (m : WireMessage P) : Op P :=
  match m.type with
  | none => op.finish (.raised ⟨"KeyError", "'type'"⟩)
  | some type =>
    if type = "error" then op.finish (.raised m.error)
    else
      op.collect m.result
        (if op.results.length + 1 < op.qs.length then .waiting else .finished .returned)

/-- `call_stream` and `BidiStream.recv` after `q.get`: the value of a chunk is yielded or
returned, and any other message ends the stream. -/
def Op.nextChunk (op : Op P) (m : WireMessage P) : Op P :=
  if m.type = some "stream_chunk" then op.collect m.result .opened
  else if m.type = some "error" then op.finish (.raised m.error)
  else op.finish .returned

/-- `close_and_recv` after `q.get`. -/
def Op.recvResponse (op : Op P) (m : WireMessage P) : Op P :=
  if m.type = some "error" then op.finish (.raised m.error)
  else op.collect m.result (.finished .returned)

/-- The text of the `ConnectionError` for `DONE`. -/
def Kind.closedText : Kind → String
  | .call | .batch => "connection closed while waiting for response"
  | .callStream | .exportStream | .bidiStream => "connection closed during stream"

/-- The text of the `TimeoutError`. -/
def Kind.timeoutText : Kind → String
  | .call => "call timed out waiting for response"
  | .batch => "batch call timed out waiting for response"
  | .callStream | .bidiStream => "stream timed out waiting for chunk"
  | .exportStream => "stream timed out waiting for response"

def Op.receive (op : Op P) : Item P → Op P
  | .done => op.finish (.raised ⟨"ConnectionError", op.kind.closedText⟩)
  | .msg m =>
    match op.kind with
    | .call | .batch => op.collectReply m
    | .callStream | .bidiStream => op.nextChunk m
    | .exportStream => op.recvResponse m

end

/-! ## The client -/

/-- A queue and the call that made it. -/
structure Slot (P : Python) where
  owner : Nat
  queue : BoundedQueue (Item P)

inductive ReaderPc (P : Python) where
  /-- at `while self._connected` -/
  | top
  /-- in `read_frame(conn)` -/
  | reading (conn : Option Nat)
  /-- at `q.put(msg)` -/
  | putting (q : Nat) (m : WireMessage P)
  /-- at the section of `_drain_pending` -/
  | lost
  /-- in `_drain_pending`, with these queues left -/
  | draining (rest : List Nat)
  /-- at `while self._connected` of `_reconnect_loop` -/
  | reconnecting
  | dialling
  /-- at `with self._conn_lock` and the check of `_connected` in it -/
  | installing (s : Nat)
  /-- at `self.conn = new_conn`, with `_conn_lock` held -/
  | assigning (s : Nat)
  /-- at the first line of `finally` -/
  | leaving
  /-- at the second -/
  | closing
  | exited

inductive ClosePc where
  /-- at the section that clears `_pending` -/
  | clearing
  /-- at `q.put(DONE)`, with these queues left -/
  | putting (rest : List Nat)
  /-- at `_close_conn` -/
  | closing
  /-- at the join of the reader thread -/
  | joining
  | done

structure Client (P : Python) where
  connected : Bool
  conn : Option Nat
  sockets : Nat
  dead : List Nat
  slots : List (Slot P)
  pending : List Nat
  ops : List (Op P)
  closes : List ClosePc
  reader : ReaderPc P
  wire : List (Nat × WireMessage P)
  handled : List (WireMessage P)

/-- What `read_frame` and `unpack` make of a frame. -/
inductive Payload (P : Python) where
  | undecodable
  /-- no dict with an `id` that can be a key -/
  | malformed
  | msg (m : WireMessage P)

inductive OpLabel (P : Python) where
  | register
  | pack
  | write (fail : Option Exn)
  | get
  | timeout
  | pop
  /-- the generator goes on -/
  | resume
  | recv
  | send (v : P.Val) (fail : Option Exn)
  | closeSend (fail : Option Exn)
  /-- `close_and_recv` up to its `q.get` -/
  | closeAndRecv (fail : Option Exn)
  | abandon

inductive ReaderLabel (P : Python) where
  | go
  | read (payload : Payload P)
  | readFails
  | dial (ok : Bool)

inductive Label (P : Python) where
  /-- a call other than `batch`, from its check of `_connected` -/
  | start (kind : Kind) (call : Call P)
  | batch (calls : List (Call P))
  | op (i : Nat) (l : OpLabel P)
  | reader (l : ReaderLabel P)
  /-- `close`, with its first line -/
  | close
  | closer (i : Nat)

namespace Client

variable {P : Python}

/-- After `connect`. -/
def init : Client P where
  connected := true
  conn := some 0
  sockets := 1
  dead := []
  slots := []
  pending := []
  ops := []
  closes := []
  reader := .top
  wire := []
  handled := []

/-- `_pending_lock` is held over a `q.put`. -/
def locked (c : Client P) : Bool :=
  match c.reader with
  | .draining _ => true
  | _ => false

/-- `_conn_lock` is held: the other sections of this lock are single moves. -/
def connLocked (c : Client P) : Bool :=
  match c.reader with
  | .assigning _ => true
  | _ => false

/-- `self._pending.get(id)` -/
def lookup (c : Client P) : Nat → Option Nat
  | 0 => none
  | q + 1 => if q ∈ c.pending then some q else none

def setOp (c : Client P) (i : Nat) (op : Op P) : Client P := { c with ops := c.ops.set i op }

def setQueue (c : Client P) (q : Nat) (slot : Slot P) (queue : BoundedQueue (Item P)) : Client P :=
  { c with slots := c.slots.set q { slot with queue } }

/-- `write_frame(self.conn, payload)`; `fail` is what `sendall` raises. -/
def writeFrame (c : Client P) (fail : Option Exn) (payload : WireMessage P) :
    Except Exn (Client P) :=
  match c.conn, fail with
  | none, _ => .error ⟨"AttributeError", "'NoneType' object has no attribute 'sendall'"⟩
  | some _, some e => .error e
  | some s, none => .ok { c with wire := c.wire ++ [(s, payload)] }

/-- A write by a stream that the application has: `op` is the stream after it, `failed` if the
write or its payload raises. -/
def streamWrite (c : Client P) (i : Nat) (fail : Option Exn)
    (payload : Except Exn (WireMessage P)) (op failed : Op P) : Client P :=
  match payload.bind (c.writeFrame fail) with
  | .ok c' => c'.setOp i op
  | .error _ => c.setOp i failed

/-- `_close_conn` -/
def closeConn (c : Client P) : Client P :=
  match c.conn with
  | some s => { c with conn := none, dead := s :: c.dead }
  | none => c

/-- `q.put(item)`, which blocks while the queue is full. -/
def put (c : Client P) (q : Nat) (item : Item P) : Option (Client P) := do
  let slot ← c.slots[q]?
  let queue ← slot.queue.put? item
  some (c.setQueue q slot queue)

section
variable (imports : List CodecName)

/-- A move of the call `i`. -/
def opStep (c : Client P) (i : Nat) (op : Op P) (l : OpLabel P) : Option (Client P) :=
  match op.pc, l with
  | .registering, .register =>
    if c.locked then none
    else
      let q := c.slots.length
      some
        { c with
          slots := c.slots ++ [⟨i, .new op.kind.maxsize⟩]
          pending := c.pending ++ [q]
          ops := c.ops.set i { op with qs := op.qs ++ [q], pc := .packing } }
  | .packing, .pack =>
    match op.calls[op.payloads.length]?, op.qs[op.payloads.length]? with
    | some call, some q =>
      match bound imports op.kind.packer (op.kind.request (q + 1) call) with
      | .ok payload =>
        some (c.setOp i
          { op with
            payloads := op.payloads ++ [payload]
            pc := if op.qs.length < op.calls.length then .registering else .writing 0 })
      | .error e => some (c.setOp i (op.finish (.raised e)))
    | _, _ => none
  | .writing k, .write fail =>
    match op.payloads[k]? with
    | some payload =>
      match c.writeFrame fail payload with
      | .ok c' => some (c'.setOp i { op with pc := op.written k })
      | .error e => some (c.setOp i (op.finish (.raised e)))
    | none => none
  | .waiting, .get => do
    let q ← op.queue
    let slot ← c.slots[q]?
    let (item, queue) ← slot.queue.get?
    some ((c.setQueue q slot queue).setOp i (op.receive item))
  | .waiting, .timeout => do
    let q ← op.queue
    let slot ← c.slots[q]?
    if slot.queue.items.length = 0 then
      -- `BidiStream.recv` raises at once and leaves its queue registered
      some (c.setOp i { op with pc := if op.kind = .bidiStream then .opened else .timedOut })
    else none
  | .timedOut, .pop => do
    let q ← op.queue
    if c.locked then none
    else
      some (setOp { c with pending := c.pending.erase q } i
        (op.finish (.raised ⟨"TimeoutError", op.kind.timeoutText⟩)))
  | .opened, .resume =>
    if op.kind = .callStream then some (c.setOp i { op with pc := .waiting }) else none
  | .opened, .recv =>
    if op.kind = .bidiStream then some (c.setOp i { op with pc := .waiting }) else none
  | .opened, .send v fail => do
    let q ← op.queue
    if op.kind = .exportStream ∨ op.kind = .bidiStream ∧ op.ends = 0 then
      let sent := { op with sends := op.sends ++ [v] }
      some (c.streamWrite i fail
        (bound imports .packStreamChunk (packStreamChunk (q + 1) v)) sent sent)
    else none
  | .opened, .closeSend fail => do
    let q ← op.queue
    if op.kind = .bidiStream then
      let ended := { op with ends := op.ends + 1 }
      some (c.streamWrite i fail
        (bound imports .packStreamEnd (.ok (packStreamEnd (q + 1)))) ended ended)
    else none
  | .opened, .closeAndRecv fail => do
    let q ← op.queue
    if op.kind = .exportStream then
      let ended := { op with ends := op.ends + 1 }
      some (c.streamWrite i fail (bound imports .packStreamClose (.ok (packStreamClose (q + 1))))
        { ended with pc := .waiting } ended)
    else none
  | .opened, .abandon => some (c.setOp i (op.finish .abandoned))
  | _, _ => none

end

/-- `_read_loop` with a message: the entry stays for a `stream_chunk` and is deleted otherwise. -/
def dispatch (c : Client P) (m : WireMessage P) : Client P :=
  match c.lookup m.id with
  | none => { c with reader := .top }
  | some q =>
    { c with
      pending := if m.type = some "stream_chunk" then c.pending else c.pending.erase q
      handled := c.handled ++ [m]
      reader := .putting q m }

/-- A move of the reader thread. -/
def readerStep (reconnect : Bool) (c : Client P) (l : ReaderLabel P) : Option (Client P) :=
  match c.reader, l with
  | .top, .go => some { c with reader := if c.connected then .reading c.conn else .leaving }
  | .reading (some s), .read payload =>
    if s ∈ c.dead then none
    else
      match payload with
      | .undecodable => some { c with reader := .top }
      -- `msg["id"]` raises outside the inner `try`
      | .malformed => some { c with reader := .leaving }
      | .msg m => some (c.dispatch m)
  | .reading _, .readFails =>
    some { c with reader := if reconnect && c.connected then .lost else .leaving }
  | .putting q m, .go => (c.put q (.msg m)).map fun c' => { c' with reader := .top }
  | .lost, .go => some { c with reader := .draining c.pending }
  | .draining (q :: rest), .go =>
    (c.put q .done).map fun c' => { c' with reader := .draining rest }
  | .draining [], .go => some { c with pending := [], reader := .reconnecting }
  | .reconnecting, .go => some { c with reader := if c.connected then .dialling else .top }
  | .dialling, .dial ok =>
    if ok then some { c with sockets := c.sockets + 1, reader := .installing c.sockets }
    else some { c with reader := .reconnecting }
  | .installing s, .go =>
    if c.connected then some { c with reader := .assigning s }
    else some { c with dead := s :: c.dead, reader := .top }
  | .assigning s, .go => some { c with conn := some s, reader := .top }
  | .leaving, .go => some { c with connected := false, reader := .closing }
  | .closing, .go => some { c.closeConn with reader := .exited }
  | _, _ => none

/-- A move of a thread in `close`. -/
def closeStep (c : Client P) (i : Nat) : ClosePc → Option (Client P)
  | .clearing =>
    if c.locked then none
    else some { c with pending := [], closes := c.closes.set i (.putting c.pending) }
  | .putting (q :: rest) =>
    (c.put q .done).map fun c' => { c' with closes := c'.closes.set i (.putting rest) }
  | .putting [] => some { c with closes := c.closes.set i .closing }
  | .closing =>
    if c.connLocked then none
    else some { c.closeConn with closes := c.closes.set i .joining }
  -- the join ends with the thread or after two seconds
  | .joining => some { c with closes := c.closes.set i .done }
  | .done => none

section
variable (imports : List CodecName) (reconnect : Bool)

def step (c : Client P) : Label P → Option (Client P)
  | .start kind call =>
    if c.connected = true ∧ kind ≠ .batch then
      some { c with ops := c.ops ++ [.start kind [call]] }
    else none
  | .batch calls =>
    if c.connected then some { c with ops := c.ops ++ [.start .batch calls] } else none
  | .op i l => (c.ops[i]?).bind fun op => c.opStep imports i op l
  | .reader l => c.readerStep reconnect l
  | .close => some { c with connected := false, closes := c.closes ++ [.clearing] }
  | .closer i => (c.closes[i]?).bind fun pc => c.closeStep i pc

end

end Client

end Callwire.Py
