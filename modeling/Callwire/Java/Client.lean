import Callwire.Java.Codec
import Callwire.Lib.BoundedQueue
import Callwire.Lib.Transition
import Mathlib.Data.List.AList

/-!
# The Java client (`Client.java`)

`Client` is a connected client with its read thread (`readLoop`) and its calls: those of `call`, and
the objects that `callStream`, `exportStream` and `importBidi` return. `pending` maps ids to the
numbers of calls. One thread uses a `StreamingIterator` or receives from a `BidiStream` at a time;
others may send meanwhile.

A call takes its id and puts its queue into `pending` in one move, since nobody else knows the id.
`readLoop` finds the queue (`read`) and puts the message into it (`offer`) in two: the call may give
up between them. `fail` is the message of the `IOException` of a write, if it throws one.

`wire` is the record of the frames written and `received` that of the messages that `readLoop` has
dealt with. `since` of a call is how many these were when it was started, and `log` what its methods
have returned and thrown. The code keeps none of these.
-/

namespace Callwire.Java

open Lib

inductive CallKind where
  | call
  | callStream
  | exportStream
  | importBidi
  deriving DecidableEq, Repr

namespace CallKind

/-- The room in `new LinkedBlockingQueue<>(capacity)`. -/
def capacity : CallKind → Nat
  | .call | .exportStream => 1
  | .callStream | .importBidi => 256

/-- The request of a call. -/
def request {V : Type} (kind : CallKind) (id : BitVec 64) (func : String) (args : List (Option V)) :
    Msg V :=
  match kind with
  | .call | .callStream => encodeRequest id func args false
  | .exportStream => encodeRequest id func [] false
  | .importBidi => encodeRequest id func [] true

/-- The method that waits for a response. -/
def waiter : CallKind → String
  | .exportStream => "closeAndRecv"
  | _ => "RPC call"

end CallKind

inductive CallPc (V : Type) where
  /-- at the write of the request -/
  | writing (request : Msg V)
  /-- at the `poll` of `call` or `closeAndRecv` -/
  | waiting
  /-- at the `poll` of `advance`, in the constructor or with the result that `next` returns -/
  | advancing (result : Option (Option V))
  /-- at the `poll` of `recv` -/
  | receiving
  /-- the iterator or stream was returned, and nobody waits for its queue -/
  | opened
  | finished

/-- What a method returns or throws. -/
inductive Report (V : Type) where
  | hasNext (b : Bool)
  | next (v : Option V)
  | noSuchElement
  /-- the `result` of a message, from `call`, `closeAndRecv` or `recv` -/
  | returned (v : Option V)
  /-- the `null` of `recv` at a `stream_end` -/
  | ended
  /-- the `null` of `recv` at a message of another type -/
  | ignored
  | callwireException (errorType message : Option String)
  | timeoutException (message : String)
  | ioException (message : String)

structure Call (V : Type) where
  id : BitVec 64
  kind : CallKind
  queue : BoundedQueue (Msg V)
  pc : CallPc V
  /-- `done` and `nextMsg` of a `StreamingIterator` -/
  done : Bool
  nextMsg : Option (Msg V)
  /-- `sentEnd` of a `BidiStream` -/
  sentEnd : Bool
  log : List (Report V)
  since : Nat

inductive ReaderPc (V : Type) where
  /-- at `while (connected)` -/
  | top
  /-- in `readFrame` -/
  | reading
  /-- at `queue.offer(msg)` -/
  | offering (k : Nat) (m : Msg V)
  | ended

structure Client (V : Type) where
  connected : Bool
  socketOpen : Bool
  nextId : BitVec 64
  pending : AList fun _ : BitVec 64 => Nat
  calls : List (Call V)
  reader : ReaderPc V
  wire : List (Msg V)
  received : List (Msg V)

/-- How a `poll` ends. -/
inductive Poll where
  | message
  | timeout
  | interrupt
  deriving DecidableEq, Repr

inductive CallLabel (V : Type) where
  | write (fail : Option String)
  | poll (how : Poll)
  | hasNext
  | next
  | send (v : Option V) (fail : Option String)
  | closeSend (fail : Option String)
  | closeAndRecv (fail : Option String)
  | recv

inductive ClientLabel (V : Type) where
  | start (kind : CallKind) (func : String) (args : List (Option V))
  | call (k : Nat) (l : CallLabel V)
  | go
  | read (payload : Payload V)
  | readFails
  | offer
  | close

section
variable {V : Type}

namespace Call

def start (kind : CallKind) (id : BitVec 64) (func : String) (args : List (Option V))
    (since : Nat) :
    Call V where
  id := id
  kind := kind
  queue := .new kind.capacity
  pc := .writing (kind.request id func args)
  done := false
  nextMsg := none
  sentEnd := false
  log := []
  since := since

def report (call : Call V) (r : Report V) : Call V := { call with log := call.log ++ [r] }

/-- The request was written. -/
def written (call : Call V) : Call V :=
  match call.kind with
  | .call => { call with pc := .waiting }
  | .callStream => { call with pc := .advancing none }
  | .exportStream | .importBidi => { call with pc := .opened }

/-- `call` or `closeAndRecv` returns or throws. -/
def reply (call : Call V) (r : Report V) : Call V :=
  { call.report r with pc := if call.kind = .call then .finished else .opened }

/-- `advance` returns, and with it the constructor or `next`. -/
def advanced (call : Call V) (result : Option (Option V)) : Call V :=
  { call with pc := .opened, log := call.log ++ (result.map Report.next).toList }

def hasNext (call : Call V) : Bool := !call.done && call.nextMsg.isSome

end Call

def Msg.error (m : Msg V) : Report V := .callwireException m.errorType m.message

namespace Client

/-- A client after `connect`. -/
def init : Client V where
  connected := true
  socketOpen := true
  nextId := 0
  pending := ∅
  calls := []
  reader := .top
  wire := []
  received := []

/-- `Framing.writeFrame` -/
def write (c : Client V) (fail : Option String) (m : Msg V) : Except String (Client V) :=
  if c.socketOpen then
    match fail with
    | some message => .error message
    | none => .ok { c with wire := c.wire ++ [m] }
  else .error "Socket closed"

def setCall (c : Client V) (k : Nat) (call : Call V) : Client V :=
  { c with calls := c.calls.set k call }

/-- `pending.remove(id)` -/
def remove (c : Client V) (id : BitVec 64) : Client V := { c with pending := c.pending.erase id }

def start (c : Client V) (kind : CallKind) (func : String) (args : List (Option V)) : Client V :=
  let id := c.nextId + 1
  { c with
    nextId := id
    pending := c.pending.insert id c.calls.length
    calls := c.calls ++ [.start kind id func args c.received.length] }

/-- A `poll` that gives a message. -/
def pollMessage (c : Client V) (k : Nat) (call : Call V) (m : Msg V) : Option (Client V) :=
  match call.pc with
  | .waiting =>
    let r := if m.type = some "error" then m.error else .returned m.result
    some ((c.remove call.id).setCall k (call.reply r))
  | .advancing result =>
    let call := { call with nextMsg := some m }
    if m.type = some "stream_end" ∨ m.type = some "error" then
      some ((c.remove call.id).setCall k ({ call with done := true }.advanced result))
    else some (c.setCall k (call.advanced result))
  | .receiving =>
    let call := { call with pc := .opened }
    if m.isChunk then some (c.setCall k (call.report (.returned m.result)))
    else if m.type = some "stream_end" then
      some ((c.remove call.id).setCall k (call.report .ended))
    else if m.type = some "error" then
      some ((c.remove call.id).setCall k (call.report m.error))
    else some (c.setCall k (call.report .ignored))
  | _ => none

/-- A `poll` that gives `null`. -/
def pollTimeout (c : Client V) (k : Nat) (call : Call V) : Option (Client V) :=
  match call.pc with
  | .waiting =>
    some ((c.remove call.id).setCall k
      (call.reply (.timeoutException (call.kind.waiter ++ " timeout"))))
  | .advancing result =>
    some ((c.remove call.id).setCall k
      ({ call with nextMsg := none, done := true }.advanced result))
  | .receiving =>
    some (c.setCall k ({ call with pc := .opened }.report (.timeoutException "recv timeout")))
  | _ => none

/-- A `poll` that throws an `InterruptedException`. -/
def pollInterrupt (c : Client V) (k : Nat) (call : Call V) : Option (Client V) :=
  match call.pc with
  | .waiting =>
    some ((c.remove call.id).setCall k
      (call.reply (.ioException (call.kind.waiter ++ " interrupted"))))
  | .advancing result =>
    some ((c.remove call.id).setCall k ({ call with done := true }.advanced result))
  | .receiving =>
    some (c.setCall k ({ call with pc := .opened }.report (.ioException "recv interrupted")))
  | _ => none

/-- A move of call `k`, or of a thread that uses its stream. -/
def callStep (c : Client V) (k : Nat) (call : Call V) : CallLabel V → Option (Client V)
  | .write fail =>
    match call.pc with
    | .writing request =>
      match c.write fail request with
      | .ok c' => some (c'.setCall k call.written)
      | .error message =>
        some ((c.remove call.id).setCall k
          { call.report (.ioException message) with pc := .finished })
    | _ => none
  | .poll .message => call.queue.get?.bind fun (m, queue) => c.pollMessage k { call with queue } m
  | .poll .timeout => if call.queue.items = [] then c.pollTimeout k call else none
  | .poll .interrupt => c.pollInterrupt k call
  | .hasNext =>
    match call.kind, call.pc with
    | .callStream, .opened => some (c.setCall k (call.report (.hasNext call.hasNext)))
    | _, _ => none
  | .next =>
    match call.kind, call.pc with
    | .callStream, .opened =>
      match call.hasNext, call.nextMsg with
      | true, some m => some (c.setCall k { call with pc := .advancing (some m.result) })
      | _, _ => some (c.setCall k (call.report .noSuchElement))
    | _, _ => none
  | .send v fail =>
    match call.kind, call.pc with
    | .call, _ | .callStream, _ | _, .writing _ | _, .finished => none
    | _, _ =>
      match c.write fail (encodeStreamChunk call.id v) with
      | .ok c' => some c'
      | .error message => some (c.setCall k (call.report (.ioException message)))
  | .closeSend fail =>
    match call.kind, call.pc with
    | _, .writing _ | _, .finished => none
    | .importBidi, _ =>
      if call.sentEnd then some c
      else
        let call := { call with sentEnd := true }
        match c.write fail (encodeStreamEnd call.id) with
        | .ok c' => some (c'.setCall k call)
        | .error message => some (c.setCall k (call.report (.ioException message)))
    | _, _ => none
  | .closeAndRecv fail =>
    match call.kind, call.pc with
    | .exportStream, .opened =>
      match c.write fail (encodeStreamClose call.id) with
      | .ok c' => some (c'.setCall k { call with pc := .waiting })
      | .error message => some (c.setCall k (call.report (.ioException message)))
    | _, _ => none
  | .recv =>
    match call.kind, call.pc with
    | .importBidi, .opened => some (c.setCall k { call with pc := .receiving })
    | _, _ => none

/-- `queue.offer(msg)`, which does nothing if the queue is full, and the rest of the loop. -/
def offer (c : Client V) (k : Nat) (m : Msg V) : Client V :=
  let c := { c with received := c.received ++ [m], reader := .top }
  let c :=
    match c.calls[k]? with
    | none => c
    | some call =>
      match call.queue.put? m with
      | some queue => c.setCall k { call with queue }
      | none => c
  if m.isChunk then c else c.remove m.id

/-- A move of the read thread. -/
def readerStep (c : Client V) (l : ClientLabel V) : Option (Client V) :=
  match c.reader, l with
  | .top, .go => some { c with reader := if c.connected then .reading else .ended }
  | .reading, .read (.msg m) =>
    match c.pending.lookup m.id with
    | some k => some { c with reader := .offering k m }
    | none => some { c with received := c.received ++ [m], reader := .top }
  -- a `RuntimeException` that nobody catches
  | .reading, .read .malformed => some { c with reader := .ended }
  | .reading, .readFails => some { c with connected := false, reader := .ended }
  | .offering k m, .offer => some (c.offer k m)
  | _, _ => none

def step (c : Client V) : ClientLabel V → Option (Client V)
  | .start kind func args => some (c.start kind func args)
  | .call k l => (c.calls[k]?).bind fun call => c.callStep k call l
  | .close => some { c with connected := false, socketOpen := false }
  | l => c.readerStep l

end Client

end

end Callwire.Java
