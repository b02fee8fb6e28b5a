import Callwire.Java.Codec
import Callwire.Lib.BoundedQueue
import Callwire.Lib.Transition
import Mathlib.Data.List.AList

/-!
# A connection of the Java server (`Server.java`)

`ServerConn` is a connection with its thread (`handleConnection`) and the stream workers (`Worker`),
which run `runClientStreamHandler` and `runBidiHandler`. The connection thread runs the other
handlers itself. `streamInputs` maps ids to the numbers of workers.

What handlers do is in the labels: what they return or throw, what the iterators that they return
give, and when they call `hasNext` and `next` of the iterator they were given (`queueIterator`). The
operations of the connection thread on a queue are part of the move that reads the message, since
`offer` does not wait. `fail` is the message of the `IOException` of a write, if it throws one.

`wire` is the record of the frames written, `received` that of the messages read, `since` of a
worker how many had been read when it was started, and `log` what its iterator has answered. The
code keeps none of these. Nobody interrupts a worker.
-/

namespace Callwire.Java

open Lib

/-- What a function is registered as. -/
inductive Entry where
  | handler
  /-- a `Handler` whose result is a `StreamMarker` -/
  | streamHandler
  | clientStream
  | bidi
  deriving DecidableEq, Repr

/-- What is in an input queue. -/
inductive Input (V : Type) where
  | value (v : V)
  /-- `STREAM_INPUT_END` -/
  | streamInputEnd

/-- The fields of `queueIterator`. -/
structure QueueIterator (V : Type) where
  next : Option V
  done : Bool
  fetched : Bool

/-- What an iterator has answered. -/
inductive Event (V : Type) where
  | hasNext (b : Bool)
  | next (v : Option V)
  | noSuchElement

inductive WorkerPc where
  /-- in the handler -/
  | running
  /-- in the loop over the iterator that a `BidiHandler` has returned -/
  | emitting
  | finished
  deriving DecidableEq, Repr

structure Worker (V : Type) where
  id : BitVec 64
  bidi : Bool
  queue : BoundedQueue (Input V)
  iter : QueueIterator V
  log : List (Event V)
  since : Nat
  pc : WorkerPc

inductive ConnPc (V : Type) where
  /-- at `while (running)` -/
  | top
  /-- in `readFrame` -/
  | reading
  /-- at the write of an error -/
  | refusing (error : Msg V)
  /-- in a `Handler` -/
  | handling (id : BitVec 64)
  /-- in a `StreamHandler`, or in the loop over its iterator -/
  | iterating (id : BitVec 64)
  /-- at the loop of `finally`, with these workers left, after `cause` was thrown -/
  | leaving (cause : String) (rest : List Nat)
  /-- at `conn.close()` -/
  | closing (cause : String)
  | closed (cause : String)

structure ServerConn (V : Type) where
  running : Bool
  /-- `streamWorkers` was not shut down -/
  pool : Bool
  isOpen : Bool
  thread : ConnPc V
  streamInputs : AList fun _ : BitVec 64 => Nat
  workers : List (Worker V)
  wire : List (Msg V)
  received : List (Msg V)

/-- The next answer of an iterator that a handler has returned. -/
inductive IterStep (V : Type) where
  | value (v : Option V)
  | stop
  | throw (message : String)

inductive WorkerLabel (V : Type) where
  | hasNext
  | next
  /-- the `ClientStreamHandler` returns or throws -/
  | result (outcome : Except String (Option V)) (fail fail' : Option String)
  /-- the `BidiHandler` returns an iterator -/
  | emit
  /-- the `BidiHandler` throws, or its iterator goes on -/
  | iterate (next : IterStep V) (fail fail' : Option String)

inductive ServerLabel (V : Type) where
  | go
  | read (payload : Payload V)
  | readFails
  | refuse (fail : Option String)
  | result (outcome : Except String (Option V)) (fail fail' : Option String)
  | iterate (next : IterStep V) (fail fail' : Option String)
  | worker (k : Nat) (l : WorkerLabel V)
  /-- the two parts of `close` -/
  | close
  | closePool

section
variable {V : Type}

namespace Worker

/-- `new LinkedBlockingQueue<>()` has room for `Integer.MAX_VALUE` items. -/
def start (id : BitVec 64) (bidi : Bool) (since : Nat) (pc : WorkerPc) : Worker V where
  id := id
  bidi := bidi
  queue := .new 2147483647
  iter := { next := none, done := false, fetched := false }
  log := []
  since := since
  pc := pc

/-- `q.offer(item)`, which does nothing if the queue is full. -/
def offer (w : Worker V) (item : Input V) : Worker V :=
  match w.queue.put? item with
  | some queue => { w with queue }
  | none => w

/-- `fetch()`, which waits while the queue is empty. -/
def fetch (w : Worker V) : Option (Worker V) :=
  if w.iter.fetched || w.iter.done then some w
  else
    w.queue.get?.map fun (item, queue) =>
      match item with
      | .streamInputEnd => { w with queue, iter := { w.iter with done := true, fetched := true } }
      | .value v => { w with queue, iter := { w.iter with next := some v, fetched := true } }

def hasNext (w : Worker V) : Option (Worker V) :=
  w.fetch.map fun w => { w with log := w.log ++ [.hasNext (!w.iter.done)] }

def next (w : Worker V) : Option (Worker V) :=
  w.fetch.map fun w =>
    if w.iter.done then { w with log := w.log ++ [.noSuchElement] }
    else
      { w with iter := { w.iter with fetched := false }, log := w.log ++ [.next w.iter.next] }

end Worker

namespace ServerConn

def init : ServerConn V where
  running := true
  pool := true
  isOpen := true
  thread := .top
  streamInputs := ∅
  workers := []
  wire := []
  received := []

/-- `Framing.writeFrame` -/
def write (c : ServerConn V) (fail : Option String) (m : Msg V) : Except String (ServerConn V) :=
  if c.isOpen then
    match fail with
    | some message => .error message
    | none => .ok { c with wire := c.wire ++ [m] }
  else .error "Socket closed"

/-- The error for what was thrown. -/
def writeError (c : ServerConn V) (id : BitVec 64) (fail : Option String) (message : String) :
    Except String (ServerConn V) :=
  c.write fail (encodeError id "Error" message)

/-- A write in a `try`, whose `catch` writes an error. -/
def tryWrite (c : ServerConn V) (id : BitVec 64) (fail fail' : Option String) (m : Msg V) :
    Except String (ServerConn V) :=
  match c.write fail m with
  | .ok c' => .ok c'
  | .error message => c.writeError id fail' message

/-- A result or an exception, as a response or an error. -/
def writeOutcome (c : ServerConn V) (id : BitVec 64) (fail fail' : Option String) :
    Except String (Option V) → Except String (ServerConn V)
  | .ok v => c.tryWrite id fail fail' (encodeResponse id v)
  | .error message => c.writeError id fail message

/-- The connection thread throws. -/
def leave (c : ServerConn V) (cause : String) : ServerConn V :=
  { c with thread := .leaving cause (c.streamInputs.entries.map Sigma.snd) }

/-- The connection thread goes on with `pc`, or an `IOException` is thrown. -/
def proceed (c : ServerConn V) (pc : ConnPc V) : Except String (ServerConn V) → ServerConn V
  | .ok c' => { c' with thread := pc }
  | .error _ => c.leave "IOException"

def setWorker (c : ServerConn V) (k : Nat) (w : Worker V) : ServerConn V :=
  { c with workers := c.workers.set k w }

/-- A `stream_chunk`, `stream_close` or `stream_end`. -/
def streamFrame (c : ServerConn V) (m : Msg V) : ServerConn V :=
  match c.streamInputs.lookup m.id with
  | none => { c with thread := .top }
  | some k =>
    match c.workers[k]? with
    | none => c
    | some w =>
      if m.isChunk then
        match m.result with
        | none => c.leave "NullPointerException"
        | some v => { c.setWorker k (w.offer (.value v)) with thread := .top }
      else
        { c.setWorker k (w.offer .streamInputEnd) with
          streamInputs := c.streamInputs.erase m.id
          thread := .top }

/-- The queue and the worker for a stream. -/
def startWorker (c : ServerConn V) (m : Msg V) : ServerConn V :=
  let w (pc : WorkerPc) := Worker.start m.id m.stream c.received.length pc
  let c := { c with streamInputs := c.streamInputs.insert m.id c.workers.length }
  if c.pool then { c with workers := c.workers ++ [w .running], thread := .top }
  else { c with workers := c.workers ++ [w .finished] }.leave "RejectedExecutionException"

section
variable (registry : String → Option Entry)

/-- `dispatch`, up to the handler. -/
def dispatch (c : ServerConn V) (m : Msg V) : ServerConn V :=
  let notExported (func : String) : Msg V :=
    encodeError m.id "NotFoundError" ("Function '" ++ func ++ "' not exported")
  let wrongPattern (func : String) : Msg V :=
    encodeError m.id "TypeError"
      ("Function '" ++ func ++ "' registered for a different call pattern")
  if m.type = some "request" then
    match m.func with
    -- `ConcurrentHashMap` has no `null` keys
    | none => c.leave "NullPointerException"
    | some func =>
      match registry func with
      | none => { c with thread := .refusing (notExported func) }
      | some .clientStream =>
        if m.stream then { c with thread := .refusing (wrongPattern func) } else c.startWorker m
      | some .bidi =>
        if m.stream then c.startWorker m else { c with thread := .refusing (wrongPattern func) }
      | some .handler => { c with thread := .handling m.id }
      | some .streamHandler => { c with thread := .iterating m.id }
  else { c with thread := .top }

/-- `handleConnection` with a message. -/
def handle (c : ServerConn V) (m : Msg V) : ServerConn V :=
  let c := { c with received := c.received ++ [m] }
  if m.isChunk ∨ m.isTerminator then c.streamFrame m else c.dispatch registry m

/-- A move of the connection thread. -/
def threadStep (c : ServerConn V) (l : ServerLabel V) : Option (ServerConn V) :=
  match c.thread, l with
  | .top, .go =>
    if c.running then some { c with thread := .reading } else some (c.leave "")
  | .reading, .read (.msg m) => some (c.handle registry m)
  | .reading, .read .malformed => some (c.leave "RuntimeException")
  | .reading, .readFails => some (c.leave "IOException")
  | .refusing error, .refuse fail => some (c.proceed .top (c.write fail error))
  | .handling id, .result outcome fail fail' =>
    some (c.proceed .top (c.writeOutcome id fail fail' outcome))
  | .iterating id, .iterate (.value v) fail fail' =>
    match c.write fail (encodeStreamChunk id v) with
    | .ok c' => some c'
    | .error message => some (c.proceed .top (c.writeError id fail' message))
  | .iterating id, .iterate .stop fail fail' =>
    some (c.proceed .top (c.tryWrite id fail fail' (encodeStreamEnd id)))
  | .iterating id, .iterate (.throw message) fail _ =>
    some (c.proceed .top (c.writeError id fail message))
  | .leaving cause (k :: rest), .go =>
    match c.workers[k]? with
    | some w => some { c.setWorker k (w.offer .streamInputEnd) with thread := .leaving cause rest }
    | none => none
  | .leaving cause [], .go => some { c with streamInputs := ∅, thread := .closing cause }
  | .closing cause, .go => some { c with isOpen := false, thread := .closed cause }
  | _, _ => none

end

/-- What the worker has written, or nothing if the `IOException` was ignored. -/
def wroteOr (c : ServerConn V) : Except String (ServerConn V) → ServerConn V
  | .ok c' => c'
  | .error _ => c

/-- A move of worker `k`. -/
def workerStep (c : ServerConn V) (k : Nat) (w : Worker V) (l : WorkerLabel V) :
    Option (ServerConn V) :=
  let finish (c : ServerConn V) := c.setWorker k { w with pc := .finished }
  match w.pc, l with
  | .finished, _ => none
  | _, .hasNext => w.hasNext.map (c.setWorker k)
  | _, .next => w.next.map (c.setWorker k)
  | .running, .result outcome fail fail' =>
    if w.bidi then none
    else some (finish (c.wroteOr (c.writeOutcome w.id fail fail' outcome)))
  | .running, .emit => if w.bidi then some (c.setWorker k { w with pc := .emitting }) else none
  | .running, .iterate (.throw message) fail _ =>
    if w.bidi then some (finish (c.wroteOr (c.writeError w.id fail message))) else none
  | .emitting, .iterate (.value v) fail fail' =>
    match c.write fail (encodeStreamChunk w.id v) with
    | .ok c' => some c'
    | .error message => some (finish (c.wroteOr (c.writeError w.id fail' message)))
  | .emitting, .iterate .stop fail fail' =>
    some (finish (c.wroteOr (c.tryWrite w.id fail fail' (encodeStreamEnd w.id))))
  | .emitting, .iterate (.throw message) fail _ =>
    some (finish (c.wroteOr (c.writeError w.id fail message)))
  | _, _ => none

def step (registry : String → Option Entry) (c : ServerConn V) :
    ServerLabel V → Option (ServerConn V)
  | .worker k l => (c.workers[k]?).bind fun w => c.workerStep k w l
  | .close => some { c with running := false }
  | .closePool => some { c with pool := false }
  | l => c.threadStep registry l

end ServerConn

end

end Callwire.Java
