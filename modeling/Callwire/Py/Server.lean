import Callwire.Py.Client
import Mathlib.Data.List.AList

/-!
# A connection of the Python server (`server.py`)

`ServerConn` is a connection with its read loop (`_handle_connection`) and the threads in
`_dispatch_streaming` (`StreamCall`). A unary call and a generator run in the read loop
(`_dispatch`). `streams` maps the ids of the streaming calls to the numbers of these calls.

What an exported function does is in the labels: what it returns or raises, what a generator yields,
and when a streaming function takes the next chunk. `fail` is what a write raises, if it raises; a
write to a closed socket always does. `wire` is the record of the frames written, `asked` that of
the ids that were dispatched, `pulled` that of the chunks that the function took, and `outcome` what
it returned or raised. The code keeps none of these.
-/

namespace Callwire.Py

open Lib

/-- `_ALLOWED_ERROR_NAMES` -/
def allowedErrorNames : List String :=
  ["ValueError", "TypeError", "KeyError", "IndexError",
    "RuntimeError", "ZeroDivisionError", "ArithmeticError",
    "FloatingPointError", "OverflowError",
    "AssertionError", "AttributeError",
    "ImportError", "ModuleNotFoundError",
    "NameError", "UnboundLocalError",
    "LookupError", "StopIteration",
    "EOFError", "RecursionError", "MemoryError",
    "NotImplementedError", "SystemError",
    "OSError", "FileNotFoundError", "PermissionError",
    "TimeoutError", "ConnectionError",
    "ConnectionRefusedError", "ConnectionResetError",
    "ConnectionAbortedError", "BrokenPipeError",
    "BlockingIOError", "ChildProcessError",
    "InterruptedError", "IsADirectoryError",
    "NotADirectoryError", "ProcessLookupError",
    "FileExistsError",
    "UnicodeError", "UnicodeDecodeError", "UnicodeEncodeError",
    "UnicodeTranslateError",
    "EnvironmentError", "IOError",
    "SyntaxError", "IndentationError", "TabError",
    "ReferenceError", "PendingDeprecationWarning",
    "BytesWarning", "DeprecationWarning", "FutureWarning",
    "ImportWarning", "ResourceWarning", "RuntimeWarning",
    "SyntaxWarning", "UnicodeWarning", "UserWarning",
    "Warning"]

/-- `exception_to_wire` -/
def exceptionToWire (e : Exn) : String × String :=
  if e.name ∈ allowedErrorNames then (e.name, e.text)
  else ("InternalError", "an internal error occurred")

section
variable (P : Python)

/-- An exported function. -/
structure Fn where
  /-- `_expects_stream_input(fn)` -/
  takesStream : Bool
  /-- the object that a call gives at once, if `inspect.isgeneratorfunction(fn)` -/
  generator : Option P.Val

inductive StreamPc where
  /-- at `_registry.get(func_name)` -/
  | starting
  /-- at the error for a function that is not exported -/
  | notFound
  /-- in `fn(chunks)` -/
  | running
  /-- at the write of the reply -/
  | replying (outcome : Except Exn P.Val)
  /-- at `streams.pop` of `finally` -/
  | popping
  | done

/-- A thread in `_dispatch_streaming`. -/
structure StreamCall where
  id : Nat
  func : Option String
  isBidi : Bool
  queue : BoundedQueue (WireMessage P)
  /-- `_stream_iterator` has returned -/
  exhausted : Bool
  pulled : List P.Val
  outcome : Option (Except Exn P.Val)
  pc : StreamPc P

inductive HandlerPc where
  /-- in `read_frame` -/
  | reading
  /-- at `streams[msg_id]`, which it has seen in `streams` -/
  | indexing (m : WireMessage P)
  /-- at `put(msg)` of the queue of call `k` -/
  | putting (k : Nat) (m : WireMessage P)
  /-- at the error for a function that is not exported -/
  | refusing (id : Nat) (func : String)
  /-- in `fn(*args)` -/
  | calling (id : Nat)
  /-- in `for value in gen` -/
  | generating (id : Nat)
  /-- at `conn.close()` of `finally` -/
  | leaving (e : Exn)
  | closed (e : Exn)

structure ServerConn where
  isOpen : Bool
  reader : HandlerPc P
  streams : AList fun _ : Nat => Nat
  calls : List (StreamCall P)
  wire : List (WireMessage P)
  asked : List Nat

/-- What the next value of a generator is. -/
inductive GenStep where
  | yield (v : P.Val)
  | stop
  | raise (e : Exn)

inductive StreamLabel where
  | go
  /-- the function takes the next chunk -/
  | next
  /-- it has waited for 30 s -/
  | timeout
  | result (outcome : Except Exn P.Val)
  | reply (fail fail' : Option Exn)

inductive ServerLabel where
  | read (payload : Payload P)
  | readFails (e : Exn)
  | index
  | put
  | refuse (fail : Option Exn)
  | call (outcome : Except Exn P.Val) (fail fail' : Option Exn)
  | gen (next : GenStep P) (fail fail' fail'' : Option Exn)
  | close
  | stream (k : Nat) (l : StreamLabel P)

end

section
variable {P : Python}

def WireMessage.StreamFrame (m : WireMessage P) : Prop :=
  m.type = some "stream_chunk" ∨ m.type = some "stream_close" ∨ m.type = some "stream_end"

instance (m : WireMessage P) : Decidable m.StreamFrame := inferInstanceAs (Decidable (_ ∨ _))

/-- `_stream_iterator` with the next message. -/
def StreamCall.take (call : StreamCall P) (m : WireMessage P)
    (queue : BoundedQueue (WireMessage P)) :
    StreamCall P :=
  if m.type = some "stream_chunk" then { call with queue, pulled := call.pulled ++ [m.result] }
  else if m.type = some "stream_close" ∨ m.type = some "stream_end" then
    { call with queue, exhausted := true }
  else { call with queue }

/-- The function can take from its iterator. The body of a generator function does not run. -/
def StreamCall.Iterates (registry : String → Option (Fn P)) (call : StreamCall P) : Prop :=
  call.exhausted = false ∧ ((call.func.bind registry).bind Fn.generator).isNone = true

instance (registry : String → Option (Fn P)) (call : StreamCall P) :
    Decidable (call.Iterates registry) := inferInstanceAs (Decidable (_ ∧ _))

namespace ServerConn

def init : ServerConn P where
  isOpen := true
  reader := .reading
  streams := ∅
  calls := []
  wire := []
  asked := []

/-- `write_frame(conn, payload)` -/
def write (c : ServerConn P) (fail : Option Exn) (payload : Except Exn (WireMessage P)) :
    Except Exn (ServerConn P) :=
  match payload with
  | .error e => .error e
  | .ok m =>
    if c.isOpen then
      match fail with
      | some e => .error e
      | none => .ok { c with wire := c.wire ++ [m] }
    else .error ⟨"OSError", "[Errno 9] Bad file descriptor"⟩

/-- The error for an exception. -/
def sendError (c : ServerConn P) (fail : Option Exn) (id : Nat) (e : Exn) :
    Except Exn (ServerConn P) :=
  c.write fail (.ok (packError id (exceptionToWire e).1 (exceptionToWire e).2))

def sendNotFound (c : ServerConn P) (fail : Option Exn) (id : Nat) (func : String) :
    Except Exn (ServerConn P) :=
  c.write fail (.ok (packError id "NotFoundError" ("function '" ++ func ++ "' not exported")))

/-- A write in a `try`, whose `except` writes an error. -/
def tryWrite (c : ServerConn P) (id : Nat) (fail fail' : Option Exn)
    (payload : Except Exn (WireMessage P)) : Except Exn (ServerConn P) :=
  match c.write fail payload with
  | .ok c' => .ok c'
  | .error e => c.sendError fail' id e

/-- The two `except` of `_dispatch` for a generator. -/
def genFails (c : ServerConn P) (id : Nat) (fail fail' : Option Exn) (e : Exn) :
    Except Exn (ServerConn P) :=
  c.tryWrite id fail fail'
    (.ok (packError id (exceptionToWire e).1 (exceptionToWire e).2))

/-- The read loop goes on with `pc`, or leaves. -/
def proceed (c : ServerConn P) (pc : HandlerPc P) : Except Exn (ServerConn P) → ServerConn P
  | .ok c' => { c' with reader := pc }
  | .error e => { c with reader := .leaving e }

section
variable (registry : String → Option (Fn P))

/-- `_dispatch`, up to the call. -/
def dispatch (c : ServerConn P) (m : WireMessage P) : ServerConn P :=
  match m.func with
  | none => { c with reader := .leaving ⟨"KeyError", "'func'"⟩ }
  | some func =>
    match registry func with
    | none => { c with reader := .refusing m.id func, asked := c.asked ++ [m.id] }
    | some fn =>
      match fn.generator with
      | some _ => { c with reader := .generating m.id, asked := c.asked ++ [m.id] }
      | none => { c with reader := .calling m.id, asked := c.asked ++ [m.id] }

/-- The queue and the thread for a streaming call. -/
def startStream (c : ServerConn P) (m : WireMessage P) : ServerConn P :=
  { c with
    streams := c.streams.insert m.id c.calls.length
    calls := c.calls ++
      [{ id := m.id, func := m.func, isBidi := m.stream, queue := .new 256, exhausted := false,
         pulled := [], outcome := none, pc := .starting }]
    asked := c.asked ++ [m.id] }

/-- `_handle_connection` with a message. -/
def handle (c : ServerConn P) (m : WireMessage P) : ServerConn P :=
  if m.StreamFrame ∧ m.id ∈ c.streams then { c with reader := .indexing m }
  else if m.type = some "request" ∧ ((m.func.bind registry).any (·.takesStream)) = true then
    c.startStream m
  else c.dispatch registry m

/-- A move of the read loop. -/
def readerStep (c : ServerConn P) (l : ServerLabel P) : Option (ServerConn P) :=
  match c.reader, l with
  | .reading, .read (.msg m) => some (c.handle registry m)
  -- neither `unpack` nor `msg.get` nor `msg["id"]` is guarded
  | .reading, .read .undecodable =>
    some { c with reader := .leaving ⟨"ValueError", "Unpack failed: incomplete input"⟩ }
  | .reading, .read .malformed => some { c with reader := .leaving ⟨"KeyError", "'id'"⟩ }
  | .reading, .readFails e => some { c with reader := .leaving e }
  -- a thread can have popped the entry since it was seen
  | .indexing m, .index =>
    match c.streams.lookup m.id with
    | some k => some { c with reader := .putting k m }
    | none => some { c with reader := .leaving ⟨"KeyError", toString m.id⟩ }
  | .putting k m, .put => do
    let call ← c.calls[k]?
    let queue ← call.queue.put? m
    some { c with calls := c.calls.set k { call with queue }, reader := .reading }
  | .refusing id func, .refuse fail => some (c.proceed .reading (c.sendNotFound fail id func))
  | .calling id, .call outcome fail fail' =>
    some (c.proceed .reading (c.tryWrite id fail fail' (outcome.bind (packResponse id))))
  | .generating id, .gen (.yield v) fail fail' fail'' =>
    match c.write fail (packStreamChunk id v) with
    | .ok c' => some c'
    | .error e => some (c.proceed .reading (c.genFails id fail' fail'' e))
  | .generating id, .gen .stop fail fail' _ =>
    some (c.proceed .reading (c.tryWrite id fail fail' (.ok (packStreamEnd id))))
  | .generating id, .gen (.raise e) fail fail' _ =>
    some (c.proceed .reading (c.genFails id fail fail' e))
  | .leaving e, .close => some { c with isOpen := false, reader := .closed e }
  | _, _ => none

/-- A move of thread `k`. -/
def streamStep (c : ServerConn P) (k : Nat) (call : StreamCall P) (l : StreamLabel P) :
    Option (ServerConn P) :=
  let setCall (c : ServerConn P) (call : StreamCall P) := { c with calls := c.calls.set k call }
  match call.pc, l with
  | .starting, .go =>
    match call.func.bind registry with
    | some _ => some (setCall c { call with pc := .running })
    | none => some (setCall c { call with pc := .notFound })
  | .notFound, .reply fail _ =>
    match c.sendNotFound fail call.id (call.func.getD "None") with
    | .ok c' => some (setCall c' { call with pc := .popping })
    -- the exception is outside the `try`, and the entry stays
    | .error _ => some (setCall c { call with pc := .done })
  | .running, .next =>
    if call.Iterates registry then
      call.queue.get?.map fun (m, queue) => setCall c (call.take m queue)
    else none
  | .running, .timeout =>
    if call.Iterates registry ∧ call.queue.items.length = 0 then
      some (setCall c { call with exhausted := true })
    else none
  | .running, .result outcome =>
    match (call.func.bind registry).bind Fn.generator with
    | some generator =>
      some (setCall c
        { call with outcome := some (.ok generator), pc := .replying (.ok generator) })
    | none => some (setCall c { call with outcome := some outcome, pc := .replying outcome })
  | .replying outcome, .reply fail fail' =>
    match c.tryWrite call.id fail fail' (outcome.bind (packResponse call.id)) with
    | .ok c' => some (setCall c' { call with pc := .popping })
    | .error _ => some (setCall c { call with pc := .popping })
  | .popping, .go =>
    some (setCall { c with streams := c.streams.erase call.id } { call with pc := .done })
  | _, _ => none

def step (c : ServerConn P) : ServerLabel P → Option (ServerConn P)
  | .stream k l => (c.calls[k]?).bind fun call => c.streamStep registry k call l
  | l => c.readerStep registry l

end

end ServerConn

end

end Callwire.Py
