import Callwire.Lib.Mailbox
import Callwire.Lib.Transition
import Callwire.Ts.Codec

/-!
# One connection of the TypeScript server (`server.ts`)

`Connection` is `_handleConnection` with the calls of `_runHandler` that it starts, one `Request`
each. The program is single-threaded and changes over at an `await`: `step` is a piece of it from
one `await` to the next, and the pieces of the read loop and of the requests follow each other in
any order. (In the program the first piece of a request directly follows the frame it is for.)

A handler is any code: what it returns or throws, what its iterator yields and when it asks its
input for the next chunk are the environment's. `yielded` is the record of the chunks that the
iterator has yielded, `out` that of the frames the request has written. A request for a function
that is not exported has no handler, and is over at once.
-/

namespace Callwire.Ts.Server

open Lib

/-- What is registered for a name. -/
inductive Handler where
  | fn
  /-- `ClientStreamMarker` -/
  | clientStream
  /-- `BidiStreamMarker` -/
  | bidi
  deriving DecidableEq, Repr

/-! ## Input -/

/-- The variables around `inputIter`. -/
structure InputData (V : Type) where
  queue : List V
  ended : Bool
  erroredWith : Option String

/-- What a call of `next` comes to. -/
inductive Yield (V : Type) where
  | value (v : V)
  | done
  | threw (message : String)

/-- What `next` finds, if it does not have to wait. -/
def InputData.take {V : Type} (d : InputData V) : Option (Yield V × InputData V) :=
  match d.queue with
  | v :: queue => some (.value v, { d with queue })
  | [] =>
    match d.erroredWith with
    | some message => some (.threw message, d)
    | none => if d.ended then some (.done, d) else none

abbrev Input (V : Type) := Mailbox (InputData V) (Yield V)

namespace Input

variable {V : Type}

def new : Input V := Mailbox.new { queue := [], ended := false, erroredWith := none }

def push (v : V) (input : Input V) : Input V :=
  input.put fun d => { d with queue := d.queue ++ [v] }

/-- `end`. -/
def finish (input : Input V) : Input V := input.put fun d => { d with ended := true }

/-- `error`. -/
def fail (message : String) (input : Input V) : Input V :=
  input.put fun d => { d with erroredWith := some message }

end Input

section
variable (J : Js)

/-- `_runHandler`. -/
inductive Pc where
  /-- in the handler -/
  | start
  /-- at `next` of the iterator that the handler has returned -/
  | iterate
  /-- at `return` of the iterator; then `err` is thrown, or `_runHandler` returns -/
  | closing (err : Option J.Val)
  | done
  /-- the `catch` block has thrown: the promise is rejected and nobody looks at it -/
  | rejected

structure Request where
  id : Nat
  handler : Option Handler
  args : List J.Val
  pc : Pc J
  input : Input J.Val
  yielded : List J.Val
  out : List (WireMessage J)

inductive RequestLabel where
  /-- the handler returns, and its promise is fulfilled -/
  | returned (result : J.Val)
  /-- the handler or its iterator throws -/
  | threw (err : J.Val)
  /-- the iterator yields -/
  | yielded (chunk : J.Val)
  | finished
  /-- `return` of the iterator is over, or has thrown -/
  | closed (err : Option J.Val)
  /-- the handler calls `next` of its input -/
  | next
  /-- a `next` that was woken goes on -/
  | resume

end

variable {J : Js}

namespace Request

/-- A request for a registered function. -/
def run (msg : WireMessage J) (handler : Handler) : Request J where
  id := msg.id
  handler := some handler
  args := msg.args.getD []
  pc := .start
  input := .new
  yielded := []
  out := []

/-- `writeFrame`, which does nothing on a socket that is destroyed. -/
def write (destroyed : Bool) (r : Request J) (msg : WireMessage J) (pc : Pc J) :
    Request J × List (WireMessage J) :=
  if destroyed then ({ r with pc }, []) else ({ r with pc, out := r.out ++ [msg] }, [msg])

/-- The `catch` block. -/
def catchError (destroyed : Bool) (r : Request J) (err : J.Val) :
    Request J × List (WireMessage J) :=
  match J.text err with
  | none => ({ r with pc := .rejected }, [])
  | some errMsg =>
    if destroyed then ({ r with pc := .done }, [])
    else
      match packError r.id "RuntimeError" errMsg with
      | .ok msg => r.write destroyed msg .done
      | .error _ => ({ r with pc := .rejected }, [])

/-- `writeFrame(socket, packResponse(id, result))`. -/
def respond (destroyed : Bool) (r : Request J) (result : J.Val) :
    Request J × List (WireMessage J) :=
  match packResponse r.id result with
  | .ok msg => r.write destroyed msg .done
  | .error err => r.catchError destroyed err

/-- The body of the `for await` loop. -/
def chunk (destroyed : Bool) (r : Request J) (v : J.Val) : Request J × List (WireMessage J) :=
  if destroyed then ({ r with pc := .closing none }, [])
  else
    match packStreamChunk r.id v with
    | .ok msg => r.write destroyed msg .iterate
    | .error err => ({ r with pc := .closing (some err) }, [])

/-- A piece of `_runHandler`, or of a `next`. -/
def step (destroyed : Bool) (r : Request J) :
    RequestLabel J → Option (Request J × List (WireMessage J))
  | .returned result =>
    match r.pc, r.handler with
    | .start, some .fn =>
      if J.isAsyncIterable result then some ({ r with pc := .iterate }, [])
      else some (r.respond destroyed result)
    | .start, some .clientStream => some (r.respond destroyed result)
    | .start, some .bidi => some ({ r with pc := .iterate }, [])
    | _, _ => none
  | .threw err =>
    match r.pc with
    | .start | .iterate => some (r.catchError destroyed err)
    | _ => none
  | .yielded v =>
    match r.pc with
    | .iterate => some ({ r with yielded := r.yielded ++ [v] }.chunk destroyed v)
    | _ => none
  | .finished =>
    match r.pc with
    | .iterate => some (r.write destroyed (packStreamEnd r.id) .done)
    | _ => none
  | .closed failed =>
    match r.pc, failed with
    | .closing (some err), _ => some (r.catchError destroyed err)
    | .closing none, some err => some (r.catchError destroyed err)
    | .closing none, none => some ({ r with pc := .done }, [])
    | _, _ => none
  | .next =>
    match r.handler, r.input.consumer with
    | some .clientStream, .idle | some .bidi, .idle =>
      some ({ r with input := r.input.poll InputData.take }, [])
    | _, _ => none
  | .resume =>
    match r.input.consumer with
    | .woken => some ({ r with input := r.input.poll InputData.take }, [])
    | _ => none

end Request

/-! ## The connection -/

section
variable (J : Js)

/-- `streamInputs` holds the numbers of the requests whose input is registered. -/
structure Connection where
  handlers : AList fun _ : String => Handler
  reading : Bool
  streamInputs : AList fun _ : Nat => Nat
  requests : List (Request J)
  wire : List (WireMessage J)
  destroyed : Bool

inductive Label where
  /-- `export`, `exportClientStream`, `exportBidi` -/
  | register (name : String) (handler : Handler)
  /-- the read loop has got a message -/
  | frame (msg : WireMessage J)
  /-- the read loop throws -/
  | disconnect
  /-- the socket is destroyed -/
  | destroy
  | request (i : Nat) (l : RequestLabel J)

end

def Connection.init (handlers : AList fun _ : String => Handler) : Connection J where
  handlers := handlers
  reading := true
  streamInputs := ∅
  requests := []
  wire := []
  destroyed := false

/-- The frame types that go to the input of a call. -/
def IsStreamFrame (msg : WireMessage J) : Prop :=
  msg.type = "stream_chunk" ∨ msg.type = "stream_close" ∨ msg.type = "stream_end"

instance (msg : WireMessage J) : Decidable (IsStreamFrame msg) :=
  inferInstanceAs (Decidable (_ ∨ _ ∨ _))

namespace Connection

/-- The input of request `i` changes. -/
def modifyInput (c : Connection J) (i : Nat) (f : Input J.Val → Input J.Val) : Connection J :=
  { c with requests := c.requests.modify i fun r => { r with input := f r.input } }

/-- A frame for the input of a call. -/
def handleStream (c : Connection J) (msg : WireMessage J) : Connection J :=
  match c.streamInputs.lookup msg.id with
  | none => c
  | some i =>
    if msg.type = "stream_chunk" then c.modifyInput i (Input.push msg.result)
    else { c.modifyInput i Input.finish with streamInputs := c.streamInputs.erase msg.id }

/-- The input of request `i` gets an error if it is registered. -/
def failInput (c : Connection J) (i : Nat) (r : Request J) : Request J :=
  if c.streamInputs.lookup r.id = some i then { r with input := r.input.fail "Connection closed" }
  else r

/-- The `catch` and `finally` blocks of the read loop. -/
def disconnect (c : Connection J) : Connection J :=
  { c with
    reading := false
    destroyed := true
    requests := c.requests.mapIdx c.failInput
    streamInputs := ∅ }

/-- The reply to a request for a function that is not exported. -/
def notFound (msg : WireMessage J) : Except J.Val (WireMessage J) :=
  packError msg.id "NotFoundError"
    (J.str ("function '" ++ msg.func.getD "undefined" ++ "' not exported"))

def handleRequest (c : Connection J) (msg : WireMessage J) : Connection J :=
  match msg.func.bind c.handlers.lookup with
  | none =>
    match notFound msg with
    | .error _ => c.disconnect
    | .ok errPayload =>
      let (r, frames) := Request.write c.destroyed
        { Request.run msg .fn with handler := none } errPayload .done
      { c with requests := c.requests ++ [r], wire := c.wire ++ frames }
  | some .fn => { c with requests := c.requests ++ [.run msg .fn] }
  | some handler =>
    { c with
      requests := c.requests ++ [.run msg handler]
      streamInputs := c.streamInputs.insert msg.id c.requests.length }

def handleFrame (c : Connection J) (msg : WireMessage J) : Connection J :=
  if IsStreamFrame msg then c.handleStream msg
  else if msg.type = "request" then c.handleRequest msg
  else c

end Connection

def step (c : Connection J) : Label J → Option (Connection J)
  | .register name handler => some { c with handlers := c.handlers.insert name handler }
  | .frame msg => if c.reading then some (c.handleFrame msg) else none
  | .disconnect => if c.reading then some c.disconnect else none
  | .destroy => some { c with destroyed := true }
  | .request i l => do
    let r ← c.requests[i]?
    let (r', frames) ← r.step c.destroyed l
    return { c with requests := c.requests.set i r', wire := c.wire ++ frames }

end Callwire.Ts.Server
