import Callwire.Go.Client
import Callwire.Go.Reflect

/-!
# One connection of the Go server (`server.go`)

`Connection` is `handleConnection` with the goroutines it starts. A `Routine` is a call of
`dispatch`, `dispatchClientOrUnary` or `dispatchBidiStream`, with the channels between it and the
read loop and, for a bidi call, the goroutine that feeds the function's input channel.
`Routine.step` is a move of a routine, `step` one of the connection. `dispatch` runs in the read
loop, the others in goroutines of their own.

An exported function is any code with the type it is registered with: what it returns, whether it
panics, what its output channel yields and when it reads its input are the environment's. Only
`dispatch` recovers from a panic; anywhere else it ends the program (`crashed`). A payload is
represented by the message it encodes; one that does not decode changes nothing and is left out.
`calls` is the record of the calls of the function, `out` that of the frames the routine has
written, `taken` that of what the function has received from its input channel; `recovered` says
that the deferred function of `dispatch` has recovered from a panic.
-/

namespace Callwire.Go.Server

/-- The function that the routine runs. -/
inductive Kind where
  | dispatch
  | clientOrUnary
  | bidi
  deriving DecidableEq, Repr

/-- The code around `fnValue.Call`. -/
inductive Mode where
  | unary
  | clientStream
  | bidi
  deriving DecidableEq, Repr

/-- The capacity of `chunksChan` and of the input channel of a bidi call. -/
def capacity : Nat := 64

section
variable (R : Reflect)

inductive Pc where
  /-- before the look at the registry -/
  | start
  /-- at the `select` with the timer -/
  | detect (fn : FuncType R)
  /-- at the receive from `chunksChan` -/
  | collect (fn : FuncType R) (chunks : List Value)
  /-- in the function -/
  | call (fn : FuncType R) (mode : Mode)
  /-- at `Recv` of the function's output channel -/
  | recv (dir : ChanDir)
  /-- at `writeFrame`; after a chunk the loop goes on with the output channel -/
  | write (frame : WireMessage) (more : Option ChanDir)
  | returned
  /-- `endChan` is closed -/
  | closed
  /-- the id is out of `streams` -/
  | done

/-- The goroutine that feeds the input channel. -/
inductive FeederPc where
  | unspawned
  | receiving (elem : R.Ty)
  /-- at `Send` -/
  | sending (elem : R.Ty) (v : R.Val)
  | done

structure Routine where
  msg : WireMessage
  kind : Kind
  pc : Pc R
  chunksChan : List WireMessage
  feeder : FeederPc R
  inCh : List R.Val
  inClosed : Bool
  taken : List R.Val
  ended : Bool
  calls : List (List (Arg R))
  out : List WireMessage
  recovered : Bool

inductive RoutineLabel where
  | start
  /-- the timer fires -/
  | timeout
  /-- a message is received from `chunksChan` -/
  | receive
  /-- the function returns -/
  | returned (results : List R.Val)
  | panicked
  /-- the output channel yields a value, or is closed -/
  | recv (item : Option R.Val)
  | write (ok : Bool)
  /-- the feeder receives a message -/
  | feed
  /-- the feeder sees that `endChan` is closed -/
  | feedEnd
  /-- the feeder's `Send` is over -/
  | feedSend
  /-- the function receives from its input channel -/
  | take
  /-- the function closes its input channel -/
  | closeInput
  /-- the deferred `close(endChan)` -/
  | closeEnd

end

/-- What a move does besides. -/
inductive Effect where
  | quiet
  | wrote (frame : WireMessage)
  | crash

variable {R : Reflect}

namespace Routine

def spawn (msg : WireMessage) (kind : Kind) : Routine R where
  msg := msg
  kind := kind
  pc := .start
  chunksChan := []
  feeder := .unspawned
  inCh := []
  inClosed := false
  taken := []
  ended := false
  calls := []
  out := []
  recovered := false

def endClosed (r : Routine R) : Bool :=
  match r.pc with
  | .closed | .done => true
  | _ => false

/-- A panic: the deferred function of `dispatch` recovers. -/
def panic (r : Routine R) : Routine R × Effect :=
  match r.kind with
  | .dispatch =>
    ({ r with
      pc := .write (errorMessage r.msg.id "PanicError" "function panicked") none
      recovered := true }, .quiet)
  | .clientOrUnary | .bidi => (r, .crash)

/-- Go on to `writeFrame`; `none` is a panic. -/
def reply (r : Routine R) : Option WireMessage → Routine R × Effect
  | some frame => ({ r with pc := .write frame none }, .quiet)
  | none => r.panic

/-- `fnValue.Call` with the arguments, or what comes instead. -/
def invoke (r : Routine R) (fn : FuncType R) (mode : Mode) :
    Except Stop (List (Option (Arg R))) → Routine R × Effect
  | .error (.reply frame) => r.reply frame
  | .error .panic => r.panic
  | .ok ins =>
    match fn.call ins with
    | some args => ({ r with pc := .call fn mode, calls := r.calls ++ [args] }, .quiet)
    | none => r.panic

/-- The reply to a call of a function that is not exported. -/
def notFound (msg : WireMessage) : WireMessage :=
  errorMessage msg.id "NotFoundError" ("function '" ++ msg.func ++ "' not exported")

/-- `dispatch`, up to the call. -/
def startDispatch (registry : Registry R) (r : Routine R) : Routine R × Effect :=
  match registry.lookup r.msg.func with
  | none => r.reply (notFound r.msg)
  | some fn => r.invoke fn.1 .unary (unaryArgs fn.1 r.msg)

/-- `dispatchClientOrUnary`, up to the `select`. -/
def startClientOrUnary (registry : Registry R) (r : Routine R) : Routine R × Effect :=
  match registry.lookup r.msg.func with
  | none => r.reply (notFound r.msg)
  | some fn => ({ r with pc := .detect fn.1 }, .quiet)

/-- `dispatchBidiStream`, up to the call; `MakeChan` takes only types of both directions. -/
def startBidi (registry : Registry R) (r : Routine R) : Routine R × Effect :=
  match registry.lookup r.msg.func with
  | none => r.reply (notFound r.msg)
  | some fn =>
    match fn.1.ins, fn.1.outs with
    | [inChType], _ :: _ =>
      if isChannelInput inChType = false then
        r.reply (errorMessage r.msg.id "TypeError"
          "bidi-stream function's first parameter must be a channel")
      else if isChannelReturn fn.1 = false then
        r.reply (errorMessage r.msg.id "TypeError"
          "bidi-stream function must return a channel as first return value")
      else
        match R.chan inChType with
        | some (.both, elem) =>
          { r with feeder := .receiving elem }.invoke fn.1 .bidi (.ok [some (.input inChType)])
        | _ => r.panic
    | _, _ =>
      r.reply (errorMessage r.msg.id "TypeError"
        ("bidi-stream function must accept 1 param (input channel) " ++
          "and return (output channel[, error])"))

/-- `dispatchClientOrUnary` after the `select`, with the chunks it has collected. -/
def callClientOrUnary (r : Routine R) (fn : FuncType R) (chunks : List Value) :
    Routine R × Effect :=
  match chunks, fn.ins with
  | _ :: _, chanType :: rest =>
    if isChannelInput chanType then
      r.invoke fn .clientStream (clientStreamArgs chanType rest r.msg chunks)
    else r.invoke fn .unary (unaryArgs fn r.msg)
  | _, _ => r.invoke fn .unary (unaryArgs fn r.msg)

/-- The first message from `chunksChan`. -/
def detect (r : Routine R) (fn : FuncType R) (firstMsg : WireMessage) : Routine R × Effect :=
  if firstMsg.type = "stream_chunk" then
    ({ r with pc := .collect fn [firstMsg.result] }, .quiet)
  else if firstMsg.type = "error" then
    r.reply (errorMessage r.msg.id firstMsg.errorType firstMsg.message)
  else r.callClientOrUnary fn []

/-- The next message from `chunksChan`. -/
def collect (r : Routine R) (fn : FuncType R) (chunks : List Value) (msg : WireMessage) :
    Routine R × Effect :=
  if msg.type = "stream_close" then r.callClientOrUnary fn chunks
  else if msg.type = "stream_chunk" then
    ({ r with pc := .collect fn (chunks ++ [msg.result]) }, .quiet)
  else if msg.type = "error" then r.reply (errorMessage msg.id msg.errorType msg.message)
  else (r, .quiet)

/-- `dispatchStream` up to its loop; the end of `dispatchBidiStream` is the same. -/
def dispatchStream (r : Routine R) (fn : FuncType R) (results : List R.Val) :
    Routine R × Effect :=
  match results[1]?.bind R.asError with
  | some err => r.reply (err.frame r.msg.id)
  | none =>
    match fn.outs.head?.bind R.chan with
    | some (dir, _) => ({ r with pc := .recv dir }, .quiet)
    | none => r.panic

/-- The code after `fnValue.Call`. -/
def handleResults (r : Routine R) (fn : FuncType R) (results : List R.Val) :
    Mode → Routine R × Effect
  | .unary =>
    if isChannelReturn fn then r.dispatchStream fn results
    else r.reply (unaryReply r.msg.id results)
  | .clientStream => r.reply (unaryReply r.msg.id results)
  | .bidi => r.dispatchStream fn results

/-- The frame for what the output channel yields, and whether the loop goes on after it. -/
def streamItem (r : Routine R) (dir : ChanDir) : Option R.Val → Routine R
  | none => { r with pc := .write (streamEnd r.msg.id) none }
  | some v =>
    match R.encode v with
    | some result => { r with pc := .write (streamChunk r.msg.id result) (some dir) }
    | none =>
      { r with
        pc := .write (errorMessage r.msg.id "InternalError" "failed to encode stream chunk") none }

/-- After `writeFrame`: a chunk that could not be written ends the function. -/
def afterWrite (ok : Bool) : Option ChanDir → Pc R
  | some dir => if ok then .recv dir else .returned
  | none => .returned

/-- `inCh.Close` by the feeder. -/
def closeInCh (r : Routine R) : Routine R × Effect :=
  if r.inClosed then (r, .crash) else ({ r with inClosed := true, feeder := .done }, .quiet)

/-- The feeder has received a message. -/
def feed (r : Routine R) (elem : R.Ty) (msg : WireMessage) : Routine R × Effect :=
  if msg.type = "stream_chunk" then
    match R.valueOf msg.result with
    | some v =>
      if R.assignableTo (R.typeOf v) elem then ({ r with feeder := .sending elem v }, .quiet)
      else (r, .crash)
    | none => (r, .crash)
  else if msg.type = "stream_end" ∨ msg.type = "error" then r.closeInCh
  else (r, .quiet)

/-- A move of a routine. -/
def step (registry : Registry R) (r : Routine R) : RoutineLabel R → Option (Routine R × Effect)
  | .start =>
    match r.pc with
    | .start =>
      match r.kind with
      | .dispatch => some (r.startDispatch registry)
      | .clientOrUnary => some (r.startClientOrUnary registry)
      | .bidi => some (r.startBidi registry)
    | _ => none
  | .timeout =>
    match r.pc with
    | .detect fn => some (r.callClientOrUnary fn [])
    | _ => none
  | .receive =>
    match r.pc, r.chunksChan with
    | .detect fn, msg :: chunksChan => some ({ r with chunksChan }.detect fn msg)
    | .collect fn chunks, msg :: chunksChan => some ({ r with chunksChan }.collect fn chunks msg)
    | _, _ => none
  | .returned results =>
    match r.pc with
    | .call fn mode =>
      if results.length = fn.outs.length then some (r.handleResults fn results mode) else none
    | _ => none
  | .panicked =>
    match r.pc with
    | .call _ _ => some r.panic
    | _ => none
  | .recv item =>
    match r.pc with
    | .recv .send => some r.panic
    | .recv dir => some (r.streamItem dir item, .quiet)
    | _ => none
  | .write ok =>
    match r.pc with
    | .write frame more =>
      if ok then some ({ r with pc := afterWrite true more, out := r.out ++ [frame] }, .wrote frame)
      else some ({ r with pc := afterWrite false more }, .quiet)
    | _ => none
  | .feed =>
    match r.feeder, r.chunksChan with
    | .receiving elem, msg :: chunksChan => some ({ r with chunksChan }.feed elem msg)
    | _, _ => none
  | .feedEnd =>
    match r.feeder with
    | .receiving _ => if r.endClosed then some r.closeInCh else none
    | _ => none
  | .feedSend =>
    match r.feeder with
    | .sending elem v =>
      if r.inClosed then some (r, .crash)
      else if r.inCh.length < capacity then
        some ({ r with inCh := r.inCh ++ [v], feeder := .receiving elem }, .quiet)
      else none
    | _ => none
  | .take =>
    match r.inCh with
    | v :: inCh => some ({ r with inCh, taken := r.taken ++ [v] }, .quiet)
    | [] => if r.inClosed then some ({ r with ended := true }, .quiet) else none
  | .closeInput =>
    match r.feeder with
    | .unspawned => none
    | _ => if r.inClosed then none else some ({ r with inClosed := true }, .quiet)
  | .closeEnd =>
    match r.pc with
    | .returned => some ({ r with pc := .closed }, .quiet)
    | _ => none

end Routine

/-! ## The connection -/

section
variable (R : Reflect)

/-- `handleConnection`. -/
inductive LoopPc where
  | reading
  /-- at the `select` that sends the message to the call -/
  | sending (routine : Nat) (msg : WireMessage)
  /-- in `dispatch` -/
  | dispatching (r : Routine R)
  | closed

/-- A connection. `streams` holds the numbers of the routines. -/
structure Connection where
  registry : Registry R
  loop : LoopPc R
  streams : IdMap Nat
  routines : List (Routine R)
  wire : List WireMessage
  crashed : Bool

inductive Label where
  /-- `Export`, anywhere in the program -/
  | register (name : String) (fn : Exported R)
  /-- the read loop has decoded a message -/
  | frame (msg : WireMessage)
  /-- a read fails -/
  | disconnect
  /-- the message is in `chunksChan` -/
  | send
  /-- the call has ended, the message is ignored -/
  | ignore
  /-- `dispatch` moves -/
  | dispatch (l : RoutineLabel R)
  | routine (i : Nat) (l : RoutineLabel R)
  /-- the deferred `cleanup` -/
  | cleanup (i : Nat)

end

def Connection.init (registry : Registry R) : Connection R where
  registry := registry
  loop := .reading
  streams := ∅
  routines := []
  wire := []
  crashed := false

/-- The frame types that belong to a call. -/
def IsStreamFrame (msg : WireMessage) : Prop :=
  msg.type = "stream_chunk" ∨ msg.type = "stream_close" ∨ msg.type = "stream_end"

instance (msg : WireMessage) : Decidable (IsStreamFrame msg) :=
  inferInstanceAs (Decidable (_ ∨ _ ∨ _))

namespace Connection

/-- A goroutine for a request. -/
def spawn (c : Connection R) (msg : WireMessage) : Connection R :=
  { c with
    routines := c.routines ++ [.spawn msg (if msg.stream then .bidi else .clientOrUnary)]
    streams := c.streams.insert msg.id c.routines.length }

/-- A request is given a goroutine; everything else that no call takes goes to `dispatch`. -/
def handleMessage (c : Connection R) (msg : WireMessage) : Connection R :=
  if msg.type = "request" then c.spawn msg
  else { c with loop := .dispatching (.spawn msg .dispatch) }

def handleFrame (c : Connection R) (msg : WireMessage) : Connection R :=
  if IsStreamFrame msg then
    match c.streams.lookup msg.id with
    | some i => { c with loop := .sending i msg }
    | none => c.handleMessage msg
  else c.handleMessage msg

def apply (c : Connection R) : Effect → Connection R
  | .quiet => c
  | .wrote frame => { c with wire := c.wire ++ [frame] }
  | .crash => { c with crashed := true }

/-- Where the read loop is after a move of `dispatch`. -/
def afterDispatch (r : Routine R) : LoopPc R :=
  match r.pc with
  | .returned => .reading
  | _ => .dispatching r

end Connection

/-- A move of the connection. -/
def step (c : Connection R) (l : Label R) : Option (Connection R) :=
  if c.crashed then none
  else
    match l with
    | .register name fn => some { c with registry := c.registry.insert name fn }
    | .frame msg =>
      match c.loop with
      | .reading => some (c.handleFrame msg)
      | _ => none
    | .disconnect =>
      match c.loop with
      | .reading => some { c with loop := .closed }
      | _ => none
    | .send => do
      let .sending i msg := c.loop | none
      let r ← c.routines[i]?
      if r.chunksChan.length < capacity then
        return { c with
          loop := .reading
          routines := c.routines.set i { r with chunksChan := r.chunksChan ++ [msg] } }
      else none
    | .ignore => do
      let .sending i _ := c.loop | none
      let r ← c.routines[i]?
      if r.endClosed then return { c with loop := .reading } else none
    | .dispatch l => do
      let .dispatching r := c.loop | none
      let (r', e) ← r.step c.registry l
      return { c with loop := Connection.afterDispatch r' }.apply e
    | .routine i l => do
      let r ← c.routines[i]?
      let (r', e) ← r.step c.registry l
      return { c with routines := c.routines.set i r' }.apply e
    | .cleanup i => do
      let r ← c.routines[i]?
      let .closed := r.pc | none
      return { c with
        routines := c.routines.set i { r with pc := .done }
        streams := c.streams.erase r.msg.id }

end Callwire.Go.Server
