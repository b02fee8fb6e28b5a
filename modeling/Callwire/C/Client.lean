import Callwire.C.Server

/-!
# The client (`client.c`)

A client is used by one thread: an API call writes at most one frame and then, for the calls that
wait for the server, reads one. `Client.invoke` runs a call up to its read or its return, and
`Client.read` is what it does with the frame it then reads; `Client.step` has the two as its steps.
The `trace` is the history of the connection: the requests that went out and what the calls
returned, with the frame each has read.

Allocation succeeds and the client pointer is not `NULL`.
-/

namespace Callwire.C

open Lib

/-- The buffer after `callwire_error_set` (`CALLWIRE_ERROR_MAX` is 256). -/
def callwireErrorSet (text : Bytes) : Bytes := (cstr text).take 255

/-! ## The API -/

/-- The functions of `client.c` that use the connection. -/
inductive Api where
  | call (func : Option CString) (args : List Value)
  | streamBegin (func : Option CString) (args : List Value)
  | streamRecv (streamId : BitVec 64)
  | exportStreamBegin (func : Option CString)
  | exportStreamSend (streamId : BitVec 64) (chunk : Option Value)
  | exportStreamClose (streamId : BitVec 64)
  | bidiStreamBegin (func : Option CString)
  | bidiStreamSend (streamId : BitVec 64) (chunk : Option Value)
  | bidiStreamRecv (streamId : BitVec 64)
  | bidiStreamCloseSend (streamId : BitVec 64)

/-- What a call returns: a stream id, or a result code with the value it has stored. -/
inductive Return where
  | id (id : BitVec 64)
  | rc (code : Int) (out : Option Value)

/-- The four call patterns. -/
inductive Pattern where
  | unary
  | serverStream
  | clientStream
  | bidi
  deriving DecidableEq, Repr

/-- A call that has returned, the id it was made under and the frame it has read. -/
structure Returned where
  api : Api
  id : BitVec 64
  frame : Option WireMessage
  ret : Return

inductive ClientEvent where
  | asked (pattern : Pattern) (id : BitVec 64)
  | returned (r : Returned)

/-- `struct callwire_client` with its thread: `waiting` is the call that is about to read, `error`
the error buffer, `out` are the frames written. -/
structure Client where
  nextId : BitVec 64
  waiting : Option (Api × BitVec 64)
  error : Bytes
  out : List Outgoing
  trace : List ClientEvent

namespace Client

/-- `callwire_client_connect`. -/
def connect : Client := ⟨0, none, [], [], []⟩

def fail (c : Client) (text : Bytes) : Client := { c with error := callwireErrorSet text }

/-- The call returns. -/
def done (c : Client) (api : Api) (id : BitVec 64) (frame : Option WireMessage) (ret : Return) :
    Client :=
  { c with waiting := none, trace := c.trace ++ [.returned ⟨api, id, frame, ret⟩] }

/-! ## Writing -/

/-- Encode, and `write_payload`. -/
def writeFrame (c : Client) (m : Outgoing) (encodeError : Bytes) (ok : Bool) : Bool × Client :=
  match m.payload with
  | none => (false, c.fail encodeError)
  | some p =>
    match callwireFramingWriteFrame p, ok with
    | some _, true => (true, { c with out := c.out ++ [m] })
    | _, _ => (false, c.fail (lit "connection write failed"))

/-- `next_id`, and the request under the new id. -/
def ask (c : Client) (pattern : Pattern) (m : BitVec 64 → Outgoing) (encodeError : Bytes)
    (ok : Bool) : Option (BitVec 64) × Client :=
  let id := c.nextId + 1
  match { c with nextId := id }.writeFrame (m id) encodeError ok with
  | (true, c) => (some id, { c with trace := c.trace ++ [.asked pattern id] })
  | (false, c) => (none, c)

/-- The calls that begin a stream: its id, or 0. -/
def beginStream (c : Client) (api : Api) (pattern : Pattern) (func : Option CString)
    (m : BitVec 64 → CString → Outgoing) (encodeError : Bytes) (ok : Bool) : Client :=
  match func with
  | none => (c.fail (lit "invalid argument")).done api 0 none (.id 0)
  | some f =>
    match c.ask pattern (m · f) encodeError ok with
    | (some id, c) => c.done api id none (.id id)
    | (none, c) => c.done api 0 none (.id 0)

/-- The calls that only write. -/
def sendOnly (c : Client) (api : Api) (streamId : BitVec 64) (m : Outgoing) (encodeError : Bytes)
    (ok : Bool) : Client :=
  match c.writeFrame m encodeError ok with
  | (true, c) => c.done api streamId none (.rc 0 none)
  | (false, c) => c.done api streamId none (.rc (-1) none)

/-- A call, up to its read or its return. -/
def invoke (c : Client) (api : Api) (ok : Bool) : Client :=
  match api with
  | .call none _ => (c.fail (lit "invalid argument")).done api 0 none (.rc (-1) none)
  | .call (some f) args =>
    match c.ask .unary (.request · (some f) args) (lit "failed to encode request") ok with
    | (some id, c) => { c with waiting := some (api, id) }
    | (none, c) => c.done api c.nextId none (.rc (-1) none)
  | .streamBegin func args =>
    c.beginStream api .serverStream func (fun id f => .request id (some f) args)
      (lit "failed to encode request") ok
  | .streamRecv streamId => { c with waiting := some (api, streamId) }
  | .exportStreamBegin func =>
    c.beginStream api .clientStream func (fun id f => .request id (some f) [])
      (lit "failed to encode request") ok
  | .exportStreamSend streamId chunk =>
    c.sendOnly api streamId (.streamChunk streamId chunk) (lit "failed to encode stream chunk") ok
  | .exportStreamClose streamId =>
    match c.writeFrame (.streamClose streamId) (lit "failed to encode stream close") ok with
    | (true, c) => { c with waiting := some (api, streamId) }
    | (false, c) => c.done api streamId none (.rc (-1) none)
  | .bidiStreamBegin func =>
    c.beginStream api .bidi func (fun id f => .bidiRequest id (some f) [])
      (lit "failed to encode bidi request") ok
  | .bidiStreamSend streamId chunk =>
    c.sendOnly api streamId (.streamChunk streamId chunk) (lit "failed to encode stream chunk") ok
  | .bidiStreamRecv streamId => { c with waiting := some (api, streamId) }
  | .bidiStreamCloseSend streamId =>
    c.sendOnly api streamId (.streamEnd streamId) (lit "failed to encode stream end") ok

/-! ## Reading -/

/-- `read_wire_message`; `none` for the payload is a read that failed. -/
def readWireMessage (c : Client) (payload : Option Payload) : Option WireMessage × Client :=
  match payload with
  | none => (none, c.fail (lit "connection read failed or closed"))
  | some p =>
    match callwireCodecDecode .ok p with
    | .ok (some msg) => (some msg, c)
    | _ => (none, c.fail (lit "failed to decode server response"))

/-- The text of an error frame, `"%s: %s"`. -/
def errorFrameText (msg : WireMessage) : Bytes :=
  cstr (msg.errorType.getD (lit "Error")) ++ lit ": " ++
    cstr (msg.message.getD (lit "unknown error"))

/-- What `call` and `export_stream_close` make of the frame. -/
def takeReply (c : Client) (msg : WireMessage) : Return × Client :=
  if Conn.typeIs msg "error" then (.rc (-1) none, c.fail (errorFrameText msg))
  else (.rc 0 (some msg.result), c)

/-- What `stream_recv` makes of the frame. -/
def takeChunk (c : Client) (msg : WireMessage) : Return × Client :=
  if Conn.typeIs msg "stream_chunk" then (.rc 0 (some msg.result), c)
  else if Conn.typeIs msg "stream_end" then (.rc 1 none, c)
  else if Conn.typeIs msg "error" then (.rc (-1) none, c.fail (errorFrameText msg))
  else (.rc (-1) none, c.fail (lit "unexpected message type during stream recv"))

/-- The waiting call reads its frame and returns. -/
def read (c : Client) (api : Api) (id : BitVec 64) (payload : Option Payload) : Client :=
  match c.readWireMessage payload with
  | (none, c) => c.done api id none (.rc (-1) none)
  | (some msg, c) =>
    let (ret, c) :=
      match api with
      | .streamRecv _ | .bidiStreamRecv _ => c.takeChunk msg
      | _ => c.takeReply msg
    c.done api id (some msg) ret

end Client

/-! ## Steps -/

/-- The application makes a call, `ok` being whether the socket takes its frame; or the waiting call
reads. -/
inductive ClientLabel where
  | invoke (api : Api) (ok : Bool)
  | read (payload : Option Payload)

def Client.step (c : Client) : ClientLabel → Option Client
  | .invoke api ok =>
    match c.waiting with
    | none => some (c.invoke api ok)
    | some _ => none
  | .read payload =>
    match c.waiting with
    | some (api, id) => some (c.read api id payload)
    | none => none

end Callwire.C
