import Callwire.Rust.Actor

/-!
# The callers of the Rust client (`client.rs`)

What a call returns to the application, given what its reply channel does: `import_direct` and
`close_and_recv` await a `oneshot`, `CallwireStream::poll_next` and `BidiStream::recv` take the next
message of a stream. A channel without a sender has no next message (`none`). Results are decoded by
`rmpv::ext::from_value`, a parameter here, with the text of its error.
-/

namespace Callwire.Rust

inductive Error where
  | connectionClosed
  | remote (errorType message : String)
  | typeError (text : String)
  | internal (text : String)

/-- `std::task::Poll` -/
inductive Poll (α : Type) where
  | ready (x : α)
  | pending

/-- The error that an `error` frame carries. -/
def WireMessage.remoteError (msg : WireMessage) : Error :=
  .remote (msg.errorType.getD "Error") (msg.message.getD "unknown error")

section
variable {Resp : Type} (fromValue : Value → Except String Resp)

/-- The result of a message, or the error that says what it should have been. -/
def WireMessage.decode (what : String) (msg : WireMessage) : Except Error Resp :=
  (fromValue (msg.result.getD .nil)).mapError fun e =>
    .typeError ("failed to decode " ++ what ++ ": " ++ e)

/-- `import_direct` and `close_and_recv`, from `rx.await` on. -/
def importDirect : Option Outcome → Except Error Resp
  | some (.ok msg) =>
    if msg.msgType = "error" then .error msg.remoteError else msg.decode fromValue "response"
  | some .connectionClosed | none => .error .connectionClosed

/-- `CallwireStream::poll_next`, on the answer of `poll_recv`. -/
def pollNext : Poll (Option Outcome) → Poll (Option (Except Error Resp))
  | .ready (some (.ok msg)) =>
    if msg.msgType = "stream_end" then .ready none
    else if msg.msgType = "error" then .ready (some (.error msg.remoteError))
    else if msg.msgType = "stream_chunk" then .ready (some (msg.decode fromValue "stream chunk"))
    else .ready (some (.error (.internal ("unexpected message type: " ++ msg.msgType))))
  | .ready (some .connectionClosed) => .ready (some (.error .connectionClosed))
  | .ready none => .ready none
  | .pending => .pending

/-- `BidiStream::recv` -/
def recv : Option Outcome → Except Error (Option Resp)
  | some (.ok msg) =>
    if msg.msgType = "stream_end" then .ok none
    else if msg.msgType = "error" then .error msg.remoteError
    else if msg.msgType = "stream_chunk" then (msg.decode fromValue "stream chunk").map some
    else .ok none
  | some .connectionClosed | none => .error .connectionClosed

/-- The call returns `ConnectionClosed` for this message, or for the end of its channel. -/
def Request.ReturnsClosed (o : Option Outcome) : Request → Prop
  | .call _ _ _ | .exportStream _ _ => importDirect fromValue o = .error .connectionClosed
  | .callStream _ _ _ => pollNext fromValue (.ready o) = .ready (some (.error .connectionClosed))
  | .importBidi _ _ => recv fromValue o = .error .connectionClosed

end

end Callwire.Rust
