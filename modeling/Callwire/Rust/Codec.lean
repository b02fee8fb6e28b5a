/-!
# Messages of the Rust client and server (`codec.rs`)

`WireMessage` is a message on the wire. A payload that a `pack_*` function returns is represented by
the message it encodes.
-/

namespace Callwire.Rust

/-- `rmpv::Value`. -/
inductive Value where
  | nil
  | boolean (b : Bool)
  | integer (n : Int)
  | f32 (bits : BitVec 32)
  | f64 (bits : BitVec 64)
  | string (bytes : List (BitVec 8))
  | binary (bytes : List (BitVec 8))
  | array (items : List Value)
  | map (entries : List (Value × Value))
  | ext (tag : BitVec 8) (bytes : List (BitVec 8))

structure WireMessage where
  id : BitVec 64
  msgType : String
  func : Option String := none
  args : Option Value := none
  stream : Option Bool := none
  result : Option Value := none
  errorType : Option String := none
  message : Option String := none

section
variable (id : BitVec 64) (func : String) (args item : Value)

def packRequest : WireMessage :=
  { id, msgType := "request", func := some func, args := some args }

def packBidiRequest : WireMessage :=
  { id, msgType := "request", func := some func, args := some args, stream := some true }

def packResponse : WireMessage := { id, msgType := "response", result := some item }

def packError (errorType message : String) : WireMessage :=
  { id, msgType := "error", errorType := some errorType, message := some message }

def packStreamChunk : WireMessage := { id, msgType := "stream_chunk", result := some item }

def packStreamEnd : WireMessage := { id, msgType := "stream_end" }

def packStreamClose : WireMessage := { id, msgType := "stream_close" }

end

end Callwire.Rust
