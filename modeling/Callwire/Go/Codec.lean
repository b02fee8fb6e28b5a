import Mathlib.Data.BitVec

/-!
# Messages of the Go client and server (`codec.go`)

`WireMessage` is the struct `wireMessage`. The encoding itself is the work of the msgpack library,
`Msgpack` here: any pair of functions on wire values that are inverse to each other, where a
`[]byte` is sent as a bin with a header before its bytes. How the library maps the struct to a wire
value, by the tags of its fields, is `WireMessage.toValue` and `WireMessage.ofValue`.
-/

namespace Callwire.Go

abbrev Bytes := List (BitVec 8)

/-- The value of an `interface{}` on the wire. -/
inductive Value where
  | nil
  | bool (b : Bool)
  /-- a signed number, or one that is small -/
  | int (n : BitVec 64)
  /-- a `uint64` -/
  | uint (n : BitVec 64)
  | float32 (bits : BitVec 32)
  | float64 (bits : BitVec 64)
  | str (s : String)
  /-- a `[]byte` -/
  | bin (bytes : Bytes)
  | array (items : List Value)
  | map (entries : List (Value × Value))

/-! ## The msgpack library -/

/-- `msgpack.Marshal` and `msgpack.Unmarshal` on wire values. -/
structure Msgpack where
  marshal : Value → Bytes
  unmarshal : Bytes → Option Value
  unmarshal_marshal : ∀ v, unmarshal (marshal v) = some v
  /-- an encoding has at least one byte -/
  marshal_ne_nil : ∀ v, marshal v ≠ []
  /-- a `[]byte` is encoded as a header and its bytes -/
  length_bin : ∀ bytes, bytes.length < (marshal (.bin bytes)).length

/-- The bits of a floating-point zero, of either sign. -/
def zeroBits {w : Nat} (bits : BitVec w) : Bool := bits <<< 1 = 0

/-- The value that `omitempty` drops: nil, false, zero, or of length zero. -/
def Value.isEmptyValue : Value → Bool
  | .nil => true
  | .bool b => !b
  | .int n => n = 0
  | .uint n => n = 0
  | .float32 bits => zeroBits bits
  | .float64 bits => zeroBits bits
  | .str s => s = ""
  | .bin bytes => bytes.isEmpty
  | .array items => items.isEmpty
  | .map entries => entries.isEmpty

/-! ## Messages -/

/-- `wireMessage`. -/
structure WireMessage where
  id : BitVec 64
  type : String
  func : String := ""
  args : Option (List Value) := none
  stream : Bool := false
  result : Value := .nil
  errorType : String := ""
  message : String := ""

/-- A field tagged `omitempty`. -/
def omitempty (key : String) (v : Value) : List (Value × Value) :=
  if v.isEmptyValue then [] else [(.str key, v)]

/-- A nil slice is sent as nil. -/
def sliceValue : Option (List Value) → Value
  | none => .nil
  | some items => .array items

/-- The map that the struct is encoded as. -/
def WireMessage.toValue (msg : WireMessage) : Value :=
  .map ([(.str "id", .uint msg.id), (.str "type", .str msg.type)] ++
    omitempty "func" (.str msg.func) ++ [(.str "args", sliceValue msg.args)] ++
    omitempty "stream" (.bool msg.stream) ++ omitempty "result" msg.result ++
    omitempty "error_type" (.str msg.errorType) ++ omitempty "message" (.str msg.message))

/-- Decode one field; nil leaves it alone, and so does an unknown key. -/
def WireMessage.setField (msg : WireMessage) : Value × Value → Option WireMessage
  | (.str _, .nil) => some msg
  | (.str "id", .int n) | (.str "id", .uint n) => some { msg with id := n }
  | (.str "type", .str s) => some { msg with type := s }
  | (.str "func", .str s) => some { msg with func := s }
  | (.str "args", .array items) => some { msg with args := some items }
  | (.str "stream", .bool b) => some { msg with stream := b }
  | (.str "result", v) => some { msg with result := v }
  | (.str "error_type", .str s) => some { msg with errorType := s }
  | (.str "message", .str s) => some { msg with message := s }
  | (.str key, _) =>
    if key ∈ ["id", "type", "func", "args", "stream", "error_type", "message"] then none
    else some msg
  | _ => none

def WireMessage.ofValue : Value → Option WireMessage
  | .map entries => entries.foldlM WireMessage.setField { id := 0, type := "" }
  | _ => none

section
variable (id : BitVec 64) (func : String) (args : List Value) (result : Value)

def request : WireMessage := { id, type := "request", func, args := some args }

def bidiRequest : WireMessage := { id, type := "request", func, args := some args, stream := true }

def response : WireMessage := { id, type := "response", result }

def errorMessage (errorType message : String) : WireMessage :=
  { id, type := "error", errorType, message }

def streamChunk : WireMessage := { id, type := "stream_chunk", result }

def streamEnd : WireMessage := { id, type := "stream_end" }

def streamClose : WireMessage := { id, type := "stream_close" }

variable (m : Msgpack)

/-- `msgpack.Marshal` of the struct. -/
def WireMessage.encode (msg : WireMessage) : Bytes := m.marshal msg.toValue

def encodeRequest : Bytes := (request id func args).encode m

def encodeStreamChunk : Bytes := (streamChunk id result).encode m

def decodeMessage (payload : Bytes) : Option WireMessage :=
  (m.unmarshal payload).bind WireMessage.ofValue

end

end Callwire.Go
