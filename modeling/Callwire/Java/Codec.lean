/-!
# Messages of the Java implementation (`Codec.java`)

A message is the map that `Codec.decode` gives. `V` are the objects other than `null`: a value is an
`Option V`, and `none` is `null`, which a map also gives for a key that it does not have. `decode`
and the functions that encode are assumed to be inverse.
-/

namespace Callwire.Java

structure Msg (V : Type) where
  id : BitVec 64
  type : Option String
  func : Option String := none
  args : Option (List (Option V)) := none
  stream : Bool := false
  result : Option V := none
  errorType : Option String := none
  message : Option String := none

/-- What `readFrame` and `decode` make of a frame. -/
inductive Payload (V : Type) where
  /-- no msgpack map, or one whose `id` or `type` has another Java type -/
  | malformed
  | msg (m : Msg V)

section
variable {V : Type}

def encodeRequest (id : BitVec 64) (func : String) (args : List (Option V)) (stream : Bool) :
    Msg V :=
  { id, type := some "request", func := some func, args := some args, stream }

def encodeResponse (id : BitVec 64) (result : Option V) : Msg V :=
  { id, type := some "response", result }

def encodeError (id : BitVec 64) (errorType message : String) : Msg V :=
  { id, type := some "error", errorType := some errorType, message := some message }

def encodeStreamChunk (id : BitVec 64) (result : Option V) : Msg V :=
  { id, type := some "stream_chunk", result }

def encodeStreamEnd (id : BitVec 64) : Msg V := { id, type := some "stream_end" }

def encodeStreamClose (id : BitVec 64) : Msg V := { id, type := some "stream_close" }

namespace Msg

def isChunk (m : Msg V) : Bool := m.type = some "stream_chunk"

/-- `stream_close` or `stream_end` -/
def isTerminator (m : Msg V) : Bool := m.type = some "stream_close" ∨ m.type = some "stream_end"

end Msg

end

end Callwire.Java
