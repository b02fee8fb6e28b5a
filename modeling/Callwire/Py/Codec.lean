import Mathlib.Data.List.Basic

/-!
# Messages of the Python client and server (`codec.py`)

`Python` is what the code uses of Python objects: `None`, and what `msgpack.packb` raises for one. A
payload is represented by the dict that `unpack` makes of it, without the entries that neither side
reads; an absent `result` is `None`, any other absent entry is `none`.
-/

namespace Callwire.Py

/-- An exception: `type(e).__name__` and `str(e)`. -/
structure Exn where
  name : String
  text : String
  deriving DecidableEq, Repr

structure Python where
  Val : Type
  None : Val
  /-- what `packb` raises for a message that holds the object, if it raises -/
  refuse : Val → Option Exn

/-- `None` and integers. -/
def plain : Python where
  Val := Option Int
  None := none
  refuse _ := none

/-- A message. -/
structure WireMessage (P : Python) where
  id : Nat
  type : Option String
  func : Option String := none
  args : Option (List P.Val) := none
  stream : Bool := false
  result : P.Val := P.None
  errorType : Option String := none
  message : Option String := none

section
variable {P : Python}

/-- `packb` of a message whose objects are `vs`. -/
def packb (vs : List P.Val) (msg : WireMessage P) : Except Exn (WireMessage P) :=
  match vs.findSome? P.refuse with
  | some e => .error e
  | none => .ok msg

def packRequest (id : Nat) (func : String) (args : List P.Val) : Except Exn (WireMessage P) :=
  packb args { id, type := some "request", func := some func, args := some args }

def packResponse (id : Nat) (result : P.Val) : Except Exn (WireMessage P) :=
  packb [result] { id, type := some "response", result }

def packError (id : Nat) (errorType message : String) : WireMessage P :=
  { id, type := some "error", errorType := some errorType, message := some message }

def packStreamChunk (id : Nat) (result : P.Val) : Except Exn (WireMessage P) :=
  packb [result] { id, type := some "stream_chunk", result }

def packStreamEnd (id : Nat) : WireMessage P := { id, type := some "stream_end" }

def packStreamClose (id : Nat) : WireMessage P := { id, type := some "stream_close" }

def packBidiRequest (id : Nat) (func : String) (args : List P.Val) :
    Except Exn (WireMessage P) :=
  packb args
    { id, type := some "request", func := some func, args := some args, stream := true }

end

end Callwire.Py
