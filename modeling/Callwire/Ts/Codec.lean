import Mathlib.Data.List.AList

/-!
# Messages of the TypeScript client and server (`codec.ts`)

`Js` is what the code uses of JavaScript values: what `encode` throws for one, and the text of a
thrown one. A payload is represented by the message that `unpack` makes of it, an id by the number
that it returns; an absent `result` is `undefined`, any other absent field is `none`. The field
`stream` is left out: neither side reads it.
-/

namespace Callwire.Ts

structure Js where
  Val : Type
  undefined : Val
  str : String → Val
  /-- what `encode` throws for a message that holds the value, if it throws -/
  refuse : Val → Option Val
  /-- `err instanceof Error ? err.message : String(err)`, if that does not throw -/
  text : Val → Option Val
  /-- `result !== null && typeof result === 'object' && Symbol.asyncIterator in result` -/
  isAsyncIterable : Val → Bool
  /-- the value as a `string[]`, without elements if it is `null` or `undefined` -/
  strings : Val → List String
  refuse_str : ∀ s, refuse (str s) = none

/-- `WireMessage`. -/
structure WireMessage (J : Js) where
  id : Nat
  type : String
  func : Option String := none
  args : Option (List J.Val) := none
  result : J.Val := J.undefined
  errorType : Option String := none
  message : Option J.Val := none

section
variable {J : Js}

/-- `encode` of a message whose only other value is `v`. -/
def encoding (v : J.Val) (msg : WireMessage J) : Except J.Val (WireMessage J) :=
  match J.refuse v with
  | some err => .error err
  | none => .ok msg

def packRequest (id : Nat) (func : String) (args : List J.Val) : Except J.Val (WireMessage J) :=
  match args.findSome? J.refuse with
  | some err => .error err
  | none => .ok { id, type := "request", func := some func, args := some args }

def packResponse (id : Nat) (result : J.Val) : Except J.Val (WireMessage J) :=
  encoding result { id, type := "response", result }

def packError (id : Nat) (errorType : String) (message : J.Val) : Except J.Val (WireMessage J) :=
  encoding message { id, type := "error", errorType := some errorType, message := some message }

def packStreamChunk (id : Nat) (result : J.Val) : Except J.Val (WireMessage J) :=
  encoding result { id, type := "stream_chunk", result }

def packStreamEnd (id : Nat) : WireMessage J := { id, type := "stream_end" }

def packStreamClose (id : Nat) : WireMessage J := { id, type := "stream_close" }

end

/-! ## An instance -/

/-- Some values. -/
inductive Datum where
  | undefined
  | str (s : String)
  | num (n : Nat)
  /-- `Object.create(null)`, for which `String` throws -/
  | bare
  /-- what an async generator function returns -/
  | iterable
  | list (items : List String)
  deriving DecidableEq, Repr

def plain : Js where
  Val := Datum
  undefined := .undefined
  str := .str
  refuse _ := none
  text
    | .undefined => some (.str "undefined")
    | .str s => some (.str s)
    | .num n => some (.str (toString n))
    | .bare => none
    | .iterable => some (.str "[object AsyncGenerator]")
    | .list items => some (.str (",".intercalate items))
  isAsyncIterable v := v = .iterable
  strings
    | .list items => items
    | _ => []
  refuse_str _ := rfl

end Callwire.Ts
