import Mathlib.Data.List.AList
import Callwire.Go.Codec

/-!
# Functions and their arguments in the Go server

`server.go` calls exported functions through `reflect`. `Reflect` is what it uses of Go's types and
values: an operation that can panic returns `none` there, and the laws are those that the package
documents. A decoded `interface{}` has the dynamic type that the msgpack library gives it
(`Reflect.valueOf`), and `Reflect.encode` is what the library makes of a value the server sends.
-/

namespace Callwire.Go

/-- `reflect.ChanDir`. -/
inductive ChanDir where
  | recv
  | send
  | both
  deriving DecidableEq, Repr

/-- An error that is not nil. -/
inductive GoError where
  /-- a `*WireError` -/
  | wire (errorType message : String)
  /-- any other error, with what `Error` returns -/
  | other (text : String)
  /-- an error whose method `Error` panics: a nil `*WireError` is one -/
  | broken
  deriving DecidableEq, Repr

structure Reflect where
  /-- `reflect.Type` -/
  Ty : Type
  /-- a valid `reflect.Value` -/
  Val : Type
  /-- `Value.Type` -/
  typeOf : Val → Ty
  /-- the direction and the element type of a channel type -/
  chan : Ty → Option (ChanDir × Ty)
  /-- the element type of the slice that a variadic function gets -/
  elem : Ty → Ty
  /-- `interface{}` -/
  any : Ty
  /-- `Implements(errorType)` -/
  implementsError : Ty → Bool
  assignableTo : Ty → Ty → Bool
  convertibleTo : Ty → Ty → Bool
  convert : Val → Ty → Option Val
  zero : Ty → Val
  /-- `reflect.ValueOf` of a decoded `interface{}`; `none` is the invalid value -/
  valueOf : Value → Option Val
  /-- `msgpack.Marshal` of a decoded `interface{}` -/
  marshal : Value → Except String Bytes
  /-- `msgpack.Unmarshal` into a new value of the type -/
  unmarshal : Bytes → Ty → Except String Val
  /-- `v.Interface().(error)`, if the error is not nil -/
  asError : Val → Option GoError
  /-- `msgpack.Marshal(v.Interface())`, as a wire value -/
  encode : Val → Option Value
  assignableTo_self : ∀ t, assignableTo t t = true
  assignableTo_any : ∀ t, assignableTo t any = true
  typeOf_zero : ∀ t, typeOf (zero t) = t
  typeOf_convert : ∀ {v t w}, convert v t = some w → typeOf w = t
  typeOf_unmarshal : ∀ {raw t w}, unmarshal raw t = .ok w → typeOf w = t
  valueOf_isSome : ∀ v, (valueOf v).isSome = true ↔ v ≠ .nil

/-! ## Exported functions -/

/-- The type of a function. -/
structure FuncType (R : Reflect) where
  ins : List R.Ty
  outs : List R.Ty
  variadic : Bool

/-- Why `Export` refuses a function. -/
inductive ExportError where
  | tooManyReturns
  | secondNotError
  deriving DecidableEq, Repr

section
variable {R : Reflect}

def validateFunc (fn : FuncType R) : Option ExportError :=
  if fn.outs.length > 2 then some .tooManyReturns
  else
    match fn.outs with
    | [_, second] => if R.implementsError second then none else some .secondNotError
    | _ => none

/-- What can stand in the registry. -/
def Exported (R : Reflect) : Type := { fn : FuncType R // validateFunc fn = none }

/-- The map `registry`. -/
abbrev Registry (R : Reflect) := AList fun _ : String => Exported R

def isChannelReturn (fn : FuncType R) : Bool :=
  match fn.outs with
  | [] => false
  | out :: _ => (R.chan out).isSome

def isChannelInput (paramType : R.Ty) : Bool := (R.chan paramType).isSome

/-! ## Arguments -/

/-- An argument of a call: a value, the closed channel with the chunks of a client stream, or the
channel that is fed while the function runs. -/
inductive Arg (R : Reflect) where
  | value (v : R.Val)
  | chunks (chanType : R.Ty) (items : List R.Val)
  | input (chanType : R.Ty)

def Arg.type : Arg R → R.Ty
  | .value v => R.typeOf v
  | .chunks t _ | .input t => t

/-- Each argument is assignable to its parameter. -/
def fits : List R.Ty → List (Arg R) → Bool
  | [], [] => true
  | t :: ts, arg :: args => R.assignableTo arg.type t && fits ts args
  | _, _ => false

/-- The checks of `Value.Call`: the last parameter of a variadic function stands for any number of
arguments of its element type. -/
def FuncType.accepts (fn : FuncType R) (args : List (Arg R)) : Bool :=
  if fn.variadic then
    match fn.ins.getLast? with
    | none => false
    | some rest =>
      let n := fn.ins.length - 1
      fits (fn.ins.take n) (args.take n) &&
        (args.drop n).all fun arg => R.assignableTo arg.type (R.elem rest)
  else fits fn.ins args

/-- `Value.Call`: the arguments of the function, `none` if `Call` panics. A zero `Value` is
refused. -/
def FuncType.call (fn : FuncType R) (ins : List (Option (Arg R))) : Option (List (Arg R)) := do
  let args ← ins.mapM id
  if fn.accepts args then return args else none

/-- What ends the work on a message before the function is called. -/
inductive Stop where
  | panic
  | reply (frame : WireMessage)

def decodeIntoParamType (arg : Value) (paramType : R.Ty) : Except String R.Val := do
  let raw ← R.marshal arg
  R.unmarshal raw paramType

/-- The argument at position `pos` for a parameter. -/
def convertArg (id : BitVec 64) (pos : Nat) (arg : Value) (paramType : R.Ty) : Except Stop R.Val :=
  match R.valueOf arg with
  | none => .ok (R.zero paramType)
  | some argValue =>
    if R.assignableTo (R.typeOf argValue) paramType then .ok argValue
    else if R.convertibleTo (R.typeOf argValue) paramType then
      match R.convert argValue paramType with
      | some converted => .ok converted
      | none => .error .panic
    else
      match decodeIntoParamType arg paramType with
      | .ok converted => .ok converted
      | .error err =>
        .error (.reply (errorMessage id "TypeError"
          ("arg " ++ toString pos ++ " conversion failed: " ++ err)))

/-- The loop over the arguments; `fnType.In` panics beyond the parameters. -/
def convertArgs (id : BitVec 64) : Nat → List Value → List R.Ty → Except Stop (List R.Val)
  | _, [], _ => .ok []
  | _, _ :: _, [] => .error .panic
  | pos, arg :: args, t :: ts => do
    let v ← convertArg id pos arg t
    let vs ← convertArgs id (pos + 1) args ts
    return v :: vs

/-- The arguments of a unary call. -/
def unaryArgs (fn : FuncType R) (msg : WireMessage) : Except Stop (List (Option (Arg R))) :=
  let args := msg.args.getD []
  if args.length ≠ fn.ins.length then
    .error (.reply (errorMessage msg.id "TypeError"
      ("expected " ++ toString fn.ins.length ++ " args, got " ++ toString args.length)))
  else do
    let ins ← convertArgs msg.id 1 args fn.ins
    return ins.map fun v => some (.value v)

/-- `Send` of each chunk into a channel with elements of type `elem`; `none` is a panic. -/
def sendChunks (elem : R.Ty) : List Value → Option (List R.Val)
  | [] => some []
  | c :: chunks => do
    let v ← R.valueOf c
    if R.assignableTo (R.typeOf v) elem then return v :: (← sendChunks elem chunks) else none

/-- `reflect.MakeChan`, the `Send`s and the `Close`. -/
def chunkChannel (chanType : R.Ty) (chunks : List Value) : Except Stop (Arg R) :=
  match R.chan chanType with
  | some (.both, elem) =>
    match sendChunks elem chunks with
    | some items => .ok (.chunks chanType items)
    | none => .error .panic
  | _ => .error .panic

/-- The arguments of a client-streaming call: the chunks and then those of the request. `in` is made
with a place for every parameter, which stays the zero `Value` where the request has none. -/
def clientStreamArgs (chanType : R.Ty) (rest : List R.Ty) (msg : WireMessage)
    (chunks : List Value) : Except Stop (List (Option (Arg R))) :=
  let args := msg.args.getD []
  if args.length > rest.length then
    .error (.reply (errorMessage msg.id "TypeError"
      ("expected " ++ toString rest.length ++ " args after channel, got " ++
        toString args.length)))
  else do
    let channel ← chunkChannel chanType chunks
    let ins ← convertArgs msg.id 2 args rest
    return some channel :: ins.map (fun v => some (.value v)) ++
      List.replicate (rest.length - ins.length) none

/-! ## Results -/

/-- The frame for an error that the function has returned; `none` if its method panics. -/
def GoError.frame (id : BitVec 64) : GoError → Option WireMessage
  | .wire errorType message => some (errorMessage id errorType message)
  | .other text => some (errorMessage id "Error" text)
  | .broken => none

/-- The reply of a call with one result: `none` is a panic. -/
def unaryReply (id : BitVec 64) (results : List R.Val) : Option WireMessage :=
  match results.getLast?.bind R.asError, results with
  | some err, _ => err.frame id
  | none, [] => some (response id .nil)
  | none, result :: _ =>
    match R.encode result with
    | some v => some (response id v)
    | none => some (errorMessage id "InternalError" "failed to encode response")

end

end Callwire.Go
