import Callwire.Go.Client

/-!
# Batches of the Go client (`batch.go`)

`Batch` and `BatchT` start one goroutine for each call, which makes an `Import` and puts what it
returns into its place of the result, and wait for all of them. The two functions are one machine
around the client, with their own result (`BatchFunc`): the goroutines take their ids, register,
write and receive in any order, among the other calls of the client.
-/

namespace Callwire.Go

/-! ## What an `Import` returns -/

/-- An `error` that `Import` returns. -/
inductive CallError where
  /-- `*WireError` -/
  | wire (errorType message : String)
  | encode
  | write
  | decode
  /-- `ctx.Err()` -/
  | context
  deriving DecidableEq, Repr

/-- `BatchCall`; a nil `Args` is no arguments. -/
structure BatchCall where
  func : String
  args : List Value

/-- `BatchResult` -/
structure BatchResult where
  result : Value
  err : Option CallError

/-- The values and the results of one of the two functions. -/
structure BatchFunc (Resp R : Type) where
  /-- `msgpack.Unmarshal` into a `Resp` -/
  unmarshal : Bytes → Option Resp
  zero : Resp
  make : Nat → R
  assign : R → Nat → Resp → Option CallError → R

section
variable {Resp R : Type}

/-- The value and the error with which an `Import` returns. It does not end in the other ways. -/
def BatchFunc.importResult (f : BatchFunc Resp R) (m : Msgpack) :
    Outcome → Option (Resp × Option CallError)
  | .reply msg =>
    if msg.type = "error" then some (f.zero, some (.wire msg.errorType msg.message))
    else
      match f.unmarshal (m.marshal msg.result) with
      | none => some (f.zero, some .decode)
      | some resp => some (resp, none)
  | .encodeFailed => some (f.zero, some .encode)
  | .connectionClosed => some (f.zero, some (.wire "ConnectionClosed" "client closed"))
  | .writeFailed => some (f.zero, some .write)
  | .contextDone => some (f.zero, some .context)
  | .decodeFailed | .abandoned => none

/-- `Batch` -/
def batch (m : Msgpack) : BatchFunc Value (List BatchResult) where
  unmarshal := m.unmarshal
  zero := .nil
  make n := List.replicate n ⟨.nil, none⟩
  assign results i res err := results.set i ⟨res, err⟩

end

/-! ## The goroutines -/

inductive Goroutine where
  | spawned
  /-- in `Import`, which is call `call` of the client -/
  | importing (call : Nat)
  /-- the result of call `call` is in its place -/
  | done (call : Nat)
  deriving DecidableEq, Repr

/-- A batch that runs; `wg` is the counter of the `WaitGroup`. -/
structure Batch (R : Type) where
  client : Client
  goroutines : List Goroutine
  results : R
  wg : Nat
  returned : Option R

inductive BatchLabel where
  /-- a move of the client, for this batch or for others -/
  | client (l : Label)
  /-- goroutine `i` calls `Import` -/
  | call (i : Nat)
  /-- `Import` returns in goroutine `i` -/
  | assign (i : Nat)
  /-- `wg.Wait()` returns -/
  | wait

namespace Batch
variable {Resp R : Type} (f : BatchFunc Resp R) (m : Msgpack) (reconnect : Bool)
  (calls : List BatchCall)

/-- The batch has started its goroutines. -/
def start (client : Client) : Batch R where
  client := client
  goroutines := List.replicate calls.length .spawned
  results := f.make calls.length
  wg := calls.length
  returned := none

def call (b : Batch R) (i : Nat) : Option (Batch R) :=
  match b.goroutines[i]?, calls[i]? with
  | some .spawned, some call =>
    (Go.step m reconnect b.client (.start .importUnary call.func call.args)).map fun client =>
      { b with client, goroutines := b.goroutines.set i (.importing b.client.calls.length) }
  | _, _ => none

def assign (b : Batch R) (i : Nat) : Option (Batch R) := do
  let .importing j ← b.goroutines[i]? | none
  let call ← b.client.calls[j]?
  let .returned o := call.pc | none
  let (res, err) ← f.importResult m o
  return { b with
    results := f.assign b.results i res err
    wg := b.wg - 1
    goroutines := b.goroutines.set i (.done j) }

def step (b : Batch R) : BatchLabel → Option (Batch R)
  | .client l => (Go.step m reconnect b.client l).map fun client => { b with client }
  | .call i => b.call m reconnect calls i
  | .assign i => b.assign f m i
  | .wait => if b.wg = 0 then some { b with returned := some b.results } else none

end Batch

end Callwire.Go
