import Callwire.Ts.Client

/-!
# The routing of the TypeScript client (`client.ts`)

A client that was connected with `connectRegistry` sends a call to a worker: `_resolveWorker` asks
the registry for the address of one, connects a `Client` to it and keeps that client.
`RoutingClient` is a client with its registry state. `operations` are the calls of `call`,
`callStream`, `exportStream` and `importBidi`; `batch` makes several. `workers` holds every worker
client that was ever made, in this order, and `workerClients` the numbers of those that are kept. A
worker client has no registry.
-/

namespace Callwire.Ts

section
variable (J : Js)

structure Worker where
  addr : String
  client : Client J
  /-- `close` has closed it -/
  closed : Bool

inductive OperationPc where
  /-- at the `await` of `call('callwire.discover', [func])`, before the check of the connection -/
  | asking
  /-- at that `await`, with the call under way -/
  | discovering (id : Nat)
  /-- at the `await` of `worker.connect` -/
  | connecting (w : Nat)
  /-- `_resolveWorker` has returned a worker, or `null` -/
  | ready (worker : Option Nat)
  /-- the call is `id` of the worker, or of the client itself -/
  | running (worker : Option Nat) (id : Nat)
  | failed (failure : Failure J)

structure Operation where
  method : Method
  func : String
  args : List J.Val
  pc : OperationPc J

structure RoutingClient where
  client : Client J
  isRegistry : Bool
  routeCache : AList fun _ : String => String
  workerClients : AList fun _ : String => Nat
  workers : List (Worker J)
  operations : List (Operation J)

end

variable {J : Js}

/-- `func.startsWith('callwire.')`. -/
def isInternal (func : String) : Bool := "callwire.".toList.isPrefixOf func.toList

namespace RoutingClient

def init (reconnect : Bool) (timeout : Nat) : RoutingClient J where
  client := .init reconnect timeout
  isRegistry := false
  routeCache := ∅
  workerClients := ∅
  workers := []
  operations := []

/-- The second part of `_resolveWorker`. -/
def findWorker (r : RoutingClient J) (addr : String) : RoutingClient J × OperationPc J :=
  match r.workerClients.lookup addr with
  | some w => (r, .ready (some w))
  | none =>
    let client := Client.init r.client.link.reconnect r.client.timeout
    ({ r with
        workers := r.workers ++ [{ addr, client := client.connect addr .app, closed := false }] },
      .connecting r.workers.length)

/-- The first part of `_resolveWorker`. The empty string counts as absent. -/
def resolveWorker (r : RoutingClient J) (func : String) : RoutingClient J × OperationPc J :=
  if ¬ r.isRegistry ∨ isInternal func then (r, .ready none)
  else
    match r.routeCache.lookup func with
    | some addr => if addr = "" then (r, .asking) else r.findWorker addr
    | none => (r, .asking)

def start (r : RoutingClient J) (method : Method) (func : String) (args : List J.Val) :
    RoutingClient J :=
  let (r, pc) := r.resolveWorker func
  { r with operations := r.operations ++ [{ method, func, args, pc }] }

/-- The registry has answered. -/
def discovered (r : RoutingClient J) (func : String) :
    Settled J → RoutingClient J × OperationPc J
  | .rejected failure => (r, .failed failure)
  | .resolved addrs =>
    match J.strings addrs with
    | [] =>
      (r, .failed (.callwire "NotFoundError"
        (J.str ("function '" ++ func ++ "' not found in registry"))))
    | addr :: _ => { r with routeCache := r.routeCache.insert func addr }.findWorker addr

/-- The connection of worker `w` is made, or has failed. -/
def workerConnected (r : RoutingClient J) (w : Nat) : Option (RoutingClient J × OperationPc J) :=
  match r.workers[w]? with
  | none => none
  | some worker =>
    match worker.client.link.sockets.head?.map Sock.phase with
    | some .opened =>
      some ({ r with workerClients := r.workerClients.insert worker.addr w }, .ready (some w))
    | some .failed => some (r, .failed .socket)
    | _ => none

/-- A call of the client itself, or of a worker. -/
def invoke (r : RoutingClient J) (worker : Option Nat) (method : Method) (func : String)
    (args : List J.Val) : Option (RoutingClient J × Except (Failure J) Nat) :=
  match worker with
  | none =>
    let (client, result) := r.client.invoke method func args
    some ({ r with client }, result)
  | some w =>
    match r.workers[w]? with
    | none => none
    | some worker =>
      let (client, result) := worker.client.invoke method func args
      some ({ r with workers := r.workers.set w { worker with client } }, result)

/-- An operation goes on. -/
def operationStep (r : RoutingClient J) (op : Operation J) :
    Option (RoutingClient J × OperationPc J) :=
  match op.pc with
  | .asking =>
    match r.invoke none .call "callwire.discover" [J.str op.func] with
    | some (r, .ok id) => some (r, .discovering id)
    | some (r, .error failure) => some (r, .failed failure)
    | none => none
  | .discovering id => (r.client.promise id).map (r.discovered op.func)
  | .connecting w => r.workerConnected w
  | .ready worker =>
    match r.invoke worker op.method op.func op.args with
    | some (r, .ok id) => some (r, .running worker id)
    | some (r, .error failure) => some (r, .failed failure)
    | none => none
  | .running .. | .failed _ => none

def closeWorker (worker : Worker J) : Worker J :=
  { worker with client := worker.client.close, closed := true }

/-- `close`. -/
def close (r : RoutingClient J) : RoutingClient J :=
  { r with
    client := r.client.close
    workers := r.workers.mapIdx fun w worker =>
      if r.workerClients.lookup worker.addr = some w then closeWorker worker else worker
    workerClients := ∅
    routeCache := ∅ }

inductive Label (J : Js) where
  | connect (addr : String)
  | connectRegistry (addr : String)
  /-- `connectRegistry` goes on when socket `s` is connected -/
  | routed (s : Nat)
  | start (method : Method) (func : String) (args : List J.Val)
  | operation (i : Nat)
  | client (e : Event J)
  | worker (w : Nat) (e : Event J)
  | close

def step (r : RoutingClient J) : Label J → Option (RoutingClient J)
  | .connect addr => some { r with client := r.client.connect addr .app }
  | .connectRegistry addr => some { r with client := r.client.connect addr .registry }
  | .routed s =>
    match r.client.link.sockets[s]? with
    | some sock =>
      if sock.owner = .registry ∧ sock.phase = .opened then some { r with isRegistry := true }
      else none
    | none => none
  | .start method func args => some (r.start method func args)
  | .operation i => do
    let op ← r.operations[i]?
    let (r, pc) ← r.operationStep op
    return { r with operations := r.operations.set i { op with pc } }
  | .client e => do
    let client ← r.client.event e
    return { r with client }
  | .worker w e => do
    let worker ← r.workers[w]?
    let client ← worker.client.event e
    return { r with workers := r.workers.set w { worker with client } }
  | .close => some r.close

end RoutingClient

end Callwire.Ts
