import Callwire.Lib.Grouping
import Callwire.Py.Client
import Mathlib.Data.List.AList

/-!
# The routing of the Python client (`client.py`)

A client that is connected to a registry sends its calls to workers: `_resolve_worker` asks the
registry for an address, connects a `Client` to it and keeps it. `Router` is the registry state of
such a client. `resolutions` are the calls of `_resolve_worker`, by `batch` and by other calls, and
`batches` those of `batch`. The registry's answers are labels: an answer that is no list of
addresses counts as the empty one. `workers` holds every worker client that was ever connected, in
this order; they have no registry. `nested` is a record of a batch: the numbers that its calls of
`worker.batch` have in their workers.
-/

namespace Callwire.Py

open Lib

inductive ResolvePc where
  /-- at `self._route_cache.get(func)` -/
  | asking
  /-- in `self.call("callwire.discover", [func])` -/
  | discovering
  /-- at `addr not in self._worker_clients` -/
  | checking (addr : String)
  /-- from the split of the address to the end of `wc.connect` -/
  | connecting (addr : String)
  /-- at `self._worker_clients[addr] = wc` -/
  | storing (addr : String) (w : Nat)
  /-- at `return self._worker_clients[addr]` -/
  | fetching (addr : String)
  | resolved (worker : Option Nat)
  | raised (e : Exn)
  deriving DecidableEq

structure Resolution where
  func : String
  pc : ResolvePc

/-- `func.startswith("callwire.")` -/
def isInternal (func : String) : Bool := "callwire.".toList.isPrefixOf func.toList

/-- The beginning of `_resolve_worker`. -/
def Resolution.start (func : String) : Resolution where
  func := func
  pc := if isInternal func then .resolved none else .asking

inductive RoutedPc where
  /-- in `_resolve_worker` for call `idx`, which is resolution `res` -/
  | resolving (idx res : Nat)
  /-- at `worker.batch` for group `k`, or behind the last group -/
  | calling (k : Nat)
  /-- in `worker.batch` for group `k` -/
  | waiting (k : Nat)
  | returned
  | raised (e : Exn)
  deriving DecidableEq

section
variable (P : Python)

structure RoutedBatch where
  calls : List (Call P)
  workerCalls : List (Nat × List (Nat × Call P))
  nested : List Nat
  results : List P.Val
  pc : RoutedPc

structure Router where
  routeCache : AList fun _ : String => String
  workerClients : AList fun _ : String => Nat
  workers : List (Client P)
  resolutions : List Resolution
  batches : List (RoutedBatch P)

inductive ResolveLabel where
  | go
  | answer (addrs : Except Exn (List String))
  | dial (fail : Option Exn)

inductive RouterLabel where
  /-- a call other than `batch` begins to resolve its worker -/
  | resolve (func : String)
  | resolution (i : Nat) (l : ResolveLabel)
  | worker (w : Nat) (l : Label P)
  /-- the last line of `close`; it closes each worker before -/
  | clear
  | batch (calls : List (Call P))
  /-- a move of batch `i` -/
  | go (i : Nat)

end

namespace Router

variable {P : Python}

def init : Router P where
  routeCache := ∅
  workerClients := ∅
  workers := []
  resolutions := []
  batches := []

/-- A move of `_resolve_worker`. -/
def resolveStep (r : Router P) (res : Resolution) (l : ResolveLabel) :
    Option (Router P × ResolvePc) :=
  match res.pc, l with
  | .asking, .go =>
    match r.routeCache.lookup res.func with
    | some addr => some (r, if addr = "" then .discovering else .checking addr)
    | none => some (r, .discovering)
  | .discovering, .answer (.error e) => some (r, .raised e)
  | .discovering, .answer (.ok []) =>
    some (r, .raised ⟨"CallwireError",
      "NotFoundError: function '" ++ res.func ++ "' not found in registry"⟩)
  | .discovering, .answer (.ok (addr :: _)) =>
    some ({ r with routeCache := r.routeCache.insert res.func addr }, .checking addr)
  | .checking addr, .go =>
    some (r, if addr ∈ r.workerClients then .fetching addr else .connecting addr)
  | .connecting _, .dial (some e) => some (r, .raised e)
  | .connecting addr, .dial none =>
    some ({ r with workers := r.workers ++ [.init] }, .storing addr r.workers.length)
  | .storing addr w, .go =>
    some ({ r with workerClients := r.workerClients.insert addr w }, .fetching addr)
  | .fetching addr, .go =>
    match r.workerClients.lookup addr with
    | some w => some (r, .resolved (some w))
    | none => some (r, .raised ⟨"KeyError", "'" ++ addr ++ "'"⟩)
  | _, _ => none

/-- The batch goes on with call `idx`, or with the first group. -/
def resolveNext (r : Router P) (b : RoutedBatch P) (idx : Nat) : Router P × RoutedBatch P :=
  match b.calls[idx]? with
  | some call =>
    ({ r with resolutions := r.resolutions ++ [.start call.func] },
      { b with pc := .resolving idx r.resolutions.length })
  | none => (r, { b with pc := .calling 0 })

/-- `batch`, up to its first wait. -/
def startBatch (r : Router P) (calls : List (Call P)) : Router P :=
  let (r, b) := r.resolveNext
    { calls, workerCalls := [], nested := [], results := .replicate calls.length P.None,
      pc := .calling 0 } 0
  { r with batches := r.batches ++ [b] }

section
variable (imports : List CodecName) (reconnect : Bool)

/-- A move of `batch`. -/
def batchStep (r : Router P) (b : RoutedBatch P) : Option (Router P × RoutedBatch P) :=
  match b.pc with
  | .resolving idx res => do
    let res ← r.resolutions[res]?
    match res.pc with
    | .resolved (some w) =>
      let call ← b.calls[idx]?
      some (r.resolveNext { b with workerCalls := addTo w (idx, call) b.workerCalls } (idx + 1))
    | .resolved none =>
      some (r, { b with pc := .raised ⟨"ConnectionError", "routing resolved to empty worker"⟩ })
    | .raised e => some (r, { b with pc := .raised e })
    | _ => none
  | .calling k =>
    match b.workerCalls[k]? with
    | none => some (r, { b with pc := .returned })
    | some (w, items) => do
      let c ← r.workers[w]?
      match c.step imports reconnect (.batch (items.map Prod.snd)) with
      | some c' =>
        some ({ r with workers := r.workers.set w c' },
          { b with nested := b.nested ++ [c.ops.length], pc := .waiting k })
      | none => some (r, { b with pc := .raised ⟨"ConnectionError", "not connected"⟩ })
  | .waiting k => do
    let (w, items) ← b.workerCalls[k]?
    let c ← r.workers[w]?
    let op ← (b.nested[k]?).bind (c.ops[·]?)
    match op.pc with
    | .finished .returned =>
      let results := scatter b.results ((items.map Prod.fst).zip op.results)
      some (r, { b with results, pc := .calling (k + 1) })
    | .finished (.raised e) => some (r, { b with pc := .raised e })
    | _ => none
  | .returned | .raised _ => none

def step (r : Router P) : RouterLabel P → Option (Router P)
  | .resolve func => some { r with resolutions := r.resolutions ++ [.start func] }
  | .resolution i l => do
    let res ← r.resolutions[i]?
    let (r', pc) ← r.resolveStep res l
    some { r' with resolutions := r'.resolutions.set i { res with pc } }
  | .worker w l => do
    let c ← r.workers[w]?
    let c' ← c.step imports reconnect l
    some { r with workers := r.workers.set w c' }
  | .clear => some { r with workerClients := ∅ }
  | .batch calls => some (r.startBatch calls)
  | .go i => do
    let b ← r.batches[i]?
    let (r', b') ← r.batchStep imports reconnect b
    some { r' with batches := r'.batches.set i b' }

end

end Router

end Callwire.Py
