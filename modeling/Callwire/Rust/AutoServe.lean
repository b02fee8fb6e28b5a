import Callwire.Lib.Transition

/-!
# The auto-serve state of the Rust server (`server.rs`)

`AutoServe` is the static `AUTO_SERVE_TX` with the servers so far: the tasks (or threads) of
`spawn_auto_serve_if_idle` and the calls of `auto_serve`. Each has a watch channel of its own, so
the number of a server says whose sender is stored. Only `close` takes a sender out, and sends
`true` first. A critical section of the mutex is one move, and so are a `bind` and a round of
`run_accept_loop`, with their results in the labels. The connections are left out.
-/

namespace Callwire.Rust

inductive ServerPc where
  /-- the task of `spawn_auto_serve_if_idle`, until `bind` has returned -/
  | binding
  /-- `auto_serve` at its `bind` -/
  | preparing
  /-- `auto_serve` with its listener, at the second look at `AUTO_SERVE_TX` -/
  | bound
  /-- `auto_serve` at `tokio::spawn` -/
  | starting
  /-- in `run_accept_loop` -/
  | accepting
  | ended
  deriving DecidableEq

structure AutoServe where
  tx : Option Nat
  servers : List ServerPc

inductive ServerLabel where
  | bind (ok : Bool)
  | store
  | spawn
  | accept (ok : Bool)
  /-- `rx.changed()` -/
  | changed

inductive AutoServeLabel where
  /-- a `register_*`, with `CALLWIRE_AUTO` and `CALLWIRE_SPAWNED` -/
  | register (auto spawned : Option String)
  /-- a call of `auto_serve`, with `CALLWIRE_AUTO` -/
  | autoServe (auto : Option String)
  | close
  | server (k : Nat) (l : ServerLabel)

namespace AutoServe

def init : AutoServe := ⟨none, []⟩

def spawnAutoServeIfIdle (s : AutoServe) (auto spawned : Option String) : AutoServe :=
  if s.tx.isSome then s
  else if auto.getD "" = "0" ∨ spawned = some "1" then s
  else ⟨some s.servers.length, s.servers ++ [.binding]⟩

/-- `auto_serve` up to its `bind`. -/
def autoServe (s : AutoServe) (auto : Option String) : AutoServe :=
  if s.tx.isSome then s
  else if auto.getD "" = "0" then s
  else { s with servers := s.servers ++ [.preparing] }

def goto (s : AutoServe) (k : Nat) (pc : ServerPc) : AutoServe :=
  { s with servers := s.servers.set k pc }

def serverStep (s : AutoServe) (k : Nat) : ServerPc → ServerLabel → Option AutoServe
  | .binding, .bind ok => some (s.goto k (if ok then .accepting else .ended))
  | .preparing, .bind ok => some (s.goto k (if ok then .bound else .ended))
  | .bound, .store =>
    if s.tx.isSome then some (s.goto k .ended) else some { s.goto k .starting with tx := some k }
  | .starting, .spawn => some (s.goto k .accepting)
  | .accepting, .accept ok => some (if ok then s else s.goto k .ended)
  | .accepting, .changed => if s.tx = some k then none else some (s.goto k .ended)
  | _, _ => none

def step (s : AutoServe) : AutoServeLabel → Option AutoServe
  | .register auto spawned => some (s.spawnAutoServeIfIdle auto spawned)
  | .autoServe auto => some (s.autoServe auto)
  | .close => some { s with tx := none }
  | .server k l => s.servers[k]?.bind fun pc => s.serverStep k pc l

end AutoServe

end Callwire.Rust
