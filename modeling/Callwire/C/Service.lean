import Mathlib.Logic.Function.Basic
import Callwire.C.Server

/-!
# The server as a whole (`server.c`)

`Service` is the accept loop of `callwire_server_serve`, the connections it has handed to
`handle_connection`, a call of `callwire_server_close` and the descriptor table of the process. A
connection is one of `Callwire.C.Server`, with the descriptor its `conn_state_t` keeps: the frames
it writes go to the connection that the table has for the number at that time. A number that
`close` has given back is free, and `accept` may return it again. A write to a free number fails.

`alive` is whether the `callwire_server` structure is allocated. Reads of it go through `read`,
which records those that come too late.
-/

namespace Callwire.C

/-- Where `callwire_server_serve` stands. -/
inductive ServePc where
  /-- before `while (server->running)` -/
  | test
  /-- before the call of `accept` -/
  | accept
  /-- inside `accept` -/
  | accepting
  /-- `accept` has failed, `!server->running` comes next -/
  | recheck
  | returned
  deriving DecidableEq, Repr

/-- What is read of the server structure. -/
inductive Access where
  | running
  | listenSock
  /-- `registry_mu` and the entries, in `find_handler` -/
  | registry
  deriving DecidableEq, Repr

/-- A connection with its descriptor. `returned` once `handle_connection` is through. -/
structure Peer where
  fd : Nat
  conn : Conn
  returned : Bool

/-- A frame that connection `source` wrote and that went to connection `target`. -/
structure Delivery where
  source : Nat
  target : Nat
  frame : Outgoing

/-- Connections are numbered in the order in which they were accepted; `fds` is the descriptor
table. -/
structure Service where
  alive : Bool
  running : Bool
  serve : ServePc
  peers : List Peer
  fds : Nat → Option Nat
  delivered : List Delivery
  stale : List Access

namespace Service

def init : Service := ⟨true, true, .test, [], fun _ => none, [], []⟩

def read (s : Service) (a : Access) : Service :=
  if s.alive then s else { s with stale := s.stale ++ [a] }

/-- The read loop calls `find_handler` in this step, and copies the name of the entry it found. -/
def looksUp (c : Conn) : Label → Bool
  | .loop _ =>
    match c.loop with
    | .request msg => msg.func.isSome
    | _ => false
  | _ => false

/-- Connection `k` becomes `conn`. What this step wrote goes where the descriptor leads. -/
def advance (s : Service) (k : Nat) (peer : Peer) (conn : Conn) : Option Service :=
  let new := conn.out.drop peer.conn.out.length
  let peers := s.peers.set k { peer with conn }
  match s.fds peer.fd with
  | some target => some { s with peers, delivered := s.delivered ++ new.map (⟨k, target, ·⟩) }
  | none => if new.isEmpty then some { s with peers } else none

/-- A new connection under a free number; `created` is whether its thread could be started, and if
not the number is given back at once. -/
def accepted (s : Service) (fd : Nat) (created : Bool) : Service :=
  if created then
    { s with
      peers := s.peers ++ [⟨fd, .init, false⟩]
      fds := Function.update s.fds fd (some s.peers.length)
      serve := .test }
  else { s with serve := .test }

/-- `close(sockfd)` at the end of `handle_connection`. -/
def hangUp (s : Service) (k : Nat) (peer : Peer) : Service :=
  { s with
    peers := s.peers.set k { peer with returned := true }
    fds := Function.update s.fds peer.fd none }

/-- Who moves. -/
inductive Event where
  | test
  | enter
  | accepted (fd : Nat) (created : Bool)
  | acceptFailed
  | recheck
  | conn (k : Nat) (l : Label)
  | hangUp (k : Nat)
  /-- `callwire_server_close` up to `close(listen_sock)` -/
  | stop
  /-- the rest of it: the registry and the structure are freed -/
  | release

/-- One step under the exported `entries`. -/
def step (entries : List Entry) (s : Service) : Event → Option Service
  | .test =>
    match s.serve with
    | .test => some { s.read .running with serve := if s.running then .accept else .returned }
    | _ => none
  | .enter =>
    match s.serve with
    | .accept => some { s.read .listenSock with serve := .accepting }
    | _ => none
  | .accepted fd created =>
    match s.serve, s.fds fd with
    | .accepting, none => some (s.accepted fd created)
    | _, _ => none
  | .acceptFailed =>
    match s.serve with
    | .accepting => some { s with serve := .recheck }
    | _ => none
  | .recheck =>
    match s.serve with
    | .recheck => some { s.read .running with serve := if s.running then .test else .returned }
    | _ => none
  | .conn k l => do
    let peer ← s.peers[k]?
    let conn ← C.step entries peer.conn l
    let s := if looksUp peer.conn l then s.read .registry else s
    s.advance k peer conn
  | .hangUp k => do
    let peer ← s.peers[k]?
    match peer.conn.loop, peer.returned with
    | .closed, false => some (s.hangUp k peer)
    | _, _ => none
  | .stop => if s.alive && s.running then some { s with running := false } else none
  | .release => if s.alive && !s.running then some { s with alive := false } else none

end Service

end Callwire.C
