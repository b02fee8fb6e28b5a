import Callwire.Lib.Frames
import Callwire.Lib.Transition

/-!
# Frames on a server connection (`framing.rs`, `server.rs`)

`Connection` is the read loop of `handle_connection` at the level of bytes: what has come in on the
socket, the `read_frame` future that takes it, and the payloads that were processed. `select!` has
two branches: the future takes bytes as they arrive (`Label.read`), and `shutdown_rx.changed()`
completes when the watched value was changed or its sender is gone. A branch that loses is dropped:
the next turn of the loop makes a new `read_frame`.
-/

namespace Callwire.Rust.Framing

open Lib

/-- The receiver of the shutdown flag: the value, whether it has changed since it was last seen, and
whether the sender is still there. -/
structure Watch where
  value : Bool
  unseen : Bool
  sender : Bool
  deriving DecidableEq

structure Connection where
  /-- all bytes that have come in -/
  stream : Bytes
  /-- those that nobody has read -/
  unread : Bytes
  /-- how far the `read_frame` of this turn is -/
  reader : FrameReader
  payloads : List Bytes
  watch : Watch
  running : Bool
  deriving DecidableEq

def Connection.init : Connection where
  stream := []
  unread := []
  reader := .start
  payloads := []
  watch := ⟨false, false, true⟩
  running := true

inductive Label where
  /-- a piece of the client's bytes comes in -/
  | arrive (piece : Bytes)
  /-- `read_frame` takes a byte -/
  | read
  /-- `read_frame` fails: the client has closed its end -/
  | eof
  /-- `shutdown_rx.changed()` completes -/
  | changed
  /-- `ServerHandle::close` -/
  | close
  /-- the `ServerHandle` is dropped -/
  | dropHandle

/-- A turn of `select!` whose `read_frame` has completed ends with the payload processed. -/
def Connection.read (c : Connection) (b : Byte) (unread : Bytes) : Connection :=
  match c.reader.push b with
  | (reader, none) => { c with unread, reader }
  | (reader, some payload) => { c with unread, reader, payloads := c.payloads ++ [payload] }

def step (c : Connection) : Label → Option Connection
  | .arrive piece => some { c with stream := c.stream ++ piece, unread := c.unread ++ piece }
  | .read =>
    match c.running, c.unread with
    | true, b :: unread => some (c.read b unread)
    | _, _ => none
  | .eof => if c.running = true ∧ c.unread = [] then some { c with running := false } else none
  | .changed =>
    if c.running = true ∧ (c.watch.unseen = true ∨ c.watch.sender = false) then
      if c.watch.value then some { c with watch.unseen := false, running := false }
      else some { c with watch.unseen := false, reader := .start }
    else none
  | .close =>
    if c.watch.sender then some { c with watch := ⟨true, true, false⟩ } else none
  | .dropHandle =>
    if c.watch.sender then some { c with watch.sender := false } else none

end Callwire.Rust.Framing
