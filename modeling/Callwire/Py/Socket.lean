import Callwire.Lib.Pieces
import Callwire.Py.Server

/-!
# The socket of a connection (`framing.py`)

`write_frame` takes no lock and `sendall` is a loop of partial sends, so that a thread still has
bytes to send (`rest`) while the others go on. The read loop is thread `none` and streaming call `k`
is thread `some k`. `sent` are the bytes on the connection, and `begun` is the record of the calls
of `write_frame`, a frame each. The connection takes all that is written while it is open.
-/

namespace Callwire.Py

open Lib

variable {P : Python}

/-- The thread that moves. -/
def ServerLabel.thread : ServerLabel P → Option Nat
  | .stream k _ => some k
  | _ => none

structure Socket (P : Python) where
  conn : ServerConn P
  rest : Option Nat → Bytes
  begun : List (WireMessage P)
  sent : Bytes

inductive SocketLabel (P : Python) where
  | move (l : ServerLabel P)
  /-- the kernel takes `n` bytes of thread `t` -/
  | send (t : Option Nat) (n : Nat)

namespace Socket

def init : Socket P := ⟨.init, fun _ => [], [], []⟩

/-- The frames that a move from `c` to `c'` has written. -/
def written (c c' : ServerConn P) : List (WireMessage P) := c'.wire.drop c.wire.length

/-- `pack` is the codec. -/
def step (registry : String → Option (Fn P)) (pack : WireMessage P → Bytes) (s : Socket P) :
    SocketLabel P → Option (Socket P)
  | .move l =>
    -- a thread that is in `sendall` does nothing else
    if s.rest l.thread = [] then
      (s.conn.step registry l).map fun c =>
        { s with
          conn := c
          rest := Function.update s.rest l.thread ((written s.conn c).flatMap (frame ∘ pack))
          begun := s.begun ++ written s.conn c }
    else none
  | .send t n =>
    if 0 < n ∧ n ≤ (s.rest t).length ∧ s.conn.isOpen then
      some { s with
        rest := Function.update s.rest t ((s.rest t).drop n)
        sent := s.sent ++ (s.rest t).take n }
    else none

end Socket

end Callwire.Py
