import Callwire.Lib.Pieces

/-!
# Frames (`Framing.java`)

`readFrame` takes the bytes of a socket in the pieces that `InputStream.read` returns: one `read`
for the header and a loop for the payload. `none` is an exception.
-/

namespace Callwire.Java.Framing

open Lib

def writeFrame (payload : Bytes) : Bytes :=
  let len := payload.length
  [BitVec.ofNat 8 ((len >>> 24) &&& 0xFF), BitVec.ofNat 8 ((len >>> 16) &&& 0xFF),
    BitVec.ofNat 8 ((len >>> 8) &&& 0xFF), BitVec.ofNat 8 (len &&& 0xFF)] ++ payload

def readFrame (cut : Nat → Nat) (s : Source) : Option (Bytes × Source) :=
  match s.read cut 4 with
  | ([h0, h1, h2, h3], s) =>
    let len := (h0.setWidth 32 <<< 24) ||| (h1.setWidth 32 <<< 16) ||| (h2.setWidth 32 <<< 8) |||
      h3.setWidth 32
    if len.toInt < 0 ∨ len.toInt > 16 * 1024 * 1024 then none else s.readAll cut len.toNat
  -- `n != 4`: an `EOFException`, even if more bytes are to come
  | _ => none

end Callwire.Java.Framing
