import Callwire.C.MpackReader
import Callwire.Lib.Pieces

/-!
# Framing (`framing.c`)

A frame is a 4-byte big-endian length and the payload. `callwireFramingWriteFrame` gives the bytes
that the two `send_all` calls hand to the socket, `callwireFramingSendFrame` sends them in pieces.
`callwireFramingReadFrame` reads a frame to its end. `FrameReader` is the same reader as a machine:
where its two `recv_all` loops stand, `want` the length of the next `recv`, and `feed` what the
reader does with the bytes that call returned.
-/

namespace Callwire.C

open Lib

def callwireMaxFrameSize : Nat := 16 * 1024 * 1024

/-- The four header bytes. -/
def frameHeader (len : Nat) : Bytes :=
  [BitVec.ofNat 8 ((len >>> 24) &&& 0xFF), BitVec.ofNat 8 ((len >>> 16) &&& 0xFF),
    BitVec.ofNat 8 ((len >>> 8) &&& 0xFF), BitVec.ofNat 8 (len &&& 0xFF)]

/-- The bytes to send, `none` for a payload the writer refuses (return value -1). -/
def callwireFramingWriteFrame (payload : Bytes) : Option Bytes :=
  if payload.length > callwireMaxFrameSize then none
  else some (frameHeader payload.length ++ payload)

/-- Where `callwire_framing_read_frame` stands: in the header, or in a payload of `len` bytes. -/
inductive FrameReader where
  | header (got : Bytes)
  | body (len : BitVec 32) (got : Bytes)
  deriving DecidableEq

/-- What the reader is after some more bytes. -/
inductive ReadFrame where
  | more (r : FrameReader)
  | done (payload : Payload)
  | fail

namespace FrameReader

def start : FrameReader := .header []

/-- The bytes the current `recv_all` still needs. -/
def want : FrameReader → Nat
  | .header got => 4 - got.length
  | .body len got => len.toNat - got.length

/-- `header[0] << 24 | header[1] << 16 | header[2] << 8 | header[3]`. -/
def headerLen (h : Bytes) : BitVec 32 :=
  match h with
  | [h0, h1, h2, h3] =>
    (h0.setWidth 32 <<< 24) ||| (h1.setWidth 32 <<< 16) ||| (h2.setWidth 32 <<< 8) |||
      h3.setWidth 32
  | _ => 0

theorem take_len_lt (len : BitVec 32) (got : Bytes) : (got.take len.toNat).length < 2 ^ 63 := by
  have := len.isLt
  rw [List.length_take]
  omega

/-- A `recv` returned `bs` (at most `want` bytes). -/
def feed (bs : Bytes) : FrameReader → ReadFrame
  | .header got =>
    if (got ++ bs).length < 4 then .more (.header (got ++ bs))
    else
      let len := headerLen (got ++ bs)
      if len.toNat > callwireMaxFrameSize then .fail
      else if len = 0 then .done .null
      else .more (.body len [])
  | .body len got =>
    if (got ++ bs).length < len.toNat then .more (.body len (got ++ bs))
    else .done (.mem ((got ++ bs).take len.toNat) (take_len_lt len (got ++ bs)))

end FrameReader

/-! ## Whole calls -/

/-- The two `send_all` loops; `none` is -1. -/
def callwireFramingSendFrame (cut : Nat → Nat) (payload : Bytes) (s : Sink) : Option Sink :=
  if payload.length > callwireMaxFrameSize then none
  else
    let s := s.writeAll cut (frameHeader payload.length)
    some (if payload.length > 0 then s.writeAll cut payload else s)

/-- The two `recv_all` loops, where `malloc` succeeds; `none` is -1. -/
def callwireFramingReadFrame (cut : Nat → Nat) (s : Source) : Option (Payload × Source) := do
  let (header, s) ← s.readAll cut 4
  let len := FrameReader.headerLen header
  if len.toNat > callwireMaxFrameSize then none
  else if len = 0 then some (.null, s)
  else
    let (payload, s) ← s.readAll cut len.toNat
    some (.mem (payload.take len.toNat) (FrameReader.take_len_lt len payload), s)

end Callwire.C
