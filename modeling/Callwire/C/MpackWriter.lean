import Callwire.C.Value

/-!
# The msgpack writer (`mpack_stub.h`)

`Writer` is `mpack_writer_t`: the bytes written so far (their number is `pos`), the capacity, which
they never exceed, and the sticky overflow flag. A write that does not fit writes nothing and sets
the flag; later, smaller writes still go through. `pos + len` is taken in `Nat`: the capacity is at
most 64 MiB and `len` is the size of an object in memory, so the sum does not wrap.
-/

namespace Callwire.C

open Lib

/-- `mpack_writer_t`. -/
structure Writer where
  buf : Bytes
  cap : Nat
  overflow : Bool
  inside : buf.length ≤ cap

def Writer.pos (w : Writer) : Nat := w.buf.length

def mpackWriterInit (cap : Nat) : Writer := ⟨[], cap, false, Nat.zero_le _⟩

def mpackWriteRaw (w : Writer) (data : Bytes) : Writer :=
  if h : w.pos + data.length > w.cap then { w with overflow := true }
  else { w with buf := w.buf ++ data, inside := List.length_append ▸ Nat.not_lt.1 h }

def mpackWriteU8 (w : Writer) (v : BitVec 8) : Writer := mpackWriteRaw w [v]

def mpackWriteU16 (w : Writer) (v : BitVec 16) : Writer :=
  mpackWriteRaw w [(v >>> 8).setWidth 8, v.setWidth 8]

def mpackWriteU32 (w : Writer) (v : BitVec 32) : Writer :=
  mpackWriteRaw w
    [(v >>> 24).setWidth 8, (v >>> 16).setWidth 8, (v >>> 8).setWidth 8, v.setWidth 8]

def mpackWriteU64 (w : Writer) (v : BitVec 64) : Writer :=
  mpackWriteU32 (mpackWriteU32 w ((v >>> 32).setWidth 32)) (v.setWidth 32)

def mpackWriteNil (w : Writer) : Writer := mpackWriteU8 w 0xC0

def mpackWriteBool (w : Writer) (val : BitVec 32) : Writer :=
  mpackWriteU8 w (if val ≠ 0 then 0xC3 else 0xC2)

def mpackWriteInt64 (w : Writer) (v : BitVec 64) : Writer :=
  if v.toInt ≥ 0 ∧ v.toInt ≤ 0x7F then
    mpackWriteU8 w (v.setWidth 8)  -- positive fixint
  else if v.toInt < 0 ∧ v.toInt ≥ -32 then
    mpackWriteU8 w ((0xE0#64 ||| (v &&& 0x1F#64)).setWidth 8)  -- negative fixint
  else if v.toInt ≥ 0 then
    if v.toInt ≤ 0xFF then mpackWriteU8 (mpackWriteU8 w 0xCC) (v.setWidth 8)
    else if v.toInt ≤ 0xFFFF then mpackWriteU16 (mpackWriteU8 w 0xCD) (v.setWidth 16)
    else if v.toInt ≤ 0xFFFFFFFF then mpackWriteU32 (mpackWriteU8 w 0xCE) (v.setWidth 32)
    else mpackWriteU64 (mpackWriteU8 w 0xCF) v
  else
    if v.toInt ≥ -128 then mpackWriteU8 (mpackWriteU8 w 0xD0) (v.setWidth 8)
    else if v.toInt ≥ -32768 then mpackWriteU16 (mpackWriteU8 w 0xD1) (v.setWidth 16)
    else if v.toInt ≥ -2147483648 then mpackWriteU32 (mpackWriteU8 w 0xD2) (v.setWidth 32)
    else mpackWriteU64 (mpackWriteU8 w 0xD3) v

/-- The double's 64 bits, as the union in the source reads them. -/
def mpackWriteDouble (w : Writer) (v : BitVec 64) : Writer := mpackWriteU64 (mpackWriteU8 w 0xCB) v

def mpackWriteStr (w : Writer) (str : Bytes) : Writer :=
  let len := str.length
  mpackWriteRaw
    (if len < 32 then mpackWriteU8 w (BitVec.ofNat 8 (0xA0 ||| len))
     else if len ≤ 0xFF then mpackWriteU8 (mpackWriteU8 w 0xD9) (BitVec.ofNat 8 len)
     else if len ≤ 0xFFFF then mpackWriteU16 (mpackWriteU8 w 0xDA) (BitVec.ofNat 16 len)
     else mpackWriteU32 (mpackWriteU8 w 0xDB) (BitVec.ofNat 32 len))
    str

def mpackWriteBin (w : Writer) (data : Bytes) : Writer :=
  let len := data.length
  mpackWriteRaw
    (if len ≤ 0xFF then mpackWriteU8 (mpackWriteU8 w 0xC4) (BitVec.ofNat 8 len)
     else if len ≤ 0xFFFF then mpackWriteU16 (mpackWriteU8 w 0xC5) (BitVec.ofNat 16 len)
     else mpackWriteU32 (mpackWriteU8 w 0xC6) (BitVec.ofNat 32 len))
    data

/-- The array and map headers: `count` in the fix tag's low four bits, in 16 bits or in 32. -/
def writeCountHeader (fix tag16 tag32 : Byte) (w : Writer) (count : BitVec 32) : Writer :=
  if count.toNat < 16 then mpackWriteU8 w ((fix.setWidth 32 ||| count).setWidth 8)
  else if count.toNat ≤ 0xFFFF then mpackWriteU16 (mpackWriteU8 w tag16) (count.setWidth 16)
  else mpackWriteU32 (mpackWriteU8 w tag32) count

def mpackWriteArrayHeader (w : Writer) (count : BitVec 32) : Writer :=
  writeCountHeader 0x90 0xDC 0xDD w count

def mpackWriteMapHeader (w : Writer) (count : BitVec 32) : Writer :=
  writeCountHeader 0x80 0xDE 0xDF w count

end Callwire.C
