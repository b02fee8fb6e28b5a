import Callwire.C.Grammar

/-!
# The msgpack reader (`mpack_stub.h`)

`Reader` is `mpack_reader_t`. Every access to the payload goes through `Reader.byte` or
`Reader.slice`, which end in `Fault.outOfBounds` when the index is not inside it: the code's bounds
checks are modelled as the code writes them, in 64-bit `size_t` arithmetic, and that they keep the
accesses inside is a theorem (`Callwire.C.Proof.DecodeMessage`). A pointer into the payload is its
offset, `NULL` is `none`.
-/

namespace Callwire.C

open Lib

/-- What a run of the decoder must not meet: a byte read outside the payload, a store through
`NULL`, and the end of the model's recursion depth. -/
inductive Fault where
  | outOfBounds
  | nullStore
  | outOfFuel
  deriving DecidableEq, Repr

/-- A payload pointer with its length: `NULL` only when empty, and no larger than an object can be
(`PTRDIFF_MAX`). -/
structure Payload where
  bytes : Bytes
  isNull : Bool
  null_empty : isNull = true → bytes = []
  small : bytes.length < 2 ^ 63

/-- The empty frame as `callwire_framing_read_frame` returns it. -/
def Payload.null : Payload := ⟨[], true, fun _ => rfl, by decide⟩

/-- A payload in memory. -/
def Payload.mem (bytes : Bytes) (h : bytes.length < 2 ^ 63) : Payload :=
  ⟨bytes, false, (nomatch ·), h⟩

/-- `mpack_reader_t`; `len` is the payload's length. -/
structure Reader where
  buf : Payload
  pos : Nat
  error : Bool

namespace Reader

def len (r : Reader) : Nat := r.buf.bytes.length

/-- The bytes not read yet. -/
def rest (r : Reader) : Bytes := r.buf.bytes.drop r.pos

/-- `r->buf[i]`. -/
def byte (r : Reader) (i : Nat) : Except Fault Byte :=
  match r.buf.bytes[i]? with
  | some b => .ok b
  | none => .error .outOfBounds

/-- The `n` bytes at offset `p`, as `memcpy` and `memcmp` read them. -/
def slice (r : Reader) (p n : Nat) : Except Fault Bytes :=
  if p + n ≤ r.len then .ok ((r.buf.bytes.drop p).take n) else .error .outOfBounds

/-- `r->error = 1`. -/
def fail (r : Reader) : Reader := { r with error := true }

/-- `r->pos += n`, in `size_t`. -/
def advance (r : Reader) (n : Nat) : Reader := { r with pos := (r.pos + n) % 2 ^ 64 }

/-- The bounds check `r->pos + n > r->len`, in `size_t`. -/
def lacks (r : Reader) (n : Nat) : Bool := decide ((r.pos + n) % 2 ^ 64 > r.len)

end Reader

def mpackReaderInit (buf : Payload) : Reader := ⟨buf, 0, false⟩

/-! ## Fixed-width reads -/

def mpackReadU8 (r : Reader) : Except Fault (BitVec 8 × Reader) :=
  if r.lacks 1 then .ok (0, r.fail) else do
    let b ← r.byte r.pos
    return (b, r.advance 1)

def mpackReadU16 (r : Reader) : Except Fault (BitVec 16 × Reader) :=
  if r.lacks 2 then .ok (0, r.fail) else do
    let b0 ← r.byte r.pos
    let b1 ← r.byte (r.pos + 1)
    return ((b0.setWidth 16 <<< 8) ||| b1.setWidth 16, r.advance 2)

def mpackReadU32 (r : Reader) : Except Fault (BitVec 32 × Reader) :=
  if r.lacks 4 then .ok (0, r.fail) else do
    let b0 ← r.byte r.pos
    let b1 ← r.byte (r.pos + 1)
    let b2 ← r.byte (r.pos + 2)
    let b3 ← r.byte (r.pos + 3)
    return ((b0.setWidth 32 <<< 24) ||| (b1.setWidth 32 <<< 16) ||| (b2.setWidth 32 <<< 8) |||
      b3.setWidth 32, r.advance 4)

def mpackReadU64 (r : Reader) : Except Fault (BitVec 64 × Reader) := do
  let (hi, r) ← mpackReadU32 r
  let (lo, r) ← mpackReadU32 r
  return ((hi.setWidth 64 <<< 32) ||| lo.setWidth 64, r)

/-- A pointer to the next `n` bytes, `none` (`NULL`) when there are fewer. -/
def mpackReadRaw (r : Reader) (n : Nat) : Except Fault (Option Nat × Reader) :=
  if r.lacks n then .ok (none, r.fail)
  else .ok (if r.buf.isNull then none else some r.pos, r.advance n)

/-- The next tag byte, not consumed; 0 at the end of the input. -/
def mpackPeekTag (r : Reader) : Except Fault (Byte × Reader) :=
  if r.pos ≥ r.len then .ok (0, r.fail) else do
    let b ← r.byte r.pos
    return (b, r)

/-! ## Typed reads

Each returns `none` where the source returns 0. -/

def mpackTryReadNil (r : Reader) : Except Fault (Bool × Reader) := do
  let (tag, r) ← mpackPeekTag r
  if tag = 0xC0 then return (true, r.advance 1)
  return (false, r)

def mpackTryReadBool (r : Reader) : Except Fault (Option (BitVec 32) × Reader) := do
  let (tag, r) ← mpackPeekTag r
  if tag = 0xC2 then return (some 0, r.advance 1)
  if tag = 0xC3 then return (some 1, r.advance 1)
  return (none, r)

/-- Any integer tag into an `int64_t`: unsigned reads are zero-extended, signed ones
sign-extended, a `uint64` keeps its bits. -/
def mpackTryReadInt64 (r : Reader) : Except Fault (Option (BitVec 64) × Reader) := do
  let (tag, r) ← mpackPeekTag r
  if tag ≤ 0x7F then return (some (tag.setWidth 64), r.advance 1)
  if tag ≥ 0xE0 then return (some (tag.signExtend 64), r.advance 1)
  if tag = 0xCC then
    let (v, r) ← mpackReadU8 (r.advance 1)
    return (some (v.setWidth 64), r)
  if tag = 0xCD then
    let (v, r) ← mpackReadU16 (r.advance 1)
    return (some (v.setWidth 64), r)
  if tag = 0xCE then
    let (v, r) ← mpackReadU32 (r.advance 1)
    return (some (v.setWidth 64), r)
  if tag = 0xCF then
    let (v, r) ← mpackReadU64 (r.advance 1)
    return (some v, r)
  if tag = 0xD0 then
    let (v, r) ← mpackReadU8 (r.advance 1)
    return (some (v.signExtend 64), r)
  if tag = 0xD1 then
    let (v, r) ← mpackReadU16 (r.advance 1)
    return (some (v.signExtend 64), r)
  if tag = 0xD2 then
    let (v, r) ← mpackReadU32 (r.advance 1)
    return (some (v.signExtend 64), r)
  if tag = 0xD3 then
    let (v, r) ← mpackReadU64 (r.advance 1)
    return (some v, r)
  return (none, r)

def mpackTryReadDouble (r : Reader) : Except Fault (Option (BitVec 64) × Reader) := do
  let (tag, r) ← mpackPeekTag r
  if tag = 0xCB then
    let (u, r) ← mpackReadU64 (r.advance 1)
    return (some u, r)
  if tag = 0xCA then
    let (u, r) ← mpackReadU32 (r.advance 1)
    return (some (floatToDouble u), r)
  return (none, r)

/-- The end of `mpack_try_read_str` and `mpack_try_read_bin`: `len` bytes of data, as a pointer and
a length. -/
def readData (len : Nat) (r : Reader) : Except Fault (Option (Nat × Nat) × Reader) := do
  let (p, r) ← mpackReadRaw r len
  return (p.map (·, len), r)

def mpackTryReadStr (r : Reader) : Except Fault (Option (Nat × Nat) × Reader) := do
  let (tag, r) ← mpackPeekTag r
  if tag &&& 0xE0 = 0xA0 then readData (tag &&& 0x1F).toNat (r.advance 1)
  else if tag = 0xD9 then
    let (len, r) ← mpackReadU8 (r.advance 1)
    readData len.toNat r
  else if tag = 0xDA then
    let (len, r) ← mpackReadU16 (r.advance 1)
    readData len.toNat r
  else if tag = 0xDB then
    let (len, r) ← mpackReadU32 (r.advance 1)
    readData len.toNat r
  else return (none, r)

def mpackTryReadBin (r : Reader) : Except Fault (Option (Nat × Nat) × Reader) := do
  let (tag, r) ← mpackPeekTag r
  if tag = 0xC4 then
    let (len, r) ← mpackReadU8 (r.advance 1)
    readData len.toNat r
  else if tag = 0xC5 then
    let (len, r) ← mpackReadU16 (r.advance 1)
    readData len.toNat r
  else if tag = 0xC6 then
    let (len, r) ← mpackReadU32 (r.advance 1)
    readData len.toNat r
  else return (none, r)

/-- The array and map headers: a count in the fix tag's low four bits, in 16 bits or in 32. -/
def tryReadCountHeader (fix tag16 tag32 : Byte) (r : Reader) :
    Except Fault (Option Nat × Reader) := do
  let (tag, r) ← mpackPeekTag r
  if tag &&& 0xF0 = fix then return (some (tag &&& 0x0F).toNat, r.advance 1)
  if tag = tag16 then
    let (count, r) ← mpackReadU16 (r.advance 1)
    return (some count.toNat, r)
  if tag = tag32 then
    let (count, r) ← mpackReadU32 (r.advance 1)
    return (some count.toNat, r)
  return (none, r)

def mpackTryReadArrayHeader (r : Reader) : Except Fault (Option Nat × Reader) :=
  tryReadCountHeader 0x90 0xDC 0xDD r

def mpackTryReadMapHeader (r : Reader) : Except Fault (Option Nat × Reader) :=
  tryReadCountHeader 0x80 0xDE 0xDF r

/-! ## Skipping -/

/-- `for (i = 0; i < n && !r->error; i++) skip(r)`. -/
def skipLoop (skip : Reader → Except Fault Reader) : Nat → Reader → Except Fault Reader
  | 0, r => .ok r
  | n + 1, r => if r.error then .ok r else skip r >>= skipLoop skip n

/-- `mpack_skip_value`, on a recursion depth. The counts are those of the header just peeked, so
the header read never returns `none` there. -/
def mpackSkipValue : Nat → Reader → Except Fault Reader
  | 0, _ => .error .outOfFuel
  | depth + 1, r =>
    if r.error ∨ r.pos ≥ r.len then .ok r.fail else do
      let tag ← r.byte r.pos
      if tag ≤ 0x7F ∨ tag ≥ 0xE0 then return r.advance 1
      if tag &&& 0xE0 = 0xA0 then
        let (_, r) ← mpackTryReadStr r
        return r
      if tag &&& 0xF0 = 0x90 then
        let (count, r) ← mpackTryReadArrayHeader r
        skipLoop (mpackSkipValue depth) (count.getD 0) r
      else if tag &&& 0xF0 = 0x80 then
        let (count, r) ← mpackTryReadMapHeader r
        skipLoop (fun r => mpackSkipValue depth r >>= mpackSkipValue depth) (count.getD 0) r
      else if tag = 0xC0 ∨ tag = 0xC2 ∨ tag = 0xC3 then return r.advance 1
      else if tag = 0xCC ∨ tag = 0xD0 then return (← mpackReadU8 (r.advance 1)).2
      else if tag = 0xCD ∨ tag = 0xD1 then return (← mpackReadU16 (r.advance 1)).2
      else if tag = 0xCE ∨ tag = 0xD2 ∨ tag = 0xCA then return (← mpackReadU32 (r.advance 1)).2
      else if tag = 0xCF ∨ tag = 0xD3 ∨ tag = 0xCB then return (← mpackReadU64 (r.advance 1)).2
      else if tag = 0xC4 ∨ tag = 0xC5 ∨ tag = 0xC6 then return (← mpackTryReadBin r).2
      else if tag = 0xD9 ∨ tag = 0xDA ∨ tag = 0xDB then return (← mpackTryReadStr r).2
      else if tag = 0xDC ∨ tag = 0xDD then
        let (count, r) ← mpackTryReadArrayHeader r
        skipLoop (mpackSkipValue depth) (count.getD 0) r
      else if tag = 0xDE ∨ tag = 0xDF then
        let (count, r) ← mpackTryReadMapHeader r
        skipLoop (fun r => mpackSkipValue depth r >>= mpackSkipValue depth) (count.getD 0) r
      else return r.fail

end Callwire.C
