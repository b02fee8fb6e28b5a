import Callwire.C.MpackWriter
import Callwire.C.MpackReader

/-!
# The codec (`codec.c`)

The encoders write into a buffer that grows from 4 KiB by doubling, up to 64 MiB
(`encodeWithGrowth`); `callwireCodecDecode` reads one map and collects the fields of the message.
The decoder is given the outcome of its allocations (`Alloc`): every allocation of one run is made
at its own site and reader position, so a predicate on these is any pattern of `malloc` and
`calloc` results. `decodeValue` recurses on a depth, which a payload's length bounds
(`Callwire.C.Proof.DecodeMessage`).
-/

namespace Callwire.C

open Lib

/-! ## Encoding values -/

mutual
/-- `encode_value` on a value; the `NULL` pointer is `encodeValue?`. -/
def encodeValue (w : Writer) : Value → Writer
  | .null => mpackWriteNil w
  | .bool b => mpackWriteBool w b
  | .int64 x => mpackWriteInt64 w x
  | .float64 x => mpackWriteDouble w x
  | .string data => mpackWriteStr w data
  | .binary data => mpackWriteBin w data
  | .array items =>
    encodeItems (mpackWriteArrayHeader w (BitVec.ofNat 32 items.length)) items
  | .map entries =>
    encodeEntries (mpackWriteMapHeader w (BitVec.ofNat 32 entries.length)) entries
def encodeItems (w : Writer) : List Value → Writer
  | [] => w
  | v :: vs => encodeItems (encodeValue w v) vs
def encodeEntries (w : Writer) : List (Value × Value) → Writer
  | [] => w
  | (k, v) :: kvs => encodeEntries (encodeValue (encodeValue w k) v) kvs
end

/-- `encode_value(w, v)` for a pointer `v`. -/
def encodeValue? (w : Writer) : Option Value → Writer
  | none => mpackWriteNil w
  | some v => encodeValue w v

/-! ## Growing the buffer -/

def callwireBufInitialSize : Nat := 4096

/-- The largest buffer `encode_with_growth` tries: 64 MiB. -/
def encodeCap : Nat := 64 * 1024 * 1024

/-- The loop of `encode_with_growth` from capacity `cap`; `malloc cap` says whether that buffer is
allocated. `none` is the return value -1. -/
def growthLoop (malloc : Nat → Bool) (fn : Writer → Writer) (cap : Nat) (hcap : 0 < cap) :
    Option Bytes :=
  if malloc cap then
    let w := fn (mpackWriterInit cap)
    if w.overflow then
      if h : cap * 2 > encodeCap then none else growthLoop malloc fn (cap * 2) (by omega)
    else some w.buf
  else none
termination_by encodeCap - cap
decreasing_by omega

def encodeWithGrowth (malloc : Nat → Bool) (fn : Writer → Writer) : Option Bytes :=
  growthLoop malloc fn callwireBufInitialSize (by decide)

/-! ## Message encoders -/

/-- A `const char *` argument, `dflt` when it is `NULL`. -/
def strOr (dflt : Bytes) (s : Option CString) : Bytes := (s.map CString.bytes).getD dflt

def encodeRequestFn (id : BitVec 64) (func : Option CString) (args : List Value) (stream : Bool)
    (w : Writer) : Writer :=
  let w := mpackWriteMapHeader w (if stream then 5 else 4)
  let w := mpackWriteInt64 (mpackWriteStr w (lit "id")) id
  let w := mpackWriteStr (mpackWriteStr w (lit "type")) (lit "request")
  let w := mpackWriteStr (mpackWriteStr w (lit "func")) (strOr [] func)
  let w := mpackWriteArrayHeader (mpackWriteStr w (lit "args")) (BitVec.ofNat 32 args.length)
  let w := encodeItems w args
  if stream then mpackWriteBool (mpackWriteStr w (lit "stream")) 1 else w

/-- `encode_response_fn` and `encode_stream_chunk_fn`, which differ in the type string. -/
def encodeResultFn (type : Bytes) (id : BitVec 64) (result : Option Value) (w : Writer) : Writer :=
  let w := mpackWriteMapHeader w 3
  let w := mpackWriteInt64 (mpackWriteStr w (lit "id")) id
  let w := mpackWriteStr (mpackWriteStr w (lit "type")) type
  encodeValue? (mpackWriteStr w (lit "result")) result

def encodeResponseFn (id : BitVec 64) (result : Option Value) (w : Writer) : Writer :=
  encodeResultFn (lit "response") id result w

def encodeStreamChunkFn (id : BitVec 64) (result : Option Value) (w : Writer) : Writer :=
  encodeResultFn (lit "stream_chunk") id result w

def encodeErrorFn (id : BitVec 64) (errorType message : Option CString) (w : Writer) : Writer :=
  let w := mpackWriteMapHeader w 4
  let w := mpackWriteInt64 (mpackWriteStr w (lit "id")) id
  let w := mpackWriteStr (mpackWriteStr w (lit "type")) (lit "error")
  let w := mpackWriteStr (mpackWriteStr w (lit "error_type")) (strOr (lit "Error") errorType)
  mpackWriteStr (mpackWriteStr w (lit "message")) (strOr [] message)

def encodeIdOnlyFn (id : BitVec 64) (type : Bytes) (w : Writer) : Writer :=
  let w := mpackWriteMapHeader w 2
  let w := mpackWriteInt64 (mpackWriteStr w (lit "id")) id
  mpackWriteStr (mpackWriteStr w (lit "type")) type

section
variable (malloc : Nat → Bool)

def callwireCodecEncodeRequest (id : BitVec 64) (func : Option CString) (args : List Value) :
    Option Bytes :=
  encodeWithGrowth malloc (encodeRequestFn id func args false)

def callwireCodecEncodeBidiRequest (id : BitVec 64) (func : Option CString) (args : List Value) :
    Option Bytes :=
  encodeWithGrowth malloc (encodeRequestFn id func args true)

def callwireCodecEncodeResponse (id : BitVec 64) (result : Option Value) : Option Bytes :=
  encodeWithGrowth malloc (encodeResponseFn id result)

def callwireCodecEncodeError (id : BitVec 64) (errorType message : Option CString) :
    Option Bytes :=
  encodeWithGrowth malloc (encodeErrorFn id errorType message)

def callwireCodecEncodeStreamChunk (id : BitVec 64) (result : Option Value) : Option Bytes :=
  encodeWithGrowth malloc (encodeStreamChunkFn id result)

def callwireCodecEncodeStreamEnd (id : BitVec 64) : Option Bytes :=
  encodeWithGrowth malloc (encodeIdOnlyFn id (lit "stream_end"))

def callwireCodecEncodeStreamClose (id : BitVec 64) : Option Bytes :=
  encodeWithGrowth malloc (encodeIdOnlyFn id (lit "stream_close"))

end

/-- A message to be sent: one of the calls of a `callwire_codec_encode_*` function. -/
inductive Outgoing where
  | request (id : BitVec 64) (func : Option CString) (args : List Value)
  | bidiRequest (id : BitVec 64) (func : Option CString) (args : List Value)
  | response (id : BitVec 64) (result : Option Value)
  | error (id : BitVec 64) (errorType message : Option CString)
  | streamChunk (id : BitVec 64) (result : Option Value)
  | streamEnd (id : BitVec 64)
  | streamClose (id : BitVec 64)

/-- The call itself; `none` is the return value -1. -/
def Outgoing.encode (malloc : Nat → Bool) : Outgoing → Option Bytes
  | .request id func args => callwireCodecEncodeRequest malloc id func args
  | .bidiRequest id func args => callwireCodecEncodeBidiRequest malloc id func args
  | .response id result => callwireCodecEncodeResponse malloc id result
  | .error id errorType message => callwireCodecEncodeError malloc id errorType message
  | .streamChunk id result => callwireCodecEncodeStreamChunk malloc id result
  | .streamEnd id => callwireCodecEncodeStreamEnd malloc id
  | .streamClose id => callwireCodecEncodeStreamClose malloc id

/-- The payload of a message, allocation succeeding. -/
def Outgoing.payload (m : Outgoing) : Option Bytes := m.encode fun _ => true

/-! ## Decoding values -/

/-- The allocation sites of the decoder. -/
inductive AllocSite where
  | strCopy
  | binCopy
  | items
  | keys
  | values
  | dupStr
  | args
  deriving DecidableEq, Repr

/-- Whether the allocation at a site, made at a reader position, succeeds. -/
abbrev Alloc := AllocSite → Nat → Bool

/-- Allocation always succeeds. -/
def Alloc.ok : Alloc := fun _ _ => true

/-- What `decode_value` leaves in `*out`: `none` for the return value -1 (`*out` is untouched). -/
abbrev Decoded := Except Fault (Option Value × Reader)

/-- The loop over an array's items; `none` at the first item that fails. -/
def decodeItems (dec : Reader → Decoded) :
    Nat → Reader → Except Fault (Option (List Value) × Reader)
  | 0, r => .ok (some [], r)
  | n + 1, r => do
    match ← dec r with
    | (none, r) => return (none, r)
    | (some v, r) =>
      let (vs, r) ← decodeItems dec n r
      return (vs.map (v :: ·), r)

/-- The loop over a map's entries; `none` at the first key or value that fails. -/
def decodeEntries (dec : Reader → Decoded) :
    Nat → Reader → Except Fault (Option (List (Value × Value)) × Reader)
  | 0, r => .ok (some [], r)
  | n + 1, r => do
    match ← dec r with
    | (none, r) => return (none, r)
    | (some k, r) =>
      match ← dec r with
      | (none, r) => return (none, r)
      | (some v, r) =>
        let (kvs, r) ← decodeEntries dec n r
        return (kvs.map ((k, v) :: ·), r)

section
variable (mem : Alloc)

/-- The end of `decode_value`: a map, or an unsupported tag. -/
def decodeMapPart (dec : Reader → Decoded) (r : Reader) : Decoded := do
  match ← mpackTryReadMapHeader r with
  | (some count, r) =>
    if count > 0 ∧ ¬ (mem .keys r.pos ∧ mem .values r.pos) then return (none, r)
    let (kvs, r) ← decodeEntries dec count r
    return (kvs.map .map, r)
  | (none, r) => return (none, r.fail)

/-- `decode_value` from the array header on. -/
def decodeArrayPart (dec : Reader → Decoded) (r : Reader) : Decoded := do
  match ← mpackTryReadArrayHeader r with
  | (some count, r) =>
    if count > 0 ∧ ¬ mem .items r.pos then return (none, r)
    let (vs, r) ← decodeItems dec count r
    return (vs.map .array, r)
  | (none, r) => decodeMapPart mem dec r

/-- `decode_value` from the binary on. -/
def decodeBinPart (dec : Reader → Decoded) (r : Reader) : Decoded := do
  match ← mpackTryReadBin r with
  | (some (p, len), r) =>
    if ¬ mem .binCopy r.pos ∧ len > 0 then return (none, r)
    let copy ← r.slice p len
    return (some (.binary copy), r)
  | (none, r) => decodeArrayPart mem dec r

/-- `decode_value` from the string on. -/
def decodeStrPart (dec : Reader → Decoded) (r : Reader) : Decoded := do
  match ← mpackTryReadStr r with
  | (some (p, len), r) =>
    if ¬ mem .strCopy r.pos then return (none, r)
    let copy ← r.slice p len
    return (some (.string copy), r)
  | (none, r) => decodeBinPart mem dec r

/-- `decode_value`: the kinds are tried in this order. -/
def decodeValue : Nat → Reader → Decoded
  | 0, _ => .error .outOfFuel
  | depth + 1, r =>
    if r.error then .ok (none, r) else do
      match ← mpackTryReadNil r with
      | (true, r) => return (some .null, r)
      | (false, r) =>
      match ← mpackTryReadBool r with
      | (some b, r) => return (some (.bool b), r)
      | (none, r) =>
      match ← mpackTryReadInt64 r with
      | (some x, r) => return (some (.int64 x), r)
      | (none, r) =>
      match ← mpackTryReadDouble r with
      | (some x, r) => return (some (.float64 x), r)
      | (none, r) => decodeStrPart mem (decodeValue depth) r

/-! ## Decoding a message -/

/-- `dup_str`. -/
def dupStr (r : Reader) (p len : Nat) : Except Fault (Option Bytes) :=
  if mem .dupStr r.pos then do
    let copy ← r.slice p len
    return some copy
  else return none

/-- The loop that fills `args`: the result code of `decode_value` is not looked at, an item it
leaves alone is the zeroed `CALLWIRE_NULL`. `hasItems` is whether `calloc` returned memory. -/
def decodeArgs (depth : Nat) (hasItems : Bool) :
    Nat → Reader → Except Fault (List Value × Reader)
  | 0, r => .ok ([], r)
  | n + 1, r => do
    match ← decodeValue mem depth r with
    | (some v, r) =>
      if ¬ hasItems then throw .nullStore
      let (vs, r) ← decodeArgs depth hasItems n r
      return (v :: vs, r)
    | (none, r) =>
      let (vs, r) ← decodeArgs depth hasItems n r
      return (.null :: vs, r)

/-- A string field: the new value, or the field as it was after skipping the value. -/
def decodeStrField (depth : Nat) (old : Option Bytes) (r : Reader) :
    Except Fault (Option Bytes × Reader) := do
  match ← mpackTryReadStr r with
  | (some (p, len), r) => return (← dupStr mem r p len, r)
  | (none, r) => return (old, ← mpackSkipValue depth r)

/-- The value of a map entry whose key is the string `key`. -/
def decodeField (depth : Nat) (key : Bytes) (msg : WireMessage) (r : Reader) :
    Except Fault (WireMessage × Reader) := do
  if key = lit "id" then
    match ← mpackTryReadInt64 r with
    | (some idVal, r) => return ({ msg with id := idVal }, r)
    | (none, r) => return (msg, ← mpackSkipValue depth r)
  else if key = lit "type" then
    let (s, r) ← decodeStrField mem depth msg.type r
    return ({ msg with type := s }, r)
  else if key = lit "func" then
    let (s, r) ← decodeStrField mem depth msg.func r
    return ({ msg with func := s }, r)
  else if key = lit "args" then
    match ← mpackTryReadArrayHeader r with
    | (some count, r) =>
      let (items, r) ← decodeArgs mem depth (mem .args r.pos) count r
      return ({ msg with args := items }, r)
    | (none, r) => return (msg, ← mpackSkipValue depth r)
  else if key = lit "stream" then
    match ← mpackTryReadBool r with
    | (some b, r) => return ({ msg with stream := b }, r)
    | (none, r) => return (msg, ← mpackSkipValue depth r)
  else if key = lit "result" then
    match ← decodeValue mem depth r with
    | (some v, r) => return ({ msg with result := v }, r)
    | (none, r) => return (msg, r)
  else if key = lit "error_type" then
    let (s, r) ← decodeStrField mem depth msg.errorType r
    return ({ msg with errorType := s }, r)
  else if key = lit "message" then
    let (s, r) ← decodeStrField mem depth msg.message r
    return ({ msg with message := s }, r)
  else return (msg, ← mpackSkipValue depth r)

/-- The loop over the map's entries. A key that is not a string is skipped with its value and the
error flag is not looked at before the next entry. -/
def decodeFields (depth : Nat) : Nat → WireMessage → Reader → Except Fault (Option WireMessage)
  | 0, msg, r => .ok (if r.error then none else some msg)
  | n + 1, msg, r => do
    match ← mpackTryReadStr r with
    | (none, r) =>
      let r ← mpackSkipValue depth r
      let r ← mpackSkipValue depth r
      decodeFields depth n msg r
    | (some (p, len), r) =>
      let key ← r.slice p len
      let (msg, r) ← decodeField mem depth key msg r
      if r.error then return none
      decodeFields depth n msg r

/-- `callwire_codec_decode` on recursion depth `depth`; `none` is the return value -1. -/
def decodeDepth (depth : Nat) (payload : Payload) : Except Fault (Option WireMessage) := do
  match ← mpackTryReadMapHeader (mpackReaderInit payload) with
  | (none, _) => return none
  | (some count, r) => decodeFields mem depth count {} r

/-- `callwire_codec_decode`. -/
def callwireCodecDecode (payload : Payload) : Except Fault (Option WireMessage) :=
  decodeDepth mem (payload.bytes.length + 1) payload

end

end Callwire.C
