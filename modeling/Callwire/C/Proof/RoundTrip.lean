import Callwire.C.Proof.Denotes
import Callwire.C.Proof.DecodeMessage

/-!
# Encoding, then decoding

The message encoders write a map of the message's entries (`Outgoing.writes`), and the growing
buffer returns exactly what its function emits, up to 64 MiB (`encodeWithGrowth_eq`). With the
decoder's side of the grammar this gives the round trip of every message.
-/

namespace Callwire.C

open Lib List Value

/-! ## Messages -/

section
variable (id : BitVec 64)

/-- The two entries every message starts with. -/
def idType (type : Bytes) : List (Value × Value) :=
  [(.string (lit "id"), .int64 id), (.string (lit "type"), .string type)]

def idTypeData (type : Bytes) : List (Datum × Datum) :=
  [(.string (lit "id"), .int id.toInt), (.string (lit "type"), .string type)]

namespace Outgoing

/-- The map that stands for a message on the wire. -/
def entries : Outgoing → List (Value × Value)
  | .request id func args => idType id (lit "request") ++
      [(.string (lit "func"), .string (strOr [] func)),
       (.string (lit "args"), .array (normalAll args))]
  | .bidiRequest id func args => idType id (lit "request") ++
      [(.string (lit "func"), .string (strOr [] func)),
       (.string (lit "args"), .array (normalAll args)), (.string (lit "stream"), .bool 1)]
  | .response id result => idType id (lit "response") ++
      [(.string (lit "result"), (result.getD .null).normal)]
  | .error id errorType message => idType id (lit "error") ++
      [(.string (lit "error_type"), .string (strOr (lit "Error") errorType)),
       (.string (lit "message"), .string (strOr [] message))]
  | .streamChunk id result => idType id (lit "stream_chunk") ++
      [(.string (lit "result"), (result.getD .null).normal)]
  | .streamEnd id => idType id (lit "stream_end")
  | .streamClose id => idType id (lit "stream_close")

/-- The same map with the numbers that are written. -/
def data : Outgoing → List (Datum × Datum)
  | .request id func args => idTypeData id (lit "request") ++
      [(.string (lit "func"), .string (strOr [] func)),
        (.string (lit "args"), .array (Value.data args))]
  | .bidiRequest id func args => idTypeData id (lit "request") ++
      [(.string (lit "func"), .string (strOr [] func)),
        (.string (lit "args"), .array (Value.data args)),
       (.string (lit "stream"), .bool true)]
  | .response id result => idTypeData id (lit "response") ++
      [(.string (lit "result"), (result.getD .null).datum)]
  | .error id errorType message => idTypeData id (lit "error") ++
      [(.string (lit "error_type"), .string (strOr (lit "Error") errorType)),
       (.string (lit "message"), .string (strOr [] message))]
  | .streamChunk id result => idTypeData id (lit "stream_chunk") ++
      [(.string (lit "result"), (result.getD .null).datum)]
  | .streamEnd id => idTypeData id (lit "stream_end")
  | .streamClose id => idTypeData id (lit "stream_close")

theorem valueEntries_data (m : Outgoing) : Datum.valueEntries m.data = m.entries := by
  cases m <;>
    simp [data, entries, idTypeData, idType, Datum.valueEntries, Datum.value, values_data,
      value_datum,
      BitVec.ofInt_toInt]

def fn : Outgoing → Writer → Writer
  | .request id func args => encodeRequestFn id func args false
  | .bidiRequest id func args => encodeRequestFn id func args true
  | .response id result => encodeResponseFn id result
  | .error id errorType message => encodeErrorFn id errorType message
  | .streamChunk id result => encodeStreamChunkFn id result
  | .streamEnd id => encodeIdOnlyFn id (lit "stream_end")
  | .streamClose id => encodeIdOnlyFn id (lit "stream_close")

theorem encode_eq (malloc : Nat → Bool) (m : Outgoing) :
    m.encode malloc = encodeWithGrowth malloc m.fn := by
  cases m <;> rfl

end Outgoing

theorem encodeValue?_denotes (v : Option Value) :
    WritesDatum (fun w => encodeValue? w v) (v.getD .null).datum := by
  cases v with
  | none => exact encodeValue_denotes .null
  | some v => exact encodeValue_denotes v

theorem writesIdType (type : Bytes) :
    WritesDataEntries (fun w => mpackWriteStr (mpackWriteStr
      (mpackWriteInt64 (mpackWriteStr w (lit "id")) id) (lit "type")) type) (idTypeData id type) :=
  ((writesDatum_str (lit "id")).entry (writesDatum_int id)).append
    ((writesDatum_str (lit "type")).entry (writesDatum_str type))

/-- The two entries of a request between its type and its stream flag. -/
theorem writesCall (func : Option CString) (args : List Value) :
    WritesDataEntries (fun w => encodeItems (mpackWriteArrayHeader (mpackWriteStr (mpackWriteStr
      (mpackWriteStr w (lit "func")) (strOr [] func)) (lit "args"))
        (BitVec.ofNat 32 args.length)) args)
      [(.string (lit "func"), .string (strOr [] func)),
       (.string (lit "args"), .array (Value.data args))] := by
  have hargs := (encodeItems_denotes args).array
  rw [data_length] at hargs
  exact ((writesDatum_str (lit "func")).entry (writesDatum_str (strOr [] func))).append
    ((writesDatum_str (lit "args")).entry hargs)

/-- **Every message is written as its map.** -/
theorem Outgoing.writesData (m : Outgoing) : WritesDatum m.fn (.map m.data) := by
  cases m with
  | request id func args =>
    exact ((writesIdType id (lit "request")).append (writesCall func args)).map
  | bidiRequest id func args =>
    have hflag := (writesDatum_str (lit "stream")).entry (writesDatum_bool 1)
    exact (((writesIdType id (lit "request")).append (writesCall func args)).append hflag).map
  | response id result =>
    have hres := (writesDatum_str (lit "result")).entry (encodeValue?_denotes result)
    exact ((writesIdType id (lit "response")).append hres).map
  | error id errorType message =>
    have htype := (writesDatum_str (lit "error_type")).entry
      (writesDatum_str (strOr (lit "Error") errorType))
    have hmsg := (writesDatum_str (lit "message")).entry (writesDatum_str (strOr [] message))
    exact ((writesIdType id (lit "error")).append (htype.append hmsg)).map
  | streamChunk id result =>
    have hres := (writesDatum_str (lit "result")).entry (encodeValue?_denotes result)
    exact ((writesIdType id (lit "stream_chunk")).append hres).map
  | streamEnd id => exact (writesIdType id (lit "stream_end")).map
  | streamClose id => exact (writesIdType id (lit "stream_close")).map

theorem Outgoing.writes (m : Outgoing) : ∃ bs, Emits m.fn bs ∧ bs.length ≤ (map m.entries).size ∧
    (bs.length < 2 ^ 32 → Encodes (.map m.entries) bs) := by
  obtain ⟨bs, he, -, hl, hd⟩ := m.writesData
  rw [Datum.value, m.valueEntries_data] at hl
  refine ⟨bs, he, hl, fun hlen => ?_⟩
  have := (hd hlen).encodes
  rwa [Datum.value, m.valueEntries_data] at this

end

/-! ## The growing buffer -/

section
variable {malloc : Nat → Bool} {fn : Writer → Writer} {bs : Bytes}

theorem growthLoop_step (hfn : Emits fn bs) (cap : Nat) (hcap : 0 < cap) (hm : malloc cap = true) :
    growthLoop malloc fn cap hcap =
      if bs.length ≤ cap then some bs
      else if cap * 2 > encodeCap then none
      else growthLoop malloc fn (cap * 2) (Nat.mul_pos hcap Nat.two_pos) := by
  rw [growthLoop, if_pos hm]
  by_cases hl : bs.length ≤ cap
  · obtain ⟨ho, hb⟩ := hfn.fits (mpackWriterInit cap) rfl (by simpa [mpackWriterInit, Writer.pos])
    rw [if_pos hl]
    simp only [ho, Bool.false_eq_true, ↓reduceIte, hb]
    rfl
  · have ho := hfn.overflows (mpackWriterInit cap)
      (.inr (by simpa [mpackWriterInit, Writer.pos] using hl))
    rw [if_neg hl]
    simp only [ho, ↓reduceIte, dite_eq_ite]

theorem growthLoop_some (hfn : Emits fn bs) (cap : Nat) (hcap : 0 < cap) {p : Bytes}
    (hc : cap ≤ encodeCap) (h : growthLoop malloc fn cap hcap = some p) :
    p = bs ∧ bs.length ≤ encodeCap := by
  -- along the loop's own recursion: the capacity stays within the cap
  induction cap, hcap using growthLoop.induct malloc fn with
  | case1 cap hcap hm w ho hbig =>
    rw [growthLoop_step hfn cap hcap hm, if_pos hbig] at h
    split at h
    · exact ⟨(Option.some.inj h).symm, by omega⟩
    · cases h
  | case2 cap hcap hm w ho hbig ih =>
    rw [growthLoop_step hfn cap hcap hm, if_neg hbig] at h
    split at h
    · exact ⟨(Option.some.inj h).symm, by omega⟩
    · exact ih (by omega) h
  | case3 cap hcap hm w ho =>
    have hl : bs.length ≤ cap := by
      by_contra hl
      refine ho (hfn.overflows _ (.inr ?_))
      simpa [mpackWriterInit, Writer.pos] using hl
    rw [growthLoop_step hfn cap hcap hm, if_pos hl] at h
    exact ⟨(Option.some.inj h).symm, by omega⟩
  | case4 cap hcap hm =>
    rw [growthLoop, if_neg hm] at h
    cases h

/-- With enough memory, doubling reaches the cap: everything up to it is returned. -/
theorem growthLoop_doubling (hfn : Emits fn bs) (hm : ∀ cap, malloc cap = true) :
    ∀ (k cap : Nat) (hcap : 0 < cap), cap * 2 ^ k = encodeCap →
      growthLoop malloc fn cap hcap = if bs.length ≤ encodeCap then some bs else none
  | 0, cap, hcap, hk => by
    rw [Nat.pow_zero, Nat.mul_one] at hk
    rw [growthLoop_step hfn cap hcap (hm cap), if_pos (show cap * 2 > encodeCap by omega), hk]
  | k + 1, cap, hcap, hk => by
    have hk' : cap * 2 * 2 ^ k = encodeCap := by rw [← hk, Nat.pow_succ]; ring
    have hle : cap * 2 ≤ encodeCap := hk' ▸ Nat.le_mul_of_pos_right _ (Nat.two_pow_pos k)
    rw [growthLoop_step hfn cap hcap (hm cap), if_neg (Nat.not_lt.2 hle),
      growthLoop_doubling hfn hm k (cap * 2) _ hk']
    split
    · rw [if_pos (by omega)]
    · rfl

/-- **`encode_with_growth` returns what its function emits, up to 64 MiB.** -/
theorem encodeWithGrowth_eq (hfn : Emits fn bs) (hm : ∀ cap, malloc cap = true) :
    encodeWithGrowth malloc fn = if bs.length ≤ encodeCap then some bs else none :=
  growthLoop_doubling hfn hm 14 _ _ (by decide)

theorem encodeWithGrowth_some (hfn : Emits fn bs) {p : Bytes}
    (h : encodeWithGrowth malloc fn = some p) : p = bs ∧ bs.length ≤ encodeCap :=
  growthLoop_some hfn _ _ (by decide) h

end

theorem Outgoing.payload_of_size {m : Outgoing} (h : (map m.entries).size ≤ encodeCap) :
    ∃ p, m.payload = some p ∧ p.length ≤ (map m.entries).size := by
  obtain ⟨bs, he, hl, -⟩ := m.writes
  rw [Outgoing.payload, m.encode_eq, encodeWithGrowth_eq he fun _ => rfl, if_pos (by omega)]
  exact ⟨bs, rfl, hl⟩

/-- **Growing the buffer is transparent**: a message has one encoding `bs`, which every buffer it
fits in holds in the end, and which is returned if it is at most 64 MiB long. An attempt with a
smaller buffer overflows, and none writes beyond its capacity. -/
theorem Outgoing.growth_transparent (m : Outgoing) : ∃ bs : Bytes,
    (2 ^ 32 ≤ bs.length ∨ Encodes (.map m.entries) bs) ∧
    (∀ k, (m.fn (mpackWriterInit (bs.length + k))).buf = bs) ∧
    (∀ p, m.payload = some p ↔ bs.length ≤ encodeCap ∧ p = bs) ∧
    ∀ cap, (m.fn (mpackWriterInit cap)).cap = cap ∧ (m.fn (mpackWriterInit cap)).pos ≤ cap ∧
      ((m.fn (mpackWriterInit cap)).overflow = true ↔ cap < bs.length) := by
  obtain ⟨bs, he, -, hv⟩ := m.writes
  have hfits : ∀ cap, bs.length ≤ cap → (m.fn (mpackWriterInit cap)).overflow = false ∧
      (m.fn (mpackWriterInit cap)).buf = bs := fun cap hle =>
    he.fits (mpackWriterInit cap) rfl ((Nat.zero_add _).trans_le hle)
  refine ⟨bs, (Nat.lt_or_ge _ _).symm.imp_right hv, fun k => (hfits _ (Nat.le_add_right _ _)).2,
    fun p => ?_, fun cap => ⟨he.cap _, (Writer.inside _).trans_eq (he.cap _), fun ho => ?_,
    fun hlt => he.overflows _ (.inr ((Nat.zero_add _).symm ▸ hlt))⟩⟩
  · rw [Outgoing.payload, m.encode_eq, encodeWithGrowth_eq he fun _ => rfl]
    simp [eq_comm]
  · by_contra hle
    exact absurd ho (by simp [(hfits cap (Nat.not_lt.1 hle)).1])

/-! ## The round trip -/

/-- The message a receiver is to see: a `NULL` result as null, a `NULL` name or text as the empty
string, a `NULL` error type as `Error`, truth values as 0 or 1. -/
def Outgoing.message : Outgoing → WireMessage
  | .request id func args =>
    { id, type := some (lit "request"), func := some (strOr [] func), args := normalAll args }
  | .bidiRequest id func args =>
    { id, type := some (lit "request"), func := some (strOr [] func), args := normalAll args,
      stream := 1 }
  | .response id result =>
    { id, type := some (lit "response"), result := (result.getD .null).normal }
  | .error id errorType message =>
    { id, type := some (lit "error"), errorType := some (strOr (lit "Error") errorType),
      message := some (strOr [] message) }
  | .streamChunk id result =>
    { id, type := some (lit "stream_chunk"), result := (result.getD .null).normal }
  | .streamEnd id => { id, type := some (lit "stream_end") }
  | .streamClose id => { id, type := some (lit "stream_close") }

theorem Outgoing.messageOf_entries (m : Outgoing) : messageOf m.entries = m.message := by
  cases m <;> rfl

theorem Outgoing.encode_some {malloc : Nat → Bool} {m : Outgoing} {p : Bytes}
    (h : m.encode malloc = some p) : Encodes (.map m.entries) p := by
  obtain ⟨bs, he, -, hv⟩ := m.writes
  rw [m.encode_eq] at h
  obtain ⟨rfl, hl⟩ := encodeWithGrowth_some he h
  exact hv (lt_of_le_of_lt hl (by decide))

/-- **Every message survives the round trip**, whatever follows it in the payload. -/
theorem callwireCodec_roundTrip (malloc : Nat → Bool) (m : Outgoing) (p extra : Bytes)
    (payload : Payload) (h : m.encode malloc = some p) (hp : payload.bytes = p ++ extra) :
    callwireCodecDecode .ok payload = .ok (some m.message) := by
  rw [← m.messageOf_entries]
  exact decodeDepth_map (Nat.lt_succ_self _) hp (Outgoing.encode_some h)

theorem callwireCodec_roundTrip_bidi :
    ∃ (m : Outgoing) (p : Bytes) (payload : Payload), m.encode (fun _ => true) = some p ∧
      payload.bytes = p ++ [0xC1] ∧ callwireCodecDecode .ok payload = .ok (some m.message) := by
  let m := Outgoing.bidiRequest (2 ^ 63) (some ⟨lit "sum", by decide⟩)
    [.int64 300, .map [(.null, .bool 7)]]
  have ho : (m.fn (mpackWriterInit 4096)).overflow = false := by decide +kernel
  have h : m.encode (fun _ => true) = some (m.fn (mpackWriterInit 4096)).buf := by
    rw [m.encode_eq, encodeWithGrowth, growthLoop, if_pos rfl]
    simp only [callwireBufInitialSize, ho, Bool.false_eq_true, ↓reduceIte]
  have hl : ((m.fn (mpackWriterInit 4096)).buf ++ [0xC1]).length < 2 ^ 63 := by decide +kernel
  exact ⟨m, _, .mem _ hl, h, rfl, callwireCodec_roundTrip _ m _ [0xC1] _ h rfl⟩

end Callwire.C
