import Callwire.Go.Client
import Callwire.Go.Proof.Library

/-!
# The value of a sent chunk

A message is read back as it was written, up to a result that `omitempty` drops
(`decodeMessage_encode`). The sender of a stream encodes a value before it hands it to
`encodeStreamChunk`, which encodes it again: the receiver finds the encoding of the value, a byte
string, and never the value (`chunkResult_ne`).
-/

namespace Callwire.Go

open List WireMessage

/-! ## Messages are read back -/

/-- The message that the receiver gets: an empty result is not sent. -/
def WireMessage.received (msg : WireMessage) : WireMessage :=
  { msg with result := if msg.result.isEmptyValue then .nil else msg.result }

theorem foldlM_omitempty {key : String} {v : Value} {msg msg' : WireMessage}
    (hempty : v.isEmptyValue = true → msg' = msg)
    (hset : v.isEmptyValue = false → msg.setField (.str key, v) = some msg') :
    (omitempty key v).foldlM setField msg = some msg' := by
  unfold omitempty
  split
  · rename_i h
    rw [hempty h]
    rfl
  · rename_i h
    show (msg.setField (.str key, v)).bind some = some msg'
    rw [hset (Bool.eq_false_iff.2 h)]
    rfl

theorem setField_result (msg : WireMessage) (v : Value) (h : v.isEmptyValue = false) :
    msg.setField (.str "result", v) = some { msg with result := v } := by
  cases v with
  | nil => cases h
  | _ => rfl

theorem setField_args (msg : WireMessage) (args : Option (List Value)) (h : msg.args = none) :
    msg.setField (.str "args", sliceValue args) = some { msg with args } := by
  cases args with
  | none =>
    cases msg
    cases h
    rfl
  | some items => rfl

theorem eq_of_isEmptyValue_str {s : String} (h : (Value.str s).isEmptyValue = true) : s = "" :=
  of_decide_eq_true h

theorem ofValue_toValue (msg : WireMessage) :
    ofValue msg.toValue = some msg.received := by
  -- the fields are read one after the other
  let m₁ : WireMessage := { id := msg.id, type := msg.type }
  let m₂ : WireMessage := { m₁ with func := msg.func }
  let m₃ : WireMessage := { m₂ with args := msg.args }
  let m₄ : WireMessage := { m₃ with stream := msg.stream }
  let m₅ : WireMessage := { m₄ with result := msg.received.result }
  let m₆ : WireMessage := { m₅ with errorType := msg.errorType }
  have h₁ : [(Value.str "id", Value.uint msg.id), (.str "type", .str msg.type)].foldlM
      setField { id := 0, type := "" } = some m₁ := rfl
  have h₂ : (omitempty "func" (.str msg.func)).foldlM setField m₁ = some m₂ :=
    foldlM_omitempty (fun h => by simp only [m₂, eq_of_isEmptyValue_str h]; rfl) fun _ => rfl
  have h₃ : [(Value.str "args", sliceValue msg.args)].foldlM setField m₂ = some m₃ := by
    rw [foldlM_cons, setField_args m₂ msg.args rfl]
    rfl
  have h₄ : (omitempty "stream" (.bool msg.stream)).foldlM setField m₃ = some m₄ :=
    foldlM_omitempty (fun h => by
      have : msg.stream = false := by simpa [Value.isEmptyValue] using h
      simp only [m₄, this]; rfl) fun _ => rfl
  have h₅ : (omitempty "result" msg.result).foldlM setField m₄ = some m₅ := by
    refine foldlM_omitempty (fun h => ?_) fun h => ?_
    · simp only [m₅, received, h]; rfl
    · rw [setField_result m₄ _ h]
      simp [m₅, received, h]
  have h₆ : (omitempty "error_type" (.str msg.errorType)).foldlM setField m₅ = some m₆ :=
    foldlM_omitempty (fun h => by simp only [m₆, eq_of_isEmptyValue_str h]; rfl) fun _ => rfl
  have h₇ : (omitempty "message" (.str msg.message)).foldlM setField m₆ =
      some msg.received :=
    foldlM_omitempty (fun h => by
      simp only [received, eq_of_isEmptyValue_str h]; rfl) fun _ => rfl
  rw [toValue, ofValue, foldlM_append, foldlM_append,
    foldlM_append, foldlM_append, foldlM_append, foldlM_append, h₁]
  simp only [Option.bind_eq_bind, Option.bind_some, h₂, h₃, h₄, h₅, h₆, h₇]

theorem decodeMessage_encode (m : Msgpack) (msg : WireMessage) :
    decodeMessage m (msg.encode m) = some msg.received := by
  rw [decodeMessage, encode, m.unmarshal_marshal]
  exact ofValue_toValue msg

/-! ## Chunks -/

section
variable (m : Msgpack) (kind : Kind) (id : BitVec 64) (func : String) (v : Value)

/-- The result that a receiver finds in the chunk that is written for `Send(v)`. -/
def chunkResult : Option Value :=
  (decodeMessage m ((kind.chunk m id (kind.enqueue m v)).encode m)).map (·.result)

/-- The value that a receiver finds when `v` is sent as an argument. -/
def argumentValue : Option Value :=
  ((decodeMessage m (encodeRequest id func [v] m)).bind (·.args)).bind List.head?

/-- The result that a receiver finds when a server sends `v` as a chunk. -/
def serverChunkResult : Option Value :=
  (decodeMessage m (encodeStreamChunk id v m)).map (·.result)

variable {kind}

theorem chunkResult_eq (hk : kind.sends = true) :
    chunkResult m kind id v = some (.bin (m.marshal v)) := by
  have hchunk : kind.chunk m id (kind.enqueue m v) = streamChunk id (.bin (m.marshal v)) := by
    cases kind with
    | importUnary | importStream => cases hk
    | exportStream | importBidi => rfl
  have hne : (Value.bin (m.marshal v)).isEmptyValue = false := by
    rw [Value.isEmptyValue, isEmpty_eq_false_iff]
    exact m.marshal_ne_nil v
  rw [chunkResult, hchunk, decodeMessage_encode]
  simp [received, streamChunk, hne]

theorem argumentValue_eq : argumentValue m id func v = some v := by
  rw [argumentValue, encodeRequest, decodeMessage_encode]
  rfl

theorem serverChunkResult_eq :
    serverChunkResult m id v = some (if v.isEmptyValue then .nil else v) := by
  rw [serverChunkResult, encodeStreamChunk, decodeMessage_encode]
  rfl

/-- A byte string is not the encoding of itself: its encoding is longer. -/
theorem bin_marshal_ne : Value.bin (m.marshal v) ≠ v := by
  intro h
  have hlt := m.length_bin (m.marshal v)
  rw [h] at hlt
  exact Nat.lt_irrefl _ hlt

/-- **The chunk of a sent value never carries the value**: neither what an argument carries, nor
what a server's chunk carries. -/
theorem chunkResult_ne (hk : kind.sends = true) :
    chunkResult m kind id v ≠ argumentValue m id func v ∧
      chunkResult m kind id v ≠ serverChunkResult m id v := by
  rw [chunkResult_eq m id v hk, argumentValue_eq, serverChunkResult_eq]
  have hne := bin_marshal_ne m v
  refine ⟨fun h => hne (Option.some.inj h), fun h => ?_⟩
  have h := Option.some.inj h
  split at h
  · cases h
  · exact hne h

end

/-- **A sent 1 arrives as its encoding**, and not as the number. -/
theorem chunkResult_int :
    chunkResult msgpack .exportStream 1 (.int 1) = some (.bin [0x01#8]) ∧
      argumentValue msgpack 1 "f" (.int 1) = some (.int 1) ∧
      serverChunkResult msgpack 1 (.int 1) = some (.int 1) ∧
      chunkResult msgpack .exportStream 1 (.int 1) ≠ argumentValue msgpack 1 "f" (.int 1) := by
  have hchunk : chunkResult msgpack .exportStream 1 (.int 1) = some (.bin [0x01#8]) :=
    chunkResult_eq msgpack 1 (.int 1) rfl
  have harg := argumentValue_eq msgpack 1 "f" (.int 1)
  refine ⟨hchunk, harg, serverChunkResult_eq _ _ _, ?_⟩
  rw [hchunk, harg]
  exact nofun

/-- The same of `nil`, for both kinds of streams. -/
theorem chunkResult_ne_nil :
    msgpack.marshal .nil = [0xc0#8] ∧ msgpack.marshal (.bin [0xc0#8]) = [0xc4#8, 1#8, 0xc0#8] ∧
      chunkResult msgpack .exportStream 1 .nil ≠ argumentValue msgpack 1 "f" .nil ∧
      chunkResult msgpack .importBidi 1 .nil ≠ argumentValue msgpack 1 "f" .nil :=
  ⟨rfl, by decide, (chunkResult_ne msgpack 1 "f" .nil rfl).1,
    (chunkResult_ne msgpack 1 "f" .nil rfl).1⟩

end Callwire.Go
