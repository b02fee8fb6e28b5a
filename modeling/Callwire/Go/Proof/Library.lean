import Callwire.Go.Codec
import Callwire.Lib.Bytes

/-!
# A msgpack library

The assumptions of `Msgpack` can be met: `msgpack` is a library that meets them, with the bytes of
the format. A value is its head (`Head`: a code of the format, with the number or the length that
stands behind it) and its contents; the reader takes the head, and then as many contents as it says.
Lengths of `2 ^ 32` and more, for which the format has no code, are written in unary after the code
that it leaves unused, so that the two functions are inverse to each other on every value.
-/

namespace Callwire.Go

open Lib List

/-! ## Heads -/

/-- The code at the start of an encoding, with what it says of the contents. -/
inductive Head where
  | nil
  | bool (b : Bool)
  | int (n : BitVec 64)
  | uint (n : BitVec 64)
  | float32 (bits : BitVec 32)
  | float64 (bits : BitVec 64)
  | str (length : Nat)
  | bin (length : Nat)
  | array (length : Nat)
  | map (length : Nat)

/-- `length` in the code at `fix` if it is below `limit`, else behind the first of `codes` that has
enough bytes for it, else in unary. -/
def lengthBytes (fix limit : Nat) (codes : List (Byte × Nat)) (kind : Byte) (length : Nat) :
    Bytes :=
  if length < limit then [BitVec.ofNat 8 (fix + length)]
  else
    match codes.find? fun code => length < 256 ^ code.2 with
    | some (code, width) => code :: beBytes width length
    | none => 0xc1#8 :: kind :: replicate length 0#8 ++ [1#8]

/-- A small number is its own code; the others are written as an `int64`. -/
def intBytes (n : BitVec 64) : Bytes :=
  if n.toNat < 0x80 ∨ 2 ^ 64 - 0x20 ≤ n.toNat then [n.setWidth 8] else 0xd3#8 :: beBytes 8 n.toNat

/-- The bytes of a head. -/
def Head.bytes : Head → Bytes
  | .nil => [0xc0#8]
  | .bool b => [if b then 0xc3#8 else 0xc2#8]
  | .int n => intBytes n
  | .uint n => 0xcf#8 :: beBytes 8 n.toNat
  | .float32 bits => 0xca#8 :: beBytes 4 bits.toNat
  | .float64 bits => 0xcb#8 :: beBytes 8 bits.toNat
  | .str length => lengthBytes 0xa0 32 [(0xd9#8, 1), (0xda#8, 2), (0xdb#8, 4)] 0#8 length
  | .bin length => lengthBytes 0 0 [(0xc4#8, 1), (0xc5#8, 2), (0xc6#8, 4)] 1#8 length
  | .array length => lengthBytes 0x90 16 [(0xdc#8, 2), (0xdd#8, 4)] 2#8 length
  | .map length => lengthBytes 0x80 16 [(0xde#8, 2), (0xdf#8, 4)] 3#8 length

/-- The number in the next `width` bytes. -/
def readNumber (width : Nat) (bytes : Bytes) : Option (Nat × Bytes) :=
  if width ≤ bytes.length then some (beVal (bytes.take width), bytes.drop width) else none

/-- The number of zeros before the next one. -/
def readUnary : Bytes → Option (Nat × Bytes)
  | [] => none
  | b :: rest => if b = 0#8 then (readUnary rest).map fun r => (r.1 + 1, r.2) else some (0, rest)

/-- The head of a code with a byte of its own. -/
def readCode (code : Byte) (rest : Bytes) : Option (Head × Bytes) :=
  let number (width : Nat) (head : Nat → Head) :=
    (readNumber width rest).map fun r => (head r.1, r.2)
  match code.toNat with
  | 0xc0 => some (.nil, rest)
  | 0xc1 =>
    match rest with
    | [] => none
    | kind :: rest =>
      let head := if kind = 0#8 then Head.str else if kind = 1#8 then .bin
        else if kind = 2#8 then .array else .map
      (readUnary rest).map fun r => (head r.1, r.2)
  | 0xc2 => some (.bool false, rest)
  | 0xc3 => some (.bool true, rest)
  | 0xc4 => number 1 .bin
  | 0xc5 => number 2 .bin
  | 0xc6 => number 4 .bin
  | 0xca => number 4 fun n => .float32 (.ofNat 32 n)
  | 0xcb => number 8 fun n => .float64 (.ofNat 64 n)
  | 0xcf => number 8 fun n => .uint (.ofNat 64 n)
  | 0xd3 => number 8 fun n => .int (.ofNat 64 n)
  | 0xd9 => number 1 .str
  | 0xda => number 2 .str
  | 0xdb => number 4 .str
  | 0xdc => number 2 .array
  | 0xdd => number 4 .array
  | 0xde => number 2 .map
  | 0xdf => number 4 .map
  | _ => none

/-- The codes below `0xc0` and from `0xe0` on have their number or their length in them. -/
def readHead : Bytes → Option (Head × Bytes)
  | [] => none
  | code :: rest =>
    if code.toNat < 0x80 ∨ 0xe0 ≤ code.toNat then some (.int (code.signExtend 64), rest)
    else if code.toNat < 0x90 then some (.map (code.toNat - 0x80), rest)
    else if code.toNat < 0xa0 then some (.array (code.toNat - 0x90), rest)
    else if code.toNat < 0xc0 then some (.str (code.toNat - 0xa0), rest)
    else readCode code rest

theorem readNumber_beBytes {width n : Nat} (h : n < 256 ^ width) (rest : Bytes) :
    readNumber width (beBytes width n ++ rest) = some (n, rest) := by
  have hlen := beBytes_length width n
  rw [readNumber, if_pos (by simp), take_left' hlen, drop_left' hlen, beVal_beBytes_of_lt h]

theorem readUnary_replicate (n : Nat) (rest : Bytes) :
    readUnary (replicate n 0#8 ++ 1#8 :: rest) = some (n, rest) := by
  induction n with
  | zero => rfl
  | succ n ih =>
    rw [replicate_succ, cons_append, readUnary, if_pos rfl, ih]
    rfl

/-- A length is read back if its codes are read as its kind. -/
theorem readHead_lengthBytes {fix limit : Nat} {codes : List (Byte × Nat)} {kind : Byte}
    (head : Nat → Head)
    (hfix : ∀ n rest, n < limit → readHead (.ofNat 8 (fix + n) :: rest) = some (head n, rest))
    (hcodes : ∀ code ∈ codes, ∀ rest, readHead (code.1 :: rest) =
      (readNumber code.2 rest).map fun r => (head r.1, r.2))
    (hunary : ∀ rest, readHead (0xc1#8 :: kind :: rest) =
      (readUnary rest).map fun r => (head r.1, r.2)) (n : Nat) (rest : Bytes) :
    readHead (lengthBytes fix limit codes kind n ++ rest) = some (head n, rest) := by
  rw [lengthBytes]
  split
  · rename_i hn
    exact hfix n rest hn
  · split
    · rename_i code width hcode
      have hn := of_decide_eq_true (find?_some
        (p := fun code : Byte × Nat => n < 256 ^ code.2) hcode)
      rw [cons_append, hcodes _ (mem_of_find?_eq_some hcode), readNumber_beBytes hn]
      rfl
    · show readHead (0xc1#8 :: kind :: (replicate n 0#8 ++ [1#8] ++ rest)) = _
      rw [hunary, append_assoc]
      exact congrArg (Option.map _) (readUnary_replicate n rest)

theorem readHead_intBytes (n : BitVec 64) (rest : Bytes) :
    readHead (intBytes n ++ rest) = some (.int n, rest) := by
  rw [intBytes]
  split
  · rename_i h
    have hcode : (n.setWidth 8).toNat = n.toNat % 256 := BitVec.toNat_setWidth 8 n
    have hn : (n.setWidth 8).signExtend 64 = n := by
      apply BitVec.eq_of_toInt_eq
      rw [BitVec.toInt_signExtend_of_le (by decide), BitVec.toInt_eq_toNat_cond,
        BitVec.toInt_eq_toNat_cond, hcode]
      split <;> split <;> omega
    show readHead (n.setWidth 8 :: rest) = _
    rw [readHead, if_pos (by omega), hn]
  · show readHead (0xd3#8 :: (beBytes 8 n.toNat ++ rest)) = _
    have hn : readHead (0xd3#8 :: (beBytes 8 n.toNat ++ rest)) =
        (readNumber 8 (beBytes 8 n.toNat ++ rest)).map fun r => (.int (.ofNat 64 r.1), r.2) := rfl
    rw [hn, readNumber_beBytes n.isLt]
    simp

/-- **A head is read back**, with what follows it. -/
theorem Head.readHead_bytes (head : Head) (rest : Bytes) :
    readHead (head.bytes ++ rest) = some (head, rest) := by
  -- a number of fixed width, and a length in its code
  have hnumber : ∀ {w k : Nat} {code : Byte} (head : BitVec w → Head) (bits : BitVec w),
      2 ^ w = 256 ^ k → (∀ rest, readHead (code :: rest) =
        (readNumber k rest).map fun r => (head (.ofNat w r.1), r.2)) →
      readHead (code :: beBytes k bits.toNat ++ rest) = some (head bits, rest) := by
    intro w k code head bits hw h
    rw [cons_append, h, readNumber_beBytes (hw ▸ bits.isLt)]
    simp
  have hcode : ∀ {c : Nat}, c < 256 → (BitVec.ofNat 8 c).toNat = c := fun h =>
    Nat.mod_eq_of_lt h
  cases head with
  | nil => rfl
  | bool b => cases b <;> rfl
  | int n => exact readHead_intBytes n rest
  | uint n => exact hnumber .uint n rfl fun _ => rfl
  | float32 bits => exact hnumber .float32 bits rfl fun _ => rfl
  | float64 bits => exact hnumber .float64 bits rfl fun _ => rfl
  | str n =>
    refine readHead_lengthBytes .str (fun n rest hn => ?_) ?_ (fun _ => rfl) n rest
    · rw [readHead, hcode (by omega), if_neg (by omega), if_neg (by omega), if_neg (by omega),
        if_pos (by omega), Nat.add_sub_cancel_left]
    · simp only [forall_mem_cons]
      exact ⟨fun _ => rfl, fun _ => rfl, fun _ => rfl, nofun⟩
  | bin n =>
    refine readHead_lengthBytes .bin (fun n rest hn => absurd hn (Nat.not_lt_zero n)) ?_
      (fun _ => rfl) n rest
    simp only [forall_mem_cons]
    exact ⟨fun _ => rfl, fun _ => rfl, fun _ => rfl, nofun⟩
  | array n =>
    refine readHead_lengthBytes .array (fun n rest hn => ?_) ?_ (fun _ => rfl) n rest
    · rw [readHead, hcode (by omega), if_neg (by omega), if_neg (by omega), if_pos (by omega),
        Nat.add_sub_cancel_left]
    · simp only [forall_mem_cons]
      exact ⟨fun _ => rfl, fun _ => rfl, nofun⟩
  | map n =>
    refine readHead_lengthBytes .map (fun n rest hn => ?_) ?_ (fun _ => rfl) n rest
    · rw [readHead, hcode (by omega), if_neg (by omega), if_pos (by omega), Nat.add_sub_cancel_left]
    · simp only [forall_mem_cons]
      exact ⟨fun _ => rfl, fun _ => rfl, nofun⟩

theorem Head.bytes_length_pos (head : Head) : 0 < head.bytes.length := by
  rw [length_pos_iff]
  intro h
  -- no head is read from nothing
  have hread := head.readHead_bytes []
  rw [h] at hread
  cases hread

/-! ## Values -/

/-- The bytes of a string. -/
def utf8 (s : String) : Bytes := s.toByteArray.data.toList.map UInt8.toBitVec

/-- The string of `bytes`, if they are well formed. -/
def readUtf8 (bytes : Bytes) : Option String :=
  String.fromUTF8? ⟨(bytes.map UInt8.ofBitVec).toArray⟩

mutual

/-- The encoding of a value. -/
def Value.bytes : Value → Bytes
  | .nil => Head.nil.bytes
  | .bool b => (Head.bool b).bytes
  | .int n => (Head.int n).bytes
  | .uint n => (Head.uint n).bytes
  | .float32 bits => (Head.float32 bits).bytes
  | .float64 bits => (Head.float64 bits).bytes
  | .str s => (Head.str (utf8 s).length).bytes ++ utf8 s
  | .bin bytes => (Head.bin bytes.length).bytes ++ bytes
  | .array items => (Head.array items.length).bytes ++ itemBytes items
  | .map entries => (Head.map entries.length).bytes ++ entryBytes entries

/-- The encodings of the items of an array. -/
def itemBytes : List Value → Bytes
  | [] => []
  | v :: items => v.bytes ++ itemBytes items

/-- The encodings of the keys and the values of a map, in turn. -/
def entryBytes : List (Value × Value) → Bytes
  | [] => []
  | (k, v) :: entries => k.bytes ++ (v.bytes ++ entryBytes entries)

end

/-- `n` items, one after the other. -/
def readItems {α : Type} (read : Bytes → Option (α × Bytes)) : Nat → Bytes → Option (List α × Bytes)
  | 0, bytes => some ([], bytes)
  | n + 1, bytes => do
    let (item, rest) ← read bytes
    let (items, rest) ← readItems read n rest
    return (item :: items, rest)

/-- A key and its value. -/
def readEntry (read : Bytes → Option (Value × Bytes)) (bytes : Bytes) :
    Option ((Value × Value) × Bytes) := do
  let (k, rest) ← read bytes
  let (v, rest) ← read rest
  return ((k, v), rest)

/-- The value at the start of `bytes`, if it is nested less than `depth` deep. -/
def readValue : Nat → Bytes → Option (Value × Bytes)
  | 0, _ => none
  | depth + 1, bytes => do
    let (head, rest) ← readHead bytes
    match head with
    | .nil => return (.nil, rest)
    | .bool b => return (.bool b, rest)
    | .int n => return (.int n, rest)
    | .uint n => return (.uint n, rest)
    | .float32 bits => return (.float32 bits, rest)
    | .float64 bits => return (.float64 bits, rest)
    | .str n => (readUtf8 (rest.take n)).map fun s => (.str s, rest.drop n)
    | .bin n => if n ≤ rest.length then some (.bin (rest.take n), rest.drop n) else none
    | .array n => (readItems (readValue depth) n rest).map fun r => (.array r.1, r.2)
    | .map n => (readItems (readEntry (readValue depth)) n rest).map fun r => (.map r.1, r.2)

theorem readUtf8_utf8 (s : String) : readUtf8 (utf8 s) = some s := by
  have hbytes : (⟨((utf8 s).map UInt8.ofBitVec).toArray⟩ : ByteArray) = s.toByteArray := by
    simp [utf8, Function.comp_def]
  rw [readUtf8, hbytes, String.fromUTF8?, dif_pos s.isValidUTF8]
  rfl

theorem Value.bytes_length_pos (v : Value) : 0 < v.bytes.length := by
  cases v with
  | nil | bool b | int n | uint n | float32 bits | float64 bits =>
    rw [Value.bytes]
    exact Head.bytes_length_pos _
  | str s | bin bytes | array items | map entries =>
    rw [Value.bytes, length_append]
    exact Nat.add_pos_left (Head.bytes_length_pos _) _

/-- The head takes one level of the depth at least. -/
theorem Head.exists_depth {head : Head} {n depth : Nat} (h : head.bytes.length + n ≤ depth) :
    ∃ depth', depth = depth' + 1 ∧ n ≤ depth' := by
  have hpos := head.bytes_length_pos
  exact ⟨depth - 1, by omega, by omega⟩

mutual

/-- **A value is read back**, with what follows it. -/
theorem readValue_bytes : ∀ (v : Value) {depth : Nat} (rest : Bytes), v.bytes.length ≤ depth →
    readValue depth (v.bytes ++ rest) = some (v, rest)
  | .nil, depth, rest, h | .bool _, depth, rest, h | .int _, depth, rest, h
  | .uint _, depth, rest, h | .float32 _, depth, rest, h | .float64 _, depth, rest, h => by
    rw [Value.bytes, ← Nat.add_zero (length _)] at h
    obtain ⟨depth, rfl, -⟩ := Head.exists_depth h
    rw [readValue, Value.bytes, Head.readHead_bytes]
    rfl
  | .str s, depth, rest, h => by
    rw [Value.bytes, length_append] at h
    obtain ⟨depth, rfl, -⟩ := Head.exists_depth h
    rw [readValue, Value.bytes, append_assoc, Head.readHead_bytes]
    show (readUtf8 ((utf8 s ++ rest).take _)).map _ = _
    rw [take_left, drop_left, readUtf8_utf8]
    rfl
  | .bin bytes, depth, rest, h => by
    rw [Value.bytes, length_append] at h
    obtain ⟨depth, rfl, -⟩ := Head.exists_depth h
    rw [readValue, Value.bytes, append_assoc, Head.readHead_bytes]
    show (if bytes.length ≤ (bytes ++ rest).length then _ else none) = _
    rw [if_pos (by simp), take_left, drop_left]
  | .array items, depth, rest, h => by
    rw [Value.bytes, length_append] at h
    obtain ⟨depth, rfl, hcontents⟩ := Head.exists_depth h
    rw [readValue, Value.bytes, append_assoc, Head.readHead_bytes]
    exact congrArg (Option.map _) (readItems_bytes items rest hcontents)
  | .map entries, depth, rest, h => by
    rw [Value.bytes, length_append] at h
    obtain ⟨depth, rfl, hcontents⟩ := Head.exists_depth h
    rw [readValue, Value.bytes, append_assoc, Head.readHead_bytes]
    exact congrArg (Option.map _) (readEntries_bytes entries rest hcontents)

theorem readItems_bytes : ∀ (items : List Value) {depth : Nat} (rest : Bytes),
    (itemBytes items).length ≤ depth →
    readItems (readValue depth) items.length (itemBytes items ++ rest) = some (items, rest)
  | [], _, _, _ => rfl
  | v :: items, depth, rest, h => by
    rw [itemBytes, length_append] at h
    rw [itemBytes, append_assoc, length_cons, readItems,
      readValue_bytes v _ (Nat.le_trans (Nat.le_add_right _ _) h)]
    show (readItems (readValue depth) items.length (itemBytes items ++ rest)).bind _ = _
    rw [readItems_bytes items rest (Nat.le_trans (Nat.le_add_left _ _) h)]
    rfl

theorem readEntries_bytes : ∀ (entries : List (Value × Value)) {depth : Nat} (rest : Bytes),
    (entryBytes entries).length ≤ depth →
    readItems (readEntry (readValue depth)) entries.length (entryBytes entries ++ rest) =
      some (entries, rest)
  | [], _, _, _ => rfl
  | (k, v) :: entries, depth, rest, h => by
    rw [entryBytes, length_append, length_append] at h
    have hentry : readEntry (readValue depth)
      (k.bytes ++ (v.bytes ++ (entryBytes entries ++ rest))) =
        some ((k, v), entryBytes entries ++ rest) := by
      rw [readEntry, readValue_bytes k _ (by omega)]
      show (readValue depth (v.bytes ++ _)).bind _ = _
      rw [readValue_bytes v _ (by omega)]
      rfl
    rw [entryBytes, append_assoc, append_assoc, length_cons, readItems, hentry]
    show (readItems _ entries.length (entryBytes entries ++ rest)).bind _ = _
    rw [readEntries_bytes entries rest (by omega)]
    rfl

end

/-! ## The library -/

/-- A library with the bytes of the format. -/
def msgpack : Msgpack where
  marshal := Value.bytes
  -- what follows the value is not looked at
  unmarshal bytes := (readValue bytes.length bytes).map Prod.fst
  unmarshal_marshal v := by
    have h := readValue_bytes v [] (Nat.le_refl v.bytes.length)
    rw [append_nil] at h
    rw [h]
    rfl
  marshal_ne_nil v := ne_nil_of_length_pos v.bytes_length_pos
  length_bin bytes := by
    rw [Value.bytes, length_append]
    exact Nat.lt_add_of_pos_left (Head.bytes_length_pos _)

end Callwire.Go
