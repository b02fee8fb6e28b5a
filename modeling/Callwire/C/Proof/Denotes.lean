import Callwire.C.Codec
import Callwire.C.Proof.WriterSpec

/-!
# What the writer's bytes denote

A msgpack integer denotes a number in `[-2 ^ 63, 2 ^ 64)`; the core keeps 64 bits of it and writes
them back as a signed number. `Denotes d e` is the grammar of `Callwire.C.Grammar` with the numbers
themselves: `d` is a `Datum`, whose integers are in `Int`. A datum is decoded to `d.value`, where
the integers are reduced to 64 bits (`Denotes.encodes`), and `encode_value` writes `v.datum`, where
they are read as signed (`encodeValue_denotes`).
-/

namespace Callwire.C

open Lib List Value

/-! ## Numbers -/

/-- `e` is a msgpack integer that denotes `z`. -/
inductive IntDenotes : Int → Bytes → Prop
  | posFix {t : Byte} (h : t.toNat ≤ 0x7F) : IntDenotes t.toNat [t]
  | negFix {t : Byte} (h : 0xE0 ≤ t.toNat) : IntDenotes t.toInt [t]
  | unsigned {t : Byte} {bs : Bytes} (h : (t, bs.length) ∈ uintTags) :
      IntDenotes (beVal bs) (t :: bs)
  | signed {t : Byte} {bs : Bytes} (h : (t, bs.length) ∈ intTags) :
      IntDenotes (BitVec.ofNat (8 * bs.length) (beVal bs)).toInt (t :: bs)

theorem setWidth_eq_ofNat (t : Byte) : t.setWidth 64 = BitVec.ofNat 64 t.toNat :=
  BitVec.eq_of_toNat_eq (by simp)

theorem IntDenotes.intEnc {z : Int} {e : Bytes} (h : IntDenotes z e) :
    IntEnc (BitVec.ofInt 64 z) e := by
  cases h with
  | posFix h =>
    rw [BitVec.ofInt_natCast, ← setWidth_eq_ofNat]
    exact .posFix h
  | negFix h => exact .negFix h
  | unsigned h =>
    rw [BitVec.ofInt_natCast]
    exact .unsigned h
  | signed h => exact .signed h

theorem uintTags_cases {t : Byte} {k : Nat} (h : (t, k) ∈ uintTags) : t.toNat < 0xD0 ∧ k ≤ 8 := by
  simp only [uintTags, mem_cons, Prod.mk.injEq, not_mem_nil, or_false] at h
  rcases h with ⟨rfl, rfl⟩ | ⟨rfl, rfl⟩ | ⟨rfl, rfl⟩ | ⟨rfl, rfl⟩ <;> decide

theorem intTags_width {t : Byte} {k : Nat} (h : (t, k) ∈ intTags) : 8 * k ≤ 64 := by
  simp only [intTags, mem_cons, Prod.mk.injEq, not_mem_nil, or_false] at h
  rcases h with ⟨-, rfl⟩ | ⟨-, rfl⟩ | ⟨-, rfl⟩ | ⟨-, rfl⟩ <;> decide

/-- An integer of the grammar denotes its 64 bits as a signed number, unless it is an unsigned one
with the top bit set. -/
theorem IntEnc.denotes {x : BitVec 64} {e : Bytes} (h : IntEnc x e)
    (hneg : x.toInt < 0 → ∀ t ∈ e.head?, 0xD0 ≤ t.toNat) : IntDenotes x.toInt e := by
  cases h with
  | @posFix t h =>
    have hz : (t.setWidth 64).toInt = t.toNat := by
      rw [setWidth_eq_ofNat, BitVec.toInt_eq_toNat_cond, BitVec.toNat_ofNat]
      omega
    rw [hz]
    exact .posFix h
  | negFix h =>
    rw [BitVec.toInt_signExtend_of_le (by decide)]
    exact .negFix h
  | @unsigned t bs h =>
    obtain ⟨htag, hk⟩ := uintTags_cases h
    have hlt : beVal bs < 2 ^ 64 := by
      calc beVal bs < 256 ^ bs.length := beVal_lt bs
        _ ≤ 256 ^ 8 := Nat.pow_le_pow_right (by decide) hk
    have hpos : ¬(BitVec.ofNat 64 (beVal bs)).toInt < 0 := fun hn =>
      absurd (hneg hn t rfl) (Nat.not_le.2 htag)
    have hz : (BitVec.ofNat 64 (beVal bs)).toInt = beVal bs := by
      rw [BitVec.toInt_eq_toNat_cond, BitVec.toNat_ofNat, Nat.mod_eq_of_lt hlt] at hpos ⊢
      split at hpos <;> simp_all
    rw [hz]
    exact .unsigned h
  | signed h =>
    rw [BitVec.toInt_signExtend_of_le (intTags_width h)]
    exact .signed h

/-! ## Data -/

/-- A msgpack value with its numbers. -/
inductive Datum where
  | null
  | bool (b : Bool)
  | int (z : Int)
  | float64 (x : BitVec 64)
  | string (data : Bytes)
  | binary (data : Bytes)
  | array (items : List Datum)
  | map (entries : List (Datum × Datum))

mutual
/-- The bytes are a well-formed value that denotes `d`. -/
inductive Denotes : Datum → Bytes → Prop
  | null : Denotes .null [0xC0]
  | false : Denotes (.bool false) [0xC2]
  | true : Denotes (.bool true) [0xC3]
  | int {z : Int} {e : Bytes} (h : IntDenotes z e) : Denotes (.int z) e
  | float {x : BitVec 64} {e : Bytes} (h : FloatEnc x e) : Denotes (.float64 x) e
  | str {data h : Bytes} (hh : StrHeader data.length h) : Denotes (.string data) (h ++ data)
  | bin {data h : Bytes} (hh : BinHeader data.length h) : Denotes (.binary data) (h ++ data)
  | array {ds : List Datum} {h e : Bytes} (hh : CountHeader 0x90 0xDC 0xDD ds.length h)
      (he : DenotesAll ds e) : Denotes (.array ds) (h ++ e)
  | map {kvs : List (Datum × Datum)} {h e : Bytes} (hh : CountHeader 0x80 0xDE 0xDF kvs.length h)
      (he : DenotesEntries kvs e) : Denotes (.map kvs) (h ++ e)
inductive DenotesAll : List Datum → Bytes → Prop
  | nil : DenotesAll [] []
  | cons {d : Datum} {ds : List Datum} {e es : Bytes} (h : Denotes d e) (hs : DenotesAll ds es) :
      DenotesAll (d :: ds) (e ++ es)
inductive DenotesEntries : List (Datum × Datum) → Bytes → Prop
  | nil : DenotesEntries [] []
  | cons {k d : Datum} {kvs : List (Datum × Datum)} {ek ed es : Bytes} (hk : Denotes k ek)
      (hd : Denotes d ed) (hs : DenotesEntries kvs es) :
      DenotesEntries ((k, d) :: kvs) (ek ++ (ed ++ es))
end

mutual
/-- What the core keeps of a datum. -/
def Datum.value : Datum → Value
  | .null => .null
  | .bool b => .bool (if b then 1 else 0)
  | .int z => .int64 (BitVec.ofInt 64 z)
  | .float64 x => .float64 x
  | .string s => .string s
  | .binary s => .binary s
  | .array ds => .array (Datum.values ds)
  | .map kvs => .map (Datum.valueEntries kvs)
def Datum.values : List Datum → List Value
  | [] => []
  | d :: ds => d.value :: Datum.values ds
def Datum.valueEntries : List (Datum × Datum) → List (Value × Value)
  | [] => []
  | (k, d) :: kvs => (k.value, d.value) :: Datum.valueEntries kvs
end

mutual
/-- What the core writes for a value. -/
def Value.datum : Value → Datum
  | .null => .null
  | .bool b => .bool (b ≠ 0)
  | .int64 x => .int x.toInt
  | .float64 x => .float64 x
  | .string s => .string s
  | .binary s => .binary s
  | .array vs => .array (data vs)
  | .map kvs => .map (dataEntries kvs)
def Value.data : List Value → List Datum
  | [] => []
  | v :: vs => v.datum :: data vs
def Value.dataEntries : List (Value × Value) → List (Datum × Datum)
  | [] => []
  | (k, v) :: kvs => (k.datum, v.datum) :: dataEntries kvs
end

theorem values_length : ∀ ds : List Datum, (Datum.values ds).length = ds.length
  | [] => rfl
  | _ :: ds => by rw [Datum.values, length_cons, values_length ds, length_cons]

theorem valueEntries_length : ∀ kvs : List (Datum × Datum),
    (Datum.valueEntries kvs).length = kvs.length
  | [] => rfl
  | (_, _) :: kvs => by
    rw [Datum.valueEntries, length_cons, valueEntries_length kvs, length_cons]

theorem data_length (vs : List Value) : (data vs).length = vs.length := by
  induction vs with
  | nil => rfl
  | cons v vs ih => rw [data, length_cons, ih, length_cons]

theorem dataEntries_length (kvs : List (Value × Value)) :
    (dataEntries kvs).length = kvs.length := by
  induction kvs with
  | nil => rfl
  | cons kv kvs ih => rw [dataEntries, length_cons, ih, length_cons]

mutual
/-- **What denotes `d` encodes `d.value`.** -/
theorem Denotes.encodes : ∀ {d : Datum} {e : Bytes}, Denotes d e → Encodes d.value e
  | _, _, .null => by
    rw [Datum.value]
    exact .null
  | _, _, .false => by
    rw [Datum.value]
    exact .false
  | _, _, .true => by
    rw [Datum.value]
    exact .true
  | _, _, .int h => by
    rw [Datum.value]
    exact .int h.intEnc
  | _, _, .float h => by
    rw [Datum.value]
    exact .float h
  | _, _, .str hh => by
    rw [Datum.value]
    exact .str hh
  | _, _, .bin hh => by
    rw [Datum.value]
    exact .bin hh
  | _, _, .array hh he => by
    rw [Datum.value]
    exact .array (values_length _ ▸ hh) he.encodes
  | _, _, .map hh he => by
    rw [Datum.value]
    exact .map (valueEntries_length _ ▸ hh) he.encodes
theorem DenotesAll.encodes : ∀ {ds : List Datum} {e : Bytes}, DenotesAll ds e →
    EncodesAll (Datum.values ds) e
  | _, _, .nil => .nil
  | _, _, .cons h hs => .cons h.encodes hs.encodes
theorem DenotesEntries.encodes : ∀ {kvs : List (Datum × Datum)} {e : Bytes}, DenotesEntries kvs e →
    EncodesEntries (Datum.valueEntries kvs) e
  | _, _, .nil => .nil
  | _, _, .cons hk hd hs => .cons hk.encodes hd.encodes hs.encodes
end

mutual
theorem value_datum : ∀ v : Value, v.datum.value = v.normal
  | .null | .float64 _ | .string _ | .binary _ => rfl
  | .bool b => by
    rw [datum, Datum.value, normal]
    by_cases hb : b = 0 <;> simp [hb]
  | .int64 x => by rw [datum, Datum.value, BitVec.ofInt_toInt, normal]
  | .array vs => by rw [datum, Datum.value, values_data vs, normal]
  | .map kvs => by rw [datum, Datum.value, valueEntries_dataEntries kvs, normal]
theorem values_data : ∀ vs : List Value, Datum.values (data vs) = normalAll vs
  | [] => rfl
  | v :: vs => by rw [data, Datum.values, value_datum v, values_data vs, normalAll]
theorem valueEntries_dataEntries : ∀ kvs : List (Value × Value),
    Datum.valueEntries (dataEntries kvs) = normalEntries kvs
  | [] => rfl
  | (k, v) :: kvs => by
    rw [dataEntries, Datum.valueEntries, value_datum k, value_datum v,
      valueEntries_dataEntries kvs, normalEntries]
end

/-! ## Writing -/

mutual
/-- A bound on the encoded length of a value. -/
def Value.size : Value → Nat
  | .null => 1
  | .bool _ => 1
  | .int64 _ => 9
  | .float64 _ => 9
  | .string s => 5 + s.length
  | .binary s => 5 + s.length
  | .array vs => 5 + sizeAll vs
  | .map kvs => 5 + sizeEntries kvs
def sizeAll : List Value → Nat
  | [] => 0
  | v :: vs => v.size + sizeAll vs
def sizeEntries : List (Value × Value) → Nat
  | [] => 0
  | (k, v) :: kvs => k.size + (v.size + sizeEntries kvs)
end

/-- `f` writes a value that denotes `d`, as far as its lengths fit their 32-bit fields. -/
def WritesDatum (f : Writer → Writer) (d : Datum) : Prop :=
  ∃ bs, Emits f bs ∧ 0 < bs.length ∧ bs.length ≤ d.value.size ∧ (bs.length < 2 ^ 32 → Denotes d bs)

/-- `f` writes values that denote `ds`, one after the other. -/
def WritesData (f : Writer → Writer) (ds : List Datum) : Prop :=
  ∃ bs, Emits f bs ∧ ds.length ≤ bs.length ∧ bs.length ≤ sizeAll (Datum.values ds) ∧
    (bs.length < 2 ^ 32 → DenotesAll ds bs)

/-- `f` writes map entries that denote `kvs`. -/
def WritesDataEntries (f : Writer → Writer) (kvs : List (Datum × Datum)) : Prop :=
  ∃ bs, Emits f bs ∧ kvs.length ≤ bs.length ∧ bs.length ≤ sizeEntries (Datum.valueEntries kvs) ∧
    (bs.length < 2 ^ 32 → DenotesEntries kvs bs)

section
variable {f g : Writer → Writer} {k d : Datum} {ds : List Datum} {kvs kvs' : List (Datum × Datum)}

theorem IntEnc.length_le {x : BitVec 64} {e : Bytes} (h : IntEnc x e) : e.length ≤ 9 := by
  cases h with
  | posFix | negFix => simp
  | unsigned h =>
    simp only [uintTags, mem_cons, Prod.mk.injEq, not_mem_nil, or_false] at h
    rcases h with ⟨-, h⟩ | ⟨-, h⟩ | ⟨-, h⟩ | ⟨-, h⟩ <;> simp [h]
  | signed h =>
    simp only [intTags, mem_cons, Prod.mk.injEq, not_mem_nil, or_false] at h
    rcases h with ⟨-, h⟩ | ⟨-, h⟩ | ⟨-, h⟩ | ⟨-, h⟩ <;> simp [h]

theorem writesDatum_int (x : BitVec 64) :
    WritesDatum (fun w => mpackWriteInt64 w x) (.int x.toInt) := by
  obtain ⟨bs, he, hx, hneg⟩ := writeInt64_emits x
  exact ⟨bs, he, Encodes.length_pos (.int hx), hx.length_le, fun _ => .int (hx.denotes hneg)⟩

theorem writesDatum_bool (b : BitVec 32) :
    WritesDatum (fun w => mpackWriteBool w b) (.bool (b ≠ 0)) := by
  refine ⟨_, writeU8_emits _, by simp, by simp [Datum.value, size], fun _ => ?_⟩
  by_cases hb : b = 0
  · simp only [hb, ne_eq, not_true_eq_false, ↓reduceIte, decide_false]
    exact .false
  · simp only [hb, ne_eq, not_false_eq_true, ↓reduceIte, decide_true]
    exact .true

theorem writesDatum_str (s : Bytes) : WritesDatum (fun w => mpackWriteStr w s) (.string s) := by
  obtain ⟨h, he, hpos, hle, hh⟩ := writeStr_emits s
  refine ⟨h ++ s, he, by simp; omega, by simp [Datum.value, size]; omega, fun hl => .str (hh ?_)⟩
  rw [length_append] at hl
  omega

theorem writesDatum_bin (s : Bytes) : WritesDatum (fun w => mpackWriteBin w s) (.binary s) := by
  obtain ⟨h, he, hpos, hle, hh⟩ := writeBin_emits s
  refine ⟨h ++ s, he, by simp; omega, by simp [Datum.value, size]; omega, fun hl => .bin (hh ?_)⟩
  rw [length_append] at hl
  omega

theorem writesDatum_double (x : BitVec 64) :
    WritesDatum (fun w => mpackWriteDouble w x) (.float64 x) := by
  obtain ⟨bs, he, hx⟩ := writeDouble_emits x
  refine ⟨bs, he, Encodes.length_pos (.float hx), ?_, fun _ => .float hx⟩
  rw [Datum.value, size]
  cases hx with
  | float64 h | float32 h => simp [h]

/-- A header and the items: there are no more items than bytes, so the count fits as well. -/
theorem WritesData.array (h : WritesData f ds) :
    WritesDatum (fun w => f (mpackWriteArrayHeader w (BitVec.ofNat 32 ds.length))) (.array ds) := by
  obtain ⟨bs, he, hl, hle, hds⟩ := h
  obtain ⟨hd, hhe, hpos, hd5, hh⟩ := writeCount_emits fixFree_array 0xDC 0xDD ds.length
  refine ⟨hd ++ bs, hhe.comp he, by simp; omega, by simp [Datum.value, size]; omega, fun hlen => ?_⟩
  rw [length_append] at hlen
  exact .array (hh (by omega)) (hds (by omega))

theorem WritesDataEntries.map (h : WritesDataEntries f kvs) :
    WritesDatum (fun w => f (mpackWriteMapHeader w (BitVec.ofNat 32 kvs.length))) (.map kvs) := by
  obtain ⟨bs, he, hl, hle, hkvs⟩ := h
  obtain ⟨hd, hhe, hpos, hd5, hh⟩ := writeCount_emits fixFree_map 0xDE 0xDF kvs.length
  refine ⟨hd ++ bs, hhe.comp he, by simp; omega, by simp [Datum.value, size]; omega, fun hlen => ?_⟩
  rw [length_append] at hlen
  exact .map (hh (by omega)) (hkvs (by omega))

theorem WritesDatum.cons (h : WritesDatum f d) (hs : WritesData g ds) :
    WritesData (fun w => g (f w)) (d :: ds) := by
  obtain ⟨b, he, hpos, hle, hb⟩ := h
  obtain ⟨bs, hes, hl, hles, hbs⟩ := hs
  refine ⟨b ++ bs, he.comp hes, by simp; omega, by simp [Datum.values, sizeAll]; omega,
    fun hlen => ?_⟩
  rw [length_append] at hlen
  exact .cons (hb (by omega)) (hbs (by omega))

theorem WritesDatum.entry (hk : WritesDatum f k) (hd : WritesDatum g d) :
    WritesDataEntries (fun w => g (f w)) [(k, d)] := by
  obtain ⟨bk, hek, -, hlk, hbk⟩ := hk
  obtain ⟨bd, hed, hpos, hld, hbd⟩ := hd
  refine ⟨bk ++ bd, hek.comp hed, by simp; omega, by simp [Datum.valueEntries, sizeEntries]; omega,
    fun hlen => ?_⟩
  rw [length_append] at hlen
  have h := DenotesEntries.cons (hbk (by omega)) (hbd (by omega)) .nil
  rwa [append_nil] at h

theorem DenotesEntries.append {e e' : Bytes} (h : DenotesEntries kvs e)
    (h' : DenotesEntries kvs' e') : DenotesEntries (kvs ++ kvs') (e ++ e') := by
  induction kvs generalizing e with
  | nil =>
    cases h
    exact h'
  | cons kv kvs ih =>
    obtain - | @⟨k, d, _, ek, ed, es, hk, hd, hs⟩ := h
    have := DenotesEntries.cons hk hd (ih hs)
    rwa [← append_assoc, ← append_assoc, append_assoc ek ed es] at this

theorem sizeEntries_append : ∀ kvs kvs' : List (Datum × Datum),
    sizeEntries (Datum.valueEntries (kvs ++ kvs')) =
      sizeEntries (Datum.valueEntries kvs) + sizeEntries (Datum.valueEntries kvs')
  | [], kvs' => by simp [Datum.valueEntries, sizeEntries]
  | (k, d) :: kvs, kvs' => by
    rw [cons_append, Datum.valueEntries, sizeEntries, sizeEntries_append kvs kvs',
      Datum.valueEntries,
      sizeEntries]
    omega

theorem WritesDataEntries.append (h : WritesDataEntries f kvs) (h' : WritesDataEntries g kvs') :
    WritesDataEntries (fun w => g (f w)) (kvs ++ kvs') := by
  obtain ⟨bs, he, hl, hle, hb⟩ := h
  obtain ⟨bs', he', hl', hle', hb'⟩ := h'
  refine ⟨bs ++ bs', he.comp he', by simp; omega, ?_, fun hlen => ?_⟩
  · rw [sizeEntries_append, length_append]
    omega
  rw [length_append] at hlen
  exact (hb (by omega)).append (hb' (by omega))

end

mutual
/-- **`encode_value` writes the datum of a value.** -/
theorem encodeValue_denotes : ∀ v : Value, WritesDatum (fun w => encodeValue w v) v.datum
  | .null => by
    simpa only [encodeValue, datum] using
      ⟨_, writeNil_emits, by decide, by decide, fun _ => .null⟩
  | .bool b => by simpa only [encodeValue, datum] using writesDatum_bool b
  | .int64 x => by simpa only [encodeValue, datum] using writesDatum_int x
  | .float64 x => by simpa only [encodeValue, datum] using writesDatum_double x
  | .string s => by simpa only [encodeValue, datum] using writesDatum_str s
  | .binary s => by simpa only [encodeValue, datum] using writesDatum_bin s
  | .array items => by
    have h := (encodeItems_denotes items).array
    simpa only [encodeValue, datum, data_length] using h
  | .map entries => by
    have h := (encodeEntries_denotes entries).map
    simpa only [encodeValue, datum, dataEntries_length] using h
theorem encodeItems_denotes : ∀ vs : List Value,
    WritesData (fun w => encodeItems w vs) (data vs)
  | [] =>
    ⟨[], by simpa only [encodeItems] using Emits.nil, Nat.le_refl _, Nat.le_refl _, fun _ => .nil⟩
  | v :: vs => by
    have h := (encodeValue_denotes v).cons (encodeItems_denotes vs)
    simpa only [encodeItems, data] using h
theorem encodeEntries_denotes : ∀ kvs : List (Value × Value),
    WritesDataEntries (fun w => encodeEntries w kvs) (dataEntries kvs)
  | [] =>
    ⟨[], by simpa only [encodeEntries] using Emits.nil, Nat.le_refl _, Nat.le_refl _, fun _ => .nil⟩
  | (k, v) :: kvs => by
    have h := ((encodeValue_denotes k).entry (encodeValue_denotes v)).append
      (encodeEntries_denotes kvs)
    simpa only [encodeEntries, dataEntries, cons_append, nil_append] using h
end

end Callwire.C
