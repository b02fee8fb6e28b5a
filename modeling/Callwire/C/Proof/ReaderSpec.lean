import Callwire.C.MpackReader
import Callwire.Lib.Faults

/-!
# What the reader's operations do

`r.At xs`: the reader stands inside the payload, in front of the bytes `xs`. The operations are
described from such a state, whatever the error flag: with enough bytes in front they return them
and advance, otherwise they end `Broken`, with the error flag set. Nothing is said of a broken
reader's position, which can run past the end: each further read checks it again. The fixed-width
reads are big-endian reads of their width (`ReadsBE`).
-/

namespace Callwire.C

open Lib List

/-- The reader stands in front of `xs`. -/
structure Reader.At (r : Reader) (xs : Bytes) : Prop where
  le : r.pos ≤ r.len
  eq : r.rest = xs

/-- `r'` comes from `r` by an operation that ran out of input or met an unsupported tag. -/
structure Broken (r r' : Reader) : Prop where
  buf : r'.buf = r.buf
  error : r'.error = true

/-! ## Positions -/

section
variable {r r' : Reader} {xs e tl : Bytes} {n : Nat}

@[simp] theorem Reader.advance_buf : (r.advance n).buf = r.buf := rfl
@[simp] theorem Reader.advance_error : (r.advance n).error = r.error := rfl
@[simp] theorem Reader.advance_len : (r.advance n).len = r.len := rfl

theorem Reader.len_eq (h : r'.buf = r.buf) : r'.len = r.len := by rw [Reader.len, Reader.len, h]

theorem Reader.len_lt (r : Reader) : r.len < 2 ^ 63 := r.buf.small

@[simp] theorem Reader.advance_zero (h : r.pos ≤ r.len) : r.advance 0 = r := by
  have := r.len_lt
  rw [advance, Nat.add_zero, Nat.mod_eq_of_lt (by omega)]

theorem Reader.advance_advance (r : Reader) (m n : Nat) :
    (r.advance m).advance n = r.advance (m + n) := by
  simp only [advance, Nat.mod_add_mod, Nat.add_assoc]

theorem Reader.At.fail (h : r.At xs) : r.fail.At xs := ⟨h.le, h.eq⟩

theorem Reader.rest_length (r : Reader) : r.rest.length = r.len - r.pos := by
  simp [rest, len]

theorem Reader.At.length (h : r.At xs) : r.pos + xs.length = r.len := by
  have := r.rest_length
  have := h.le
  rw [← h.eq]
  omega

theorem Reader.At.of_le (h : r.pos ≤ r.len) : r.At r.rest := ⟨h, rfl⟩

theorem Reader.At.pos_advance (h : r.At xs) (hn : n ≤ xs.length) :
    (r.advance n).pos = r.pos + n := by
  have := h.length
  have := r.len_lt
  exact Nat.mod_eq_of_lt (by omega)

theorem Reader.At.advance (h : r.At (e ++ tl)) : (r.advance e.length).At tl := by
  have hp := h.pos_advance (show e.length ≤ (e ++ tl).length by simp)
  have hl := h.length
  rw [length_append] at hl
  refine ⟨by rw [hp, advance_len]; omega, ?_⟩
  have hd := congrArg (List.drop e.length) h.eq
  rwa [drop_left, rest, drop_drop, ← hp] at hd

theorem Reader.At.advance_cons {t : Byte} (h : r.At (t :: tl)) : (r.advance 1).At tl :=
  Reader.At.advance (e := [t]) h

theorem Reader.At.notNull {t : Byte} (h : r.At (t :: tl)) : r.buf.isNull = false := by
  cases hn : r.buf.isNull with
  | false => rfl
  | true =>
    have := h.length
    rw [len, r.buf.null_empty hn] at this
    simp at this

/-- The bounds check is exact: in front of `xs` it fails for more than `xs.length` bytes. -/
theorem Reader.At.lacks (h : r.At xs) (hn : n < 2 ^ 63) :
    r.lacks n = decide (xs.length < n) := by
  have := h.length
  have := r.len_lt
  rw [Reader.lacks, Nat.mod_eq_of_lt (by omega)]
  exact decide_eq_decide.2 (by omega)

theorem Reader.At.byte (h : r.At xs) {i : Nat} {b : Byte} (hi : xs[i]? = some b) :
    r.byte (r.pos + i) = .ok b := by
  rw [← h.eq, rest, getElem?_drop] at hi
  simp only [Reader.byte, hi]

/-- The bytes behind a pointer to data in front of which the reader stood. -/
theorem Reader.At.slice {data : Bytes} (h : r.At (e ++ (data ++ tl))) (hb : r'.buf = r.buf) :
    r'.slice (r.advance e.length).pos data.length = .ok data := by
  have h1 := h.advance
  have hl := h1.length
  rw [length_append, advance_len] at hl
  have hr : List.drop (r.advance e.length).pos r.buf.bytes = data ++ tl := h1.eq
  rw [Reader.slice, len_eq hb, if_pos (by omega), hb, hr, take_left]

theorem Reader.slice_ok {p : Nat} (h : p + n ≤ r.len) : ∃ bs, r.slice p n = .ok bs :=
  ⟨_, if_pos h⟩

theorem broken_fail : Broken r r.fail := ⟨rfl, rfl⟩

theorem Broken.trans (h : Broken r r') {r'' : Reader} (h' : Broken r' r'') : Broken r r'' :=
  ⟨h'.buf.trans h.buf, h'.error⟩

theorem Broken.of_advance (h : Broken (r.advance n) r') : Broken r r' := ⟨h.buf, h.error⟩

end

/-! ## Fixed-width reads -/

section
variable {r : Reader} {xs bs tl : Bytes}

theorem readU8_ok {b : Byte} (h : r.At (b :: tl)) : mpackReadU8 r = .ok (b, r.advance 1) := by
  rw [mpackReadU8, h.lacks (by decide)]
  have := h.byte (i := 0) rfl
  simp [show r.byte r.pos = _ from this]

theorem readU8_short (h : r.At []) : mpackReadU8 r = .ok (0, r.fail) := by
  rw [mpackReadU8, h.lacks (by decide)]
  simp

theorem readU16_ok (h : r.At (bs ++ tl)) (hb : bs.length = 2) :
    mpackReadU16 r = .ok (BitVec.ofNat 16 (beVal bs), r.advance 2) := by
  obtain ⟨a, b, rfl⟩ : ∃ a b, bs = [a, b] := by
    match bs, hb with
    | [a, b], _ => exact ⟨a, b, rfl⟩
  have hv : (a.setWidth 16 <<< 8) ||| b.setWidth 16 = BitVec.ofNat 16 (beVal [a, b]) := by
    rw [← toNat_shift_or_two, BitVec.ofNat_toNat, BitVec.setWidth_eq]
  rw [mpackReadU16, h.lacks (by decide)]
  have h0 := h.byte (i := 0) rfl
  have h1 := h.byte (i := 1) rfl
  simp [show r.byte r.pos = _ from h0, h1, hv]

theorem readU16_short (h : r.At xs) (hx : xs.length < 2) : mpackReadU16 r = .ok (0, r.fail) := by
  rw [mpackReadU16, h.lacks (by decide)]
  simp [hx]

theorem readU32_ok (h : r.At (bs ++ tl)) (hb : bs.length = 4) :
    mpackReadU32 r = .ok (BitVec.ofNat 32 (beVal bs), r.advance 4) := by
  obtain ⟨a, b, c, d, rfl⟩ : ∃ a b c d, bs = [a, b, c, d] := by
    match bs, hb with
    | [a, b, c, d], _ => exact ⟨a, b, c, d, rfl⟩
  have hv : (a.setWidth 32 <<< 24) ||| (b.setWidth 32 <<< 16) ||| (c.setWidth 32 <<< 8) |||
      d.setWidth 32 = BitVec.ofNat 32 (beVal [a, b, c, d]) := by
    rw [← toNat_shift_or_four, BitVec.ofNat_toNat, BitVec.setWidth_eq]
  rw [mpackReadU32, h.lacks (by decide)]
  have h0 := h.byte (i := 0) rfl
  have h1 := h.byte (i := 1) rfl
  have h2 := h.byte (i := 2) rfl
  have h3 := h.byte (i := 3) rfl
  simp [show r.byte r.pos = _ from h0, h1, h2, h3, hv]

theorem readU32_short (h : r.At xs) (hx : xs.length < 4) : mpackReadU32 r = .ok (0, r.fail) := by
  rw [mpackReadU32, h.lacks (by decide)]
  simp [hx]

theorem readU64_ok (h : r.At (bs ++ tl)) (hb : bs.length = 8) :
    mpackReadU64 r = .ok (BitVec.ofNat 64 (beVal bs), r.advance 8) := by
  obtain ⟨hi, lo, rfl, hhi, hlo⟩ : ∃ hi lo : Bytes, bs = hi ++ lo ∧ hi.length = 4 ∧
      lo.length = 4 := ⟨bs.take 4, bs.drop 4, by simp, by simp [hb], by simp [hb]⟩
  rw [append_assoc] at h
  have h1 := readU32_ok h hhi
  have h2 := readU32_ok (hhi ▸ h.advance) hlo
  have hv : ((BitVec.ofNat 32 (beVal hi)).setWidth 64 <<< 32 |||
      (BitVec.ofNat 32 (beVal lo)).setWidth 64 : BitVec 64) =
        BitVec.ofNat 64 (beVal (hi ++ lo)) := by
    have l1 := beVal_lt hi
    have l2 := beVal_lt lo
    rw [hhi] at l1
    rw [hlo] at l2
    have hw : ∀ x, x < 256 ^ 4 → ((BitVec.ofNat 32 x).setWidth 64 : BitVec 64).toNat = x := by
      intro x hx
      rw [BitVec.toNat_setWidth, BitVec.toNat_ofNat, Nat.mod_eq_of_lt (by omega),
        Nat.mod_eq_of_lt (by omega)]
    apply BitVec.eq_of_toNat_eq
    rw [beVal_append, hlo, BitVec.toNat_or, BitVec.toNat_shiftLeft, hw _ l1, hw _ l2,
      Nat.shiftLeft_eq, Nat.mod_eq_of_lt (by omega), ← Nat.shiftLeft_eq,
      ← Nat.shiftLeft_add_eq_or_of_lt (by omega), Nat.shiftLeft_eq, BitVec.toNat_ofNat]
    omega
  simp only [mpackReadU64, h1, h2, ok_bind, pure_ok, hv,
    Reader.advance_advance]

theorem readU64_short (h : r.At xs) (hx : xs.length < 8) :
    ∃ x r', mpackReadU64 r = .ok (x, r') ∧ Broken r r' ∧ r'.pos ≤ r.len := by
  by_cases h4 : xs.length < 4
  · have h1 := readU32_short h h4
    have h2 := readU32_short h.fail h4
    simp only [mpackReadU64, h1, h2, ok_bind, pure_ok]
    exact ⟨_, _, rfl, broken_fail.trans broken_fail, h.le⟩
  · have hs : xs = xs.take 4 ++ xs.drop 4 := by simp
    rw [hs] at h
    have hl : (xs.take 4).length = 4 := by simp; omega
    have h1 := readU32_ok h hl
    have h' := hl ▸ h.advance
    have h2 := readU32_short h' (by simp; omega)
    simp only [mpackReadU64, h1, h2, ok_bind, pure_ok]
    exact ⟨_, _, rfl, broken_fail.of_advance, h'.le⟩

/-- `rd` reads `k` bytes, most significant first. -/
structure ReadsBE (k : Nat) (rd : Reader → Except Fault (BitVec (8 * k) × Reader)) : Prop where
  ok : ∀ {r : Reader} {bs tl : Bytes}, r.At (bs ++ tl) → bs.length = k →
    rd r = .ok (BitVec.ofNat (8 * k) (beVal bs), r.advance k)
  short : ∀ {r : Reader} {xs : Bytes}, r.At xs → xs.length < k →
    ∃ x r', rd r = .ok (x, r') ∧ Broken r r' ∧ r'.pos ≤ r.len

theorem readsBE_u8 : ReadsBE 1 mpackReadU8 where
  ok := by
    intro r bs tl h hb
    obtain ⟨b, rfl⟩ := length_eq_one_iff.1 hb
    rw [readU8_ok h, beVal_one, BitVec.ofNat_toNat, BitVec.setWidth_eq]
  short := by
    intro r xs h hx
    obtain rfl : xs = [] := by simpa using hx
    exact ⟨_, _, readU8_short h, broken_fail, h.le⟩

theorem readsBE_u16 : ReadsBE 2 mpackReadU16 :=
  ⟨readU16_ok, fun h hx => ⟨_, _, readU16_short h hx, broken_fail, h.le⟩⟩

theorem readsBE_u32 : ReadsBE 4 mpackReadU32 :=
  ⟨readU32_ok, fun h hx => ⟨_, _, readU32_short h hx, broken_fail, h.le⟩⟩

theorem readsBE_u64 : ReadsBE 8 mpackReadU64 := ⟨readU64_ok, readU64_short⟩

theorem readRaw_ok {data : Bytes} (h : r.At (data ++ tl)) (hn : r.buf.isNull = false) :
    mpackReadRaw r data.length = .ok (some r.pos, r.advance data.length) := by
  have := h.length
  have := r.len_lt
  rw [length_append] at *
  rw [mpackReadRaw, h.lacks (by omega)]
  simp [hn]

theorem readRaw_short {n : Nat} (h : r.At xs) (hx : xs.length < n) (hn : n < 2 ^ 63) :
    mpackReadRaw r n = .ok (none, r.fail) := by
  rw [mpackReadRaw, h.lacks hn]
  simp [hx]

theorem peek_cons {t : Byte} (h : r.At (t :: tl)) : mpackPeekTag r = .ok (t, r) := by
  have hl := h.length
  have := h.byte (i := 0) rfl
  rw [length_cons] at hl
  rw [mpackPeekTag, if_neg (by omega)]
  simp [show r.byte r.pos = _ from this]

theorem peek_nil (h : r.rest = []) : mpackPeekTag r = .ok (0, r.fail) := by
  have := r.rest_length
  rw [h] at this
  rw [mpackPeekTag, if_pos (by simp at this; omega)]

end

end Callwire.C
