import Callwire.C.MpackWriter
import Callwire.C.Grammar

/-!
# What the writer's operations write

`Emits f bs`: the operation `f` appends `bs` to a buffer with room for it and sets the overflow flag
otherwise; operations in sequence emit their bytes in sequence (`Emits.comp`). Each `mpack_write_*`
emits one value or header of the grammar (`writeInt64_emits`, `writeStr_emits`,
`writeCount_emits`, ...), in the smallest size class that holds it.
-/

namespace Callwire.C

open Lib List

/-- `f` writes `bs`, or overflows. -/
structure Emits (f : Writer → Writer) (bs : Bytes) : Prop where
  cap : ∀ w, (f w).cap = w.cap
  fits : ∀ w, w.overflow = false → w.pos + bs.length ≤ w.cap →
    (f w).overflow = false ∧ (f w).buf = w.buf ++ bs
  overflows : ∀ w, w.overflow = true ∨ w.cap < w.pos + bs.length → (f w).overflow = true

section
variable {f g : Writer → Writer} {as bs : Bytes}

theorem Emits.nil : Emits (fun w => w) [] where
  cap _ := rfl
  fits w h _ := ⟨h, by simp⟩
  overflows w h := h.resolve_right (Nat.not_lt.2 w.inside)

theorem Emits.comp (hf : Emits f as) (hg : Emits g bs) : Emits (fun w => g (f w)) (as ++ bs) where
  cap w := by rw [hg.cap, hf.cap]
  fits w ho hw := by
    rw [length_append] at hw
    obtain ⟨h1, h2⟩ := hf.fits w ho (by omega)
    rw [Writer.pos] at hw
    obtain ⟨h3, h4⟩ := hg.fits (f w) h1
      (by rw [hf.cap, Writer.pos, h2, length_append]; omega)
    exact ⟨h3, by rw [h4, h2, append_assoc]⟩
  overflows w h := by
    rw [length_append] at h
    by_cases ha : w.overflow = true ∨ w.cap < w.pos + as.length
    · exact hg.overflows _ (.inl (hf.overflows w ha))
    · rw [not_or, Bool.not_eq_true] at ha
      obtain ⟨h1, h2⟩ := hf.fits w ha.1 (by omega)
      refine hg.overflows _ (.inr ?_)
      rw [hf.cap, Writer.pos, h2, length_append]
      have := h.resolve_left (by simp [ha.1])
      rw [Writer.pos] at this
      omega

theorem writeRaw_emits (data : Bytes) : Emits (fun w => mpackWriteRaw w data) data where
  cap w := by unfold mpackWriteRaw; split <;> rfl
  fits w ho hw := by
    rw [mpackWriteRaw, dif_neg (by omega)]
    exact ⟨ho, rfl⟩
  overflows w h := by
    unfold mpackWriteRaw
    split
    · rfl
    · exact h.resolve_right (by omega)

theorem writeU8_emits (v : BitVec 8) : Emits (fun w => mpackWriteU8 w v) [v] := writeRaw_emits _

theorem writeU16_emits (v : BitVec 16) :
    Emits (fun w => mpackWriteU16 w v) (beBytes 2 v.toNat) := by
  rw [← shift_two]
  exact writeRaw_emits _

theorem writeU32_emits (v : BitVec 32) :
    Emits (fun w => mpackWriteU32 w v) (beBytes 4 v.toNat) := by
  rw [← shift_four]
  exact writeRaw_emits _

theorem writeU64_emits (v : BitVec 64) :
    Emits (fun w => mpackWriteU64 w v) (beBytes 8 v.toNat) := by
  have hhi : ((v >>> 32).setWidth 32 : BitVec 32).toNat = v.toNat / 2 ^ 32 := by
    have := v.isLt
    rw [BitVec.toNat_setWidth, BitVec.toNat_ushiftRight, Nat.shiftRight_eq_div_pow,
      Nat.mod_eq_of_lt (by omega)]
  have hlo : beBytes 4 (v.setWidth 32 : BitVec 32).toNat = beBytes 4 v.toNat := by
    rw [BitVec.toNat_setWidth]
    exact beBytes_mod 4 v.toNat
  rw [beBytes_eight, ← hhi, ← hlo]
  exact (writeU32_emits _).comp (writeU32_emits _)

theorem tagged_emits (t : Byte) (hf : Emits f bs) :
    Emits (fun w => f (mpackWriteU8 w t)) (t :: bs) :=
  (writeU8_emits t).comp hf

end

/-! ## Scalars -/

theorem writeNil_emits : Emits mpackWriteNil [0xC0] := writeU8_emits _

theorem writeDouble_emits (x : BitVec 64) :
    ∃ bs, Emits (fun w => mpackWriteDouble w x) bs ∧ FloatEnc x bs := by
  refine ⟨_, tagged_emits 0xCB (writeU64_emits x), ?_⟩
  have h := FloatEnc.float64 (beBytes_length 8 x.toNat)
  rwa [beVal_beBytes_of_lt x.isLt, BitVec.ofNat_toNat, BitVec.setWidth_eq] at h

variable {v : BitVec 64}

theorem intEnc_unsigned {t : Byte} {k : Nat} (ht : (t, k) ∈ uintTags) (hv : v.toNat < 256 ^ k) :
    IntEnc v (t :: beBytes k v.toNat) := by
  have h := @IntEnc.unsigned t (beBytes k v.toNat) (by rwa [beBytes_length])
  rwa [beVal_beBytes_of_lt hv, BitVec.ofNat_toNat, BitVec.setWidth_eq] at h

/-- The signed size classes: the low `k` bytes determine the number. -/
theorem intEnc_signed {t : Byte} {k : Nat} (ht : (t, k) ∈ intTags)
    (hv : (v.setWidth (8 * k)).signExtend 64 = v) : IntEnc v (t :: beBytes k v.toNat) := by
  have h := @IntEnc.signed t (beBytes k v.toNat) (by rwa [beBytes_length])
  rw [beBytes_length] at h
  have hw : BitVec.ofNat (8 * k) (beVal (beBytes k v.toNat)) = v.setWidth (8 * k) := by
    apply BitVec.eq_of_toNat_eq
    rw [beVal_beBytes, BitVec.toNat_ofNat, BitVec.toNat_setWidth,
      show (256 : Nat) = 2 ^ 8 from rfl, ← Nat.pow_mul, Nat.mod_mod]
  rwa [hw, hv] at h

/-- A number that fits `w` bits is its low `w` bits, sign-extended. -/
theorem signExtend_setWidth {w : Nat} (hw : 0 < w) (hw' : w ≤ 64) (h1 : -2 ^ (w - 1) ≤ v.toInt)
    (h2 : v.toInt < 2 ^ (w - 1)) : (v.setWidth w).signExtend 64 = v := by
  obtain ⟨k, rfl⟩ : ∃ k, w = k + 1 := ⟨w - 1, by omega⟩
  apply BitVec.eq_of_toInt_eq
  have hd : 2 ^ (k + 1) ∣ 2 ^ 64 := Nat.pow_dvd_pow 2 hw'
  rw [Nat.add_sub_cancel] at h1 h2
  rw [BitVec.toInt_signExtend_of_le hw', BitVec.toInt_setWidth, ← Int.bmod_bmod_of_dvd hd,
    ← BitVec.toInt_eq_toNat_bmod]
  apply Int.bmod_eq_of_le <;> push_cast <;> omega

theorem negFix_all : ∀ k : Fin 32,
    ((0xE0#64 ||| (BitVec.ofNat 64 (2 ^ 64 - 32 + k) &&& 0x1F#64)).setWidth 8).signExtend 64 =
      BitVec.ofNat 64 (2 ^ 64 - 32 + k) ∧
    0xE0 ≤ ((0xE0#64 ||| (BitVec.ofNat 64 (2 ^ 64 - 32 + k) &&& 0x1F#64)).setWidth 8).toNat := by
  decide

theorem intEnc_negFix (h : v.toInt < 0 ∧ v.toInt ≥ -32) :
    IntEnc v [(0xE0#64 ||| (v &&& 0x1F#64)).setWidth 8] ∧
      0xE0 ≤ ((0xE0#64 ||| (v &&& 0x1F#64)).setWidth 8).toNat := by
  have hn := BitVec.toInt_eq_toNat_cond v
  have hlt := v.isLt
  obtain ⟨k, rfl⟩ : ∃ k : Fin 32, v = BitVec.ofNat 64 (2 ^ 64 - 32 + k) := by
    refine ⟨⟨v.toNat - (2 ^ 64 - 32), by split at hn <;> omega⟩, BitVec.eq_of_toNat_eq ?_⟩
    rw [BitVec.toNat_ofNat, Nat.mod_eq_of_lt] <;> split at hn <;> simp only <;> omega
  have h := IntEnc.negFix (negFix_all k).2
  rw [(negFix_all k).1] at h
  exact ⟨h, (negFix_all k).2⟩

theorem intEnc_posFix (h : v.toNat ≤ 0x7F) : IntEnc v [v.setWidth 8] := by
  have ht : (v.setWidth 8).toNat = v.toNat := by
    rw [BitVec.toNat_setWidth, Nat.mod_eq_of_lt (by omega)]
  have h' := IntEnc.posFix (t := v.setWidth 8) (by omega)
  have hv : (v.setWidth 8).setWidth 64 = v := by
    apply BitVec.eq_of_toNat_eq
    rw [BitVec.toNat_setWidth, ht, Nat.mod_eq_of_lt v.isLt]
  rwa [hv] at h'

section
variable (v : BitVec 64)

/-- The low bytes of a 64-bit number, at the widths the writer has. -/
theorem lowBytes_emits :
    Emits (fun w => mpackWriteU8 w (v.setWidth 8)) (beBytes 1 v.toNat) ∧
    Emits (fun w => mpackWriteU16 w (v.setWidth 16)) (beBytes 2 v.toNat) ∧
    Emits (fun w => mpackWriteU32 w (v.setWidth 32)) (beBytes 4 v.toNat) := by
  have h1 : beBytes 1 v.toNat = [v.setWidth 8] := by
    simp only [beBytes, Nat.pow_zero, Nat.div_one, BitVec.ofNat_toNat]
  have h2 := writeU16_emits (v.setWidth 16)
  have h4 := writeU32_emits (v.setWidth 32)
  rw [BitVec.toNat_setWidth] at h2 h4
  rw [h1, ← beBytes_mod 2, ← beBytes_mod 4]
  exact ⟨writeU8_emits _, h2, h4⟩

/-- **`mpack_write_int64` writes an integer of the grammar**, whatever the number, and a negative
number under one of the signed tags. -/
theorem writeInt64_emits : ∃ bs, Emits (fun w => mpackWriteInt64 w v) bs ∧ IntEnc v bs ∧
    (v.toInt < 0 → ∀ t ∈ bs.head?, 0xD0 ≤ t.toNat) := by
  have hn := BitVec.toInt_eq_toNat_cond v
  have hlt := v.isLt
  obtain ⟨e1, e2, e4⟩ := lowBytes_emits v
  have hsigned : ∀ (t : Byte) (bs : Bytes), 0xD0 ≤ t.toNat →
      v.toInt < 0 → ∀ t' ∈ (t :: bs).head?, 0xD0 ≤ t'.toNat := by
    rintro t bs ht - t' ⟨⟩
    exact ht
  unfold mpackWriteInt64
  by_cases h : v.toInt ≥ 0 ∧ v.toInt ≤ 0x7F
  · simp only [h, and_self, ↓reduceIte]
    exact ⟨_, writeU8_emits _, intEnc_posFix (by split at hn <;> omega), by omega⟩
  simp only [if_neg h]
  by_cases h' : v.toInt < 0 ∧ v.toInt ≥ -32
  · simp only [h', and_self, ↓reduceIte]
    obtain ⟨henc, htag⟩ := intEnc_negFix h'
    exact ⟨_, writeU8_emits _, henc, fun _ => hsigned _ [] (by omega) h'.1⟩
  simp only [if_neg h']
  by_cases hpos : v.toInt ≥ 0
  · simp only [hpos, ↓reduceIte]
    have hv : v.toInt = v.toNat := by split at hn <;> omega
    by_cases h1 : v.toInt ≤ 0xFF
    · simp only [h1, ↓reduceIte]
      exact ⟨_, tagged_emits _ e1, intEnc_unsigned (by decide) (by omega), by omega⟩
    by_cases h2 : v.toInt ≤ 0xFFFF
    · simp only [h1, h2, ↓reduceIte]
      exact ⟨_, tagged_emits _ e2, intEnc_unsigned (by decide) (by omega), by omega⟩
    by_cases h4 : v.toInt ≤ 0xFFFFFFFF
    · simp only [h1, h2, h4, ↓reduceIte]
      exact ⟨_, tagged_emits _ e4, intEnc_unsigned (by decide) (by omega), by omega⟩
    · simp only [h1, h2, h4, ↓reduceIte]
      exact ⟨_, tagged_emits _ (writeU64_emits v), intEnc_unsigned (by decide) hlt, by omega⟩
  · simp only [hpos, ↓reduceIte]
    by_cases h1 : v.toInt ≥ -128
    · simp only [h1, ↓reduceIte]
      exact ⟨_, tagged_emits _ e1, intEnc_signed (by decide)
        (signExtend_setWidth (by decide) (by decide) (by omega) (by omega)),
        hsigned _ _ (by decide)⟩
    by_cases h2 : v.toInt ≥ -32768
    · simp only [h1, h2, ↓reduceIte]
      exact ⟨_, tagged_emits _ e2, intEnc_signed (by decide)
        (signExtend_setWidth (by decide) (by decide) (by omega) (by omega)),
        hsigned _ _ (by decide)⟩
    by_cases h4 : v.toInt ≥ -2147483648
    · simp only [h1, h2, h4, ↓reduceIte]
      exact ⟨_, tagged_emits _ e4, intEnc_signed (by decide)
        (signExtend_setWidth (by decide) (by decide) (by omega) (by omega)),
        hsigned _ _ (by decide)⟩
    · simp only [h1, h2, h4, ↓reduceIte]
      exact ⟨_, tagged_emits _ (writeU64_emits v), intEnc_signed (by decide)
        ((BitVec.signExtend_eq _).trans (BitVec.setWidth_eq v)), hsigned _ _ (by decide)⟩

end

/-! ## Headers -/

theorem lenField_bytes {tags : List (Byte × Nat)} {t : Byte} {k n : Nat} (ht : (t, k) ∈ tags)
    (hn : n < 256 ^ k) : LenField tags n (t :: beBytes k n) := by
  have h := @LenField.mk tags t (beBytes k n) (by rwa [beBytes_length])
  rwa [beVal_beBytes_of_lt hn] at h

theorem lenBytes_emits (n : Nat) :
    Emits (fun w => mpackWriteU8 w (BitVec.ofNat 8 n)) (beBytes 1 n) ∧
    Emits (fun w => mpackWriteU16 w (BitVec.ofNat 16 n)) (beBytes 2 n) ∧
    Emits (fun w => mpackWriteU32 w (BitVec.ofNat 32 n)) (beBytes 4 n) := by
  have h1 : beBytes 1 n = [BitVec.ofNat 8 n] := by simp [beBytes]
  have h2 := writeU16_emits (BitVec.ofNat 16 n)
  have h4 := writeU32_emits (BitVec.ofNat 32 n)
  rw [BitVec.toNat_ofNat] at h2 h4
  rw [h1, ← beBytes_mod 2, ← beBytes_mod 4]
  exact ⟨writeU8_emits _, h2, h4⟩

theorem strFix_toNat : ∀ n < 32, (BitVec.ofNat 8 (0xA0 ||| n)).toNat = 0xA0 + n := by decide

theorem writeStr_emits (s : Bytes) :
    ∃ h, Emits (fun w => mpackWriteStr w s) (h ++ s) ∧ 0 < h.length ∧ h.length ≤ 5 ∧
      (s.length < 2 ^ 32 → StrHeader s.length h) := by
  obtain ⟨e1, e2, e4⟩ := lenBytes_emits s.length
  unfold mpackWriteStr
  by_cases h0 : s.length < 32
  · simp only [h0, ↓reduceIte]
    exact ⟨_, (writeU8_emits _).comp (writeRaw_emits s), by simp, by simp,
      fun _ => .inl ⟨h0, strFix_toNat _ h0⟩⟩
  by_cases h1 : s.length ≤ 0xFF
  · simp only [h0, h1, ↓reduceIte]
    exact ⟨_, (tagged_emits _ e1).comp (writeRaw_emits s), by simp, by simp,
      fun _ => .inr (lenField_bytes (by decide) (by omega))⟩
  by_cases h2 : s.length ≤ 0xFFFF
  · simp only [h0, h1, h2, ↓reduceIte]
    exact ⟨_, (tagged_emits _ e2).comp (writeRaw_emits s), by simp, by simp,
      fun _ => .inr (lenField_bytes (by decide) (by omega))⟩
  · simp only [h0, h1, h2, ↓reduceIte]
    exact ⟨_, (tagged_emits _ e4).comp (writeRaw_emits s), by simp, by simp,
      fun h => .inr (lenField_bytes (by decide) (by omega))⟩

theorem writeBin_emits (s : Bytes) :
    ∃ h, Emits (fun w => mpackWriteBin w s) (h ++ s) ∧ 0 < h.length ∧ h.length ≤ 5 ∧
      (s.length < 2 ^ 32 → BinHeader s.length h) := by
  obtain ⟨e1, e2, e4⟩ := lenBytes_emits s.length
  unfold mpackWriteBin
  by_cases h1 : s.length ≤ 0xFF
  · simp only [h1, ↓reduceIte]
    exact ⟨_, (tagged_emits _ e1).comp (writeRaw_emits s), by simp, by simp,
      fun _ => lenField_bytes (by decide) (by omega)⟩
  by_cases h2 : s.length ≤ 0xFFFF
  · simp only [h1, h2, ↓reduceIte]
    exact ⟨_, (tagged_emits _ e2).comp (writeRaw_emits s), by simp, by simp,
      fun _ => lenField_bytes (by decide) (by omega)⟩
  · simp only [h1, h2, ↓reduceIte]
    exact ⟨_, (tagged_emits _ e4).comp (writeRaw_emits s), by simp, by simp,
      fun h => lenField_bytes (by decide) (by omega)⟩

/-- The fix tags have their low four bits free. -/
def FixFree (fix : Byte) : Prop :=
  ∀ n < 16, ((fix.setWidth 32 ||| BitVec.ofNat 32 n).setWidth 8 : Byte).toNat = fix.toNat + n

theorem writeCount_emits {fix : Byte} (hfix : FixFree fix) (tag16 tag32 : Byte) (n : Nat) :
    ∃ h, Emits (fun w => writeCountHeader fix tag16 tag32 w (BitVec.ofNat 32 n)) h ∧
      0 < h.length ∧ h.length ≤ 5 ∧ (n < 2 ^ 32 → CountHeader fix tag16 tag32 n h) := by
  obtain ⟨-, e2, e4⟩ := lenBytes_emits n
  have hc : (BitVec.ofNat 32 n).toNat = n % 2 ^ 32 := BitVec.toNat_ofNat ..
  have hw : (BitVec.ofNat 32 n).setWidth 16 = BitVec.ofNat 16 n := by
    apply BitVec.eq_of_toNat_eq
    rw [BitVec.toNat_setWidth, hc, BitVec.toNat_ofNat, Nat.mod_mod_of_dvd _ (by decide)]
  unfold writeCountHeader
  simp only [hc, hw]
  by_cases h0 : n % 2 ^ 32 < 16
  · simp only [h0, ↓reduceIte]
    refine ⟨_, writeU8_emits _, by simp, by simp, fun hn => .inl ?_⟩
    rw [Nat.mod_eq_of_lt hn] at h0
    exact ⟨h0, hfix n h0⟩
  by_cases h2 : n % 2 ^ 32 ≤ 0xFFFF
  · simp only [h0, h2, ↓reduceIte]
    exact ⟨_, tagged_emits _ e2, by simp, by simp, fun hn =>
      .inr (lenField_bytes (by simp) (by omega))⟩
  · simp only [h0, h2, ↓reduceIte]
    exact ⟨_, tagged_emits _ e4, by simp, by simp, fun hn =>
      .inr (lenField_bytes (by simp) (by omega))⟩

theorem fixFree_array : FixFree 0x90 := by unfold FixFree; decide
theorem fixFree_map : FixFree 0x80 := by unfold FixFree; decide

end Callwire.C
