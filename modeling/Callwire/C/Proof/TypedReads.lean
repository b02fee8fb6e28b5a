import Callwire.C.Proof.ReaderSpec

/-!
# The typed reads against the grammar

Each typed read is described in front of a tag `t`: on bytes the grammar derives it returns their
meaning and consumes exactly them (`tryReadX_ok`); on a tag of another kind it consumes nothing
(`tryReadX_other`); and on a tag of its kind either the input starts with something the grammar
derives or the read breaks (`tryReadX_cases`).
-/

namespace Callwire.C

open Lib List

/-! ## Tags -/

theorem str_mask : ∀ t : Byte, (t &&& 0xE0 = 0xA0 ↔ 0xA0 ≤ t.toNat ∧ t.toNat < 0xA0 + 32) ∧
    (t &&& 0xE0 = 0xA0 → (t &&& 0x1F).toNat = t.toNat - 0xA0) := by decide

/-- What the array and map tags have in common: the fix tags are sixteen consecutive bytes, the
two others are neither among them nor equal. -/
structure CountTags (fix tag16 tag32 : Byte) : Prop where
  mask : ∀ t : Byte, t &&& 0xF0 = fix ↔ fix.toNat ≤ t.toNat ∧ t.toNat < fix.toNat + 16
  low : ∀ t : Byte, t &&& 0xF0 = fix → (t &&& 0x0F).toNat = t.toNat - fix.toNat
  ne16 : tag16 &&& 0xF0 ≠ fix
  ne32 : tag32 &&& 0xF0 ≠ fix ∧ tag32 ≠ tag16

theorem arrayTags : CountTags 0x90 0xDC 0xDD := ⟨by decide, by decide, by decide, by decide⟩

theorem mapTags : CountTags 0x80 0xDE 0xDF := ⟨by decide, by decide, by decide, by decide⟩

theorem kind_int : ∀ t : Byte, tagKind t = .int ↔ t ≤ 0x7F ∨ t ≥ 0xE0 ∨ t = 0xCC ∨ t = 0xCD ∨
    t = 0xCE ∨ t = 0xCF ∨ t = 0xD0 ∨ t = 0xD1 ∨ t = 0xD2 ∨ t = 0xD3 := by decide

theorem kind_float : ∀ t : Byte, tagKind t = .float ↔ t = 0xCB ∨ t = 0xCA := by decide

theorem kind_str : ∀ t : Byte,
    tagKind t = .str ↔ t &&& 0xE0 = 0xA0 ∨ t = 0xD9 ∨ t = 0xDA ∨ t = 0xDB := by decide

theorem kind_bin : ∀ t : Byte, tagKind t = .bin ↔ t = 0xC4 ∨ t = 0xC5 ∨ t = 0xC6 := by decide

theorem kind_array : ∀ t : Byte,
    tagKind t = .array ↔ t &&& 0xF0 = 0x90 ∨ t = 0xDC ∨ t = 0xDD := by decide

theorem kind_map : ∀ t : Byte,
    tagKind t = .map ↔ t &&& 0xF0 = 0x80 ∨ t = 0xDE ∨ t = 0xDF := by decide

theorem kind_null : ∀ t : Byte, tagKind t = .null ↔ t = 0xC0 := by decide

theorem kind_bool : ∀ t : Byte, tagKind t = .bool ↔ t = 0xC2 ∨ t = 0xC3 := by decide

/-! ## A tag and a number -/

section
variable {r : Reader} {t : Byte} {k : Nat} {bs tl : Bytes}
  {rd : Reader → Except Fault (BitVec (8 * k) × Reader)}

/-- The branch of a typed read that reads a number after the tag. -/
def numBranch {α : Type} (rd : Reader → Except Fault (BitVec (8 * k) × Reader))
    (f : BitVec (8 * k) → α) (r : Reader) : Except Fault (Option α × Reader) :=
  rd (r.advance 1) >>= fun p => .ok (some (f p.1), p.2)

theorem numBranch_ok {α : Type} (hrd : ReadsBE k rd) (f : BitVec (8 * k) → α)
    (h : r.At (t :: (bs ++ tl))) (hb : bs.length = k) :
    numBranch rd f r =
      .ok (some (f (BitVec.ofNat (8 * k) (beVal bs))), r.advance (t :: bs).length) := by
  rw [numBranch, hrd.ok h.advance_cons hb]
  simp [Reader.advance_advance, hb, Nat.add_comm]

theorem numBranch_cases {α : Type} (hrd : ReadsBE k rd) (f : BitVec (8 * k) → α)
    (h : r.At (t :: tl)) :
    (∃ bs tl', tl = bs ++ tl' ∧ bs.length = k) ∨
      ∃ a r', numBranch rd f r = .ok (some a, r') ∧ Broken r r' := by
  by_cases hk : tl.length < k
  · obtain ⟨x, r', hr, hb, -⟩ := hrd.short h.advance_cons hk
    exact .inr ⟨_, _, by rw [numBranch, hr]; rfl, hb.of_advance⟩
  · exact .inl ⟨tl.take k, tl.drop k, by simp, by simp; omega⟩

/-! ## A tag, a length and data -/

theorem readData_ok {data : Bytes} (h : r.At (data ++ tl)) (hn : r.buf.isNull = false) :
    readData data.length r = .ok (some (r.pos, data.length), r.advance data.length) := by
  rw [readData, readRaw_ok h hn]
  rfl

/-- Reading data with the error flag set: no fault, and what is returned is inside the payload. -/
theorem readData_broken {n : Nat} (he : r.error = true) (hp : r.pos ≤ r.len) (hn : n < 2 ^ 63) :
    ∃ o r', readData n r = .ok (o, r') ∧ Broken r r' ∧
      ∀ p m, o = some (p, m) → p + m ≤ r.len := by
  have h := Reader.At.of_le hp
  by_cases hl : r.rest.length < n
  · exact ⟨none, r.fail, by rw [readData, readRaw_short h hl hn]; rfl, broken_fail, by simp⟩
  · have hm := r.rest_length
    have hr : mpackReadRaw r n = .ok (if r.buf.isNull then none else some r.pos, r.advance n) := by
      rw [mpackReadRaw, h.lacks hn]
      simp [hl]
    refine ⟨(if r.buf.isNull then none else some r.pos).map (·, n), r.advance n,
      by rw [readData, hr]; rfl, ⟨rfl, he⟩, fun p m ho => ?_⟩
    cases hnull : r.buf.isNull <;> simp [hnull] at ho
    omega

/-- The branch of a typed read that reads a length after the tag, then data. -/
def dataBranch (rd : Reader → Except Fault (BitVec (8 * k) × Reader)) (r : Reader) :
    Except Fault (Option (Nat × Nat) × Reader) :=
  rd (r.advance 1) >>= fun p => readData p.1.toNat p.2

theorem toNat_ofNat_beVal (hb : bs.length = k) :
    (BitVec.ofNat (8 * k) (beVal bs)).toNat = beVal bs := by
  have := beVal_lt bs
  rw [BitVec.toNat_ofNat, Nat.mod_eq_of_lt]
  rwa [hb, show (256 : Nat) = 2 ^ 8 from rfl, ← Nat.pow_mul] at this

theorem dataBranch_ok {data : Bytes} (hrd : ReadsBE k rd) (h : r.At (t :: (bs ++ (data ++ tl))))
    (hb : bs.length = k) (hd : beVal bs = data.length) :
    dataBranch rd r = .ok (some ((r.advance (t :: bs).length).pos, data.length),
      r.advance (t :: bs ++ data).length) := by
  have h1 := h.advance_cons.advance
  rw [hb, Reader.advance_advance] at h1
  rw [dataBranch, hrd.ok h.advance_cons hb]
  simp only [ok_bind, toNat_ofNat_beVal hb, Reader.advance_advance]
  have e1 : (t :: bs).length = 1 + k := by simp [hb, Nat.add_comm]
  have e2 : (t :: bs ++ data).length = 1 + k + data.length := by
    rw [length_append, e1]
  rw [hd, readData_ok h1 (by simp [h.notNull]), e1, e2, Reader.advance_advance]

theorem dataBranch_cases (hrd : ReadsBE k rd) (hk : k ≤ 4) (h : r.At (t :: tl)) :
    (∃ bs data tl', tl = bs ++ (data ++ tl') ∧ bs.length = k ∧ beVal bs = data.length) ∨
      ∃ o r', dataBranch rd r = .ok (o, r') ∧ Broken r r' ∧
        ∀ p m, o = some (p, m) → p + m ≤ r.len := by
  have hp : 2 ^ (8 * k) < 2 ^ 63 := Nat.pow_lt_pow_right (by decide) (by omega)
  have h1 := h.advance_cons
  by_cases hs : tl.length < k
  · right
    obtain ⟨x, r1, hr, hb, hle⟩ := hrd.short h1 hs
    have hlen := Reader.len_eq hb.buf
    have hx := x.isLt
    obtain ⟨o, r', ho, hb', hin⟩ := readData_broken hb.error (by rw [hlen]; exact hle)
      (show x.toNat < 2 ^ 63 by omega)
    refine ⟨o, r', by rw [dataBranch, hr]; exact ho, (hb.trans hb').of_advance, ?_⟩
    rw [hlen] at hin
    exact hin
  · have hl : (tl.take k).length = k := by simp; omega
    have htl : tl = tl.take k ++ tl.drop k := by simp
    by_cases hd : (tl.drop k).length < beVal (tl.take k)
    · right
      rw [htl] at h1
      have h2 := hl ▸ h1.advance
      have hx := (BitVec.ofNat (8 * k) (beVal (tl.take k))).isLt
      rw [toNat_ofNat_beVal hl] at hx
      have hr : dataBranch rd r = .ok (none, ((r.advance 1).advance k).fail) := by
        rw [dataBranch, hrd.ok h1 hl]
        simp only [ok_bind, toNat_ofNat_beVal hl]
        rw [readData, readRaw_short h2 hd (by omega)]
        rfl
      exact ⟨_, _, hr, broken_fail.of_advance.of_advance, by simp⟩
    · left
      refine ⟨tl.take k, (tl.drop k).take (beVal (tl.take k)),
        (tl.drop k).drop (beVal (tl.take k)), ?_, hl, ?_⟩
      · rw [take_append_drop, take_append_drop]
      · rw [length_take]
        omega

end

/-! ## Nil and bool -/

section
variable {r : Reader} {t : Byte} {tl : Bytes}

theorem tryReadNil_ok (h : r.At (0xC0 :: tl)) : mpackTryReadNil r = .ok (true, r.advance 1) := by
  rw [mpackTryReadNil, peek_cons h]
  rfl

theorem tryReadNil_other (h : r.At (t :: tl)) (ht : tagKind t ≠ .null) :
    mpackTryReadNil r = .ok (false, r) := by
  rw [ne_eq, kind_null] at ht
  rw [mpackTryReadNil, peek_cons h]
  exact if_neg ht

theorem tryReadBool_false (h : r.At (0xC2 :: tl)) :
    mpackTryReadBool r = .ok (some 0, r.advance 1) := by
  rw [mpackTryReadBool, peek_cons h]
  rfl

theorem tryReadBool_true (h : r.At (0xC3 :: tl)) :
    mpackTryReadBool r = .ok (some 1, r.advance 1) := by
  rw [mpackTryReadBool, peek_cons h]
  rfl

theorem tryReadBool_other (h : r.At (t :: tl)) (ht : tagKind t ≠ .bool) :
    mpackTryReadBool r = .ok (none, r) := by
  rw [ne_eq, kind_bool, not_or] at ht
  rw [mpackTryReadBool, peek_cons h]
  exact (if_neg ht.1).trans (if_neg ht.2)

/-! ## Integers -/

theorem tryReadInt64_eq (h : r.At (t :: tl)) :
    mpackTryReadInt64 r =
      if t ≤ 0x7F then .ok (some (t.setWidth 64), r.advance 1)
      else if t ≥ 0xE0 then .ok (some (t.signExtend 64), r.advance 1)
      else if t = 0xCC then numBranch (k := 1) mpackReadU8 (·.setWidth 64) r
      else if t = 0xCD then numBranch (k := 2) mpackReadU16 (·.setWidth 64) r
      else if t = 0xCE then numBranch (k := 4) mpackReadU32 (·.setWidth 64) r
      else if t = 0xCF then numBranch (k := 8) mpackReadU64 id r
      else if t = 0xD0 then numBranch (k := 1) mpackReadU8 (·.signExtend 64) r
      else if t = 0xD1 then numBranch (k := 2) mpackReadU16 (·.signExtend 64) r
      else if t = 0xD2 then numBranch (k := 4) mpackReadU32 (·.signExtend 64) r
      else if t = 0xD3 then numBranch (k := 8) mpackReadU64 id r
      else .ok (none, r) := by
  rw [mpackTryReadInt64, peek_cons h]
  rfl

theorem tryReadInt64_other (h : r.At (t :: tl)) (ht : tagKind t ≠ .int) :
    mpackTryReadInt64 r = .ok (none, r) := by
  rw [ne_eq, kind_int] at ht
  simp only [not_or] at ht
  rw [tryReadInt64_eq h]
  simp only [ht, ↓reduceIte]

theorem setWidth_ofNat_beVal {k : Nat} {bs : Bytes} (hb : bs.length = k) :
    (BitVec.ofNat (8 * k) (beVal bs)).setWidth 64 = BitVec.ofNat 64 (beVal bs) := by
  apply BitVec.eq_of_toNat_eq
  rw [BitVec.toNat_setWidth, toNat_ofNat_beVal hb, BitVec.toNat_ofNat]

theorem tryReadInt64_ok {x : BitVec 64} {e : Bytes} (hx : IntEnc x e) (h : r.At (e ++ tl)) :
    mpackTryReadInt64 r = .ok (some x, r.advance e.length) := by
  cases hx with
  | @posFix t ht =>
    rw [tryReadInt64_eq h, if_pos (BitVec.le_def.2 ht)]
    rfl
  | @negFix t ht =>
    have h7 : ¬ t ≤ 0x7F := fun hc => by
      have : t.toNat ≤ 0x7F := BitVec.le_def.1 hc
      omega
    rw [tryReadInt64_eq h, if_neg h7, if_pos (show t ≥ 0xE0 from BitVec.le_def.2 ht)]
    rfl
  | @unsigned t bs ht =>
    rw [tryReadInt64_eq h]
    simp only [uintTags, mem_cons, Prod.mk.injEq, not_mem_nil, or_false] at ht
    rcases ht with ⟨rfl, hb⟩ | ⟨rfl, hb⟩ | ⟨rfl, hb⟩ | ⟨rfl, hb⟩
    · exact (numBranch_ok readsBE_u8 _ h hb).trans (by rw [setWidth_ofNat_beVal hb])
    · exact (numBranch_ok readsBE_u16 _ h hb).trans (by rw [setWidth_ofNat_beVal hb])
    · exact (numBranch_ok readsBE_u32 _ h hb).trans (by rw [setWidth_ofNat_beVal hb])
    · exact numBranch_ok readsBE_u64 _ h hb
  | @signed t bs ht =>
    rw [tryReadInt64_eq h]
    simp only [intTags, mem_cons, Prod.mk.injEq, not_mem_nil, or_false] at ht
    rcases ht with ⟨rfl, hb⟩ | ⟨rfl, hb⟩ | ⟨rfl, hb⟩ | ⟨rfl, hb⟩
    · exact (numBranch_ok readsBE_u8 _ h hb).trans (by rw [hb])
    · exact (numBranch_ok readsBE_u16 _ h hb).trans (by rw [hb])
    · exact (numBranch_ok readsBE_u32 _ h hb).trans (by rw [hb])
    · exact (numBranch_ok readsBE_u64 _ h hb).trans (by rw [hb, BitVec.signExtend_eq]; rfl)

theorem tryReadInt64_cases (h : r.At (t :: tl)) (ht : tagKind t = .int) :
    (∃ x e tl', t :: tl = e ++ tl' ∧ IntEnc x e) ∨
      ∃ x r', mpackTryReadInt64 r = .ok (some x, r') ∧ Broken r r' := by
  have unsigned : ∀ {k : Nat}, (t, k) ∈ uintTags → (∃ bs tl', tl = bs ++ tl' ∧ bs.length = k) →
      ∃ x e tl', t :: tl = e ++ tl' ∧ IntEnc x e := by
    rintro _ hm ⟨bs, tl', rfl, rfl⟩
    exact ⟨_, _, tl', rfl, .unsigned hm⟩
  have signed : ∀ {k : Nat}, (t, k) ∈ intTags → (∃ bs tl', tl = bs ++ tl' ∧ bs.length = k) →
      ∃ x e tl', t :: tl = e ++ tl' ∧ IntEnc x e := by
    rintro _ hm ⟨bs, tl', rfl, rfl⟩
    exact ⟨_, _, tl', rfl, .signed hm⟩
  rw [tryReadInt64_eq h]
  rcases (kind_int t).1 ht with ht | ht | rfl | rfl | rfl | rfl | rfl | rfl | rfl | rfl
  · exact .inl ⟨_, [t], tl, rfl, .posFix (BitVec.le_def.1 ht)⟩
  · exact .inl ⟨_, [t], tl, rfl, .negFix (BitVec.le_def.1 ht)⟩
  · exact (numBranch_cases readsBE_u8 _ h).imp_left (unsigned (by decide))
  · exact (numBranch_cases readsBE_u16 _ h).imp_left (unsigned (by decide))
  · exact (numBranch_cases readsBE_u32 _ h).imp_left (unsigned (by decide))
  · exact (numBranch_cases readsBE_u64 _ h).imp_left (unsigned (by decide))
  · exact (numBranch_cases readsBE_u8 _ h).imp_left (signed (by decide))
  · exact (numBranch_cases readsBE_u16 _ h).imp_left (signed (by decide))
  · exact (numBranch_cases readsBE_u32 _ h).imp_left (signed (by decide))
  · exact (numBranch_cases readsBE_u64 _ h).imp_left (signed (by decide))

/-! ## Floats -/

theorem tryReadDouble_eq (h : r.At (t :: tl)) :
    mpackTryReadDouble r =
      if t = 0xCB then numBranch (k := 8) mpackReadU64 id r
      else if t = 0xCA then numBranch (k := 4) mpackReadU32 floatToDouble r
      else .ok (none, r) := by
  rw [mpackTryReadDouble, peek_cons h]
  rfl

theorem tryReadDouble_other (h : r.At (t :: tl)) (ht : tagKind t ≠ .float) :
    mpackTryReadDouble r = .ok (none, r) := by
  rw [ne_eq, kind_float, not_or] at ht
  rw [tryReadDouble_eq h, if_neg ht.1, if_neg ht.2]

theorem tryReadDouble_ok {x : BitVec 64} {e : Bytes} (hx : FloatEnc x e) (h : r.At (e ++ tl)) :
    mpackTryReadDouble r = .ok (some x, r.advance e.length) := by
  cases hx with
  | float64 hb =>
    rw [tryReadDouble_eq h]
    exact numBranch_ok readsBE_u64 _ h hb
  | float32 hb =>
    rw [tryReadDouble_eq h]
    exact numBranch_ok readsBE_u32 _ h hb

theorem tryReadDouble_cases (h : r.At (t :: tl)) (ht : tagKind t = .float) :
    (∃ x e tl', t :: tl = e ++ tl' ∧ FloatEnc x e) ∨
      ∃ x r', mpackTryReadDouble r = .ok (some x, r') ∧ Broken r r' := by
  rw [tryReadDouble_eq h]
  rcases (kind_float t).1 ht with rfl | rfl
  · refine (numBranch_cases readsBE_u64 _ h).imp_left ?_
    rintro ⟨bs, tl', rfl, hb⟩
    exact ⟨_, _, tl', rfl, .float64 hb⟩
  · refine (numBranch_cases readsBE_u32 _ h).imp_left ?_
    rintro ⟨bs, tl', rfl, hb⟩
    exact ⟨_, _, tl', rfl, .float32 hb⟩

/-! ## Strings -/

theorem tryReadStr_eq (h : r.At (t :: tl)) :
    mpackTryReadStr r =
      if t &&& 0xE0 = 0xA0 then readData (t &&& 0x1F).toNat (r.advance 1)
      else if t = 0xD9 then dataBranch (k := 1) mpackReadU8 r
      else if t = 0xDA then dataBranch (k := 2) mpackReadU16 r
      else if t = 0xDB then dataBranch (k := 4) mpackReadU32 r
      else .ok (none, r) := by
  rw [mpackTryReadStr, peek_cons h]
  rfl

theorem tryReadStr_other (h : r.At (t :: tl)) (ht : tagKind t ≠ .str) :
    mpackTryReadStr r = .ok (none, r) := by
  rw [ne_eq, kind_str] at ht
  simp only [not_or] at ht
  rw [tryReadStr_eq h]
  simp only [ht, ↓reduceIte]

theorem tryReadStr_ok {data h : Bytes} (hh : StrHeader data.length h)
    (ha : r.At (h ++ (data ++ tl))) :
    mpackTryReadStr r = .ok (some ((r.advance h.length).pos, data.length),
      r.advance (h ++ data).length) := by
  rcases hh with hh | hh
  · obtain @⟨t, n, hn, ht⟩ := hh
    have hm := str_mask t
    have hlow : (t &&& 0x1F).toNat = data.length := by
      rw [hm.2 (hm.1.2 (by omega))]
      omega
    have h1 : (r.advance 1).At (data ++ tl) := ha.advance_cons
    rw [tryReadStr_eq ha, if_pos (hm.1.2 (by omega)), hlow, readData_ok h1 ha.notNull,
      Reader.advance_advance, length_append]
    rfl
  · generalize hd : data.length = n at hh
    obtain @⟨t, bs, ht⟩ := hh
    rw [tryReadStr_eq ha, ← hd]
    simp only [strTags, mem_cons, Prod.mk.injEq, not_mem_nil, or_false] at ht
    rcases ht with ⟨rfl, hb⟩ | ⟨rfl, hb⟩ | ⟨rfl, hb⟩
    · exact dataBranch_ok readsBE_u8 ha hb hd.symm
    · exact dataBranch_ok readsBE_u16 ha hb hd.symm
    · exact dataBranch_ok readsBE_u32 ha hb hd.symm

theorem tryReadStr_cases (h : r.At (t :: tl)) (ht : tagKind t = .str) :
    (∃ hd data tl', t :: tl = hd ++ (data ++ tl') ∧ StrHeader data.length hd) ∨
      ∃ o r', mpackTryReadStr r = .ok (o, r') ∧ Broken r r' ∧
        ∀ p m, o = some (p, m) → p + m ≤ r.len := by
  have long : ∀ {k : Nat}, (t, k) ∈ strTags →
      (∃ bs data tl', tl = bs ++ (data ++ tl') ∧ bs.length = k ∧ beVal bs = data.length) →
      ∃ hd data tl', t :: tl = hd ++ (data ++ tl') ∧ StrHeader data.length hd := by
    rintro _ hm ⟨bs, data, tl', rfl, rfl, hd⟩
    exact ⟨_, data, tl', rfl, .inr (hd ▸ LenField.mk hm)⟩
  rw [tryReadStr_eq h]
  rcases (kind_str t).1 ht with hf | rfl | rfl | rfl
  · rw [if_pos hf]
    have hm := str_mask t
    have hlt := hm.1.1 hf
    by_cases hs : tl.length < (t &&& 0x1F).toNat
    · right
      have hb := (t &&& 0x1F).isLt
      refine ⟨none, (r.advance 1).fail, ?_, broken_fail.of_advance, by simp⟩
      rw [readData, readRaw_short h.advance_cons hs (by omega)]
      rfl
    · left
      rw [hm.2 hf] at hs
      refine ⟨[t], tl.take (t.toNat - 0xA0), tl.drop (t.toNat - 0xA0), by simp, .inl ⟨?_, ?_⟩⟩ <;>
        rw [length_take] <;> omega
  · exact (dataBranch_cases readsBE_u8 (by decide) h).imp_left (long (by decide))
  · exact (dataBranch_cases readsBE_u16 (by decide) h).imp_left (long (by decide))
  · exact (dataBranch_cases readsBE_u32 (by decide) h).imp_left (long (by decide))

/-! ## Binary data -/

theorem tryReadBin_eq (h : r.At (t :: tl)) :
    mpackTryReadBin r =
      if t = 0xC4 then dataBranch (k := 1) mpackReadU8 r
      else if t = 0xC5 then dataBranch (k := 2) mpackReadU16 r
      else if t = 0xC6 then dataBranch (k := 4) mpackReadU32 r
      else .ok (none, r) := by
  rw [mpackTryReadBin, peek_cons h]
  rfl

theorem tryReadBin_other (h : r.At (t :: tl)) (ht : tagKind t ≠ .bin) :
    mpackTryReadBin r = .ok (none, r) := by
  rw [ne_eq, kind_bin] at ht
  simp only [not_or] at ht
  rw [tryReadBin_eq h]
  simp only [ht, ↓reduceIte]

theorem tryReadBin_ok {data h : Bytes} (hh : BinHeader data.length h)
    (ha : r.At (h ++ (data ++ tl))) :
    mpackTryReadBin r = .ok (some ((r.advance h.length).pos, data.length),
      r.advance (h ++ data).length) := by
  rw [BinHeader] at hh
  generalize hd : data.length = n at hh
  obtain @⟨t, bs, ht⟩ := hh
  rw [tryReadBin_eq ha, ← hd]
  simp only [binTags, mem_cons, Prod.mk.injEq, not_mem_nil, or_false] at ht
  rcases ht with ⟨rfl, hb⟩ | ⟨rfl, hb⟩ | ⟨rfl, hb⟩
  · exact dataBranch_ok readsBE_u8 ha hb hd.symm
  · exact dataBranch_ok readsBE_u16 ha hb hd.symm
  · exact dataBranch_ok readsBE_u32 ha hb hd.symm

theorem tryReadBin_cases (h : r.At (t :: tl)) (ht : tagKind t = .bin) :
    (∃ hd data tl', t :: tl = hd ++ (data ++ tl') ∧ BinHeader data.length hd) ∨
      ∃ o r', mpackTryReadBin r = .ok (o, r') ∧ Broken r r' ∧
        ∀ p m, o = some (p, m) → p + m ≤ r.len := by
  have long : ∀ {k : Nat}, (t, k) ∈ binTags →
      (∃ bs data tl', tl = bs ++ (data ++ tl') ∧ bs.length = k ∧ beVal bs = data.length) →
      ∃ hd data tl', t :: tl = hd ++ (data ++ tl') ∧ BinHeader data.length hd := by
    rintro _ hm ⟨bs, data, tl', rfl, rfl, hd⟩
    exact ⟨_, data, tl', rfl, hd ▸ LenField.mk hm⟩
  rw [tryReadBin_eq h]
  rcases (kind_bin t).1 ht with rfl | rfl | rfl
  · exact (dataBranch_cases readsBE_u8 (by decide) h).imp_left (long (by decide))
  · exact (dataBranch_cases readsBE_u16 (by decide) h).imp_left (long (by decide))
  · exact (dataBranch_cases readsBE_u32 (by decide) h).imp_left (long (by decide))

/-! ## Array and map headers -/

section
variable {fix tag16 tag32 : Byte} (ht : CountTags fix tag16 tag32)

theorem tryReadCount_eq (h : r.At (t :: tl)) :
    tryReadCountHeader fix tag16 tag32 r =
      if t &&& 0xF0 = fix then .ok (some (t &&& 0x0F).toNat, r.advance 1)
      else if t = tag16 then numBranch (k := 2) mpackReadU16 (·.toNat) r
      else if t = tag32 then numBranch (k := 4) mpackReadU32 (·.toNat) r
      else .ok (none, r) := by
  rw [tryReadCountHeader, peek_cons h]
  rfl

include ht

theorem tryReadCount_ok {n : Nat} {hd : Bytes} (hh : CountHeader fix tag16 tag32 n hd)
    (h : r.At (hd ++ tl)) :
    tryReadCountHeader fix tag16 tag32 r = .ok (some n, r.advance hd.length) := by
  rcases hh with hh | hh
  · obtain @⟨t, n, hn, hfix⟩ := hh
    have hm := (ht.mask t).2 (by omega)
    rw [tryReadCount_eq h, if_pos hm, ht.low t hm, hfix, Nat.add_sub_cancel_left]
    rfl
  · obtain @⟨t, bs, hb⟩ := hh
    rw [tryReadCount_eq h]
    simp only [mem_cons, Prod.mk.injEq, not_mem_nil, or_false] at hb
    rcases hb with ⟨rfl, hb⟩ | ⟨rfl, hb⟩
    · rw [if_neg ht.ne16, if_pos rfl, numBranch_ok readsBE_u16 _ h hb, toNat_ofNat_beVal hb]
    · rw [if_neg ht.ne32.1, if_neg ht.ne32.2, if_pos rfl, numBranch_ok readsBE_u32 _ h hb,
        toNat_ofNat_beVal hb]

theorem tryReadCount_cases (h : r.At (t :: tl)) :
    (∃ n hd tl', t :: tl = hd ++ tl' ∧ CountHeader fix tag16 tag32 n hd) ∨
      (tryReadCountHeader fix tag16 tag32 r = .ok (none, r) ∧
        ¬ (t &&& 0xF0 = fix ∨ t = tag16 ∨ t = tag32)) ∨
      ∃ n r', tryReadCountHeader fix tag16 tag32 r = .ok (some n, r') ∧ Broken r r' := by
  have long : ∀ {k : Nat}, (t, k) ∈ [(tag16, 2), (tag32, 4)] →
      (∃ bs tl', tl = bs ++ tl' ∧ bs.length = k) →
      ∃ n hd tl', t :: tl = hd ++ tl' ∧ CountHeader fix tag16 tag32 n hd := by
    rintro _ hm ⟨bs, tl', rfl, rfl⟩
    exact ⟨_, _, tl', rfl, .inr (.mk hm)⟩
  rw [tryReadCount_eq h]
  by_cases hf : t &&& 0xF0 = fix
  · have hm := (ht.mask t).1 hf
    exact .inl ⟨t.toNat - fix.toNat, [t], tl, rfl, .inl ⟨by omega, by omega⟩⟩
  · rw [if_neg hf]
    by_cases h16 : t = tag16
    · rw [if_pos h16]
      rcases numBranch_cases readsBE_u16 BitVec.toNat h with hl | hl
      · exact .inl (long (by simp [h16]) hl)
      · exact .inr (.inr hl)
    · rw [if_neg h16]
      by_cases h32 : t = tag32
      · rw [if_pos h32]
        rcases numBranch_cases readsBE_u32 BitVec.toNat h with hl | hl
        · exact .inl (long (by simp [h32]) hl)
        · exact .inr (.inr hl)
      · rw [if_neg h32]
        exact .inr (.inl ⟨rfl, by simp only [hf, h16, h32, or_self, not_false_eq_true]⟩)

end

end

end Callwire.C
