import Callwire.C.Proof.DecodeValue

/-!
# `mpack_skip_value` against the grammar

The skipper dispatches on the tag by its own table. On a tag of each kind it does what the typed
read of that kind does and drops the value (`skip_int`, `skip_str`, ...), so it consumes exactly the
values of the grammar: `skip_complete` and `skip_total`, in the shape of `decodeValue_complete` and
`decodeValue_total`.
-/

namespace Callwire.C

open Lib List Reader

/-! ## Dispatch on the tag -/

section
variable {r : Reader} {t : Byte} {tl : Bytes} {d : Nat}

theorem skip_error (he : r.error = true) : mpackSkipValue (d + 1) r = .ok r.fail := by
  rw [mpackSkipValue, if_pos (.inl he)]

theorem skip_end (h : r.rest = []) : mpackSkipValue (d + 1) r = .ok r.fail := by
  have := r.rest_length
  rw [h, length_nil] at this
  rw [mpackSkipValue, if_pos (.inr (by omega))]

/-- What is left of a read when the value is dropped. -/
def dropValue {α : Type} (x : Except Fault (α × Reader)) : Except Fault Reader :=
  x >>= fun p => .ok p.2

@[simp] theorem dropValue_ok {α : Type} (p : α × Reader) : dropValue (.ok p) = .ok p.2 := rfl

theorem dropValue_numBranch {α : Type} {k : Nat}
    (rd : Reader → Except Fault (BitVec (8 * k) × Reader)) (f : BitVec (8 * k) → α) :
    dropValue (numBranch rd f r) = dropValue (rd (r.advance 1)) := by
  rw [numBranch]
  cases rd (r.advance 1) <;> rfl

section
variable (he : r.error = false) (h : r.At (t :: tl))
include he h

theorem skip_cons :
    mpackSkipValue (d + 1) r =
      if t ≤ 0x7F ∨ t ≥ 0xE0 then .ok (r.advance 1)
      else if t &&& 0xE0 = 0xA0 then dropValue (mpackTryReadStr r)
      else if t &&& 0xF0 = 0x90 then
        mpackTryReadArrayHeader r >>= fun p =>
          skipLoop (mpackSkipValue d) (p.1.getD 0) p.2
      else if t &&& 0xF0 = 0x80 then
        mpackTryReadMapHeader r >>= fun p =>
          skipLoop (fun r => mpackSkipValue d r >>= mpackSkipValue d) (p.1.getD 0) p.2
      else if t = 0xC0 ∨ t = 0xC2 ∨ t = 0xC3 then .ok (r.advance 1)
      else if t = 0xCC ∨ t = 0xD0 then dropValue (mpackReadU8 (r.advance 1))
      else if t = 0xCD ∨ t = 0xD1 then dropValue (mpackReadU16 (r.advance 1))
      else if t = 0xCE ∨ t = 0xD2 ∨ t = 0xCA then dropValue (mpackReadU32 (r.advance 1))
      else if t = 0xCF ∨ t = 0xD3 ∨ t = 0xCB then dropValue (mpackReadU64 (r.advance 1))
      else if t = 0xC4 ∨ t = 0xC5 ∨ t = 0xC6 then dropValue (mpackTryReadBin r)
      else if t = 0xD9 ∨ t = 0xDA ∨ t = 0xDB then dropValue (mpackTryReadStr r)
      else if t = 0xDC ∨ t = 0xDD then
        mpackTryReadArrayHeader r >>= fun p =>
          skipLoop (mpackSkipValue d) (p.1.getD 0) p.2
      else if t = 0xDE ∨ t = 0xDF then
        mpackTryReadMapHeader r >>= fun p =>
          skipLoop (fun r => mpackSkipValue d r >>= mpackSkipValue d) (p.1.getD 0) p.2
      else .ok r.fail := by
  have hl := h.length
  rw [length_cons] at hl
  have hb : r.byte r.pos = .ok t := h.byte (i := 0) rfl
  rw [mpackSkipValue, if_neg (by simp [he]; omega), hb]
  rfl

theorem skip_null (hk : tagKind t = .null) : mpackSkipValue (d + 1) r = .ok (r.advance 1) := by
  obtain rfl := (kind_null t).1 hk
  rw [skip_cons he h]
  rfl

theorem skip_bool (hk : tagKind t = .bool) : mpackSkipValue (d + 1) r = .ok (r.advance 1) := by
  rcases (kind_bool t).1 hk with rfl | rfl <;> rw [skip_cons he h] <;> rfl

theorem skip_int (hk : tagKind t = .int) :
    mpackSkipValue (d + 1) r = dropValue (mpackTryReadInt64 r) := by
  rw [skip_cons he h, tryReadInt64_eq h]
  rcases (kind_int t).1 hk with ht | ht | rfl | rfl | rfl | rfl | rfl | rfl | rfl | rfl
  · rw [if_pos (.inl ht), if_pos ht]
    rfl
  · rw [if_pos (.inr ht), if_pos ht]
    split <;> rfl
  · exact (dropValue_numBranch (k := 1) mpackReadU8 _).symm
  · exact (dropValue_numBranch (k := 2) mpackReadU16 _).symm
  · exact (dropValue_numBranch (k := 4) mpackReadU32 _).symm
  · exact (dropValue_numBranch (k := 8) mpackReadU64 _).symm
  · exact (dropValue_numBranch (k := 1) mpackReadU8 _).symm
  · exact (dropValue_numBranch (k := 2) mpackReadU16 _).symm
  · exact (dropValue_numBranch (k := 4) mpackReadU32 _).symm
  · exact (dropValue_numBranch (k := 8) mpackReadU64 _).symm

theorem skip_float (hk : tagKind t = .float) :
    mpackSkipValue (d + 1) r = dropValue (mpackTryReadDouble r) := by
  rw [skip_cons he h, tryReadDouble_eq h]
  rcases (kind_float t).1 hk with rfl | rfl
  · exact (dropValue_numBranch (k := 8) mpackReadU64 _).symm
  · exact (dropValue_numBranch (k := 4) mpackReadU32 _).symm

end

/-- The fix tags are neither small integers nor tags of another kind. -/
theorem fix_tags : ∀ t : Byte,
    (t &&& 0xE0 = 0xA0 → ¬ (t ≤ 0x7F ∨ t ≥ 0xE0)) ∧
    (t &&& 0xF0 = 0x90 → ¬ (t ≤ 0x7F ∨ t ≥ 0xE0) ∧ t &&& 0xE0 ≠ 0xA0) ∧
    (t &&& 0xF0 = 0x80 → ¬ (t ≤ 0x7F ∨ t ≥ 0xE0) ∧ t &&& 0xE0 ≠ 0xA0 ∧ t &&& 0xF0 ≠ 0x90) := by
  decide

section
variable (he : r.error = false) (h : r.At (t :: tl))
include he h

theorem skip_str (hk : tagKind t = .str) :
    mpackSkipValue (d + 1) r = dropValue (mpackTryReadStr r) := by
  rw [skip_cons he h]
  rcases (kind_str t).1 hk with ht | rfl | rfl | rfl
  · rw [if_neg ((fix_tags t).1 ht), if_pos ht]
  all_goals rfl

theorem skip_bin (hk : tagKind t = .bin) :
    mpackSkipValue (d + 1) r = dropValue (mpackTryReadBin r) := by
  rw [skip_cons he h]
  rcases (kind_bin t).1 hk with rfl | rfl | rfl <;> rfl

theorem skip_array (hk : tagKind t = .array) :
    mpackSkipValue (d + 1) r =
      mpackTryReadArrayHeader r >>= fun p => skipLoop (mpackSkipValue d) (p.1.getD 0) p.2 := by
  rw [skip_cons he h]
  rcases (kind_array t).1 hk with ht | rfl | rfl
  · rw [if_neg ((fix_tags t).2.1 ht).1, if_neg ((fix_tags t).2.1 ht).2, if_pos ht]
  all_goals rfl

theorem skip_map (hk : tagKind t = .map) :
    mpackSkipValue (d + 1) r =
      mpackTryReadMapHeader r >>= fun p =>
        skipLoop (fun r => mpackSkipValue d r >>= mpackSkipValue d) (p.1.getD 0) p.2 := by
  rw [skip_cons he h]
  rcases (kind_map t).1 hk with ht | rfl | rfl
  · obtain ⟨h1, h2, h3⟩ := (fix_tags t).2.2 ht
    rw [if_neg h1, if_neg h2, if_neg h3, if_pos ht]
  all_goals rfl

end

theorem kind_unsupported : ∀ t : Byte, tagKind t = .unsupported ↔
    t = 0xC1 ∨ t = 0xC7 ∨ t = 0xC8 ∨ t = 0xC9 ∨ t = 0xD4 ∨ t = 0xD5 ∨ t = 0xD6 ∨ t = 0xD7 ∨
      t = 0xD8 := by
  decide

theorem skip_unsupported (he : r.error = false) (h : r.At (t :: tl))
    (hk : tagKind t = .unsupported) : mpackSkipValue (d + 1) r = .ok r.fail := by
  rw [skip_cons he h]
  rcases (kind_unsupported t).1 hk with rfl | rfl | rfl | rfl | rfl | rfl | rfl | rfl | rfl <;> rfl

end

/-! ## Completeness -/

mutual
/-- **Every value the grammar derives is skipped**, and exactly its bytes. -/
theorem skip_complete {v : Value} {e : Bytes} (hv : Encodes v e) {d : Nat} {r : Reader}
    {tl : Bytes} (hd : e.length ≤ d) (he : r.error = false) (h : r.At (e ++ tl)) :
    mpackSkipValue d r = .ok (r.advance e.length) := by
  obtain ⟨d, rfl⟩ : ∃ d', d = d' + 1 := ⟨d - 1, by have := hv.length_pos; omega⟩
  cases hv with
  | null => exact skip_null he h rfl
  | false | true => exact skip_bool he h rfl
  | int hx =>
    have hr := tryReadInt64_ok hx h
    obtain ⟨t, tl', rfl, hk⟩ := hx.tag
    rw [skip_int he h hk, hr, dropValue_ok]
  | float hx =>
    have hr := tryReadDouble_ok hx h
    cases hx <;> rw [skip_float he h rfl, hr, dropValue_ok]
  | @str data hd' hh =>
    rw [append_assoc] at h
    have hr := tryReadStr_ok hh h
    obtain ⟨t, tl', rfl, hk⟩ := hh.tag
    rw [skip_str he h hk, hr, dropValue_ok]
  | @bin data hd' hh =>
    rw [append_assoc] at h
    have hr := tryReadBin_ok hh h
    obtain ⟨t, tl', rfl, hk⟩ := hh.tag
    rw [skip_bin he h hk, hr, dropValue_ok]
  | @array vs hd' e' hh hvs =>
    rw [append_assoc] at h
    have hr : mpackTryReadArrayHeader r = _ := tryReadCount_ok arrayTags hh h
    obtain ⟨t, tl', rfl, hk⟩ := arrayHeader_tag hh
    rw [length_append, length_cons] at hd
    have hi := skipItems_complete hvs (d := d) (by omega) (by simpa using he) h.advance
    rw [skip_array he h hk, hr, length_append, ← advance_advance]
    exact hi
  | @map kvs hd' e' hh hvs =>
    rw [append_assoc] at h
    have hr : mpackTryReadMapHeader r = _ := tryReadCount_ok mapTags hh h
    obtain ⟨t, tl', rfl, hk⟩ := mapHeader_tag hh
    rw [length_append, length_cons] at hd
    have hi := skipEntries_complete hvs (d := d) (by omega) (by simpa using he) h.advance
    rw [skip_map he h hk, hr, length_append, ← advance_advance]
    exact hi
theorem skipItems_complete {vs : List Value} {e : Bytes} (hvs : EncodesAll vs e) {d : Nat}
    {r : Reader} {tl : Bytes} (hd : e.length ≤ d) (he : r.error = false) (h : r.At (e ++ tl)) :
    skipLoop (mpackSkipValue d) vs.length r = .ok (r.advance e.length) := by
  cases hvs with
  | nil => simp [skipLoop, h.le]
  | @cons v vs e es hv hs =>
    rw [length_append] at hd
    rw [append_assoc] at h
    have h1 := skip_complete hv (d := d) (by omega) he h
    have h2 := skipItems_complete hs (d := d) (by omega) (by simpa using he) h.advance
    rw [length_cons, skipLoop, if_neg (by simp [he]), h1, length_append,
      ← advance_advance]
    exact h2
theorem skipEntries_complete {kvs : List (Value × Value)} {e : Bytes}
    (hvs : EncodesEntries kvs e) {d : Nat} {r : Reader} {tl : Bytes} (hd : e.length ≤ d)
    (he : r.error = false) (h : r.At (e ++ tl)) :
    skipLoop (fun r => mpackSkipValue d r >>= mpackSkipValue d) kvs.length r =
      .ok (r.advance e.length) := by
  cases hvs with
  | nil => simp [skipLoop, h.le]
  | @cons k v kvs ek ev es hk hv hs =>
    rw [length_append, length_append] at hd
    rw [append_assoc, append_assoc] at h
    have h1 := skip_complete hk (d := d) (by omega) he h
    have h2 := skip_complete hv (d := d) (by omega) (by simpa using he) h.advance
    have h3 := skipEntries_complete hs (d := d) (by omega) (by simpa using he) h.advance.advance
    rw [length_cons, skipLoop, if_neg (by simp [he]), h1]
    simp only [ok_bind, h2]
    rw [length_append, length_append, ← advance_advance, ← advance_advance]
    exact h3
end

/-! ## Totality -/

/-- Run from `r`, `x` consumes bytes with `P`, or ends `Broken`. -/
def Skips (r : Reader) (x : Except Fault Reader) (P : Bytes → Prop) : Prop :=
  (∃ e tl, r.rest = e ++ tl ∧ P e ∧ x = .ok (r.advance e.length)) ∨
    ∃ r', x = .ok r' ∧ Broken r r'

section
variable {r : Reader} {d : Nat} {skip : Reader → Except Fault Reader}

theorem skipLoop_error (n : Nat) (he : r.error = true) : skipLoop skip n r = .ok r := by
  cases n with
  | zero => rfl
  | succ n => rw [skipLoop, if_pos he]

/-- The loop, given what one round does on a shorter input; `Q n` collects `n` rounds of `P`. -/
theorem skipLoop_total {P : Bytes → Prop} {Q : Nat → Bytes → Prop} (hnil : Q 0 [])
    (hcons : ∀ n e es, P e → Q n es → Q (n + 1) (e ++ es))
    (round : ∀ r : Reader, r.error = false → r.pos ≤ r.len → r.rest.length < d →
      Skips r (skip r) P) :
    ∀ (n : Nat) (r : Reader), r.error = false → r.pos ≤ r.len → r.rest.length < d →
      Skips r (skipLoop skip n r) (Q n)
  | 0, r, _, hp, _ => .inl ⟨[], r.rest, rfl, hnil, by simp [skipLoop, hp]⟩
  | n + 1, r, he, hp, hd => by
    rw [skipLoop, if_neg (by simp [he])]
    rcases round r he hp hd with ⟨e, tl, hr, hP, hx⟩ | ⟨r', hx, hb⟩
    · have h1 := (hr ▸ At.of_le hp : r.At (e ++ tl)).advance
      rw [hr, length_append] at hd
      rw [hx]
      rcases skipLoop_total hnil hcons round n _ (by simpa using he) h1.le
        (by rw [h1.eq]; omega) with ⟨es, tl', hr', hQ, hx'⟩ | ⟨r', hx', hb⟩
      · rw [h1.eq] at hr'
        refine .inl ⟨e ++ es, tl', by rw [hr, hr', append_assoc], hcons n e es hP hQ, ?_⟩
        rw [length_append, ← advance_advance]
        exact hx'
      · exact .inr ⟨r', hx', hb.of_advance⟩
    · exact .inr ⟨r', by rw [hx]; exact skipLoop_error n hb.error, hb⟩

theorem skipPair_total {P : Bytes → Prop} (herr : ∀ r : Reader, r.error = true →
      ∃ r', skip r = .ok r' ∧ Broken r r')
    (round : ∀ r : Reader, r.error = false → r.pos ≤ r.len → r.rest.length < d →
      Skips r (skip r) P)
    (he : r.error = false) (hp : r.pos ≤ r.len) (hd : r.rest.length < d) :
    Skips r (skip r >>= skip) fun e => ∃ ek ev, e = ek ++ ev ∧ P ek ∧ P ev := by
  rcases round r he hp hd with ⟨ek, tk, hrk, hk, hx⟩ | ⟨r', hx, hb⟩
  · have h1 := (hrk ▸ At.of_le hp : r.At (ek ++ tk)).advance
    rw [hrk, length_append] at hd
    rw [hx]
    rcases round _ (by simpa using he) h1.le (by rw [h1.eq]; omega) with
      ⟨ev, tv, hrv, hv, hx'⟩ | ⟨r', hx', hb⟩
    · rw [h1.eq] at hrv
      refine .inl ⟨ek ++ ev, tv, by rw [hrk, hrv, append_assoc], ⟨ek, ev, rfl, hk, hv⟩, ?_⟩
      rw [length_append, ← advance_advance]
      exact hx'
    · exact .inr ⟨r', hx', hb.of_advance⟩
  · obtain ⟨r'', hx', hb'⟩ := herr r' hb.error
    exact .inr ⟨r'', by rw [hx]; exact hx', hb.trans hb'⟩

theorem Skips.of_advance {x : Except Fault Reader} {P Q : Bytes → Prop} {hdr tl : Bytes}
    (h : r.At (hdr ++ tl)) (hx : Skips (r.advance hdr.length) x Q)
    (hQ : ∀ e, Q e → P (hdr ++ e)) : Skips r x P := by
  rcases hx with ⟨e, tl', hr, he, hx⟩ | ⟨r', hx, hb⟩
  · rw [h.advance.eq] at hr
    refine .inl ⟨hdr ++ e, tl', by rw [h.eq, hr, append_assoc], hQ e he, ?_⟩
    rw [hx, advance_advance, length_append]
  · exact .inr ⟨r', hx, hb.of_advance⟩

section
variable {t : Byte} {tl : Bytes}
  (ih : ∀ r : Reader, r.error = false → r.pos ≤ r.len → r.rest.length < d →
    Skips r (mpackSkipValue d r) fun e => ∃ v, Encodes v e)
include ih

theorem skipArray_total (he : r.error = false) (h : r.At (t :: tl)) (hd : tl.length < d)
    (hk : tagKind t = .array) :
    Skips r (mpackSkipValue (d + 1) r) fun e => ∃ v, Encodes v e := by
  rw [skip_array he h hk]
  rcases tryReadCount_cases arrayTags h with ⟨n, hdr, tl', heq, hh⟩ | ⟨-, hn⟩ | ⟨n, r', hx, hb⟩
  · have hl : (hdr ++ tl').length ≤ d := by rw [← heq, length_cons]; omega
    have hpos : 0 < hdr.length := by obtain ⟨t', tl', rfl, -⟩ := arrayHeader_tag hh; simp
    rw [heq] at h
    rw [length_append] at hl
    have hx : mpackTryReadArrayHeader r = _ := tryReadCount_ok arrayTags hh h
    have items := skipLoop_total (Q := fun n e => ∃ vs, vs.length = n ∧ EncodesAll vs e)
      ⟨[], rfl, .nil⟩
      (fun n e es ⟨v, hv⟩ ⟨vs, hn, hvs⟩ => ⟨v :: vs, by simp [hn], .cons hv hvs⟩)
      ih n _ (by simpa using he) h.advance.le (by rw [h.advance.eq]; omega)
    rw [hx]
    refine items.of_advance h ?_
    rintro e ⟨vs, rfl, hvs⟩
    exact ⟨.array vs, .array hh hvs⟩
  · exact absurd ((kind_array t).1 hk) hn
  · have hx : mpackTryReadArrayHeader r = _ := hx
    rw [hx]
    exact .inr ⟨r', skipLoop_error n hb.error, hb⟩

theorem skipMap_total (he : r.error = false) (h : r.At (t :: tl)) (hd : tl.length < d)
    (hk : tagKind t = .map) :
    Skips r (mpackSkipValue (d + 1) r) fun e => ∃ v, Encodes v e := by
  obtain ⟨d, rfl⟩ : ∃ d', d = d' + 1 := ⟨d - 1, by omega⟩
  rw [skip_map he h hk]
  rcases tryReadCount_cases mapTags h with ⟨n, hdr, tl', heq, hh⟩ | ⟨-, hn⟩ | ⟨n, r', hx, hb⟩
  · have hl : (hdr ++ tl').length ≤ d + 1 := by rw [← heq, length_cons]; omega
    have hpos : 0 < hdr.length := by obtain ⟨t', tl', rfl, -⟩ := mapHeader_tag hh; simp
    rw [heq] at h
    rw [length_append] at hl
    have hx : mpackTryReadMapHeader r = _ := tryReadCount_ok mapTags hh h
    have pair : ∀ r : Reader, r.error = false → r.pos ≤ r.len → r.rest.length < d + 1 → _ :=
      fun r => skipPair_total (fun r hr => ⟨_, skip_error hr, broken_fail⟩) ih
    have entries := skipLoop_total
      (Q := fun n e => ∃ kvs, kvs.length = n ∧ EncodesEntries kvs e) ⟨[], rfl, .nil⟩
      (by
        rintro n e es ⟨ek, ev, rfl, ⟨k, hk⟩, v, hv⟩ ⟨kvs, hn, hkvs⟩
        refine ⟨(k, v) :: kvs, by simp [hn], ?_⟩
        rw [append_assoc]
        exact .cons hk hv hkvs)
      pair n _ (by simpa using he) h.advance.le (by rw [h.advance.eq]; omega)
    rw [hx]
    refine entries.of_advance h ?_
    rintro e ⟨kvs, rfl, hkvs⟩
    exact ⟨.map kvs, .map hh hkvs⟩
  · exact absurd ((kind_map t).1 hk) hn
  · have hx : mpackTryReadMapHeader r = _ := hx
    rw [hx]
    exact .inr ⟨r', skipLoop_error n hb.error, hb⟩

end

/-- **`mpack_skip_value` returns on every input**: it consumes a value of the grammar, or breaks. -/
theorem skip_total : ∀ (d : Nat) (r : Reader), r.error = false → r.pos ≤ r.len →
    r.rest.length < d → Skips r (mpackSkipValue d r) fun e => ∃ v, Encodes v e
  | 0, _, _, _, hd => absurd hd (by omega)
  | d + 1, r, he, hp, hd => by
    have h := At.of_le hp
    cases hr : r.rest with
    | nil => exact .inr ⟨_, skip_end hr, broken_fail⟩
    | cons t tl =>
      rw [hr] at h hd
      have ih := skip_total d
      have hd' : tl.length < d := by simpa using hd
      have value : ∀ {v : Value} {e tl' : Bytes}, t :: tl = e ++ tl' → Encodes v e →
          Skips r (mpackSkipValue (d + 1) r) fun e => ∃ v, Encodes v e := by
        intro v e tl' heq hv
        rw [heq] at h hd
        rw [length_append] at hd
        exact .inl ⟨e, tl', h.eq, ⟨v, hv⟩, skip_complete hv (by omega) he h⟩
      cases hk : tagKind t with
      | null => exact value (e := [0xC0]) (by rw [(kind_null t).1 hk]; rfl) .null
      | bool =>
        rcases (kind_bool t).1 hk with rfl | rfl
        · exact value (e := [0xC2]) rfl .false
        · exact value (e := [0xC3]) rfl .true
      | int =>
        rcases tryReadInt64_cases h hk with ⟨x, e, tl', heq, hx⟩ | ⟨x, r', hx, hb⟩
        · exact value heq (.int hx)
        · exact .inr ⟨r', by rw [skip_int he h hk, hx, dropValue_ok], hb⟩
      | float =>
        rcases tryReadDouble_cases h hk with ⟨x, e, tl', heq, hx⟩ | ⟨x, r', hx, hb⟩
        · exact value heq (.float hx)
        · exact .inr ⟨r', by rw [skip_float he h hk, hx, dropValue_ok], hb⟩
      | str =>
        rcases tryReadStr_cases h hk with ⟨hd', data, tl', heq, hx⟩ | ⟨o, r', hx, hb, -⟩
        · exact value (by rw [heq, ← append_assoc]) (.str hx)
        · exact .inr ⟨r', by rw [skip_str he h hk, hx, dropValue_ok], hb⟩
      | bin =>
        rcases tryReadBin_cases h hk with ⟨hd', data, tl', heq, hx⟩ | ⟨o, r', hx, hb, -⟩
        · exact value (by rw [heq, ← append_assoc]) (.bin hx)
        · exact .inr ⟨r', by rw [skip_bin he h hk, hx, dropValue_ok], hb⟩
      | array => exact skipArray_total ih he h hd' hk
      | map => exact skipMap_total ih he h hd' hk
      | unsupported => exact .inr ⟨r.fail, skip_unsupported he h hk, broken_fail⟩

end

/-- **Skipping and decoding agree.** Each ends at the value of the grammar in front, if there is
one, and breaks otherwise; the two depths are those of any calls deep enough for the bytes left. -/
theorem skip_decode_agree {r : Reader} {d d' : Nat} (he : r.error = false) (hp : r.pos ≤ r.len)
    (hd : r.rest.length < d) (hd' : r.rest.length < d') :
    ∃ o r₁ r₂, decodeValue .ok d r = .ok (o, r₁) ∧ mpackSkipValue d' r = .ok r₂ ∧
      r₁.error = r₂.error ∧ (r₁.error = false → r₁.pos = r₂.pos) := by
  have h := At.of_le hp
  rcases decodeValue_total d r he hp hd with ⟨o, e, tl, hr, ⟨v, -, hv⟩, hx⟩ | ⟨o, r₁, hx, hb⟩
  · rw [hr] at h hd'
    rw [length_append] at hd'
    exact ⟨o, _, _, hx, skip_complete hv (by omega) he h, rfl, fun _ => rfl⟩
  · rcases skip_total d' r he hp hd' with ⟨e, tl, hr, ⟨v, hv⟩, -⟩ | ⟨r₂, hy, hb'⟩
    · -- the decoder would have read the value that was skipped
      rw [hr] at h hd
      rw [length_append] at hd
      rw [decodeValue_complete hv (by omega) he h] at hx
      cases hx
      exact absurd hb.error (by simp [he])
    · refine ⟨o, r₁, r₂, hx, hy, by rw [hb.error, hb'.error], fun hok => ?_⟩
      exact absurd hb.error (by simp [hok])

theorem skip_decode_agree_truncated :
    let r : Reader := ⟨.mem [0x92, 0xC0] (by decide), 0, false⟩
    ∃ o r₁ r₂, decodeValue .ok 3 r = .ok (o, r₁) ∧ mpackSkipValue 3 r = .ok r₂ ∧
      r₁.error = r₂.error ∧ (r₁.error = false → r₁.pos = r₂.pos) :=
  skip_decode_agree rfl (by decide) (by decide) (by decide)

end Callwire.C
