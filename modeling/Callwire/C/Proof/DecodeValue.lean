import Callwire.C.Codec
import Callwire.C.Proof.TypedReads

/-!
# `decode_value` against the grammar

With allocation succeeding and a depth that covers the input:

* `decodeValue_complete`: on bytes the grammar derives, `decode_value` returns their meaning and
  consumes exactly them, whatever follows;
* `decodeValue_total`: on any input it returns, and either it has consumed bytes the grammar derives
  or it ends `Broken`. A string cut short is the only way it reads on after an error: the remaining
  kinds are tried behind the string's tag with the error flag set (`decodeBinPart_broken`).
-/

namespace Callwire.C

open Lib List Reader

/-! ## Dispatch on the tag -/

section
variable {mem : Alloc} {d : Nat} {r r' : Reader} {t : Byte} {tl : Bytes} {dec : Reader → Decoded}

theorem decodeValue_error (he : r.error = true) : decodeValue mem (d + 1) r = .ok (none, r) := by
  rw [decodeValue, if_pos he]

section
variable (he : r.error = false)
include he

theorem decodeValue_null (h : r.At (0xC0 :: tl)) :
    decodeValue mem (d + 1) r = .ok (some .null, r.advance 1) := by
  rw [decodeValue, if_neg (by simp [he]), tryReadNil_ok h]
  rfl

theorem decodeValue_notNull (h : r.At (t :: tl)) (hk : tagKind t ≠ .null) :
    decodeValue mem (d + 1) r = (do
      match ← mpackTryReadBool r with
      | (some b, r) => return (some (.bool b), r)
      | (none, r) =>
      match ← mpackTryReadInt64 r with
      | (some x, r) => return (some (.int64 x), r)
      | (none, r) =>
      match ← mpackTryReadDouble r with
      | (some x, r) => return (some (.float64 x), r)
      | (none, r) => decodeStrPart mem (decodeValue mem d) r) := by
  rw [decodeValue, if_neg (by simp [he]), tryReadNil_other h hk]
  rfl

theorem decodeValue_bool {b : BitVec 32} (h : r.At (t :: tl)) (hk : tagKind t = .bool)
    (hb : mpackTryReadBool r = .ok (some b, r')) :
    decodeValue mem (d + 1) r = .ok (some (.bool b), r') := by
  rw [decodeValue_notNull he h (by simp [hk]), hb]
  rfl

theorem decodeValue_int {x : BitVec 64} (h : r.At (t :: tl)) (hk : tagKind t = .int)
    (hx : mpackTryReadInt64 r = .ok (some x, r')) :
    decodeValue mem (d + 1) r = .ok (some (.int64 x), r') := by
  rw [decodeValue_notNull he h (by simp [hk]), tryReadBool_other h (by simp [hk])]
  simp only [ok_bind, hx]
  rfl

theorem decodeValue_float {x : BitVec 64} (h : r.At (t :: tl)) (hk : tagKind t = .float)
    (hx : mpackTryReadDouble r = .ok (some x, r')) :
    decodeValue mem (d + 1) r = .ok (some (.float64 x), r') := by
  rw [decodeValue_notNull he h (by simp [hk]), tryReadBool_other h (by simp [hk])]
  simp only [ok_bind, tryReadInt64_other h (by simp [hk] : tagKind t ≠ .int), hx]
  rfl

end

/-- The kinds tried from the string on. -/
def Kind.late : Kind → Bool
  | .str | .bin | .array | .map | .unsupported => true
  | _ => false

theorem decodeValue_late (he : r.error = false) (h : r.At (t :: tl))
    (hk : (tagKind t).late = true) :
    decodeValue mem (d + 1) r = decodeStrPart mem (decodeValue mem d) r := by
  have h1 : tagKind t ≠ .null := fun hc => by simp [hc, Kind.late] at hk
  have h2 : tagKind t ≠ .bool := fun hc => by simp [hc, Kind.late] at hk
  have h3 : tagKind t ≠ .int := fun hc => by simp [hc, Kind.late] at hk
  have h4 : tagKind t ≠ .float := fun hc => by simp [hc, Kind.late] at hk
  rw [decodeValue_notNull he h h1, tryReadBool_other h h2]
  simp only [ok_bind, tryReadInt64_other h h3, tryReadDouble_other h h4]

section
variable (h : r.At (t :: tl))
include h

theorem decodeStrPart_other (hk : tagKind t ≠ .str) :
    decodeStrPart mem dec r = decodeBinPart mem dec r := by
  rw [decodeStrPart, tryReadStr_other h hk]
  rfl

theorem decodeBinPart_other (hk : tagKind t ≠ .bin) :
    decodeBinPart mem dec r = decodeArrayPart mem dec r := by
  rw [decodeBinPart, tryReadBin_other h hk]
  rfl

theorem tryReadArrayHeader_other (hk : tagKind t ≠ .array) :
    mpackTryReadArrayHeader r = .ok (none, r) := by
  rw [ne_eq, kind_array] at hk
  simp only [not_or] at hk
  rw [mpackTryReadArrayHeader, tryReadCount_eq h]
  simp only [hk, ↓reduceIte]

theorem tryReadMapHeader_other (hk : tagKind t ≠ .map) :
    mpackTryReadMapHeader r = .ok (none, r) := by
  rw [ne_eq, kind_map] at hk
  simp only [not_or] at hk
  rw [mpackTryReadMapHeader, tryReadCount_eq h]
  simp only [hk, ↓reduceIte]

theorem decodeArrayPart_other (hk : tagKind t ≠ .array) :
    decodeArrayPart mem dec r = decodeMapPart mem dec r := by
  rw [decodeArrayPart, tryReadArrayHeader_other h hk]
  rfl

variable (he : r.error = false)
include he

theorem decodeValue_bin (hk : tagKind t = .bin) :
    decodeValue mem (d + 1) r = decodeBinPart mem (decodeValue mem d) r := by
  rw [decodeValue_late he h (by rw [hk]; rfl), decodeStrPart_other h (by simp [hk])]

theorem decodeValue_array (hk : tagKind t = .array) :
    decodeValue mem (d + 1) r = decodeArrayPart mem (decodeValue mem d) r := by
  rw [decodeValue_late he h (by rw [hk]; rfl), decodeStrPart_other h (by simp [hk]),
    decodeBinPart_other h (by simp [hk])]

theorem decodeValue_map (hk : tagKind t = .map ∨ tagKind t = .unsupported) :
    decodeValue mem (d + 1) r = decodeMapPart mem (decodeValue mem d) r := by
  rcases hk with hk | hk <;>
    rw [decodeValue_late he h (by rw [hk]; rfl), decodeStrPart_other h (by simp [hk]),
      decodeBinPart_other h (by simp [hk]), decodeArrayPart_other h (by simp [hk])]

end

end

/-! ## Results of the parts, allocation succeeding -/

section
variable {dec : Reader → Decoded} {r r' : Reader} {d : Nat}

theorem decodeStrPart_some {p n : Nat} {s : Bytes}
    (h : mpackTryReadStr r = .ok (some (p, n), r')) (hs : r'.slice p n = .ok s) :
    decodeStrPart .ok dec r = .ok (some (.string s), r') := by
  rw [decodeStrPart, h]
  simp [Alloc.ok, hs]

theorem decodeBinPart_some {p n : Nat} {s : Bytes}
    (h : mpackTryReadBin r = .ok (some (p, n), r')) (hs : r'.slice p n = .ok s) :
    decodeBinPart .ok dec r = .ok (some (.binary s), r') := by
  rw [decodeBinPart, h]
  simp [Alloc.ok, hs]

theorem decodeArrayPart_some {n : Nat} (h : mpackTryReadArrayHeader r = .ok (some n, r')) :
    decodeArrayPart .ok dec r =
      decodeItems dec n r' >>= fun p => .ok (p.1.map .array, p.2) := by
  rw [decodeArrayPart, h]
  simp [Alloc.ok]

theorem decodeMapPart_some {n : Nat} (h : mpackTryReadMapHeader r = .ok (some n, r')) :
    decodeMapPart .ok dec r =
      decodeEntries dec n r' >>= fun p => .ok (p.1.map .map, p.2) := by
  rw [decodeMapPart, h]
  simp [Alloc.ok]

end

/-! ## Completeness -/

mutual
/-- **Every value the grammar derives is decoded**, and exactly its bytes are consumed. -/
theorem decodeValue_complete {v : Value} {e : Bytes} (hv : Encodes v e) {d : Nat} {r : Reader}
    {tl : Bytes} (hd : e.length ≤ d) (he : r.error = false) (h : r.At (e ++ tl)) :
    decodeValue .ok d r = .ok (some v, r.advance e.length) := by
  obtain ⟨d, rfl⟩ : ∃ d', d = d' + 1 := ⟨d - 1, by have := hv.length_pos; omega⟩
  cases hv with
  | null => exact decodeValue_null he h
  | false => exact decodeValue_bool he h rfl (tryReadBool_false h)
  | true => exact decodeValue_bool he h rfl (tryReadBool_true h)
  | int hx =>
    obtain ⟨t, tl', rfl, hk⟩ := hx.tag
    exact decodeValue_int he h hk (tryReadInt64_ok hx h)
  | float hx =>
    have hr := tryReadDouble_ok hx h
    cases hx <;> exact decodeValue_float he h rfl hr
  | @str data hd' hh =>
    rw [append_assoc] at h
    have hr := tryReadStr_ok hh h
    have hs := h.slice (rfl : (r.advance (hd' ++ data).length).buf = r.buf)
    obtain ⟨t, tl', rfl, hk⟩ := hh.tag
    rw [decodeValue_late he h (by rw [hk]; rfl)]
    exact decodeStrPart_some hr hs
  | @bin data hd' hh =>
    rw [append_assoc] at h
    have hr := tryReadBin_ok hh h
    have hs := h.slice (rfl : (r.advance (hd' ++ data).length).buf = r.buf)
    obtain ⟨t, tl', rfl, hk⟩ := hh.tag
    rw [decodeValue_bin h he hk]
    exact decodeBinPart_some hr hs
  | @array vs hd' e' hh hvs =>
    rw [append_assoc] at h
    have hr : mpackTryReadArrayHeader r = _ := tryReadCount_ok arrayTags hh h
    obtain ⟨t, tl', rfl, hk⟩ := arrayHeader_tag hh
    rw [length_append, length_cons] at hd
    have hi := decodeItems_complete hvs (d := d) (by omega) (by simpa using he) h.advance
    rw [decodeValue_array h he hk, decodeArrayPart_some hr, hi, length_append, advance_advance]
    rfl
  | @map kvs hd' e' hh hvs =>
    rw [append_assoc] at h
    have hr : mpackTryReadMapHeader r = _ := tryReadCount_ok mapTags hh h
    obtain ⟨t, tl', rfl, hk⟩ := mapHeader_tag hh
    rw [length_append, length_cons] at hd
    have hi := decodeEntries_complete hvs (d := d) (by omega) (by simpa using he) h.advance
    rw [decodeValue_map h he (.inl hk), decodeMapPart_some hr, hi, length_append, advance_advance]
    rfl
theorem decodeItems_complete {vs : List Value} {e : Bytes} (hvs : EncodesAll vs e) {d : Nat}
    {r : Reader} {tl : Bytes} (hd : e.length ≤ d) (he : r.error = false) (h : r.At (e ++ tl)) :
    decodeItems (decodeValue .ok d) vs.length r = .ok (some vs, r.advance e.length) := by
  cases hvs with
  | nil => simp [decodeItems, h.le]
  | @cons v vs e es hv hs =>
    rw [length_append] at hd
    rw [append_assoc] at h
    have h1 := decodeValue_complete hv (d := d) (by omega) he h
    have h2 := decodeItems_complete hs (d := d) (by omega) (by simpa using he) h.advance
    simp only [length_cons, decodeItems, ok_bind, h1, h2, pure_ok,
      Option.map_some, advance_advance, length_append]
theorem decodeEntries_complete {kvs : List (Value × Value)} {e : Bytes}
    (hvs : EncodesEntries kvs e) {d : Nat} {r : Reader} {tl : Bytes} (hd : e.length ≤ d)
    (he : r.error = false) (h : r.At (e ++ tl)) :
    decodeEntries (decodeValue .ok d) kvs.length r = .ok (some kvs, r.advance e.length) := by
  cases hvs with
  | nil => simp [decodeEntries, h.le]
  | @cons k v kvs ek ev es hk hv hs =>
    rw [length_append, length_append] at hd
    rw [append_assoc, append_assoc] at h
    have h1 := decodeValue_complete hk (d := d) (by omega) he h
    have h2 := decodeValue_complete hv (d := d) (by omega) (by simpa using he) h.advance
    have h3 := decodeEntries_complete hs (d := d) (by omega) (by simpa using he) h.advance.advance
    simp only [length_cons, decodeEntries, ok_bind, h1, h2, h3, pure_ok,
      Option.map_some]
    simp only [advance_advance, length_append, Nat.add_assoc]
end

/-! ## Reading on after an error -/

section
variable {r : Reader} {d : Nat}

theorem Broken.refl (he : r.error = true) : Broken r r := ⟨rfl, he⟩

theorem Broken.advance {n : Nat} (he : r.error = true) : Broken r (r.advance n) := ⟨rfl, he⟩

/-- With the error flag set, a reader at the end or in front of some tag. -/
theorem Reader.end_or_at (r : Reader) : r.rest = [] ∨ ∃ t tl, r.At (t :: tl) := by
  cases h : r.rest with
  | nil => exact .inl rfl
  | cons t tl =>
    have := r.rest_length
    rw [h, length_cons] at this
    exact .inr ⟨t, tl, by omega, h⟩

theorem tryReadBin_broken (he : r.error = true) :
    ∃ o r', mpackTryReadBin r = .ok (o, r') ∧ Broken r r' ∧
      ∀ p m, o = some (p, m) → p + m ≤ r.len := by
  rcases r.end_or_at with h | ⟨t, tl, h⟩
  · exact ⟨none, r.fail, by rw [mpackTryReadBin, peek_nil h]; rfl, broken_fail, by simp⟩
  · by_cases hk : tagKind t = .bin
    · rcases tryReadBin_cases h hk with ⟨hd, data, tl', heq, hh⟩ | hb
      · rw [heq] at h
        refine ⟨_, _, tryReadBin_ok hh h, .advance he, ?_⟩
        rintro p m ⟨⟩
        have := h.advance.length
        rw [length_append, advance_len] at this
        omega
      · exact hb
    · exact ⟨_, _, tryReadBin_other h hk, .refl he, by simp⟩

theorem tryReadCount_broken {fix tag16 tag32 : Byte} (ht : CountTags fix tag16 tag32)
    (h0 : fix ≠ 0 ∧ tag16 ≠ 0 ∧ tag32 ≠ 0) (he : r.error = true) :
    ∃ o r', tryReadCountHeader fix tag16 tag32 r = .ok (o, r') ∧ Broken r r' := by
  rcases r.end_or_at with h | ⟨t, tl, h⟩
  · refine ⟨none, r.fail, ?_, broken_fail⟩
    rw [tryReadCountHeader, peek_nil h]
    exact (if_neg (fun hc => h0.1 (by simpa using hc.symm))).trans
      ((if_neg h0.2.1.symm).trans (if_neg h0.2.2.symm))
  · rcases tryReadCount_cases ht h with ⟨n, hd, tl', heq, hh⟩ | ⟨hr, -⟩ | ⟨n, hb⟩
    · rw [heq] at h
      exact ⟨_, _, tryReadCount_ok ht hh h, .advance he⟩
    · exact ⟨_, _, hr, .refl he⟩
    · exact ⟨_, hb⟩

theorem decodeItems_error (n : Nat) (he : r.error = true) :
    ∃ o, decodeItems (decodeValue .ok (d + 1)) n r = .ok (o, r) := by
  cases n with
  | zero => exact ⟨_, rfl⟩
  | succ n =>
    refine ⟨none, ?_⟩
    rw [decodeItems, decodeValue_error he]
    rfl

theorem decodeEntries_error (n : Nat) (he : r.error = true) :
    ∃ o, decodeEntries (decodeValue .ok (d + 1)) n r = .ok (o, r) := by
  cases n with
  | zero => exact ⟨_, rfl⟩
  | succ n =>
    refine ⟨none, ?_⟩
    rw [decodeEntries, decodeValue_error he]
    rfl

theorem decodeMapPart_broken (he : r.error = true) :
    ∃ o r', decodeMapPart .ok (decodeValue .ok (d + 1)) r = .ok (o, r') ∧ Broken r r' := by
  obtain ⟨o, r', hr, hb⟩ := tryReadCount_broken mapTags (by decide) he
  have hr : mpackTryReadMapHeader r = .ok (o, r') := hr
  cases o with
  | none => exact ⟨none, r'.fail, by rw [decodeMapPart, hr]; rfl, hb.trans broken_fail⟩
  | some n =>
    obtain ⟨o, ho⟩ := decodeEntries_error (d := d) n hb.error
    exact ⟨_, _, by rw [decodeMapPart_some hr, ho]; rfl, hb⟩

theorem decodeArrayPart_broken (he : r.error = true) :
    ∃ o r', decodeArrayPart .ok (decodeValue .ok (d + 1)) r = .ok (o, r') ∧ Broken r r' := by
  obtain ⟨o, r', hr, hb⟩ := tryReadCount_broken arrayTags (by decide) he
  have hr : mpackTryReadArrayHeader r = .ok (o, r') := hr
  cases o with
  | none =>
    obtain ⟨o, r'', hm, hb'⟩ := decodeMapPart_broken (d := d) hb.error
    exact ⟨_, _, by rw [decodeArrayPart, hr]; exact hm, hb.trans hb'⟩
  | some n =>
    obtain ⟨o, ho⟩ := decodeItems_error (d := d) n hb.error
    exact ⟨_, _, by rw [decodeArrayPart_some hr, ho]; rfl, hb⟩

theorem decodeBinPart_of_broken {o : Option (Nat × Nat)} {r' : Reader}
    (hr : mpackTryReadBin r = .ok (o, r')) (hb : Broken r r')
    (hin : ∀ p m, o = some (p, m) → p + m ≤ r.len) :
    ∃ o r', decodeBinPart .ok (decodeValue .ok (d + 1)) r = .ok (o, r') ∧ Broken r r' := by
  rcases o with _ | ⟨p, n⟩
  · obtain ⟨o, r'', hm, hb'⟩ := decodeArrayPart_broken (d := d) hb.error
    exact ⟨_, _, by rw [decodeBinPart, hr]; exact hm, hb.trans hb'⟩
  · obtain ⟨s, hs⟩ := slice_ok (show p + n ≤ r'.len by rw [len_eq hb.buf]; exact hin p n rfl)
    exact ⟨_, _, decodeBinPart_some hr hs, hb⟩

theorem decodeBinPart_broken (he : r.error = true) :
    ∃ o r', decodeBinPart .ok (decodeValue .ok (d + 1)) r = .ok (o, r') ∧ Broken r r' := by
  obtain ⟨o, r', hr, hb, hin⟩ := tryReadBin_broken he
  exact decodeBinPart_of_broken hr hb hin

end

/-! ## Totality -/

/-- Run from `r`, `x` consumes bytes `e` in front of it and returns `a` with `P a e`, or ends
`Broken`. -/
def Reads {α : Type} (r : Reader) (x : Except Fault (α × Reader)) (P : α → Bytes → Prop) : Prop :=
  (∃ a e tl, r.rest = e ++ tl ∧ P a e ∧ x = .ok (a, r.advance e.length)) ∨
    ∃ a r', x = .ok (a, r') ∧ Broken r r'

/-- What a complete read of a value returns. -/
def IsValue (o : Option Value) (e : Bytes) : Prop := ∃ v, o = some v ∧ Encodes v e

section
variable {r : Reader} {d : Nat} {α β : Type} {x : Except Fault (α × Reader)} {P : α → Bytes → Prop}
  {Q : β → Bytes → Prop}

theorem Reads.map (hx : Reads r x P) (f : α → β) (hQ : ∀ a e, P a e → Q (f a) e) :
    Reads r (x >>= fun p => .ok (f p.1, p.2)) Q := by
  rcases hx with ⟨a, e, tl, hr, hP, rfl⟩ | ⟨a, r', rfl, hb⟩
  · exact .inl ⟨f a, e, tl, hr, hQ a e hP, rfl⟩
  · exact .inr ⟨f a, r', rfl, hb⟩

theorem Reads.of_header {hd tl : Bytes} (h : r.At (hd ++ tl)) (hx : Reads (r.advance hd.length) x P)
    (f : α → β) (hQ : ∀ a e, P a e → Q (f a) (hd ++ e)) :
    Reads r (x >>= fun p => .ok (f p.1, p.2)) Q := by
  rcases hx with ⟨a, e, tl', hr, hP, rfl⟩ | ⟨a, r', rfl, hb⟩
  · rw [h.advance.eq] at hr
    refine .inl ⟨f a, hd ++ e, tl', by rw [h.eq, hr, append_assoc], hQ a e hP, ?_⟩
    rw [advance_advance, ← length_append]
    rfl
  · exact .inr ⟨f a, r', rfl, hb.of_advance⟩

/-- **Two reads, one after the other**: the second is given what is left of the input, or a broken
reader, which it must leave broken. -/
theorem Reads.bind {k : α × Reader → Except Fault (β × Reader)} (hx : Reads r x P)
    (hp : r.pos ≤ r.len)
    (hok : ∀ a e tl, P a e → r.At (e ++ tl) → Reads (r.advance e.length)
      (k (a, r.advance e.length)) fun b e' => Q b (e ++ e'))
    (hbroken : ∀ a r', r'.error = true → ∃ b r'', k (a, r') = .ok (b, r'') ∧ Broken r' r'') :
    Reads r (x >>= k) Q := by
  rcases hx with ⟨a, e, tl, hr, hP, rfl⟩ | ⟨a, r', rfl, hb⟩
  · have h : r.At (e ++ tl) := hr ▸ At.of_le hp
    rcases hok a e tl hP h with ⟨b, e', tl', hr', hQ, hk⟩ | ⟨b, r', hk, hb⟩
    · rw [h.advance.eq] at hr'
      refine .inl ⟨b, e ++ e', tl', by rw [hr, hr', append_assoc], hQ, ?_⟩
      rw [length_append, ← advance_advance]
      exact hk
    · exact .inr ⟨b, r', hk, hb.of_advance⟩
  · obtain ⟨b, r'', hk, hb'⟩ := hbroken a r' hb.error
    exact .inr ⟨b, r'', hk, hb.trans hb'⟩

section
variable (ih : ∀ r : Reader, r.error = false → r.pos ≤ r.len → r.rest.length < d + 1 →
  Reads r (decodeValue .ok (d + 1) r) IsValue)
include ih

/-- Items one after the other, given what one `decode_value` does on a shorter input. -/
theorem decodeItems_total : ∀ (n : Nat) (r : Reader), r.error = false → r.pos ≤ r.len →
    r.rest.length < d + 1 → Reads r (decodeItems (decodeValue .ok (d + 1)) n r)
      fun o e => ∃ vs, o = some vs ∧ vs.length = n ∧ EncodesAll vs e
  | 0, r, _, hp, _ =>
    .inl ⟨some [], [], r.rest, rfl, ⟨[], rfl, rfl, .nil⟩, by simp [decodeItems, hp]⟩
  | n + 1, r, he, hp, hd => by
    refine (ih r he hp hd).bind hp ?_ fun o r' hb => ?_
    · rintro _ e tl ⟨v, rfl, hv⟩ h
      rw [h.eq, length_append] at hd
      refine (decodeItems_total n _ (by simpa using he) h.advance.le
        (by rw [h.advance.eq]; omega)).map (Option.map (v :: ·)) ?_
      rintro _ es ⟨vs, rfl, hn, hvs⟩
      exact ⟨v :: vs, rfl, by simp [hn], .cons hv hvs⟩
    · cases o with
      | none => exact ⟨none, r', rfl, .refl hb⟩
      | some v =>
        obtain ⟨o, ho⟩ := decodeItems_error (d := d) n hb
        exact ⟨o.map (v :: ·), r', by simp only [ho]; rfl, .refl hb⟩

theorem decodeEntries_total : ∀ (n : Nat) (r : Reader), r.error = false → r.pos ≤ r.len →
    r.rest.length < d + 1 → Reads r (decodeEntries (decodeValue .ok (d + 1)) n r)
      fun o e => ∃ kvs, o = some kvs ∧ kvs.length = n ∧ EncodesEntries kvs e
  | 0, r, _, hp, _ =>
    .inl ⟨some [], [], r.rest, rfl, ⟨[], rfl, rfl, .nil⟩, by simp [decodeEntries, hp]⟩
  | n + 1, r, he, hp, hd => by
    refine (ih r he hp hd).bind hp ?_ fun o r' hb => ?_
    · rintro _ ek tk ⟨k, rfl, hk⟩ h
      rw [h.eq, length_append] at hd
      refine (ih _ (by simpa using he) h.advance.le (by rw [h.advance.eq]; omega)).bind
        h.advance.le ?_ fun o r' hb => ?_
      · rintro _ ev tv ⟨v, rfl, hv⟩ h'
        rw [← h.advance.eq, h'.eq, length_append] at hd
        refine (decodeEntries_total n _ (by simpa using he) h'.advance.le
          (by rw [h'.advance.eq]; omega)).map (Option.map ((k, v) :: ·)) ?_
        rintro _ es ⟨kvs, rfl, hn, hkvs⟩
        exact ⟨(k, v) :: kvs, rfl, by simp [hn], .cons hk hv hkvs⟩
      · cases o with
        | none => exact ⟨none, r', rfl, .refl hb⟩
        | some v =>
          obtain ⟨o, ho⟩ := decodeEntries_error (d := d) n hb
          exact ⟨o.map ((k, v) :: ·), r', by simp only [ho]; rfl, .refl hb⟩
    · cases o with
      | none => exact ⟨none, r', rfl, .refl hb⟩
      | some k => exact ⟨none, r', by simp only [decodeValue_error hb]; rfl, .refl hb⟩

variable {t : Byte} {tl : Bytes} (he : r.error = false) (h : r.At (t :: tl))
  (hd : tl.length < d + 1)
include he h hd

theorem decodeArrayPart_total (hk : tagKind t = .array) :
    Reads r (decodeArrayPart .ok (decodeValue .ok (d + 1)) r) IsValue := by
  rcases tryReadCount_cases arrayTags h with ⟨n, hd', tl', heq, hh⟩ | ⟨-, hn⟩ | ⟨n, r', hr, hb⟩
  · obtain ⟨t', hd', rfl, -⟩ := arrayHeader_tag hh
    simp only [cons_append, List.cons.injEq] at heq
    obtain ⟨rfl, rfl⟩ := heq
    have hr : mpackTryReadArrayHeader r = _ := tryReadCount_ok arrayTags hh h
    have h1 : (r.advance (t :: hd').length).At tl' := h.advance
    rw [length_append] at hd
    rw [decodeArrayPart_some hr]
    refine (decodeItems_total ih n _ (by simpa using he) h1.le
      (by rw [h1.eq]; omega)).of_header h _ ?_
    rintro _ e ⟨vs, rfl, rfl, hvs⟩
    exact ⟨_, rfl, .array hh hvs⟩
  · exact absurd ((kind_array t).1 hk) hn
  · obtain ⟨o, ho⟩ := decodeItems_error (d := d) n hb.error
    exact .inr ⟨_, _, by rw [decodeArrayPart_some hr, ho]; rfl, hb⟩

theorem decodeMapPart_total (hk : tagKind t = .map) :
    Reads r (decodeMapPart .ok (decodeValue .ok (d + 1)) r) IsValue := by
  rcases tryReadCount_cases mapTags h with ⟨n, hd', tl', heq, hh⟩ | ⟨-, hn⟩ | ⟨n, r', hr, hb⟩
  · obtain ⟨t', hd', rfl, -⟩ := mapHeader_tag hh
    simp only [cons_append, List.cons.injEq] at heq
    obtain ⟨rfl, rfl⟩ := heq
    have hr : mpackTryReadMapHeader r = _ := tryReadCount_ok mapTags hh h
    have h1 : (r.advance (t :: hd').length).At tl' := h.advance
    rw [length_append] at hd
    rw [decodeMapPart_some hr]
    refine (decodeEntries_total ih n _ (by simpa using he) h1.le
      (by rw [h1.eq]; omega)).of_header h _ ?_
    rintro _ e ⟨kvs, rfl, rfl, hvs⟩
    exact ⟨_, rfl, .map hh hvs⟩
  · exact absurd ((kind_map t).1 hk) hn
  · obtain ⟨o, ho⟩ := decodeEntries_error (d := d) n hb.error
    exact .inr ⟨_, _, by rw [decodeMapPart_some hr, ho]; rfl, hb⟩

end

section
variable {t : Byte} {tl : Bytes}

theorem decodeStrPart_total (h : r.At (t :: tl)) (hk : tagKind t = .str) :
    Reads r (decodeStrPart .ok (decodeValue .ok (d + 1)) r) IsValue := by
  rcases tryReadStr_cases h hk with ⟨hd, data, tl', heq, hh⟩ | ⟨o, r', hr, hb, hin⟩
  · rw [heq] at h
    exact .inl ⟨_, hd ++ data, tl', by rw [h.eq, append_assoc], ⟨_, rfl, .str hh⟩,
      decodeStrPart_some (tryReadStr_ok hh h) (h.slice rfl)⟩
  · right
    have hlen := len_eq hb.buf
    rcases o with _ | ⟨p, n⟩
    · -- the string is cut short: the other kinds are tried behind its tag
      obtain ⟨o, r'', hm, hb'⟩ := decodeBinPart_broken (d := d) hb.error
      exact ⟨_, _, by rw [decodeStrPart, hr]; exact hm, hb.trans hb'⟩
    · obtain ⟨s, hs⟩ := slice_ok (show p + n ≤ r'.len by rw [hlen]; exact hin p n rfl)
      exact ⟨_, _, decodeStrPart_some hr hs, hb⟩

theorem decodeBinPart_total (h : r.At (t :: tl)) (hk : tagKind t = .bin) :
    Reads r (decodeBinPart .ok (decodeValue .ok (d + 1)) r) IsValue := by
  rcases tryReadBin_cases h hk with ⟨hd, data, tl', heq, hh⟩ | ⟨o, r', hr, hb, hin⟩
  · rw [heq] at h
    exact .inl ⟨_, hd ++ data, tl', by rw [h.eq, append_assoc], ⟨_, rfl, .bin hh⟩,
      decodeBinPart_some (tryReadBin_ok hh h) (h.slice rfl)⟩
  · exact .inr (decodeBinPart_of_broken hr hb hin)

end

/-- At the end of the input the failed peek reads as the integer 0, and the position runs past the
end. -/
theorem decodeValue_end (he : r.error = false) (h : r.rest = []) :
    decodeValue .ok (d + 1) r = .ok (some (.int64 0), r.fail.advance 1) := by
  have h1 : mpackTryReadNil r = .ok (false, r.fail) := by
    rw [mpackTryReadNil, peek_nil h]
    rfl
  have h2 : mpackTryReadBool r.fail = .ok (none, r.fail) := by
    rw [mpackTryReadBool, peek_nil (r := r.fail) h]
    rfl
  have h3 : mpackTryReadInt64 r.fail = .ok (some 0, r.fail.advance 1) := by
    rw [mpackTryReadInt64, peek_nil (r := r.fail) h]
    rfl
  rw [decodeValue, if_neg (by simp [he]), h1]
  simp only [ok_bind, h2, h3]
  rfl

/-- **`decode_value` returns on every input**: it consumes a value of the grammar, or breaks. -/
theorem decodeValue_total : ∀ (d : Nat) (r : Reader), r.error = false → r.pos ≤ r.len →
    r.rest.length < d → Reads r (decodeValue .ok d r) IsValue
  | 0, _, _, _, hd => absurd hd (by omega)
  | d + 1, r, he, hp, hd => by
    have h := At.of_le hp
    cases hr : r.rest with
    | nil =>
      exact .inr ⟨_, _, decodeValue_end he hr, ⟨rfl, rfl⟩⟩
    | cons t tl =>
      rw [hr] at h hd
      obtain ⟨d, rfl⟩ : ∃ d', d = d' + 1 := ⟨d - 1, by simp at hd; omega⟩
      have ih := decodeValue_total (d + 1)
      have hd' : tl.length < d + 1 := by simpa using hd
      have scalar : ∀ {v : Value} {e tl' : Bytes}, t :: tl = e ++ tl' → Encodes v e →
          Reads r (decodeValue .ok (d + 1 + 1) r) IsValue := by
        intro v e tl' heq hv
        rw [heq] at h hd
        rw [length_append] at hd
        exact .inl ⟨_, e, tl', h.eq, ⟨v, rfl, hv⟩, decodeValue_complete hv (by omega) he h⟩
      cases hk : tagKind t with
      | null => exact scalar (e := [0xC0]) (by rw [(kind_null t).1 hk]; rfl) .null
      | bool =>
        rcases (kind_bool t).1 hk with rfl | rfl
        · exact scalar (e := [0xC2]) rfl .false
        · exact scalar (e := [0xC3]) rfl .true
      | int =>
        rcases tryReadInt64_cases h hk with ⟨x, e, tl', heq, hx⟩ | ⟨x, r', hx, hb⟩
        · exact scalar heq (.int hx)
        · exact .inr ⟨_, _, decodeValue_int he h hk hx, hb⟩
      | float =>
        rcases tryReadDouble_cases h hk with ⟨x, e, tl', heq, hx⟩ | ⟨x, r', hx, hb⟩
        · exact scalar heq (.float hx)
        · exact .inr ⟨_, _, decodeValue_float he h hk hx, hb⟩
      | str =>
        rw [decodeValue_late he h (by rw [hk]; rfl)]
        exact decodeStrPart_total h hk
      | bin =>
        rw [decodeValue_bin h he hk]
        exact decodeBinPart_total h hk
      | array =>
        rw [decodeValue_array h he hk]
        exact decodeArrayPart_total ih he h hd' hk
      | map =>
        rw [decodeValue_map h he (.inl hk)]
        exact decodeMapPart_total ih he h hd' hk
      | unsupported =>
        rw [decodeValue_map h he (.inr hk)]
        refine .inr ⟨none, r.fail, ?_, broken_fail⟩
        rw [decodeMapPart, tryReadMapHeader_other h (by simp [hk])]
        rfl

end

end Callwire.C
