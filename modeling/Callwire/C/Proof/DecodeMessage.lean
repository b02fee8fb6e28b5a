import Callwire.C.Proof.SkipValue

/-!
# `callwire_codec_decode` against the grammar

The loop over the entries applies `setEntry` to the message, entry by entry, and the fold of
`setEntry` is `messageOf` (`foldl_setEntry`). One entry is read as the grammar has it
(`decodeField_complete`), or no value stands in front of the reader and it breaks
(`decodeField_broken`); a broken loop ends with -1 (`decodeFields_error`). Hence the decoder returns
the message of a map (`decodeDepth_map`) and -1 on anything else (`decodeDepth_notMap`), on any
recursion depth above the payload's length.
-/

namespace Callwire.C

open Lib List Reader Value Option

/-! ## The message of a list of entries -/

/-- An entry with the string key `key` and the value `v`. -/
def setField (key : Bytes) (v : Value) (msg : WireMessage) : WireMessage :=
  if key = lit "id" then { msg with id := v.asInt.getD msg.id }
  else if key = lit "type" then { msg with type := v.asStr.or msg.type }
  else if key = lit "func" then { msg with func := v.asStr.or msg.func }
  else if key = lit "args" then { msg with args := v.asArray.getD msg.args }
  else if key = lit "stream" then { msg with stream := v.asBool.getD msg.stream }
  else if key = lit "result" then { msg with result := v }
  else if key = lit "error_type" then { msg with errorType := v.asStr.or msg.errorType }
  else if key = lit "message" then { msg with message := v.asStr.or msg.message }
  else msg

/-- An entry with any key: only string keys name fields. -/
def setEntry (msg : WireMessage) (kv : Value × Value) : WireMessage :=
  match kv.1 with
  | .string key => setField key kv.2 msg
  | _ => msg

/-- What one entry says about the field `key`. -/
def entryField {α : Type} (key : Bytes) (proj : Value → Option α) (kv : Value × Value) : Option α :=
  match kv.1 with
  | .string s => if s = key then proj kv.2 else none
  | _ => none

theorem lastField_cons {α : Type} (key : Bytes) (proj : Value → Option α) (kv : Value × Value)
    (kvs : List (Value × Value)) :
    lastField key proj (kv :: kvs) = (lastField key proj kvs).or (entryField key proj kv) := by
  obtain ⟨k, v⟩ := kv
  cases k <;> rfl

/-- The message `msg` with the fields that `find` knows replaced. -/
def updateFields (msg : WireMessage)
    (find : {α : Type} → Bytes → (Value → Option α) → Option α) : WireMessage where
  id := (find (lit "id") asInt).getD msg.id
  type := (find (lit "type") asStr).or msg.type
  func := (find (lit "func") asStr).or msg.func
  args := (find (lit "args") asArray).getD msg.args
  stream := (find (lit "stream") asBool).getD msg.stream
  result := (find (lit "result") some).getD msg.result
  errorType := (find (lit "error_type") asStr).or msg.errorType
  message := (find (lit "message") asStr).or msg.message

/-- The key of an entry decides which field it sets: the field names are distinct. -/
theorem setField_eq (key : Bytes) (v : Value) (msg : WireMessage) :
    setField key v msg = updateFields msg fun k proj => if key = k then proj v else none := by
  by_cases h1 : key = lit "id"
  · subst h1; rfl
  by_cases h2 : key = lit "type"
  · subst h2; rfl
  by_cases h3 : key = lit "func"
  · subst h3; rfl
  by_cases h4 : key = lit "args"
  · subst h4; rfl
  by_cases h5 : key = lit "stream"
  · subst h5; rfl
  by_cases h6 : key = lit "result"
  · subst h6; rfl
  by_cases h7 : key = lit "error_type"
  · subst h7; rfl
  by_cases h8 : key = lit "message"
  · subst h8; rfl
  simp only [setField, updateFields, h1, h2, h3, h4, h5, h6, h7, h8, ↓reduceIte, getD_none,
    none_or]

theorem setEntry_eq (kv : Value × Value) (msg : WireMessage) :
    setEntry msg kv = updateFields msg fun k proj => entryField k proj kv := by
  obtain ⟨k, v⟩ := kv
  cases k with
  | string key => exact setField_eq key v msg
  | _ => rfl

/-- **The entries in order leave each field at its last value.** -/
theorem foldl_setEntry : ∀ (kvs : List (Value × Value)) (msg : WireMessage),
    kvs.foldl setEntry msg = updateFields msg fun k proj => lastField k proj kvs
  | [], _ => rfl
  | kv :: kvs, msg => by
    rw [foldl_cons, foldl_setEntry kvs, setEntry_eq]
    simp only [updateFields, lastField_cons, Option.getD_or, Option.or_assoc]

theorem messageOf_eq (kvs : List (Value × Value)) : messageOf kvs = kvs.foldl setEntry {} := by
  rw [foldl_setEntry]
  simp only [messageOf, updateFields, or_none]

/-! ## The argument list -/

section
variable {r : Reader} {d : Nat}

theorem decodeArgs_error : ∀ n, r.error = true →
    ∃ vs, decodeArgs .ok (d + 1) true n r = .ok (vs, r)
  | 0, _ => ⟨[], rfl⟩
  | n + 1, he => by
    obtain ⟨vs, hvs⟩ := decodeArgs_error n he
    refine ⟨.null :: vs, ?_⟩
    simp only [decodeArgs, decodeValue_error he, hvs, ok_bind, pure_ok]

theorem decodeArgs_complete {vs : List Value} {e : Bytes} (hvs : EncodesAll vs e) :
    ∀ {r : Reader} {tl : Bytes}, e.length ≤ d → r.error = false → r.At (e ++ tl) →
      decodeArgs .ok d true vs.length r = .ok (vs, r.advance e.length) := by
  induction vs generalizing e with
  | nil =>
    intro r tl _ _ h
    cases hvs
    simp [decodeArgs, h.le]
  | cons v vs ih =>
    intro r tl hd he h
    obtain - | @⟨_, _, e, es, hv, hs⟩ := hvs
    rw [length_append] at hd
    rw [append_assoc] at h
    have h1 := decodeValue_complete hv (d := d) (by omega) he h
    have h2 := ih hs (by omega) (by simpa using he) h.advance
    simp only [length_cons, decodeArgs, h1, h2, ok_bind, pure_ok,
      advance_advance, length_append, not_true_eq_false, ↓reduceIte]

theorem decodeArgs_total : ∀ (n : Nat) (r : Reader), r.error = false → r.pos ≤ r.len →
    r.rest.length < d →
    Reads r (decodeArgs .ok d true n r) fun vs e => vs.length = n ∧ EncodesAll vs e
  | 0, r, _, hp, _ => .inl ⟨[], [], r.rest, rfl, ⟨rfl, .nil⟩, by simp [decodeArgs, hp]⟩
  | n + 1, r, he, hp, hd => by
    rcases decodeValue_total _ r he hp hd with ⟨_, e, tl, hr, ⟨v, rfl, hv⟩, hx⟩ | ⟨o, r', hx, hb⟩
    · have h1 := (hr ▸ At.of_le hp : r.At (e ++ tl)).advance
      rw [hr, length_append] at hd
      rcases decodeArgs_total n _ (by simpa using he) h1.le (by rw [h1.eq]; omega) with
        ⟨vs, es, tl', hr', ⟨hn, hvs⟩, hx'⟩ | ⟨vs, r', hx', hb⟩
      · rw [h1.eq] at hr'
        refine .inl ⟨v :: vs, e ++ es, tl', by rw [hr, hr', append_assoc],
          ⟨by simp [hn], .cons hv hvs⟩, ?_⟩
        simp only [decodeArgs, ok_bind, hx, hx', pure_ok, not_true_eq_false,
          ↓reduceIte, advance_advance, length_append]
      · refine .inr ⟨v :: vs, r', ?_, hb.of_advance⟩
        simp only [decodeArgs, ok_bind, hx, hx', pure_ok, not_true_eq_false,
          ↓reduceIte]
    · obtain ⟨vs, hvs⟩ : ∃ vs, decodeArgs .ok d true n r' = .ok (vs, r') := by
        obtain ⟨d, rfl⟩ : ∃ d', d = d' + 1 := ⟨d - 1, by omega⟩
        exact decodeArgs_error n hb.error
      refine .inr ⟨o.getD .null :: vs, r', ?_, hb⟩
      cases o <;>
        simp only [decodeArgs, ok_bind, hx, hvs, pure_ok, not_true_eq_false,
          ↓reduceIte, getD_none, getD_some]

end

/-! ## One field, in front of a value -/

section
variable {v : Value} {e tl : Bytes} {r : Reader} {d : Nat} {key : Bytes} {msg : WireMessage}

/-- A typed read of another kind than the value in front leaves the reader alone. -/
theorem tryRead_other_kind (hv : Encodes v e) (h : r.At (e ++ tl)) :
    (v.kind ≠ .int → mpackTryReadInt64 r = .ok (none, r)) ∧
    (v.kind ≠ .str → mpackTryReadStr r = .ok (none, r)) ∧
    (v.kind ≠ .array → mpackTryReadArrayHeader r = .ok (none, r)) ∧
    (v.kind ≠ .bool → mpackTryReadBool r = .ok (none, r)) := by
  obtain ⟨t, tl', rfl, hk⟩ := hv.tag
  rw [← hk]
  exact ⟨tryReadInt64_other h, tryReadStr_other h, tryReadArrayHeader_other h,
    tryReadBool_other h⟩

theorem decodeStrField_complete (hv : Encodes v e) (hd : e.length ≤ d) (he : r.error = false)
    (h : r.At (e ++ tl)) (old : Option Bytes) :
    decodeStrField .ok d old r = .ok (v.asStr.or old, r.advance e.length) := by
  by_cases hk : v.kind = .str
  · cases hv with
    | @str data hdr hh =>
      rw [append_assoc] at h
      have hs := h.slice (rfl : (r.advance (hdr ++ data).length).buf = r.buf)
      rw [decodeStrField, tryReadStr_ok hh h]
      simp only [ok_bind, dupStr, Alloc.ok, ↓reduceIte, hs, pure_ok,
        asStr, some_or]
    | _ => simp [kind] at hk
  · have hn : v.asStr = none := by cases v <;> first | rfl | exact absurd rfl hk
    rw [decodeStrField, (tryRead_other_kind hv h).2.1 hk]
    simp only [ok_bind, skip_complete hv hd he h, pure_ok, hn, none_or]

/-- **An entry's value is read as the message's field.** -/
theorem decodeField_complete (hv : Encodes v e) (hd : e.length ≤ d) (he : r.error = false)
    (h : r.At (e ++ tl)) :
    decodeField .ok d key msg r = .ok (setField key v msg, r.advance e.length) := by
  have hskip := skip_complete hv hd he h
  have hstr := decodeStrField_complete hv hd he h
  have hother := tryRead_other_kind hv h
  unfold decodeField setField
  split
  · by_cases hk : v.kind = .int
    · cases hv with
      | int hx => rw [tryReadInt64_ok hx h]; rfl
      | _ => simp [kind] at hk
    · have hn : v.asInt = none := by cases v <;> first | rfl | exact absurd rfl hk
      rw [hother.1 hk, hn]
      simp only [ok_bind, hskip, pure_ok, getD_none]
  split
  · simp only [hstr, ok_bind, pure_ok]
  split
  · simp only [hstr, ok_bind, pure_ok]
  split
  · by_cases hk : v.kind = .array
    · cases hv with
      | @array vs hdr e' hh hvs =>
        rw [append_assoc] at h
        have hr : mpackTryReadArrayHeader r = _ := tryReadCount_ok arrayTags hh h
        rw [length_append] at hd
        have hi := decodeArgs_complete hvs (d := d) (by omega) (by simpa using he) h.advance
        rw [hr]
        simp only [ok_bind, Alloc.ok, hi, pure_ok, asArray,
          getD_some, advance_advance, length_append]
      | _ => simp [kind] at hk
    · have hn : v.asArray = none := by cases v <;> first | rfl | exact absurd rfl hk
      rw [hother.2.2.1 hk, hn]
      simp only [ok_bind, hskip, pure_ok, getD_none]
  split
  · by_cases hk : v.kind = .bool
    · cases hv with
      | false => rw [tryReadBool_false h]; rfl
      | true => rw [tryReadBool_true h]; rfl
      | _ => simp [kind] at hk
    · have hn : v.asBool = none := by cases v <;> first | rfl | exact absurd rfl hk
      rw [hother.2.2.2 hk, hn]
      simp only [ok_bind, hskip, pure_ok, getD_none]
  split
  · simp only [decodeValue_complete hv hd he h, ok_bind, pure_ok]
  split
  · simp only [hstr, ok_bind, pure_ok]
  split
  · simp only [hstr, ok_bind, pure_ok]
  · simp only [hskip, ok_bind, pure_ok]

end

/-! ## One field, with no value in front -/

/-- No value can be read: the error flag is set, or the bytes in front do not start with one. -/
def Stuck (d : Nat) (r : Reader) : Prop :=
  r.error = true ∨ (r.error = false ∧ r.pos ≤ r.len ∧ r.rest.length < d ∧
    ∀ v e tl, r.rest = e ++ tl → ¬ Encodes v e)

/-- A typed read either breaks the reader or returns `none` and leaves it alone. -/
def Unread {α : Type} (r : Reader) (x : Except Fault (Option α × Reader)) : Prop :=
  ∃ o r', x = .ok (o, r') ∧ (Broken r r' ∨ o = none ∧ r' = r)

section
variable {r : Reader} {d : Nat}

theorem Reader.value_or_stuck (d : Nat) (he : r.error = false) (hp : r.pos ≤ r.len)
    (hd : r.rest.length < d) : (∃ v e tl, r.rest = e ++ tl ∧ Encodes v e) ∨ Stuck d r := by
  by_cases h : ∃ v e tl, r.rest = e ++ tl ∧ Encodes v e
  · exact .inl h
  · exact .inr (.inr ⟨he, hp, hd, fun v e tl hr hv => h ⟨v, e, tl, hr, hv⟩⟩)

theorem Stuck.error {v : Value} {e tl : Bytes} (hs : Stuck d r) (h : r.At (e ++ tl))
    (hv : Encodes v e) : r.error = true := by
  rcases hs with he | ⟨-, -, -, hn⟩
  · exact he
  · exact absurd hv (hn v e tl h.eq)

theorem tryReadInt64_stuck (hs : Stuck d r) : Unread r (mpackTryReadInt64 r) := by
  rcases r.end_or_at with h | ⟨t, tl, h⟩
  · refine ⟨some 0, r.fail.advance 1, ?_, .inl ⟨rfl, rfl⟩⟩
    rw [mpackTryReadInt64, peek_nil h]
    rfl
  · by_cases hk : tagKind t = .int
    · rcases tryReadInt64_cases h hk with ⟨x, e, tl', heq, hx⟩ | ⟨x, r', hx, hb⟩
      · rw [heq] at h
        exact ⟨_, _, tryReadInt64_ok hx h, .inl (.advance (hs.error h (.int hx)))⟩
      · exact ⟨_, _, hx, .inl hb⟩
    · exact ⟨_, _, tryReadInt64_other h hk, .inr ⟨rfl, rfl⟩⟩

theorem tryReadBool_stuck (hs : Stuck d r) : Unread r (mpackTryReadBool r) := by
  rcases r.end_or_at with h | ⟨t, tl, h⟩
  · refine ⟨none, r.fail, ?_, .inl broken_fail⟩
    rw [mpackTryReadBool, peek_nil h]
    rfl
  · by_cases hk : tagKind t = .bool
    · rcases (kind_bool t).1 hk with rfl | rfl
      · exact ⟨_, _, tryReadBool_false h, .inl (.advance (hs.error (e := [0xC2]) h .false))⟩
      · exact ⟨_, _, tryReadBool_true h, .inl (.advance (hs.error (e := [0xC3]) h .true))⟩
    · exact ⟨_, _, tryReadBool_other h hk, .inr ⟨rfl, rfl⟩⟩

/-- As for the others; a string that is returned lies inside the payload. -/
theorem tryReadStr_stuck (hs : Stuck d r) :
    ∃ o r', mpackTryReadStr r = .ok (o, r') ∧ (Broken r r' ∨ o = none ∧ r' = r) ∧
      ∀ p m, o = some (p, m) → p + m ≤ r.len := by
  rcases r.end_or_at with h | ⟨t, tl, h⟩
  · refine ⟨none, r.fail, ?_, .inl broken_fail, by simp⟩
    rw [mpackTryReadStr, peek_nil h]
    rfl
  · by_cases hk : tagKind t = .str
    · rcases tryReadStr_cases h hk with ⟨hdr, data, tl', heq, hh⟩ | ⟨o, r', hx, hb, hin⟩
      · rw [heq] at h
        have he := hs.error (append_assoc hdr data tl' ▸ h) (.str hh)
        refine ⟨_, _, tryReadStr_ok hh h, .inl (.advance he), ?_⟩
        rintro p m ⟨⟩
        have := h.advance.length
        rw [length_append, advance_len] at this
        omega
      · exact ⟨_, _, hx, .inl hb, hin⟩
    · exact ⟨_, _, tryReadStr_other h hk, .inr ⟨rfl, rfl⟩, by simp⟩

section
variable (hs : Stuck (d + 1) r)
include hs

theorem skip_stuck : ∃ r', mpackSkipValue (d + 1) r = .ok r' ∧ Broken r r' := by
  rcases hs with he | ⟨he, hp, hd, hn⟩
  · exact ⟨_, skip_error he, broken_fail⟩
  · rcases skip_total _ r he hp hd with ⟨e, tl, hr, ⟨v, hv⟩, -⟩ | hb
    · exact absurd hv (hn v e tl hr)
    · exact hb

theorem skip_unread {r' : Reader} (h : Broken r r' ∨ r' = r) :
    ∃ r'', mpackSkipValue (d + 1) r' = .ok r'' ∧ Broken r r'' := by
  rcases h with hb | rfl
  · exact ⟨_, skip_error hb.error, hb.trans broken_fail⟩
  · exact skip_stuck hs

theorem decodeStrField_stuck (old : Option Bytes) :
    ∃ s r', decodeStrField .ok (d + 1) old r = .ok (s, r') ∧ Broken r r' := by
  obtain ⟨o, r', hx, hu, hin⟩ := tryReadStr_stuck hs
  match o with
  | none =>
    obtain ⟨r'', hsk, hb⟩ := skip_unread hs (hu.imp_right And.right)
    refine ⟨old, r'', ?_, hb⟩
    rw [decodeStrField, hx]
    simp only [ok_bind, hsk, pure_ok]
  | some (p, m) =>
    have hb : Broken r r' := hu.resolve_right (by simp)
    have hlen := len_eq hb.buf
    obtain ⟨c, hc⟩ := slice_ok (show p + m ≤ r'.len by rw [hlen]; exact hin p m rfl)
    refine ⟨some c, r', ?_, hb⟩
    rw [decodeStrField, hx]
    simp only [ok_bind, dupStr, Alloc.ok, ↓reduceIte, hc, pure_ok]

theorem decodeValue_stuck : ∃ o r', decodeValue .ok (d + 1) r = .ok (o, r') ∧ Broken r r' := by
  rcases hs with he | ⟨he, hp, hd, hn⟩
  · exact ⟨_, _, decodeValue_error he, .refl he⟩
  · rcases decodeValue_total _ r he hp hd with ⟨_, e, tl, hr, ⟨v, -, hv⟩, -⟩ | hb
    · exact absurd hv (hn v e tl hr)
    · exact hb

theorem decodeArgsField_stuck :
    (∃ n r1 vs r', mpackTryReadArrayHeader r = .ok (some n, r1) ∧
      decodeArgs .ok (d + 1) true n r1 = .ok (vs, r') ∧ Broken r r') ∨
    ∃ r1 r', mpackTryReadArrayHeader r = .ok (none, r1) ∧
      mpackSkipValue (d + 1) r1 = .ok r' ∧ Broken r r' := by
  rcases r.end_or_at with h | ⟨t, tl, h⟩
  · refine .inr ⟨r.fail, _, ?_, skip_error rfl, broken_fail.trans broken_fail⟩
    rw [mpackTryReadArrayHeader, tryReadCountHeader, peek_nil h]
    rfl
  · rcases tryReadCount_cases arrayTags h with ⟨n, hdr, tl', heq, hh⟩ | ⟨hx, -⟩ | ⟨n, r', hx, hb⟩
    · rw [heq] at h
      have hx : mpackTryReadArrayHeader r = _ := tryReadCount_ok arrayTags hh h
      refine .inl ⟨n, r.advance hdr.length, ?_⟩
      rcases hs with he | ⟨he, -, hd, hn⟩
      · obtain ⟨vs, hvs⟩ := decodeArgs_error (r := r.advance hdr.length) (d := d) n he
        exact ⟨vs, _, hx, hvs, .advance he⟩
      · rw [h.eq, length_append] at hd
        rcases decodeArgs_total (d := d + 1) n (r.advance hdr.length) he h.advance.le
          (by rw [h.advance.eq]; omega) with
          ⟨vs, e, tl2, hr, ⟨rfl, hvs⟩, -⟩ | ⟨vs, r', hr, hb⟩
        · rw [h.advance.eq] at hr
          refine absurd (.array hh hvs) (hn _ (hdr ++ e) tl2 ?_)
          rw [h.eq, hr, append_assoc]
        · exact ⟨vs, r', hx, hr, hb.of_advance⟩
    · obtain ⟨r', hsk, hb⟩ := skip_stuck hs
      exact .inr ⟨r, r', hx, hsk, hb⟩
    · obtain ⟨vs, hvs⟩ := decodeArgs_error (d := d) n hb.error
      exact .inl ⟨n, r', vs, r', hx, hvs, hb⟩

/-- **With no value in front, reading a field breaks the reader.** -/
theorem decodeField_broken (key : Bytes) (msg : WireMessage) :
    ∃ msg' r', decodeField .ok (d + 1) key msg r = .ok (msg', r') ∧ Broken r r' := by
  have hstr := decodeStrField_stuck hs
  unfold decodeField
  split
  · obtain ⟨o, r', hx, hu⟩ := tryReadInt64_stuck hs
    cases o with
    | none =>
      obtain ⟨r'', hsk, hb⟩ := skip_unread hs (hu.imp_right And.right)
      exact ⟨msg, r'', by simp only [hx, hsk, ok_bind, pure_ok], hb⟩
    | some x => exact ⟨{ msg with id := x }, r', by rw [hx]; rfl, hu.resolve_right (by simp)⟩
  split
  · obtain ⟨s, r', hx, hb⟩ := hstr msg.type
    exact ⟨_, r', by rw [hx]; rfl, hb⟩
  split
  · obtain ⟨s, r', hx, hb⟩ := hstr msg.func
    exact ⟨_, r', by rw [hx]; rfl, hb⟩
  split
  · rcases decodeArgsField_stuck hs with ⟨n, r1, vs, r', hx, hvs, hb⟩ | ⟨r1, r', hx, hsk, hb⟩
    · refine ⟨{ msg with args := vs }, r', ?_, hb⟩
      simp only [hx, Alloc.ok, hvs, ok_bind, pure_ok]
    · exact ⟨msg, r', by simp only [hx, hsk, ok_bind, pure_ok], hb⟩
  split
  · obtain ⟨o, r', hx, hu⟩ := tryReadBool_stuck hs
    cases o with
    | none =>
      obtain ⟨r'', hsk, hb⟩ := skip_unread hs (hu.imp_right And.right)
      exact ⟨msg, r'', by simp only [hx, hsk, ok_bind, pure_ok], hb⟩
    | some b => exact ⟨{ msg with stream := b }, r', by rw [hx]; rfl, hu.resolve_right (by simp)⟩
  split
  · obtain ⟨o, r', hx, hb⟩ := decodeValue_stuck hs
    cases o with
    | none => exact ⟨msg, r', by rw [hx]; rfl, hb⟩
    | some v => exact ⟨{ msg with result := v }, r', by rw [hx]; rfl, hb⟩
  split
  · obtain ⟨s, r', hx, hb⟩ := hstr msg.errorType
    exact ⟨_, r', by rw [hx]; rfl, hb⟩
  split
  · obtain ⟨s, r', hx, hb⟩ := hstr msg.message
    exact ⟨_, r', by rw [hx]; rfl, hb⟩
  · obtain ⟨r', hsk, hb⟩ := skip_stuck hs
    exact ⟨msg, r', by rw [hsk]; rfl, hb⟩

end

end

/-! ## The loop over the entries -/

section
variable {d : Nat} {msg : WireMessage} {r : Reader}

/-- What the loop does with an entry whose key is the string at `p`. -/
theorem decodeFields_key {n p m : Nat} {r' : Reader} {key : Bytes}
    (hx : mpackTryReadStr r = .ok (some (p, m), r')) (hk : r'.slice p m = .ok key) :
    decodeFields .ok d (n + 1) msg r =
      decodeField .ok d key msg r' >>= fun q =>
        if q.2.error then .ok none else decodeFields .ok d n q.1 q.2 := by
  rw [decodeFields, hx]
  simp only [ok_bind, hk]
  rfl

theorem decodeFields_skip {n : Nat} {r' r1 r2 : Reader} (hx : mpackTryReadStr r = .ok (none, r'))
    (h1 : mpackSkipValue d r' = .ok r1) (h2 : mpackSkipValue d r1 = .ok r2) :
    decodeFields .ok d (n + 1) msg r = decodeFields .ok d n msg r2 := by
  rw [decodeFields, hx]
  simp only [ok_bind, h1, h2]

/-- With no key in front the loop ends with -1, if it does so once the error flag is set. -/
theorem decodeFields_stuck {n : Nat}
    (ih : ∀ (msg : WireMessage) (r : Reader), r.error = true →
      decodeFields .ok (d + 1) n msg r = .ok none)
    (hs : Stuck (d + 1) r) (msg : WireMessage) :
    decodeFields .ok (d + 1) (n + 1) msg r = .ok none := by
  obtain ⟨o, r', hx, hu, hin⟩ := tryReadStr_stuck hs
  match o with
  | none =>
    obtain ⟨r1, h1, hb⟩ := skip_unread hs (hu.imp_right And.right)
    rw [decodeFields_skip hx h1 (skip_error hb.error)]
    exact ih msg _ rfl
  | some (p, m) =>
    have hb : Broken r r' := hu.resolve_right (by simp)
    have hlen := len_eq hb.buf
    obtain ⟨key, hk⟩ := slice_ok (show p + m ≤ r'.len by rw [hlen]; exact hin p m rfl)
    obtain ⟨msg', r'', hf, hb'⟩ := decodeField_broken (d := d) (.inl hb.error) key msg
    rw [decodeFields_key hx hk, hf]
    exact if_pos hb'.error

/-- **Once the error flag is set the loop ends with -1.** -/
theorem decodeFields_error : ∀ (n : Nat) (msg : WireMessage) (r : Reader), r.error = true →
    decodeFields .ok (d + 1) n msg r = .ok none
  | 0, msg, r, he => by rw [decodeFields, if_pos he]
  | n + 1, msg, r, he => decodeFields_stuck (decodeFields_error n) (.inl he) msg

theorem decodeFields_entry {k v : Value} {ek ev tl : Bytes} {n : Nat} (hk : Encodes k ek)
    (hv : Encodes v ev) (he : r.error = false) (hd : ek.length + ev.length ≤ d)
    (h : r.At (ek ++ (ev ++ tl))) :
    decodeFields .ok d (n + 1) msg r =
      decodeFields .ok d n (setEntry msg (k, v)) (r.advance (ek ++ ev).length) := by
  have he' : (r.advance ek.length).error = false := by simpa using he
  rw [length_append, ← advance_advance]
  by_cases hstr : k.kind = .str
  · cases hk with
    | @str data hdr hh =>
      have hf : decodeField .ok d data msg _ = _ :=
        decodeField_complete hv (by omega) he' h.advance
      rw [append_assoc] at h
      rw [decodeFields_key (tryReadStr_ok hh h) (h.slice rfl), hf]
      exact if_neg (by simp [he])
    | _ => simp [kind] at hstr
  · have hs : setEntry msg (k, v) = msg := by
      cases k <;> first | rfl | exact absurd rfl hstr
    rw [hs]
    exact decodeFields_skip ((tryRead_other_kind hk h).2.1 hstr)
      (skip_complete hk (by omega) he h) (skip_complete hv (by omega) he' h.advance)

theorem decodeFields_complete {kvs : List (Value × Value)} {e : Bytes}
    (hkvs : EncodesEntries kvs e) : ∀ {r : Reader} {tl : Bytes} (msg : WireMessage),
      e.length ≤ d → r.error = false → r.At (e ++ tl) →
        decodeFields .ok d kvs.length msg r = .ok (some (kvs.foldl setEntry msg)) := by
  induction kvs generalizing e with
  | nil =>
    intro r tl msg _ he _
    simp [decodeFields, he]
  | cons kv kvs ih =>
    intro r tl msg hd he h
    obtain - | @⟨k, v, _, ek, ev, es, hk, hv, hs⟩ := hkvs
    rw [length_append, length_append] at hd
    rw [append_assoc, append_assoc] at h
    rw [length_cons, decodeFields_entry hk hv he (by omega) h, foldl_cons]
    rw [← append_assoc] at h
    exact ih hs _ (by omega) (by simpa using he) h.advance

theorem decodeFields_noValue {k : Value} {ek tl : Bytes} (hk : Encodes k ek)
    (he : r.error = false) (hd : ek.length ≤ d + 1) (h : r.At (ek ++ tl))
    (hs : Stuck (d + 1) (r.advance ek.length)) (n : Nat) (msg : WireMessage) :
    decodeFields .ok (d + 1) (n + 1) msg r = .ok none := by
  by_cases hstr : k.kind = .str
  · cases hk with
    | @str data hdr hh =>
      obtain ⟨msg', r', hf, hb⟩ := decodeField_broken hs data msg
      rw [append_assoc] at h
      rw [decodeFields_key (tryReadStr_ok hh h) (h.slice rfl), hf]
      exact if_pos hb.error
    | _ => simp [kind] at hstr
  · obtain ⟨r', hsk, hb⟩ := skip_stuck hs
    rw [decodeFields_skip ((tryRead_other_kind hk h).2.1 hstr) (skip_complete hk hd he h) hsk]
    exact decodeFields_error n msg _ hb.error

theorem decodeFields_total : ∀ (n : Nat) (msg : WireMessage) (r : Reader), r.error = false →
    r.pos ≤ r.len → r.rest.length < d + 1 →
      (∃ kvs e tl, r.rest = e ++ tl ∧ kvs.length = n ∧ EncodesEntries kvs e) ∨
        decodeFields .ok (d + 1) n msg r = .ok none
  | 0, _, r, _, _, _ => .inl ⟨[], [], r.rest, rfl, rfl, .nil⟩
  | n + 1, msg, r, he, hp, hd => by
    rcases value_or_stuck _ he hp hd with ⟨k, ek, tk, hrk, hk⟩ | hs
    · have h := (hrk ▸ At.of_le hp : r.At (ek ++ tk))
      rw [hrk, length_append] at hd
      have he' : (r.advance ek.length).error = false := by simpa using he
      rcases value_or_stuck (d + 1) he' h.advance.le (by rw [h.advance.eq]; omega) with
        ⟨v, ev, tv, hrv, hv⟩ | hs
      · rw [h.advance.eq] at hrv
        rw [hrv] at h
        rw [hrv, length_append] at hd
        have h2 : (r.advance (ek ++ ev).length).At tv := by
          rw [← append_assoc] at h
          exact h.advance
        rw [decodeFields_entry hk hv he (by omega) h]
        refine (decodeFields_total n _ _ (by simpa using he) h2.le
          (by rw [h2.eq]; omega)).imp_left ?_
        rintro ⟨kvs, es, tl, hr, hn, hkvs⟩
        rw [h2.eq] at hr
        exact ⟨(k, v) :: kvs, ek ++ (ev ++ es), tl, by rw [h.eq, hr]; simp, by simp [hn],
          .cons hk hv hkvs⟩
      · exact .inr (decodeFields_noValue hk he (by omega) h hs n msg)
    · exact .inr (decodeFields_stuck (decodeFields_error n) hs msg)

end

/-! ## The message -/

section
variable {p : Payload} {depth : Nat}

theorem readerInit_at (p : Payload) : (mpackReaderInit p).At p.bytes := ⟨Nat.zero_le _, rfl⟩

theorem decodeDepth_map {kvs : List (Value × Value)} {e tl : Bytes} (hd : p.bytes.length < depth)
    (hp : p.bytes = e ++ tl) (hm : Encodes (.map kvs) e) :
    decodeDepth .ok depth p = .ok (some (messageOf kvs)) := by
  have h := readerInit_at p
  rw [hp, length_append] at hd
  cases hm with
  | @map _ hdr e hh hkvs =>
    rw [hp, append_assoc] at h
    have hx : mpackTryReadMapHeader _ = _ := tryReadCount_ok mapTags hh h
    rw [length_append] at hd
    rw [decodeDepth, hx, messageOf_eq]
    exact decodeFields_complete hkvs {} (by omega) rfl h.advance

theorem decodeDepth_notMap (hd : p.bytes.length < depth)
    (hn : ¬ ∃ kvs e tl, p.bytes = e ++ tl ∧ Encodes (.map kvs) e) :
    decodeDepth .ok depth p = .ok none := by
  obtain ⟨depth, rfl⟩ : ∃ d', depth = d' + 1 := ⟨depth - 1, by omega⟩
  have h := readerInit_at p
  rcases end_or_at (mpackReaderInit p) with hend | ⟨t, tl, ht⟩
  · have hx : mpackTryReadMapHeader (mpackReaderInit p) = .ok (none, (mpackReaderInit p).fail) := by
      rw [mpackTryReadMapHeader, tryReadCountHeader, peek_nil hend]
      rfl
    rw [decodeDepth, hx]
    rfl
  · have hb : p.bytes = t :: tl := h.eq.symm.trans ht.eq
    rcases tryReadCount_cases mapTags ht with ⟨n, hdr, tl', heq, hh⟩ | ⟨hx, -⟩ | ⟨n, r', hx, hbr⟩
    · rw [hb, heq, length_append] at hd
      rw [heq] at ht
      have hx : mpackTryReadMapHeader _ = _ := tryReadCount_ok mapTags hh ht
      rw [decodeDepth, hx]
      refine (decodeFields_total n {} _ rfl ht.advance.le
        (by rw [ht.advance.eq]; omega)).resolve_left
        ?_
      rintro ⟨kvs, e, tl2, hr, rfl, hkvs⟩
      rw [ht.advance.eq] at hr
      exact hn ⟨kvs, hdr ++ e, tl2, by rw [hb, heq, hr, append_assoc], .map hh hkvs⟩
    · have hx : mpackTryReadMapHeader _ = _ := hx
      rw [decodeDepth, hx]
      rfl
    · have hx : mpackTryReadMapHeader _ = _ := hx
      rw [decodeDepth, hx]
      exact decodeFields_error n {} _ hbr.error

end

/-- **The decoder accepts exactly its grammar**: it returns 0 when a prefix of the payload is a
well-formed map, with the message of that map, and -1 otherwise. -/
theorem callwireCodecDecode_iff (p : Payload) :
    (∀ msg, callwireCodecDecode .ok p = .ok (some msg) ↔
      ∃ kvs e tl, p.bytes = e ++ tl ∧ Encodes (.map kvs) e ∧ msg = messageOf kvs) ∧
    (callwireCodecDecode .ok p = .ok none ↔
      ¬ ∃ kvs e tl, p.bytes = e ++ tl ∧ Encodes (.map kvs) e) := by
  have hd : p.bytes.length < p.bytes.length + 1 := Nat.lt_succ_self _
  by_cases h : ∃ kvs e tl, p.bytes = e ++ tl ∧ Encodes (.map kvs) e
  · obtain ⟨kvs, e, tl, hp, hm⟩ := h
    have hx : callwireCodecDecode .ok p = _ := decodeDepth_map hd hp hm
    refine ⟨fun msg => ⟨fun hmsg => ?_, ?_⟩, fun hn => ?_, fun hn => absurd ⟨kvs, e, tl, hp, hm⟩ hn⟩
    · rw [hx, Except.ok.injEq, some.injEq] at hmsg
      exact ⟨kvs, e, tl, hp, hm, hmsg.symm⟩
    · rintro ⟨kvs', e', tl', hp', hm', rfl⟩
      exact decodeDepth_map hd hp' hm'
    · rw [hx] at hn
      cases hn
  · have hx : callwireCodecDecode .ok p = _ := decodeDepth_notMap hd h
    refine ⟨fun msg => ⟨fun hmsg => ?_, fun ⟨kvs, e, tl, hp, hm, _⟩ =>
      absurd ⟨kvs, e, tl, hp, hm⟩ h⟩,
      fun _ => h, fun _ => hx⟩
    rw [hx] at hmsg
    cases hmsg

/-- **The decoder is safe and terminates**: on any recursion depth above the payload's length it
returns the same result, with no access outside the payload and no store through `NULL`. -/
theorem decodeDepth_safe (p : Payload) :
    ∃ o, callwireCodecDecode .ok p = .ok o ∧
      ∀ depth, p.bytes.length < depth → decodeDepth .ok depth p = .ok o := by
  by_cases h : ∃ kvs e tl, p.bytes = e ++ tl ∧ Encodes (.map kvs) e
  · obtain ⟨kvs, e, tl, hp, hm⟩ := h
    exact ⟨_, decodeDepth_map (Nat.lt_succ_self _) hp hm, fun depth hd => decodeDepth_map hd hp hm⟩
  · exact ⟨none, decodeDepth_notMap (Nat.lt_succ_self _) h, fun depth hd => decodeDepth_notMap hd h⟩

end Callwire.C
