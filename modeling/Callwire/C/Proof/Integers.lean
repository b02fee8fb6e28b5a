import Callwire.C.Proof.Replies

/-!
# Integers through the C core

A message that is decoded and encoded again denotes the numbers that `datum` gives for what was
decoded. These are the numbers of the message (`datum_value`) where all of them are below `2 ^ 63`
(`Datum.Fits`), and only there, since what is written always fits (`datum_fits`); a larger one comes
back negative (`large_id_negated`). Bytes denote one datum only (`Denotes.unique`), because the
decoder reads them in one way.
-/

namespace Callwire.C

open Lib List Value

/-! ## Numbers that come back -/

mutual
/-- Every integer is below `2 ^ 63`, and not below `-2 ^ 63`. -/
def Datum.Fits : Datum → Prop
  | .int z => -2 ^ 63 ≤ z ∧ z < 2 ^ 63
  | .array ds => Datum.FitAll ds
  | .map kvs => Datum.FitEntries kvs
  | _ => True
def Datum.FitAll : List Datum → Prop
  | [] => True
  | d :: ds => d.Fits ∧ Datum.FitAll ds
def Datum.FitEntries : List (Datum × Datum) → Prop
  | [] => True
  | (k, d) :: kvs => k.Fits ∧ d.Fits ∧ Datum.FitEntries kvs
end

mutual
/-- **Numbers below `2 ^ 63` come back.** -/
theorem datum_value : ∀ d : Datum, d.Fits → d.value.datum = d
  | .null, _ => rfl
  | .bool b, _ => by cases b <;> rfl
  | .int z, h => by
    rw [Datum.Fits] at h
    rw [Datum.value, datum, BitVec.toInt_ofInt, Int.bmod_eq_of_le (by omega) (by omega)]
  | .float64 x, _ => rfl
  | .string s, _ => rfl
  | .binary s, _ => rfl
  | .array ds, h => by
    rw [Datum.Fits] at h
    rw [Datum.value, datum, data_values ds h]
  | .map kvs, h => by
    rw [Datum.Fits] at h
    rw [Datum.value, datum, dataEntries_valueEntries kvs h]
theorem data_values : ∀ ds : List Datum, Datum.FitAll ds → data (Datum.values ds) = ds
  | [], _ => rfl
  | d :: ds, h => by
    rw [Datum.FitAll] at h
    rw [Datum.values, data, datum_value d h.1, data_values ds h.2]
theorem dataEntries_valueEntries : ∀ kvs : List (Datum × Datum), Datum.FitEntries kvs →
    dataEntries (Datum.valueEntries kvs) = kvs
  | [], _ => rfl
  | (k, d) :: kvs, h => by
    rw [Datum.FitEntries] at h
    rw [Datum.valueEntries, dataEntries, datum_value k h.1, datum_value d h.2.1,
      dataEntries_valueEntries kvs h.2.2]
end

mutual
/-- **What is written fits.** -/
theorem datum_fits : ∀ v : Value, v.datum.Fits
  | .null | .bool _ | .float64 _ | .string _ | .binary _ => trivial
  | .int64 x => by
    rw [datum, Datum.Fits]
    exact ⟨BitVec.le_toInt x, BitVec.toInt_lt⟩
  | .array vs => by
    rw [datum, Datum.Fits]
    exact data_fit vs
  | .map kvs => by
    rw [datum, Datum.Fits]
    exact dataEntries_fit kvs
theorem data_fit : ∀ vs : List Value, Datum.FitAll (data vs)
  | [] => trivial
  | v :: vs => by
    rw [data, Datum.FitAll]
    exact ⟨datum_fits v, data_fit vs⟩
theorem dataEntries_fit : ∀ kvs : List (Value × Value), Datum.FitEntries (dataEntries kvs)
  | [] => trivial
  | (k, v) :: kvs => by
    rw [dataEntries, Datum.FitEntries]
    exact ⟨datum_fits k, datum_fits v, dataEntries_fit kvs⟩
end

theorem datum_value_iff (d : Datum) : d.value.datum = d ↔ d.Fits :=
  ⟨fun h => h ▸ datum_fits d.value, datum_value d⟩

theorem data_values_iff (ds : List Datum) : data (Datum.values ds) = ds ↔ Datum.FitAll ds :=
  ⟨fun h => h ▸ data_fit (Datum.values ds), data_values ds⟩

/-! ## Bytes denote one datum -/

theorem Encodes.unique {v v' : Value} {e e' tl tl' : Bytes} (h : Encodes v e) (h' : Encodes v' e')
    (heq : e ++ tl = e' ++ tl') (hlen : (e ++ tl).length < 2 ^ 63) :
    v = v' ∧ e = e' ∧ tl = tl' := by
  have hat : (mpackReaderInit (.mem (e ++ tl) hlen)).At (e ++ tl) := readerInit_at _
  have hat' : (mpackReaderInit (.mem (e ++ tl) hlen)).At (e' ++ tl') := heq ▸ hat
  have h₁ := decodeValue_complete h (Nat.le_add_right _ e'.length) rfl hat
  have h₂ := decodeValue_complete h' (Nat.le_add_left _ e.length) rfl hat'
  obtain ⟨hv, hr⟩ := Prod.mk.inj (Except.ok.inj (h₁.symm.trans h₂))
  have hpos := congrArg Reader.pos hr
  rw [hat.pos_advance (by simp), hat'.pos_advance (by simp), Nat.add_left_cancel_iff] at hpos
  exact ⟨Option.some.inj hv, append_inj heq hpos⟩

theorem uint_tag_ne {t : Byte} {k : Nat} (h : (t, k) ∈ uintTags) :
    0xCC ≤ t.toNat ∧ t.toNat ≤ 0xCF := by
  simp only [uintTags, mem_cons, Prod.mk.injEq, not_mem_nil, or_false] at h
  rcases h with ⟨rfl, -⟩ | ⟨rfl, -⟩ | ⟨rfl, -⟩ | ⟨rfl, -⟩ <;> decide

theorem int_tag_ne {t : Byte} {k : Nat} (h : (t, k) ∈ intTags) :
    0xD0 ≤ t.toNat ∧ t.toNat ≤ 0xD3 := by
  simp only [intTags, mem_cons, Prod.mk.injEq, not_mem_nil, or_false] at h
  rcases h with ⟨rfl, -⟩ | ⟨rfl, -⟩ | ⟨rfl, -⟩ | ⟨rfl, -⟩ <;> decide

theorem IntDenotes.unique {z z' : Int} {e : Bytes} (h : IntDenotes z e) (h' : IntDenotes z' e) :
    z = z' := by
  cases h with
  | posFix h =>
    cases h' with
    | posFix => rfl
    | negFix h' => omega
    | unsigned h' => have := uint_tag_ne h'; omega
    | signed h' => have := int_tag_ne h'; omega
  | negFix h =>
    cases h' with
    | posFix h' => omega
    | negFix => rfl
    | unsigned h' => have := uint_tag_ne h'; omega
    | signed h' => have := int_tag_ne h'; omega
  | unsigned h =>
    have := uint_tag_ne h
    cases h' with
    | posFix | negFix => omega
    | unsigned => rfl
    | signed h' => have := int_tag_ne h'; omega
  | signed h =>
    have := int_tag_ne h
    cases h' with
    | posFix | negFix => omega
    | unsigned h' => have := uint_tag_ne h'; omega
    | signed => rfl

theorem countHeader_unique {fix tag16 tag32 : Byte} {n n' : Nat} {h h' tl tl' : Bytes}
    (ht : CountTags fix tag16 tag32) (hh : CountHeader fix tag16 tag32 n h)
    (hh' : CountHeader fix tag16 tag32 n' h') (heq : h ++ tl = h' ++ tl')
    (hlen : (h ++ tl).length < 2 ^ 63) : n = n' ∧ tl = tl' := by
  have hat : (mpackReaderInit (.mem (h ++ tl) hlen)).At (h ++ tl) := readerInit_at _
  have hat' : (mpackReaderInit (.mem (h ++ tl) hlen)).At (h' ++ tl') := heq ▸ hat
  have hres := (tryReadCount_ok ht hh hat).symm.trans (tryReadCount_ok ht hh' hat')
  obtain ⟨hn, hr⟩ := Prod.mk.inj (Except.ok.inj hres)
  have hpos := congrArg Reader.pos hr
  rw [hat.pos_advance (by simp), hat'.pos_advance (by simp), Nat.add_left_cancel_iff] at hpos
  exact ⟨Option.some.inj hn, (append_inj heq hpos).2⟩

theorem value_inj_of_leaf {d d' : Datum} (h : d.value = d'.value)
    (hd : (∀ z, d ≠ .int z) ∧ (∀ ds, d ≠ .array ds) ∧ ∀ kvs, d ≠ .map kvs) : d = d' := by
  cases d <;> cases d' <;> simp_all [Datum.value]
  -- the two truth values
  rename_i b b'
  revert h
  cases b <;> cases b' <;> decide

mutual
/-- **Bytes denote one datum only.** -/
theorem Denotes.unique : ∀ {d d' : Datum} {e e' : Bytes}, Denotes d e → Denotes d' e' → e = e' →
    e.length < 2 ^ 63 → d = d'
  | d, d', e, e', h, h', heq, hlen => by
    have hv : d.value = d'.value :=
      (h.encodes.unique h'.encodes (congrArg (· ++ []) heq) (by simpa using hlen)).1
    cases h with
    | int h =>
      obtain ⟨z', rfl⟩ : ∃ z', d' = .int z' := by cases d' <;> simp [Datum.value] at hv ⊢
      cases h' with
      | int h' => rw [h.unique (heq ▸ h')]
    | array hh he =>
      obtain ⟨ds', rfl⟩ : ∃ ds', d' = .array ds' := by cases d' <;> simp [Datum.value] at hv ⊢
      cases h' with
      | array hh' he' =>
        obtain ⟨hn, htl⟩ := countHeader_unique arrayTags hh hh' heq hlen
        rw [length_append] at hlen
        rw [he.unique he' htl hn (by omega)]
    | map hh he =>
      obtain ⟨kvs', rfl⟩ : ∃ kvs', d' = .map kvs' := by cases d' <;> simp [Datum.value] at hv ⊢
      cases h' with
      | map hh' he' =>
        obtain ⟨hn, htl⟩ := countHeader_unique mapTags hh hh' heq hlen
        rw [length_append] at hlen
        rw [he.unique he' htl hn (by omega)]
    | _ => exact value_inj_of_leaf hv (by simp)
theorem DenotesAll.unique : ∀ {ds ds' : List Datum} {e e' : Bytes}, DenotesAll ds e →
    DenotesAll ds' e' → e = e' → ds.length = ds'.length → e.length < 2 ^ 63 → ds = ds'
  | _, _, _, _, .nil, h', _, hn, _ => (length_eq_zero_iff.1 hn.symm).symm
  | _, _, _, _, .cons h hs, h', heq, hn, hlen => by
    cases h' with
    | nil => cases hn
    | cons h' hs' =>
      obtain ⟨-, he, hes⟩ := h.encodes.unique h'.encodes heq hlen
      rw [length_append] at hlen
      rw [h.unique h' he (by omega), hs.unique hs' hes (Nat.succ.inj hn) (by omega)]
theorem DenotesEntries.unique : ∀ {kvs kvs' : List (Datum × Datum)} {e e' : Bytes},
    DenotesEntries kvs e → DenotesEntries kvs' e' → e = e' → kvs.length = kvs'.length →
      e.length < 2 ^ 63 → kvs = kvs'
  | _, _, _, _, .nil, h', _, hn, _ => (length_eq_zero_iff.1 hn.symm).symm
  | _, _, _, _, .cons hk hd hs, h', heq, hn, hlen => by
    cases h' with
    | nil => cases hn
    | cons hk' hd' hs' =>
      obtain ⟨-, he, htl⟩ := hk.encodes.unique hk'.encodes heq hlen
      rw [length_append] at hlen
      obtain ⟨-, hed, hes⟩ := hd.encodes.unique hd'.encodes htl (by omega)
      rw [length_append] at hlen
      rw [hk.unique hk' he (by omega), hd.unique hd' hed (by omega),
        hs.unique hs' hes (Nat.succ.inj hn) (by omega)]
end

/-! ## Fields -/

/-- What an entry gives the string key `key`. -/
def entryDatum {α : Type} (key : Bytes) (proj : Datum → Option α) (kv : Datum × Datum) : Option α :=
  match kv.1 with
  | .string s => if s = key then proj kv.2 else none
  | _ => none

/-- The last value the entries give the string key `key`, among those `proj` accepts. -/
def lastEntry {α : Type} (key : Bytes) (proj : Datum → Option α) :
    List (Datum × Datum) → Option α
  | [] => none
  | kv :: kvs => (lastEntry key proj kvs).or (entryDatum key proj kv)

def Datum.asInt : Datum → Option Int
  | .int z => some z
  | _ => none

def Datum.asArray : Datum → Option (List Datum)
  | .array ds => some ds
  | _ => none

section
variable {α β : Type} {key : Bytes}

theorem entryField_value {proj : Value → Option β} {projD : Datum → Option α} {g : α → β}
    (hproj : ∀ d : Datum, proj d.value = (projD d).map g) (k d : Datum) :
    entryField key proj (k.value, d.value) = (entryDatum key projD (k, d)).map g := by
  cases k with
  | string s =>
    simp only [entryField, entryDatum, Datum.value]
    split
    · exact hproj d
    · rfl
  | null | bool | int | float64 | binary | array | map =>
    simp only [entryField, entryDatum, Datum.value, Option.map_none]

theorem lastField_value {proj : Value → Option β} {projD : Datum → Option α} {g : α → β}
    (hproj : ∀ d : Datum, proj d.value = (projD d).map g) : ∀ kvs : List (Datum × Datum),
      lastField key proj (Datum.valueEntries kvs) = (lastEntry key projD kvs).map g
  | [] => rfl
  | (k, d) :: kvs => by
    rw [Datum.valueEntries, lastField_cons, lastEntry, lastField_value hproj kvs, Option.map_or,
      entryField_value hproj]

theorem asInt_value (d : Datum) : d.value.asInt = d.asInt.map (BitVec.ofInt 64) := by
  cases d <;> simp [Datum.value, asInt, Datum.asInt]

theorem asArray_value (d : Datum) : d.value.asArray = d.asArray.map Datum.values := by
  cases d <;> simp [Datum.value, asArray, Datum.asArray]

end

/-- `f` writes bytes that denote `d` and nothing else. -/
def WritesOnly (f : Writer → Writer) (d : Datum) : Prop :=
  ∃ bs, Emits f bs ∧ (bs.length < 2 ^ 32 → ∀ d', Denotes d' bs ↔ d' = d)

theorem WritesDatum.only {f : Writer → Writer} {d : Datum} (h : WritesDatum f d) :
    WritesOnly f d := by
  obtain ⟨bs, he, -, -, hd⟩ := h
  refine ⟨bs, he, fun hlen d' => ⟨fun h' => h'.unique (hd hlen) rfl (by omega), ?_⟩⟩
  rintro rfl
  exact hd hlen

theorem lastEntry_id (m : Outgoing) :
    lastEntry (lit "id") Datum.asInt m.data = some m.id.toInt := by
  cases m <;> rfl

/-- Every message that is encoded denotes its id as a signed number. -/
theorem Outgoing.reply_id {m : Outgoing} {malloc : Nat → Bool} {reply : Bytes}
    (h : m.encode malloc = some reply) : ∃ kvs, (∀ d, Denotes d reply ↔ d = .map kvs) ∧
      lastEntry (lit "id") Datum.asInt kvs = some m.id.toInt := by
  obtain ⟨bs, he, hd⟩ := m.writesData.only
  rw [m.encode_eq] at h
  obtain ⟨rfl, hlen⟩ := encodeWithGrowth_some he h
  exact ⟨m.data, hd (lt_of_le_of_lt hlen (by decide)), lastEntry_id m⟩

/-- **The C core preserves the integers below `2 ^ 63`, and only these.** A well-formed message is
decoded; every message that is encoded with the decoded id denotes this id, read as signed, and what
`encode_value` writes for an argument or for the result denotes its `datum`. These are the id, the
arguments and the result of the message iff no integer in them is outside `[-2 ^ 63, 2 ^ 63)`. -/
theorem integers_preserved (p : Payload) (e extra : Bytes) (kvs : List (Datum × Datum))
    (hp : p.bytes = e ++ extra) (he : Denotes (.map kvs) e) :
    ∃ msg, callwireCodecDecode .ok p = .ok (some msg) ∧
      (∀ (m : Outgoing) (malloc : Nat → Bool) (reply : Bytes), m.id = msg.id →
        m.encode malloc = some reply → ∃ kvs', (∀ d, Denotes d reply ↔ d = .map kvs') ∧
          lastEntry (lit "id") Datum.asInt kvs' = some msg.id.toInt) ∧
      (∀ v, v ∈ msg.args ∨ v = msg.result → WritesOnly (fun w => encodeValue w v) v.datum) ∧
      ((∀ z, lastEntry (lit "id") Datum.asInt kvs = some z → msg.id.toInt = z) ∧
        (∀ ds, lastEntry (lit "args") Datum.asArray kvs = some ds → data msg.args = ds) ∧
        (∀ d, lastEntry (lit "result") some kvs = some d → msg.result.datum = d) ↔
      (∀ z, lastEntry (lit "id") Datum.asInt kvs = some z → -2 ^ 63 ≤ z ∧ z < 2 ^ 63) ∧
        (∀ ds, lastEntry (lit "args") Datum.asArray kvs = some ds → Datum.FitAll ds) ∧
        (∀ d, lastEntry (lit "result") some kvs = some d → d.Fits)) := by
  have henc : Encodes (.map (Datum.valueEntries kvs)) e := by
    have := he.encodes
    rwa [Datum.value] at this
  have hsome : ∀ d : Datum, some d.value = (some d).map Datum.value := fun _ => rfl
  refine ⟨messageOf (Datum.valueEntries kvs), ?_, fun m malloc reply hm hreply => ?_,
    fun v _ => (encodeValue_denotes v).only, and_congr ?_ (and_congr ?_ ?_)⟩
  · exact ((callwireCodecDecode_iff p).1 _).2 ⟨_, e, extra, hp, henc, rfl⟩
  · rw [← hm]
    exact Outgoing.reply_id hreply
  · rw [messageOf, lastField_value asInt_value]
    refine forall_congr' fun z => forall_congr' fun hz => ?_
    have hback := datum_value_iff (.int z)
    rw [Datum.value, datum, Datum.Fits, Datum.int.injEq] at hback
    rw [hz]
    exact hback
  · rw [messageOf, lastField_value asArray_value]
    refine forall_congr' fun ds => forall_congr' fun hds => ?_
    rw [hds]
    exact data_values_iff ds
  · rw [messageOf, lastField_value hsome]
    refine forall_congr' fun d => forall_congr' fun hd => ?_
    rw [hd]
    exact datum_value_iff d

/-- A map with only an id, in nine bytes. -/
def idF (bits : Bytes) (h : ([0x81, 0xA2] ++ lit "id" ++ [0xCF] ++ bits).length < 2 ^ 63) :
    Payload :=
  .mem ([0x81, 0xA2] ++ lit "id" ++ [0xCF] ++ bits) h

theorem idF_denotes {bits : Bytes} (hbits : bits.length = 8) :
    Denotes (.map [(.string (lit "id"), .int (beVal bits))])
      ([0x81] ++ (([0xA2] ++ lit "id") ++ ((0xCF :: bits) ++ []))) := by
  refine .map (.inl ⟨by simp, rfl⟩) (.cons (.str (.inl ⟨by decide, rfl⟩)) (.int ?_) .nil)
  refine .unsigned ?_
  rw [hbits]
  decide

theorem integers_preserved_id : ∃ msg,
    callwireCodecDecode .ok
      (idF [0x7F, 0xFF, 0xFF, 0xFF, 0xFF, 0xFF, 0xFF, 0xFF] (by decide)) = .ok (some msg) ∧
      ∀ reply, callwireCodecEncodeStreamEnd (fun _ => true) msg.id = some reply →
        ∃ kvs, Denotes (.map kvs) reply ∧
          lastEntry (lit "id") Datum.asInt kvs = some (2 ^ 63 - 1) := by
  have hlast : lastEntry (lit "id") Datum.asInt [(.string (lit "id"),
      .int (beVal [0x7F, 0xFF, 0xFF, 0xFF, 0xFF, 0xFF, 0xFF, 0xFF]))] = some (2 ^ 63 - 1) := by
    decide
  have hd := @idF_denotes [0x7F, 0xFF, 0xFF, 0xFF, 0xFF, 0xFF, 0xFF, 0xFF] rfl
  obtain ⟨msg, hdecode, hreply, -, hiff⟩ := integers_preserved
    (idF [0x7F, 0xFF, 0xFF, 0xFF, 0xFF, 0xFF, 0xFF, 0xFF] (by decide)) _ [] _ rfl hd
  obtain ⟨hid, -, -⟩ := hiff.2 ⟨fun z hz => by
    cases hlast.symm.trans hz
    decide, nofun, nofun⟩
  refine ⟨msg, hdecode, fun reply h => ?_⟩
  obtain ⟨kvs, hkvs, hz⟩ := hreply (.streamEnd msg.id) _ reply rfl h
  exact ⟨kvs, (hkvs _).2 rfl, hz.trans (congrArg some (hid _ hlast))⟩

def minInt : Bytes := [0xD3, 0x80, 0, 0, 0, 0, 0, 0, 0]

/-- **A large id comes back negative**: a message with the id `2 ^ 63` is accepted, and a stream end
with the decoded id carries the nine bytes of `-2 ^ 63`. -/
theorem large_id_negated :
    Denotes (.map [(.string (lit "id"), .int (2 ^ 63))])
        (idF [0x80, 0, 0, 0, 0, 0, 0, 0] (by decide)).bytes ∧
      callwireCodecDecode .ok (idF [0x80, 0, 0, 0, 0, 0, 0, 0] (by decide)) =
        .ok (some { id := 0x8000000000000000 }) ∧
      callwireCodecEncodeStreamEnd (fun _ => true) 0x8000000000000000 =
        some ([0x82, 0xA2] ++ lit "id" ++ minInt ++ [0xA4] ++ lit "type" ++ [0xAA] ++
          lit "stream_end") ∧
      ∀ z, IntDenotes z minInt → z = -2 ^ 63 := by
  refine ⟨?_, rfl, ?_, ?_⟩
  · have h := @idF_denotes [0x80, 0, 0, 0, 0, 0, 0, 0] rfl
    have hval : ((beVal [0x80, 0, 0, 0, 0, 0, 0, 0] : Nat) : Int) = 2 ^ 63 := by decide
    rwa [hval] at h
  · have ho : (encodeIdOnlyFn 0x8000000000000000 (lit "stream_end")
        (mpackWriterInit 4096)).overflow = false := by decide +kernel
    have hbuf : (encodeIdOnlyFn 0x8000000000000000 (lit "stream_end") (mpackWriterInit 4096)).buf =
        [0x82, 0xA2] ++ lit "id" ++ minInt ++ [0xA4] ++ lit "type" ++ [0xAA] ++
          lit "stream_end" := by decide +kernel
    rw [callwireCodecEncodeStreamEnd, encodeWithGrowth, growthLoop, if_pos rfl]
    simp only [callwireBufInitialSize, ho, Bool.false_eq_true, ↓reduceIte, hbuf]
  · intro z hz
    rcases hz with - | - | ⟨h⟩ | ⟨h⟩
    · exact absurd h (by decide)
    · decide

end Callwire.C
