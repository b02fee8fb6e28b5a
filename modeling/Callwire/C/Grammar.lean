import Callwire.C.Value

/-!
# The msgpack grammar of the C core

`Encodes v e`: the bytes `e` are a well-formed msgpack value over the tags `mpack_stub.h` supports,
and their meaning is `v`. The grammar is the format's own, independent of reader and writer: every
size class of a length is allowed for every length it can hold, integers are reduced to 64 bits,
a float32 is widened. `messageOf kvs` is the message a map of entries `kvs` stands for: each field
is the last entry with the field's name and a value of the field's kind.
-/

namespace Callwire.C

open Lib List

/-! ## Scalars and headers -/

/-- The unsigned integer tags with the bytes that follow. -/
def uintTags : List (Byte × Nat) := [(0xCC, 1), (0xCD, 2), (0xCE, 4), (0xCF, 8)]

/-- The signed integer tags with the bytes that follow. -/
def intTags : List (Byte × Nat) := [(0xD0, 1), (0xD1, 2), (0xD2, 4), (0xD3, 8)]

/-- `e` is a msgpack integer with the 64 bits `x`. -/
inductive IntEnc : BitVec 64 → Bytes → Prop
  | posFix {t : Byte} (h : t.toNat ≤ 0x7F) : IntEnc (t.setWidth 64) [t]
  | negFix {t : Byte} (h : 0xE0 ≤ t.toNat) : IntEnc (t.signExtend 64) [t]
  | unsigned {t : Byte} {bs : Bytes} (h : (t, bs.length) ∈ uintTags) :
      IntEnc (BitVec.ofNat 64 (beVal bs)) (t :: bs)
  | signed {t : Byte} {bs : Bytes} (h : (t, bs.length) ∈ intTags) :
      IntEnc ((BitVec.ofNat (8 * bs.length) (beVal bs)).signExtend 64) (t :: bs)

/-- `(double)f` on bit patterns: the exponent is rebiased, a subnormal is normalised, an infinity
or NaN keeps its class (a NaN its payload, made quiet). -/
def floatToDouble (f : BitVec 32) : BitVec 64 :=
  let sign := (f >>> 31).toNat
  let exp := f.toNat / 2 ^ 23 % 2 ^ 8
  let frac := f.toNat % 2 ^ 23
  let body :=
    if exp = 0xFF then
      0x7FF * 2 ^ 52 + (if frac = 0 then 0 else frac * 2 ^ 29 % 2 ^ 51 + 2 ^ 51)
    else if exp = 0 then
      -- `frac` is `1.x * 2 ^ k`: the leading one goes into the exponent
      if frac = 0 then 0
      else (frac.log2 + 874) * 2 ^ 52 + (frac - 2 ^ frac.log2) * 2 ^ (52 - frac.log2)
    else (exp + 896) * 2 ^ 52 + frac * 2 ^ 29
  BitVec.ofNat 64 (sign * 2 ^ 63 + body)

/-- `e` is a float64 with bits `x`, or a float32 whose double has bits `x`. -/
inductive FloatEnc : BitVec 64 → Bytes → Prop
  | float64 {bs : Bytes} (h : bs.length = 8) : FloatEnc (BitVec.ofNat 64 (beVal bs)) (0xCB :: bs)
  | float32 {bs : Bytes} (h : bs.length = 4) :
      FloatEnc (floatToDouble (BitVec.ofNat 32 (beVal bs))) (0xCA :: bs)

/-- `e` is a tag followed by `n` in as many big-endian bytes as the tag stands for. -/
inductive LenField (tags : List (Byte × Nat)) : Nat → Bytes → Prop
  | mk {t : Byte} {bs : Bytes} (h : (t, bs.length) ∈ tags) : LenField tags (beVal bs) (t :: bs)

/-- `e` is a tag whose low bits, from `fix` on, hold `n`. -/
inductive FixField (fix width : Nat) : Nat → Bytes → Prop
  | mk {t : Byte} {n : Nat} (hn : n < width) (h : t.toNat = fix + n) : FixField fix width n [t]

def strTags : List (Byte × Nat) := [(0xD9, 1), (0xDA, 2), (0xDB, 4)]
def binTags : List (Byte × Nat) := [(0xC4, 1), (0xC5, 2), (0xC6, 4)]

/-- The header of a string of `n` bytes. -/
def StrHeader (n : Nat) (h : Bytes) : Prop := FixField 0xA0 32 n h ∨ LenField strTags n h

/-- The header of `n` binary bytes. -/
def BinHeader (n : Nat) (h : Bytes) : Prop := LenField binTags n h

/-- The header of an array or map of `n` elements. -/
def CountHeader (fix tag16 tag32 : Byte) (n : Nat) (h : Bytes) : Prop :=
  FixField fix.toNat 16 n h ∨ LenField [(tag16, 2), (tag32, 4)] n h

/-! ## Values -/

mutual
/-- The bytes are a well-formed value with meaning `v`. -/
inductive Encodes : Value → Bytes → Prop
  | null : Encodes .null [0xC0]
  | false : Encodes (.bool 0) [0xC2]
  | true : Encodes (.bool 1) [0xC3]
  | int {x : BitVec 64} {e : Bytes} (h : IntEnc x e) : Encodes (.int64 x) e
  | float {x : BitVec 64} {e : Bytes} (h : FloatEnc x e) : Encodes (.float64 x) e
  | str {data h : Bytes} (hh : StrHeader data.length h) : Encodes (.string data) (h ++ data)
  | bin {data h : Bytes} (hh : BinHeader data.length h) : Encodes (.binary data) (h ++ data)
  | array {vs : List Value} {h e : Bytes} (hh : CountHeader 0x90 0xDC 0xDD vs.length h)
      (he : EncodesAll vs e) : Encodes (.array vs) (h ++ e)
  | map {kvs : List (Value × Value)} {h e : Bytes} (hh : CountHeader 0x80 0xDE 0xDF kvs.length h)
      (he : EncodesEntries kvs e) : Encodes (.map kvs) (h ++ e)
inductive EncodesAll : List Value → Bytes → Prop
  | nil : EncodesAll [] []
  | cons {v : Value} {vs : List Value} {e es : Bytes} (h : Encodes v e) (hs : EncodesAll vs es) :
      EncodesAll (v :: vs) (e ++ es)
inductive EncodesEntries : List (Value × Value) → Bytes → Prop
  | nil : EncodesEntries [] []
  | cons {k v : Value} {kvs : List (Value × Value)} {ek ev es : Bytes} (hk : Encodes k ek)
      (hv : Encodes v ev) (hs : EncodesEntries kvs es) :
      EncodesEntries ((k, v) :: kvs) (ek ++ (ev ++ es))
end

/-! ## Messages -/

/-- The last value the entries give the string key `key`, among those `proj` accepts. -/
def lastField {α : Type} (key : Bytes) (proj : Value → Option α) :
    List (Value × Value) → Option α
  | [] => none
  | (k, v) :: kvs =>
    (lastField key proj kvs).or
      (match k with
       | .string s => if s = key then proj v else none
       | _ => none)

namespace Value

def asInt : Value → Option (BitVec 64)
  | .int64 x => some x
  | _ => none

def asStr : Value → Option Bytes
  | .string s => some s
  | _ => none

def asArray : Value → Option (List Value)
  | .array vs => some vs
  | _ => none

def asBool : Value → Option (BitVec 32)
  | .bool b => some b
  | _ => none

end Value

/-- The message of a map with entries `kvs`. -/
def messageOf (kvs : List (Value × Value)) : WireMessage where
  id := (lastField (lit "id") Value.asInt kvs).getD 0
  type := lastField (lit "type") Value.asStr kvs
  func := lastField (lit "func") Value.asStr kvs
  args := (lastField (lit "args") Value.asArray kvs).getD []
  stream := (lastField (lit "stream") Value.asBool kvs).getD 0
  result := (lastField (lit "result") some kvs).getD .null
  errorType := lastField (lit "error_type") Value.asStr kvs
  message := lastField (lit "message") Value.asStr kvs

/-! ## Tags -/

/-- The kind of value a tag starts. -/
inductive Kind where
  | null | bool | int | float | str | bin | array | map | unsupported
  deriving DecidableEq, Repr

def tagKind (t : Byte) : Kind :=
  let n := t.toNat
  if n ≤ 0x7F ∨ 0xE0 ≤ n ∨ (0xCC ≤ n ∧ n ≤ 0xD3) then .int
  else if n ≤ 0x8F ∨ n = 0xDE ∨ n = 0xDF then .map
  else if n ≤ 0x9F ∨ n = 0xDC ∨ n = 0xDD then .array
  else if n ≤ 0xBF ∨ (0xD9 ≤ n ∧ n ≤ 0xDB) then .str
  else if n = 0xC0 then .null
  else if n = 0xC2 ∨ n = 0xC3 then .bool
  else if 0xC4 ≤ n ∧ n ≤ 0xC6 then .bin
  else if n = 0xCA ∨ n = 0xCB then .float
  else .unsupported

def Value.kind : Value → Kind
  | .null => .null
  | .bool _ => .bool
  | .int64 _ => .int
  | .float64 _ => .float
  | .string _ => .str
  | .binary _ => .bin
  | .array _ => .array
  | .map _ => .map

theorem IntEnc.tag {x : BitVec 64} {e : Bytes} (h : IntEnc x e) :
    ∃ t tl, e = t :: tl ∧ tagKind t = .int := by
  cases h with
  | @posFix t h => exact ⟨t, [], rfl, by simp [tagKind, h]⟩
  | @negFix t h => exact ⟨t, [], rfl, by simp [tagKind, h]⟩
  | @unsigned t bs h =>
    refine ⟨t, bs, rfl, ?_⟩
    simp only [uintTags, mem_cons, Prod.mk.injEq, not_mem_nil, or_false] at h
    rcases h with ⟨rfl, -⟩ | ⟨rfl, -⟩ | ⟨rfl, -⟩ | ⟨rfl, -⟩ <;> rfl
  | @signed t bs h =>
    refine ⟨t, bs, rfl, ?_⟩
    simp only [intTags, mem_cons, Prod.mk.injEq, not_mem_nil, or_false] at h
    rcases h with ⟨rfl, -⟩ | ⟨rfl, -⟩ | ⟨rfl, -⟩ | ⟨rfl, -⟩ <;> rfl

theorem StrHeader.tag {n : Nat} {h : Bytes} (hh : StrHeader n h) :
    ∃ t tl, h = t :: tl ∧ tagKind t = .str := by
  rcases hh with ⟨@⟨t, _, hn, ht⟩⟩ | @⟨t, bs, ht⟩
  · refine ⟨t, [], rfl, ?_⟩
    simp only [tagKind]
    rw [if_neg (by omega), if_neg (by omega), if_neg (by omega), if_pos (by omega)]
  · refine ⟨t, bs, rfl, ?_⟩
    simp only [strTags, mem_cons, Prod.mk.injEq, not_mem_nil, or_false] at ht
    rcases ht with ⟨rfl, -⟩ | ⟨rfl, -⟩ | ⟨rfl, -⟩ <;> rfl

theorem BinHeader.tag {n : Nat} {h : Bytes} (hh : BinHeader n h) :
    ∃ t tl, h = t :: tl ∧ tagKind t = .bin := by
  obtain @⟨t, bs, ht⟩ := hh
  refine ⟨t, bs, rfl, ?_⟩
  simp only [binTags, mem_cons, Prod.mk.injEq, not_mem_nil, or_false] at ht
  rcases ht with ⟨rfl, -⟩ | ⟨rfl, -⟩ | ⟨rfl, -⟩ <;> rfl

theorem CountHeader.tag {fix tag16 tag32 : Byte} {n : Nat} {h : Bytes} {k : Kind}
    (hh : CountHeader fix tag16 tag32 n h)
    (hfix : ∀ t : Byte, fix.toNat ≤ t.toNat → t.toNat < fix.toNat + 16 → tagKind t = k)
    (h16 : tagKind tag16 = k) (h32 : tagKind tag32 = k) : ∃ t tl, h = t :: tl ∧ tagKind t = k := by
  rcases hh with ⟨@⟨t, _, hn, ht⟩⟩ | @⟨t, bs, ht⟩
  · exact ⟨t, [], rfl, hfix t (by omega) (by omega)⟩
  · refine ⟨t, bs, rfl, ?_⟩
    simp only [mem_cons, Prod.mk.injEq, not_mem_nil, or_false] at ht
    rcases ht with ⟨rfl, -⟩ | ⟨rfl, -⟩
    · exact h16
    · exact h32

theorem arrayHeader_tag {n : Nat} {h : Bytes} (hh : CountHeader 0x90 0xDC 0xDD n h) :
    ∃ t tl, h = t :: tl ∧ tagKind t = .array := hh.tag (by decide) rfl rfl

theorem mapHeader_tag {n : Nat} {h : Bytes} (hh : CountHeader 0x80 0xDE 0xDF n h) :
    ∃ t tl, h = t :: tl ∧ tagKind t = .map := hh.tag (by decide) rfl rfl

/-- **The first byte of a value is a tag of the value's kind.** -/
theorem Encodes.tag {v : Value} {e : Bytes} (h : Encodes v e) :
    ∃ t tl, e = t :: tl ∧ tagKind t = v.kind := by
  cases h with
  | null => exact ⟨_, _, rfl, rfl⟩
  | false => exact ⟨_, _, rfl, rfl⟩
  | true => exact ⟨_, _, rfl, rfl⟩
  | int h => exact h.tag
  | float h => cases h <;> exact ⟨_, _, rfl, rfl⟩
  | str hh => obtain ⟨t, tl, rfl, ht⟩ := hh.tag; exact ⟨t, _, rfl, ht⟩
  | bin hh => obtain ⟨t, tl, rfl, ht⟩ := hh.tag; exact ⟨t, _, rfl, ht⟩
  | array hh he => obtain ⟨t, tl, rfl, ht⟩ := arrayHeader_tag hh; exact ⟨t, _, rfl, ht⟩
  | map hh he => obtain ⟨t, tl, rfl, ht⟩ := mapHeader_tag hh; exact ⟨t, _, rfl, ht⟩

theorem Encodes.length_pos {v : Value} {e : Bytes} (h : Encodes v e) : 0 < e.length := by
  obtain ⟨t, tl, rfl, -⟩ := h.tag
  simp

end Callwire.C
