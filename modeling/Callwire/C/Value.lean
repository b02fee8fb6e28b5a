import Callwire.Lib.Bytes
import Mathlib.Data.List.TakeWhile

/-!
# The values and messages of the C core (`callwire.h`)

`Value` is `callwire_value_t` and `WireMessage` is `callwire_wire_message_t`. An `int64_t` and a
`uint64_t` are the same 64 bits, a `double` is its bit pattern, an `int` its 32 bits. A pointer
with a count is a list; a `const char *` that owns a copied string is an `Option Bytes` (`none` is
`NULL`), the bytes in front of the terminator the copy appends.
-/

namespace Callwire.C

open Lib

/-- `callwire_value_t`. -/
inductive Value where
  | null
  | bool (isTrue : BitVec 32)
  | int64 (intVal : BitVec 64)
  | float64 (floatVal : BitVec 64)
  | string (data : Bytes)
  | binary (data : Bytes)
  | array (items : List Value)
  | map (entries : List (Value × Value))
  deriving Repr, Inhabited

/-- A `const char *` argument: a NUL-terminated string, given by the bytes before the NUL. -/
structure CString where
  bytes : Bytes
  noNul : 0#8 ∉ bytes

instance : DecidableEq CString := fun s t =>
  decidable_of_iff (s.bytes = t.bytes) ⟨fun h => by cases s; cases t; simp_all, fun h => by rw [h]⟩

/-- The bytes of an ASCII literal. -/
def lit (s : String) : Bytes := s.toList.map fun c => BitVec.ofNat 8 c.toNat

/-- What `strcmp` sees of a copied string: the bytes before the first NUL. -/
def cstr (s : Bytes) : Bytes := s.takeWhile (· != 0#8)

/-- `callwire_wire_message_t`. The `type`, `func`, `error_type` and `message` copies keep the bytes
of the payload's string, NUL bytes included. -/
structure WireMessage where
  id : BitVec 64 := 0
  type : Option Bytes := none
  func : Option Bytes := none
  args : List Value := []
  stream : BitVec 32 := 0
  result : Value := .null
  errorType : Option Bytes := none
  message : Option Bytes := none

/-! ## Truth values

`is_true` is any `int`; the wire has one bit for it. -/

mutual
/-- `v` with every `is_true` read as 0 or 1. -/
def Value.normal : Value → Value
  | .bool b => .bool (if b = 0 then 0 else 1)
  | .array vs => .array (normalAll vs)
  | .map kvs => .map (normalEntries kvs)
  | .null => .null
  | .int64 x => .int64 x
  | .float64 x => .float64 x
  | .string s => .string s
  | .binary s => .binary s
def normalAll : List Value → List Value
  | [] => []
  | v :: vs => v.normal :: normalAll vs
def normalEntries : List (Value × Value) → List (Value × Value)
  | [] => []
  | (k, v) :: kvs => (k.normal, v.normal) :: normalEntries kvs
end

end Callwire.C
