import Callwire.C.Value

/-!
# Copies of C values (`callwire.hpp`)

`Value::deepCopy` copies a `callwire_value_t` of the C core. The entries of a map go through a
`std::map<std::string, Value>`, whatever the kinds of their keys. `none` is a read of another union
member than that of the type tag.
-/

namespace Callwire.Cpp

open Lib C

/-- `std::map::emplace`: the keys are in order, and the first value of a key stays. -/
def emplace (key : Bytes) (value : Value) : List (Bytes × Value) → List (Bytes × Value)
  | [] => [(key, value)]
  | (k, v) :: m =>
    if key < k then (key, value) :: (k, v) :: m
    else if key = k then (k, v) :: m
    else (k, v) :: emplace key value m

/-- The entries of the `Value` that is made from a `std::map`. -/
def entriesOf (m : List (Bytes × Value)) : List (Value × Value) :=
  m.map fun kv => (.string kv.1, kv.2)

mutual
def deepCopy : Value → Option Value
  | .null => some .null
  | .bool b => some (.bool (if b ≠ 0 then 1 else 0))
  | .int64 x => some (.int64 x)
  | .float64 x => some (.float64 x)
  | .string s => some (.string s)
  | .binary s => some (.binary s)
  | .array items => (deepCopyItems items).map .array
  | .map entries => (deepCopyEntries entries []).map fun m => .map (entriesOf m)
def deepCopyItems : List Value → Option (List Value)
  | [] => some []
  | item :: items => (deepCopy item).bind fun v => (deepCopyItems items).map (v :: ·)
def deepCopyEntries : List (Value × Value) → List (Bytes × Value) → Option (List (Bytes × Value))
  | [], m => some m
  | (.string key, value) :: entries, m =>
    (deepCopy value).bind fun v => deepCopyEntries entries (emplace key v m)
  -- `raw_keys[i].val.str_val` of another kind of key
  | _ :: _, _ => none
end

/-- `Server::trampoline`: the `cpp_args` that the handler is called with. -/
def trampoline (args : List Value) : Option (List Value) := deepCopyItems args

end Callwire.Cpp
