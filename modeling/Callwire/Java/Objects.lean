/-!
# The values of a message and their msgpack (`Codec.java`)

`packValue`, `unpackValue` and the messages that carry a result, above the msgpack library: a
payload is the msgpack value that it holds, and `none` is an exception. Integers are those of a
`long`; `packValue` also takes an `Integer`, a `Float` and other objects, which are left out. A map
is the list of its entries, and `text` is what `toString` gives for an object other than a `String`.
-/

namespace Callwire.Java

inductive Obj where
  | null
  | boolean (b : Bool)
  | long (n : BitVec 64)
  | double (bits : BitVec 64)
  | string (s : String)
  | list (items : List Obj)
  | map (entries : List (Obj × Obj))

inductive Packed where
  | nil
  | boolean (b : Bool)
  | integer (n : BitVec 64)
  | float (bits : BitVec 64)
  | string (s : String)
  | array (items : List Packed)
  | map (entries : List (Packed × Packed))

namespace Codec

mutual
def packValue : Obj → Packed
  | .null => .nil
  | .boolean b => .boolean b
  | .long n => .integer n
  | .double bits => .float bits
  | .string s => .string s
  | .list items => .array (packItems items)
  | .map entries => .map (packEntries entries)
def packItems : List Obj → List Packed
  | [] => []
  | item :: items => packValue item :: packItems items
def packEntries : List (Obj × Obj) → List (Packed × Packed)
  | [] => []
  | (key, value) :: entries => (packValue key, packValue value) :: packEntries entries
end

/-- `map.put(key, value)`, which keeps the place of a key that is there. -/
def put (m : List (String × Obj)) (key : String) (value : Obj) : List (String × Obj) :=
  if key ∈ m.map Prod.fst then m.map fun e => if e.1 = key then (key, value) else e
  else m ++ [(key, value)]

def stringEntry (e : String × Obj) : Obj × Obj := (.string e.1, e.2)

section
variable (text : Obj → String)

/-- `toString`, which throws for `null`. -/
def keyText : Obj → Option String
  | .null => none
  | .string s => some s
  | key => some (text key)

mutual
def unpackValue : Packed → Option Obj
  | .nil => some .null
  | .boolean b => some (.boolean b)
  | .integer n => some (.long n)
  | .float bits => some (.double bits)
  | .string s => some (.string s)
  | .array items => (unpackItems items).map .list
  | .map entries => (unpackEntries entries []).map fun m => .map (m.map stringEntry)
def unpackItems : List Packed → Option (List Obj)
  | [] => some []
  | item :: items => do return (← unpackValue item) :: (← unpackItems items)
def unpackEntries :
    List (Packed × Packed) → List (String × Obj) → Option (List (String × Obj))
  | [], m => some m
  | (key, value) :: entries, m => do
    unpackEntries entries (put m (← keyText text (← unpackValue key)) (← unpackValue value))
end

def decodeEntries : List (Packed × Packed) → List (String × Obj) → Option (List (String × Obj))
  | [], m => some m
  | (.string key, value) :: entries, m => do
    decodeEntries entries (put m key (← unpackValue text value))
  | _ :: _, _ => none

def decode : Packed → Option (List (String × Obj))
  | .map entries => decodeEntries text entries []
  | _ => none

end

def resultMessage (type : String) (id : BitVec 64) (result : Obj) : Packed :=
  .map [(.string "id", .integer id), (.string "type", .string type),
    (.string "result", packValue result)]

def encodeResponse (id : BitVec 64) (result : Obj) : Packed := resultMessage "response" id result

def encodeStreamChunk (id : BitVec 64) (result : Obj) : Packed :=
    resultMessage "stream_chunk" id result

end Codec

end Callwire.Java
