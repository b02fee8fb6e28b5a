import Callwire.Java.Objects
import Mathlib.Data.List.Nodup

/-!
# Results through the Java codec

A result comes back as it was iff the keys of its maps, at any depth, are different strings
(`codec_roundTrip`): `unpackValue` makes every key a string (`unpack_keyed`). Other keys may come to
be equal, and `null` has no text (`keys_merged`).
-/

namespace Callwire.Java

open List

mutual
/-- The keys of its maps are different strings. -/
def Obj.Keyed : Obj → Prop
  | .list items => KeyedItems items
  | .map entries => (entries.map Prod.fst).Nodup ∧ KeyedEntries entries
  | _ => True
def KeyedItems : List Obj → Prop
  | [] => True
  | item :: items => item.Keyed ∧ KeyedItems items
def KeyedEntries : List (Obj × Obj) → Prop
  | [] => True
  | (key, value) :: entries => (∃ s, key = .string s) ∧ value.Keyed ∧ KeyedEntries entries
end

namespace Codec
variable {text : Obj → String}

mutual
theorem unpack_pack : ∀ {o : Obj}, o.Keyed → unpackValue text (packValue o) = some o
  | .null, _ | .boolean _, _ | .long _, _ | .double _, _ | .string _, _ => rfl
  | .list items, h => by
    rw [packValue, unpackValue, unpackItems_pack h]
    rfl
  | .map entries, h => by
    obtain ⟨m, hm, heq⟩ := unpackEntries_pack (m := []) h.2 h.1
    rw [packValue, unpackValue, hm, Option.map_some, heq]
    rfl
theorem unpackItems_pack : ∀ {items : List Obj}, KeyedItems items →
    unpackItems text (packItems items) = some items
  | [], _ => rfl
  | _ :: _, h => by
    rw [packItems, unpackItems, unpack_pack h.1, unpackItems_pack h.2]
    rfl
theorem unpackEntries_pack : ∀ {entries : List (Obj × Obj)} {m : List (String × Obj)},
    KeyedEntries entries → ((m.map stringEntry ++ entries).map Prod.fst).Nodup →
    ∃ m', unpackEntries text (packEntries entries) m = some m' ∧
      m'.map stringEntry = m.map stringEntry ++ entries
  | [], m, _, _ => ⟨m, rfl, (append_nil _).symm⟩
  | (key, value) :: entries, m, h, hn => by
    obtain ⟨⟨s, rfl⟩, hvalue, hentries⟩ := h
    have hnew : s ∉ m.map Prod.fst := by
      intro hs
      obtain ⟨e, he, rfl⟩ := mem_map.1 hs
      rw [map_append, nodup_append] at hn
      exact hn.2.2 _ (mem_map_of_mem (mem_map_of_mem he)) _ mem_cons_self rfl
    obtain ⟨m', hm, heq⟩ := unpackEntries_pack (m := m ++ [(s, value)]) hentries
      (by simpa [stringEntry] using hn)
    refine ⟨m', ?_, by simpa [stringEntry] using heq⟩
    rw [packEntries, unpackEntries, unpack_pack hvalue]
    simp only [packValue, unpackValue, keyText, Option.bind_eq_bind, Option.bind_some, put,
      if_neg hnew]
    exact hm
end

/-- The entries of a `HashMap<String, Object>` whose values are `Keyed`. -/
def KeyedMap (m : List (String × Obj)) : Prop := (m.map Prod.fst).Nodup ∧ ∀ e ∈ m, e.2.Keyed

theorem KeyedMap.put {m : List (String × Obj)} {key : String} {value : Obj} (h : KeyedMap m)
    (hv : value.Keyed) : KeyedMap (put m key value) := by
  unfold Codec.put
  split
  · refine ⟨?_, fun e he => ?_⟩
    · have hkeys : (m.map fun e => if e.1 = key then (key, value) else e).map Prod.fst =
          m.map Prod.fst := by
        rw [map_map]
        refine map_congr_left fun e _ => ?_
        dsimp only [Function.comp_apply]
        split <;> simp_all
      rw [hkeys]
      exact h.1
    · obtain ⟨e', he', rfl⟩ := mem_map.1 he
      split
      · exact hv
      · exact h.2 e' he'
  · rename_i hnew
    refine ⟨?_, fun e he => ?_⟩
    · rw [map_append]
      exact nodup_append_comm.1 (nodup_cons.2 ⟨hnew, h.1⟩)
    · rcases mem_append.1 he with he | he
      · exact h.2 e he
      · rw [mem_singleton.1 he]
        exact hv

theorem KeyedMap.obj {m : List (String × Obj)} (h : KeyedMap m) :
    Obj.Keyed (.map (m.map stringEntry)) := by
  have hentries : ∀ m : List (String × Obj), (∀ e ∈ m, e.2.Keyed) →
      KeyedEntries (m.map stringEntry) := by
    intro m hm
    induction m with
    | nil => trivial
    | cons e m ih =>
      exact ⟨⟨_, rfl⟩, hm e mem_cons_self, ih fun e he => hm e (mem_cons_of_mem _ he)⟩
  refine ⟨?_, hentries m h.2⟩
  have hkeys : (m.map stringEntry).map Prod.fst = (m.map Prod.fst).map Obj.string := by
    rw [map_map, map_map]
    rfl
  rw [hkeys]
  exact h.1.map fun _ _ => Obj.string.inj

mutual
/-- **Whatever is read has strings as keys.** -/
theorem unpack_keyed : ∀ {p : Packed} {o : Obj}, unpackValue text p = some o → o.Keyed
  | .nil, _, h | .boolean _, _, h | .integer _, _, h | .float _, _, h | .string _, _, h => by
    cases h
    trivial
  | .array items, _, h => by
    rw [unpackValue] at h
    obtain ⟨os, hos, rfl⟩ := Option.map_eq_some_iff.1 h
    exact unpackItems_keyed hos
  | .map entries, _, h => by
    rw [unpackValue] at h
    obtain ⟨m, hm, rfl⟩ := Option.map_eq_some_iff.1 h
    exact (unpackEntries_keyed hm ⟨nodup_nil, nofun⟩).obj
theorem unpackItems_keyed : ∀ {items : List Packed} {os : List Obj},
    unpackItems text items = some os → KeyedItems os
  | [], _, h => by
    cases h
    trivial
  | item :: items, _, h => by
    rw [unpackItems] at h
    obtain ⟨o, ho, h⟩ := Option.bind_eq_some_iff.1 h
    obtain ⟨os, hos, h⟩ := Option.bind_eq_some_iff.1 h
    cases h
    exact ⟨unpack_keyed ho, unpackItems_keyed hos⟩
theorem unpackEntries_keyed : ∀ {entries : List (Packed × Packed)} {m m' : List (String × Obj)},
    unpackEntries text entries m = some m' → KeyedMap m → KeyedMap m'
  | [], _, _, h, hm => by
    cases h
    exact hm
  | (key, value) :: entries, _, _, h, hm => by
    rw [unpackEntries] at h
    obtain ⟨o, -, h⟩ := Option.bind_eq_some_iff.1 h
    obtain ⟨s, -, h⟩ := Option.bind_eq_some_iff.1 h
    obtain ⟨v, hv, h⟩ := Option.bind_eq_some_iff.1 h
    exact unpackEntries_keyed h (hm.put (unpack_keyed hv))
end

/-- **A result survives the round trip** iff the keys of its maps, at any depth, are different
strings. -/
theorem codec_roundTrip (text : Obj → String) (id : BitVec 64) (o : Obj) :
    (decode text (encodeResponse id o) =
        some [("id", .long id), ("type", .string "response"), ("result", o)] ↔ o.Keyed) ∧
      (decode text (encodeStreamChunk id o) =
        some [("id", .long id), ("type", .string "stream_chunk"), ("result", o)] ↔ o.Keyed) := by
  have hmessage : ∀ type, decode text (resultMessage type id o) =
      some [("id", .long id), ("type", .string type), ("result", o)] ↔ o.Keyed := by
    intro type
    have hdecode : decode text (resultMessage type id o) =
        (unpackValue text (packValue o)).map fun v =>
          [("id", .long id), ("type", .string type), ("result", v)] := by
      cases h : unpackValue text (packValue o) <;>
        simp [decode, resultMessage, decodeEntries, unpackValue, put, h]
    rw [hdecode]
    refine ⟨fun h => ?_, fun h => by rw [unpack_pack h, Option.map_some]⟩
    obtain ⟨v, hv, heq⟩ := Option.map_eq_some_iff.1 h
    obtain rfl : v = o := by simpa using heq
    exact unpack_keyed hv
  exact ⟨hmessage _, hmessage _⟩

example : Obj.Keyed (.list [.map [(.string "a", .long 1), (.string "b", .map [])], .null]) := by
  simp [Obj.Keyed, KeyedItems, KeyedEntries]

/-- `toString` of a `Long`. -/
def longText : Obj → String
  | .long n => toString n.toInt
  | _ => ""

/-- **Keys merge, and `null` cannot be read.** -/
theorem keys_merged :
    decode longText (encodeResponse 7 (.map [(.long 1, .null), (.string "1", .boolean true)])) =
      some [("id", .long 7), ("type", .string "response"),
        ("result", .map [(.string "1", .boolean true)])] ∧
    decode longText (encodeStreamChunk 7 (.map [(.null, .null)])) = none :=
  ⟨rfl, rfl⟩

end Codec

end Callwire.Java
