import Callwire.C.Codec
import Callwire.Cpp.Value

/-!
# The arguments of C++ handlers

A handler gets the arguments that were sent iff the keys of their maps, at any depth, are different
strings (`args_copied`). Other keys are read as strings all the same, and of two entries with one
key the second is dropped (`keys_confused`): the copy then has fewer entries (`deepCopy_count`).
-/

namespace Callwire.Cpp

open Lib C List

mutual
/-- Equal as values: a truth value is zero or not, and the entries of a map have no order. -/
inductive Same : Value → Value → Prop
  | refl (v : Value) : Same v v
  | bool {b b' : BitVec 32} (h : b = 0 ↔ b' = 0) : Same (.bool b) (.bool b')
  | array {vs ws : List Value} (h : SameItems vs ws) : Same (.array vs) (.array ws)
  | map {vs ws ws' : List (Value × Value)} (h : SameEntries vs ws) (hp : ws.Perm ws') :
      Same (.map vs) (.map ws')
inductive SameItems : List Value → List Value → Prop
  | nil : SameItems [] []
  | cons {v w : Value} {vs ws : List Value} (h : Same v w) (hs : SameItems vs ws) :
      SameItems (v :: vs) (w :: ws)
inductive SameEntries : List (Value × Value) → List (Value × Value) → Prop
  | nil : SameEntries [] []
  | cons {k v w : Value} {vs ws : List (Value × Value)} (h : Same v w) (hs : SameEntries vs ws) :
      SameEntries ((k, v) :: vs) ((k, w) :: ws)
end

mutual
/-- The keys of its maps are different strings. -/
def Keyed : Value → Prop
  | .array items => KeyedItems items
  | .map entries => (entries.map Prod.fst).Nodup ∧ KeyedEntries entries
  | _ => True
def KeyedItems : List Value → Prop
  | [] => True
  | item :: items => Keyed item ∧ KeyedItems items
def KeyedEntries : List (Value × Value) → Prop
  | [] => True
  | (key, value) :: entries => (∃ s, key = .string s) ∧ Keyed value ∧ KeyedEntries entries
end

theorem emplace_perm {key : Bytes} (value : Value) : ∀ {m : List (Bytes × Value)},
    .string key ∉ (entriesOf m).map Prod.fst → (emplace key value m).Perm ((key, value) :: m)
  | [], _ => .refl _
  | (k, v) :: m, h => by
    obtain ⟨hne, hm⟩ := not_or.1 (mt mem_cons.2 h)
    rw [emplace]
    split
    · exact .refl _
    · rw [if_neg fun he => hne (congrArg Value.string he)]
      exact ((emplace_perm value hm).cons _).trans (.swap ..)

mutual
theorem deepCopy_same : ∀ {v : Value}, Keyed v → ∃ w, deepCopy v = some w ∧ Same v w
  | .null, _ | .int64 _, _ | .float64 _, _ | .string _, _ | .binary _, _ => ⟨_, rfl, .refl _⟩
  | .bool b, _ => ⟨_, rfl, .bool (by by_cases hb : b = 0 <;> simp [hb])⟩
  | .array items, h => by
    obtain ⟨ws, hws, hsame⟩ := deepCopyItems_same h
    exact ⟨.array ws, by rw [deepCopy, hws]; rfl, .array hsame⟩
  | .map entries, h => by
    obtain ⟨m, new, hm, hperm, hsame⟩ := deepCopyEntries_same (m := []) h.2
      ((append_nil _).symm ▸ h.1)
    rw [append_nil] at hperm
    exact ⟨_, by rw [deepCopy, hm]; rfl, .map hsame (hperm.symm.map _)⟩
theorem deepCopyItems_same : ∀ {items : List Value}, KeyedItems items →
    ∃ ws, deepCopyItems items = some ws ∧ SameItems items ws
  | [], _ => ⟨[], rfl, .nil⟩
  | _ :: _, h => by
    obtain ⟨w, hw, hsame⟩ := deepCopy_same h.1
    obtain ⟨ws, hws, hsames⟩ := deepCopyItems_same h.2
    exact ⟨w :: ws, by rw [deepCopyItems, hw, hws]; rfl, .cons hsame hsames⟩
/-- The entries that are copied join those already in the map. -/
theorem deepCopyEntries_same : ∀ {entries : List (Value × Value)} {m : List (Bytes × Value)},
    KeyedEntries entries → (entries.map Prod.fst ++ (entriesOf m).map Prod.fst).Nodup →
    ∃ m' new, deepCopyEntries entries m = some m' ∧ m'.Perm (new ++ m) ∧
      SameEntries entries (entriesOf new)
  | [], m, _, _ => ⟨m, [], rfl, .refl _, .nil⟩
  | (key, value) :: entries, m, h, hn => by
    obtain ⟨⟨s, rfl⟩, hvalue, hentries⟩ := h
    obtain ⟨w, hw, hsame⟩ := deepCopy_same hvalue
    rw [map_cons, cons_append, nodup_cons] at hn
    have hperm := emplace_perm w fun hs => hn.1 (mem_append_right _ hs)
    obtain ⟨m', new, hm', hp, hsames⟩ := deepCopyEntries_same (m := emplace s w m) hentries <| by
      refine ((((hperm.map _).map _).append_left _).trans perm_middle).nodup_iff.2 ?_
      exact nodup_cons.2 hn
    refine ⟨m', (s, w) :: new, ?_, hp.trans ?_, .cons hsame hsames⟩
    · rw [deepCopyEntries, hw]
      exact hm'
    · exact (hperm.append_left new).trans perm_middle
end

/-! ## What is lost otherwise -/

mutual
/-- The number of map entries in a value, at any depth. -/
def entryCount : Value → Nat
  | .array items => itemsCount items
  | .map entries => entriesCount entries
  | _ => 0
def itemsCount : List Value → Nat
  | [] => 0
  | item :: items => entryCount item + itemsCount items
def entriesCount : List (Value × Value) → Nat
  | [] => 0
  | (_, value) :: entries => entryCount value + 1 + entriesCount entries
end

theorem entriesCount_eq_sum (entries : List (Value × Value)) :
    entriesCount entries = (entries.map fun kv => entryCount kv.2 + 1).sum := by
  induction entries with
  | nil => rfl
  | cons kv entries ih => rw [entriesCount, ih, map_cons, sum_cons]

theorem entriesCount_perm {vs ws : List (Value × Value)} (h : vs.Perm ws) :
    entriesCount vs = entriesCount ws := by
  rw [entriesCount_eq_sum, entriesCount_eq_sum]
  exact (h.map _).sum_nat

mutual
/-- **Equal values have equally many entries.** -/
theorem Same.count : ∀ {v w : Value}, Same v w → entryCount v = entryCount w
  | _, _, .refl _ => rfl
  | _, _, .bool _ => rfl
  | _, _, .array h => by rw [entryCount, entryCount, h.count]
  | _, _, .map h hp => by rw [entryCount, entryCount, h.count, entriesCount_perm hp]
theorem SameItems.count : ∀ {vs ws : List Value}, SameItems vs ws → itemsCount vs = itemsCount ws
  | _, _, .nil => rfl
  | _, _, .cons h hs => by rw [itemsCount, itemsCount, h.count, hs.count]
theorem SameEntries.count : ∀ {vs ws : List (Value × Value)}, SameEntries vs ws →
    entriesCount vs = entriesCount ws
  | _, _, .nil => rfl
  | _, _, .cons h hs => by rw [entriesCount, entriesCount, h.count, hs.count]
end

/-- The keys of a `std::map` are in order. -/
def Ordered (m : List (Bytes × Value)) : Prop := m.Pairwise fun a b => a.1 < b.1

theorem mem_emplace {key : Bytes} {value : Value} {kv : Bytes × Value} :
    ∀ {m : List (Bytes × Value)}, kv ∈ emplace key value m → kv = (key, value) ∨ kv ∈ m
  | [], h => .inl (mem_singleton.1 h)
  | (k, v) :: m, h => by
    rw [emplace] at h
    split at h
    · exact mem_cons.1 h
    · split at h
      · exact .inr h
      · rcases mem_cons.1 h with rfl | h
        · exact .inr mem_cons_self
        · exact (mem_emplace h).imp_right (mem_cons_of_mem _)

theorem Ordered.emplace {key : Bytes} {value : Value} : ∀ {m : List (Bytes × Value)}, Ordered m →
    Ordered (emplace key value m)
  | [], _ => pairwise_singleton _ _
  | (k, v) :: m, h => by
    obtain ⟨hk, hm⟩ := pairwise_cons.1 h
    rw [Cpp.emplace]
    split
    · rename_i hlt
      refine pairwise_cons.2 ⟨fun kv hkv => ?_, h⟩
      rcases mem_cons.1 hkv with rfl | hkv
      · exact hlt
      · exact List.lt_trans hlt (hk kv hkv)
    · rename_i hle
      split
      · exact h
      · rename_i hne
        refine pairwise_cons.2 ⟨fun kv hkv => ?_, Ordered.emplace hm⟩
        rcases mem_emplace hkv with rfl | hkv
        · exact Std.lt_of_le_of_ne hle (Ne.symm hne)
        · exact hk kv hkv

theorem Ordered.nodup {m : List (Bytes × Value)} (h : Ordered m) :
    ((entriesOf m).map Prod.fst).Nodup := by
  rw [entriesOf, map_map]
  refine pairwise_map.2 (h.imp fun hlt he => ?_)
  exact List.lt_irrefl _ (Value.string.inj he ▸ hlt)

/-- A key that is there already leaves the map as it is. -/
theorem emplace_of_mem {key : Bytes} (value : Value) : ∀ {m : List (Bytes × Value)}, Ordered m →
    .string key ∈ (entriesOf m).map Prod.fst → emplace key value m = m
  | (k, v) :: m, h, hmem => by
    obtain ⟨hk, hm⟩ := pairwise_cons.1 h
    rw [emplace]
    rcases mem_cons.1 hmem with he | hmem
    · obtain rfl : key = k := Value.string.inj he
      rw [if_neg (List.lt_irrefl key), if_pos rfl]
    · have hlt : k < key := by
        obtain ⟨_, hin, he⟩ := mem_map.1 hmem
        obtain ⟨kv, hkv, rfl⟩ := mem_map.1 hin
        obtain rfl := Value.string.inj he
        exact hk kv hkv
      rw [if_neg (List.lt_asymm hlt), if_neg fun he => List.lt_irrefl _ (he ▸ hlt),
        emplace_of_mem value hm hmem]

mutual
/-- **A copy has no more entries than the value, and as many only if the keys are different
strings.** -/
theorem deepCopy_count : ∀ {v w : Value}, deepCopy v = some w →
    entryCount w ≤ entryCount v ∧ (entryCount v ≤ entryCount w → Keyed v)
  | .null, _, h | .bool _, _, h | .int64 _, _, h | .float64 _, _, h | .string _, _, h
  | .binary _, _, h => by
    cases h
    exact ⟨Nat.le_refl _, fun _ => trivial⟩
  | .array items, w, h => by
    rw [deepCopy] at h
    obtain ⟨ws, hws, rfl⟩ := Option.map_eq_some_iff.1 h
    exact deepCopyItems_count hws
  | .map entries, w, h => by
    rw [deepCopy] at h
    obtain ⟨m, hm, rfl⟩ := Option.map_eq_some_iff.1 h
    obtain ⟨hle, hkeyed⟩ := deepCopyEntries_count hm .nil
    refine ⟨hle, fun hge => ?_⟩
    obtain ⟨hkeys, hnodup⟩ := hkeyed hge
    exact ⟨by simpa [entriesOf] using hnodup, hkeys⟩
theorem deepCopyItems_count : ∀ {items ws : List Value}, deepCopyItems items = some ws →
    itemsCount ws ≤ itemsCount items ∧ (itemsCount items ≤ itemsCount ws → KeyedItems items)
  | [], _, h => by
    cases h
    exact ⟨Nat.le_refl _, fun _ => trivial⟩
  | item :: items, _, h => by
    rw [deepCopyItems] at h
    obtain ⟨w, hw, h⟩ := Option.bind_eq_some_iff.1 h
    obtain ⟨ws, hws, rfl⟩ := Option.map_eq_some_iff.1 h
    obtain ⟨hle, hkeyed⟩ := deepCopy_count hw
    obtain ⟨hles, hkeyeds⟩ := deepCopyItems_count hws
    rw [itemsCount, itemsCount]
    exact ⟨by omega, fun hge => ⟨hkeyed (by omega), hkeyeds (by omega)⟩⟩
theorem deepCopyEntries_count : ∀ {entries : List (Value × Value)} {m m' : List (Bytes × Value)},
    deepCopyEntries entries m = some m' → Ordered m →
      entriesCount (entriesOf m') ≤ entriesCount entries + entriesCount (entriesOf m) ∧
      (entriesCount entries + entriesCount (entriesOf m) ≤ entriesCount (entriesOf m') →
        KeyedEntries entries ∧ (entries.map Prod.fst ++ (entriesOf m).map Prod.fst).Nodup)
  | [], m, _, h, ho => by
    cases h
    exact ⟨Nat.le_add_left _ _, fun _ => ⟨trivial, ho.nodup⟩⟩
  | (.string key, value) :: entries, m, m', h, ho => by
    rw [deepCopyEntries] at h
    obtain ⟨w, hw, h⟩ := Option.bind_eq_some_iff.1 h
    obtain ⟨hle, hkeyed⟩ := deepCopy_count hw
    obtain ⟨hles, hkeyeds⟩ := deepCopyEntries_count h ho.emplace
    rw [entriesCount]
    by_cases hmem : .string key ∈ (entriesOf m).map Prod.fst
    · rw [emplace_of_mem w ho hmem] at hles
      exact ⟨by omega, fun hge => by omega⟩
    · have hperm := (emplace_perm w hmem).map fun kv => (Value.string kv.1, kv.2)
      have hcount := entriesCount_perm hperm
      rw [map_cons, entriesCount] at hcount
      change entriesCount (entriesOf _) = entryCount w + 1 + entriesCount (entriesOf m) at hcount
      refine ⟨by omega, fun hge => ?_⟩
      obtain ⟨hkeys, hnodup⟩ := hkeyeds (by omega)
      refine ⟨⟨⟨key, rfl⟩, hkeyed (by omega), hkeys⟩, ?_⟩
      exact (((hperm.map Prod.fst).append_left _).trans perm_middle).nodup_iff.1 hnodup
  | (.null, _) :: _, _, _, h, _ | (.bool _, _) :: _, _, _, h, _ | (.int64 _, _) :: _, _, _, h, _
  | (.float64 _, _) :: _, _, _, h, _ | (.binary _, _) :: _, _, _, h, _
  | (.array _, _) :: _, _, _, h, _ | (.map _, _) :: _, _, _, h, _ => by
    rw [deepCopyEntries] at h
    · cases h
    · simp
end

/-- **The handler gets the arguments that were sent** iff the keys of their maps, at any depth, are
different strings. -/
theorem args_copied (args : List Value) :
    (∃ cppArgs, trampoline args = some cppArgs ∧ SameItems args cppArgs) ↔ KeyedItems args := by
  refine ⟨fun ⟨cppArgs, hcopy, hsame⟩ => ?_, deepCopyItems_same⟩
  exact (deepCopyItems_count hcopy).2 hsame.count.le

example : trampoline [.map [(.string [0x62], .bool 2), (.string [0x61], .array [.null])]] =
    some [.map [(.string [0x61], .array [.null]), (.string [0x62], .bool 1)]] := rfl

/-- **The decoder delivers maps that are not copied**: the key 1 is read as a string, and the second
of two entries with the key `a` is lost. -/
theorem keys_confused :
    (∃ r, decodeValue .ok 2 ⟨.mem [0x81, 0x01, 0xC0] (by decide), 0, false⟩ =
      .ok (some (.map [(.int64 1, .null)]), r)) ∧
    trampoline [.map [(.int64 1, .null)]] = none ∧
    (∃ r, decodeValue .ok 2
      ⟨.mem [0x82, 0xA1, 0x61, 0xC2, 0xA1, 0x61, 0xC3] (by decide), 0, false⟩ =
      .ok (some (.map [(.string [0x61], .bool 0), (.string [0x61], .bool 1)]), r)) ∧
    trampoline [.map [(.string [0x61], .bool 0), (.string [0x61], .bool 1)]] =
      some [.map [(.string [0x61], .bool 0)]] :=
  ⟨⟨_, rfl⟩, rfl, ⟨_, rfl⟩, rfl⟩

end Callwire.Cpp
