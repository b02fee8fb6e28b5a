import Mathlib.Data.List.AList

/-!
# Association lists of which entries change

What a lookup in an updated association list says about the list before: `lookup_insert_cases` for
an entry that is put in, `lookup_of_erase` and `lookup_of_eraseAll` for entries that are taken out.
`Moves` says that one entry of a list with distinct keys changes or goes, wherever it stands.
-/

namespace Lib

open List

section
variable {κ β : Type} [DecidableEq κ] {m : AList fun _ : κ => β} {k k' : κ} {b b' : β}

theorem lookup_of_erase (h : (m.erase k).lookup k' = some b) : k' ≠ k ∧ m.lookup k' = some b := by
  by_cases hk : k' = k
  · rw [hk, AList.lookup_erase] at h
    cases h
  · rw [AList.lookup_erase_ne hk] at h
    exact ⟨hk, h⟩

theorem lookup_insert_cases (h : (m.insert k b).lookup k' = some b') :
    k' = k ∧ b' = b ∨ k' ≠ k ∧ m.lookup k' = some b' := by
  by_cases hk : k' = k
  · rw [hk, AList.lookup_insert] at h
    exact .inl ⟨hk, (Option.some.inj h).symm⟩
  · rw [AList.lookup_insert_ne hk] at h
    exact .inr ⟨hk, h⟩

theorem lookup_of_eraseAll {gone : List κ}
    (h : (gone.foldl (fun m k => m.erase k) m).lookup k = some b) :
    k ∉ gone ∧ m.lookup k = some b := by
  induction gone generalizing m with
  | nil => exact ⟨not_mem_nil, h⟩
  | cons k₀ gone ih =>
    obtain ⟨hgone, h⟩ := ih h
    obtain ⟨hk, h⟩ := lookup_of_erase h
    exact ⟨not_mem_cons_of_ne_of_not_mem hk hgone, h⟩

/-- Only the entries on the list are taken out. -/
theorem lookup_eraseAll {gone : List κ} (h : m.lookup k = some b) (hk : k ∉ gone) :
    (gone.foldl (fun m k => m.erase k) m).lookup k = some b := by
  induction gone generalizing m with
  | nil => exact h
  | cons k₀ gone ih =>
    have hne : k ≠ k₀ := ne_of_not_mem_cons hk
    exact ih ((AList.lookup_erase_ne hne).trans h) (not_mem_of_not_mem_cons hk)

theorem erase_of_lookup_none (h : m.lookup k = none) : m.erase k = m :=
  AList.ext (kerase_of_notMem_keys (AList.lookup_eq_none.1 h))

theorem insert_erase : (m.erase k).insert k b = m.insert k b := by
  refine AList.ext ?_
  have hk : k ∉ (m.erase k).entries.keys := fun h => (AList.mem_erase.1 h).1 rfl
  rw [AList.entries_insert, AList.entries_insert, kerase_of_notMem_keys hk]
  rfl

/-- The entry of `k` is somewhere in the list, and `erase` takes it out there. -/
theorem entries_perm_erase (h : m.lookup k = some b) :
    m.entries.Perm (⟨k, b⟩ :: (m.erase k).entries) := by
  have hmem : k ∈ m.entries.keys := AList.lookup_isSome.1 (by rw [h]; rfl)
  obtain ⟨b', l₁, l₂, -, he, hk⟩ := exists_of_kerase hmem
  have hb : b' = b := by
    have hin : (⟨k, b'⟩ : Sigma fun _ : κ => β) ∈ m.entries := by
      rw [he]
      exact mem_append_right _ (mem_cons_self ..)
    exact Option.some.inj ((AList.mem_lookup_iff.2 hin).symm.trans h)
  have herase : (m.erase k).entries = l₁ ++ l₂ := hk
  rw [herase, he, hb]
  exact perm_middle

/-! ## One entry moves -/

variable {l l' : List (Sigma fun _ : κ => β)} {o : Option β}

/-- The entry `b` of `k` becomes `o`, and the others stay. -/
def Moves (k : κ) (b : β) (o : Option β) (l l' : List (Sigma fun _ : κ => β)) : Prop :=
  ∃ rest, l.Perm (⟨k, b⟩ :: rest) ∧ l'.Perm ((o.map (Sigma.mk k)).toList ++ rest)

namespace Moves

variable (h : Moves k b o l l') (hl : l.NodupKeys)
include h hl

omit [DecidableEq κ] in
theorem nodupKeys : l'.NodupKeys := by
  obtain ⟨rest, hp, hp'⟩ := h
  have hrest := (perm_nodupKeys hp).1 hl
  rw [perm_nodupKeys hp']
  cases o with
  | none => exact (nodupKeys_cons.1 hrest).2
  | some => exact nodupKeys_cons.2 (nodupKeys_cons.1 hrest)

theorem before : l.dlookup k = some b := by
  obtain ⟨rest, hp, -⟩ := h
  rw [perm_dlookup k hl hp, dlookup_cons_eq]

theorem after : l'.dlookup k = o := by
  have hl' := h.nodupKeys hl
  obtain ⟨rest, hp, hp'⟩ := h
  rw [perm_dlookup k hl' hp']
  cases o with
  | none => exact dlookup_eq_none.2 (nodupKeys_cons.1 ((perm_nodupKeys hp).1 hl)).1
  | some => exact dlookup_cons_eq ..

theorem other (hk : k' ≠ k) : l'.dlookup k' = l.dlookup k' := by
  have hl' := h.nodupKeys hl
  obtain ⟨rest, hp, hp'⟩ := h
  rw [perm_dlookup k' hl' hp', perm_dlookup k' hl hp, dlookup_cons_ne _ _ hk]
  cases o with
  | none => rfl
  | some => exact dlookup_cons_ne _ _ hk

end Moves

end

end Lib
