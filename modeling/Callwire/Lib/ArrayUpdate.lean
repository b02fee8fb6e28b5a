import Mathlib.Algebra.GroupWithZero.Nat
import Mathlib.Data.List.Perm.Basic
import Mathlib.Data.List.Nodup

/-!
# Updates of an array

An unordered array drops the element at an index by moving its last element there and shrinking.
Up to order that is the array without the element (`swapRemove_perm`). The other lemmas say what an
assignment to one element leaves alone.
-/

namespace Lib

open List

section
variable {α : Type} {l : List α} {i : Nat} {a : α}

/-- `l` with its last element at index `i`, shortened by one. -/
def swapRemove (l : List α) (i : Nat) : List α :=
  match l.getLast? with
  | some x => (l.set i x).dropLast
  | none => []

theorem swapRemove_concat (l : List α) (x : α) (i : Nat) :
    swapRemove (l ++ [x]) i = if i < l.length then l.set i x else l := by
  unfold swapRemove
  rw [getLast?_concat]
  simp only
  split
  · rename_i h
    rw [set_append_left _ _ h, dropLast_concat]
  · rename_i h
    rw [set_append_right _ _ (by omega)]
    have : i - l.length = 0 ∨ [x].length ≤ i - l.length := by simp; omega
    rcases this with h0 | h1
    · simp [h0]
    · rw [set_eq_of_length_le h1, dropLast_concat]

/-- **Up to order, swap-removal is removal.** -/
theorem swapRemove_perm (h : l[i]? = some a) : (a :: swapRemove l i).Perm l := by
  rcases eq_nil_or_concat l with rfl | ⟨l, x, rfl⟩
  · simp at h
  · rw [concat_eq_append] at h ⊢
    rw [swapRemove_concat]
    split
    · rename_i hi
      rw [getElem?_append_left hi, List.getElem?_eq_some_iff] at h
      obtain ⟨_, rfl⟩ := h
      calc l[i] :: l.set i x
        _ |>.Perm (l[i] :: x :: l.eraseIdx i) := (set_perm_cons_eraseIdx hi x).cons _
        _ |>.Perm (x :: l[i] :: l.eraseIdx i) := List.Perm.swap ..
        _ |>.Perm (x :: l) := (getElem_cons_eraseIdx_perm hi).cons _
        _ |>.Perm (l ++ [x]) := (perm_append_singleton x l).symm
    · rename_i hi
      rw [getElem?_append_right (by omega)] at h
      have h0 : i - l.length = 0 := by
        by_contra hc
        rw [getElem?_eq_none (by simp; omega)] at h
        cases h
      rw [h0] at h
      obtain rfl : x = a := by simpa using h
      exact (perm_append_singleton x l).symm

/-- The array after a removal holds the other elements. -/
theorem mem_swapRemove (hn : l.Nodup) (h : l[i]? = some a) (x : α) :
    x ∈ swapRemove l i ↔ x ∈ l ∧ x ≠ a := by
  have hp := swapRemove_perm h
  have hnd := hp.nodup_iff.2 hn
  rw [← hp.mem_iff, mem_cons]
  constructor
  · intro hx
    exact ⟨.inr hx, fun he => (nodup_cons.1 hnd).1 (he ▸ hx)⟩
  · rintro ⟨rfl | hx, hne⟩
    · exact absurd rfl hne
    · exact hx

/-! ## One element is added, or changes -/

theorem lt_of_some (h : l[i]? = some a) : i < l.length :=
  (List.getElem?_eq_some_iff.1 h).1

theorem set_of_some {b : α} (h : l[i]? = some a) : (l.set i b)[i]? = some b :=
  getElem?_set_self (lt_of_some h)

theorem forall_concat {p : α → Prop} (h : ∀ x ∈ l, p x) (ha : p a) : ∀ x ∈ l ++ [a], p x :=
  forall_mem_append.2 ⟨h, forall_mem_singleton.2 ha⟩

theorem mem_concat_cases {b : α} (h : b ∈ l ++ [a]) : b ∈ l ∨ b = a := by
  simpa using h

theorem concat_of_some {b : α} (h : l[i]? = some b) : (l ++ [a])[i]? = some b := by
  rw [getElem?_append_left (lt_of_some h), h]

theorem concat_cases {b : α} (h : (l ++ [a])[i]? = some b) :
    l[i]? = some b ∨ i = l.length ∧ b = a := by
  rcases Nat.lt_trichotomy i l.length with hlt | rfl | hgt
  · rw [getElem?_append_left hlt] at h
    exact .inl h
  · rw [getElem?_concat_length] at h
    exact .inr ⟨rfl, (Option.some.inj h).symm⟩
  · rw [getElem?_eq_none (by rw [length_append, length_singleton]; omega)] at h
    cases h

section
variable {l : List α} {i : Nat} {a a' : α}

theorem set_cases {j : Nat} {b : α} (ha : l[i]? = some a) (hb : (l.set i a')[j]? = some b) :
    i = j ∧ b = a' ∨ i ≠ j ∧ l[j]? = some b := by
  by_cases hij : i = j
  · subst hij
    rw [set_of_some ha] at hb
    exact .inl ⟨rfl, (Option.some.inj hb).symm⟩
  · rw [getElem?_set_ne hij] at hb
    exact .inr ⟨hij, hb⟩

theorem exists_set {p : α → Prop} {j : Nat} {b : α} (ha : l[i]? = some a) (hb : l[j]? = some b)
    (hnew : a = b → p a') (hold : p b) : ∃ x, (l.set i a')[j]? = some x ∧ p x := by
  by_cases hij : i = j
  · subst hij
    exact ⟨a', set_of_some ha, hnew (Option.mem_unique ha hb)⟩
  · exact ⟨b, (getElem?_set_ne hij).trans hb, hold⟩

theorem exists_mem_set {p : α → Prop} {b : α} (ha : l[i]? = some a) (hb : b ∈ l)
    (hnew : a = b → p a') (hold : p b) : ∃ x ∈ l.set i a', p x := by
  obtain ⟨j, hj⟩ := mem_iff_getElem?.1 hb
  obtain ⟨x, hx, hp⟩ := exists_set ha hj hnew hold
  exact ⟨x, mem_of_getElem? hx, hp⟩

theorem mem_set_cases {b : α} (ha : l[i]? = some a) (hb : b ∈ l.set i a') : b = a' ∨ b ∈ l := by
  obtain ⟨j, hj⟩ := mem_iff_getElem?.1 hb
  rcases set_cases ha hj with ⟨-, rfl⟩ | ⟨-, hj⟩
  · exact .inl rfl
  · exact .inr (mem_of_getElem? hj)

theorem forall_set {p : α → Prop} (ha : l[i]? = some a) (h : ∀ x ∈ l, p x) (hnew : p a') :
    ∀ x ∈ l.set i a', p x := by
  intro x hx
  rcases mem_set_cases ha hx with rfl | hx
  · exact hnew
  · exact h x hx

theorem map_set_of_eq {β : Type} (g : α → β) (ha : l[i]? = some a) (hg : g a' = g a) :
    (l.set i a').map g = l.map g := by
  apply ext_getElem?
  intro j
  rw [getElem?_map, getElem?_map]
  by_cases hj : i = j
  · subst hj
    rw [set_of_some ha, ha]
    simp [hg]
  · rw [getElem?_set_ne hj]

theorem sum_set_add : ∀ {l : List Nat} {i a : Nat} (b : Nat), l[i]? = some a →
    (l.set i b).sum + a = l.sum + b
  | [], _, _, _, h => nomatch h
  | x :: l, 0, a, b, h => by
    cases h
    simp only [set_cons_zero, sum_cons]
    omega
  | x :: l, i + 1, a, b, h => by
    have ih := sum_set_add (l := l) (i := i) b h
    simp only [set_cons_succ, sum_cons]
    omega

theorem mem_modify_cases {l : List α} {i : Nat} {f : α → α} {b : α} (h : b ∈ l.modify i f) :
    b ∈ l ∨ ∃ a ∈ l, b = f a := by
  obtain ⟨j, hj⟩ := mem_iff_getElem?.1 h
  rw [getElem?_modify] at hj
  obtain ⟨a, ha, hab⟩ := Option.map_eq_some_iff.1 hj
  have hmem := mem_of_getElem? ha
  split at hab
  · exact .inr ⟨a, hmem, hab.symm⟩
  · exact .inl (hab ▸ hmem)

theorem map_modify_of_eq {β : Type} (g : α → β) (l : List α) (i : Nat) (f : α → α)
    (hf : ∀ a, g (f a) = g a) : (l.modify i f).map g = l.map g := by
  apply ext_getElem?
  intro j
  rw [getElem?_map, getElem?_map, getElem?_modify]
  cases l[j]? with
  | none => rfl
  | some a => by_cases hj : i = j <;> simp [hj, hf]

end

end

end Lib
