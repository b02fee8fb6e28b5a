import Mathlib.Data.List.Nodup

/-!
# Grouping by a key and scattering

`addTo key x groups` puts `x` at the end of the group of `key`, or starts that group behind the
others. Groups built this way have distinct keys and hold, together, exactly what was added.
`scatter vs xs` writes the values of `xs` into the places of `vs` that they are paired with.
-/

namespace Lib

open List

section
variable {κ α : Type} [DecidableEq κ]

def addTo (key : κ) (x : α) : List (κ × List α) → List (κ × List α)
  | [] => [(key, [x])]
  | (k, xs) :: groups =>
    if k = key then (k, xs ++ [x]) :: groups else (k, xs) :: addTo key x groups

def members (groups : List (κ × List α)) : List α := groups.flatMap Prod.snd

theorem members_addTo (key : κ) (x : α) : ∀ groups : List (κ × List α),
    (members (addTo key x groups)).Perm (members groups ++ [x])
  | [] => List.Perm.refl _
  | (k, xs) :: groups => by
    rw [addTo]
    split
    · have hsplit : members ((k, xs ++ [x]) :: groups) = xs ++ ([x] ++ members groups) :=
        append_assoc ..
      have hsplit' : members ((k, xs) :: groups) ++ [x] = xs ++ (members groups ++ [x]) :=
        append_assoc ..
      rw [hsplit, hsplit']
      exact Perm.append_left xs perm_append_comm
    · have hsplit : members ((k, xs) :: groups) ++ [x] = xs ++ (members groups ++ [x]) :=
        append_assoc ..
      rw [hsplit]
      exact Perm.append_left xs (members_addTo key x groups)

theorem length_addTo_le (key : κ) (x : α) : ∀ groups : List (κ × List α),
    (addTo key x groups).length ≤ groups.length + 1
  | [] => Nat.le_refl _
  | (k, xs) :: groups => by
    rw [addTo]
    split
    · exact Nat.le_succ _
    · exact Nat.succ_le_succ (length_addTo_le key x groups)

theorem mem_keys_addTo (key : κ) (x : α) : ∀ {groups : List (κ × List α)} {k : κ},
    k ∈ (addTo key x groups).map Prod.fst → k = key ∨ k ∈ groups.map Prod.fst
  | [], _, h => .inl (mem_singleton.1 h)
  | (k', xs) :: groups, k, h => by
    rw [addTo] at h
    split at h
    · exact .inr h
    · rcases mem_cons.1 h with rfl | h
      · exact .inr (mem_cons_self ..)
      · exact (mem_keys_addTo key x h).imp_right (mem_cons_of_mem _)

theorem nodup_keys_addTo (key : κ) (x : α) : ∀ {groups : List (κ × List α)},
    (groups.map Prod.fst).Nodup → ((addTo key x groups).map Prod.fst).Nodup
  | [], _ => nodup_singleton _
  | (k, xs) :: groups, h => by
    obtain ⟨hk, hrest⟩ := nodup_cons.1 h
    rw [addTo]
    split
    · exact nodup_cons.2 ⟨hk, hrest⟩
    · rename_i hne
      refine nodup_cons.2 ⟨fun hmem => ?_, nodup_keys_addTo key x hrest⟩
      exact (mem_keys_addTo key x hmem).elim hne hk

end

section
variable {κ α ι : Type} {f : α → ι} {groups : List (κ × List α)}

theorem nodup_group (h : ((members groups).map f).Nodup) {k : Nat} {g : κ × List α}
    (hg : groups[k]? = some g) : (g.2.map f).Nodup := by
  rw [members, map_flatMap, nodup_flatMap] at h
  exact h.1 g (mem_of_getElem? hg)

/-- A member is in one group only. -/
theorem group_unique (h : ((members groups).map f).Nodup) {j k : Nat} {g g' : κ × List α}
    (hg : groups[j]? = some g) (hg' : groups[k]? = some g') {i : ι} (hi : i ∈ g.2.map f)
    (hi' : i ∈ g'.2.map f) : j = k := by
  rw [members, map_flatMap, nodup_flatMap] at h
  have hpairs := pairwise_iff_getElem.1 h.2
  obtain ⟨hj, rfl⟩ := List.getElem?_eq_some_iff.1 hg
  obtain ⟨hk, rfl⟩ := List.getElem?_eq_some_iff.1 hg'
  rcases Nat.lt_trichotomy j k with hlt | heq | hlt
  · exact absurd hi' (hpairs j k hj hk hlt hi)
  · exact heq
  · exact absurd hi (hpairs k j hk hj hlt hi')

end

section
variable {α : Type}

def scatter (vs : List α) (xs : List (Nat × α)) : List α :=
  xs.foldl (fun vs x => vs.set x.1 x.2) vs

theorem length_scatter : ∀ (xs : List (Nat × α)) (vs : List α),
    (scatter vs xs).length = vs.length
  | [], _ => rfl
  | x :: xs, vs => (length_scatter xs (vs.set x.1 x.2)).trans length_set

/-- The other places keep their values. -/
theorem scatter_of_notMem {i : Nat} : ∀ {xs : List (Nat × α)} {vs : List α},
    i ∉ xs.map Prod.fst → (scatter vs xs)[i]? = vs[i]?
  | [], _, _ => rfl
  | x :: xs, vs, h => by
    obtain ⟨hne, hrest⟩ := not_or.1 (mt mem_cons.2 h)
    have ih : (scatter (vs.set x.1 x.2) xs)[i]? = (vs.set x.1 x.2)[i]? := scatter_of_notMem hrest
    exact ih.trans (getElem?_set_ne (Ne.symm hne))

/-- A place that is written once has that value. -/
theorem scatter_of_mem {i : Nat} {v : α} : ∀ {xs : List (Nat × α)} {vs : List α},
    (xs.map Prod.fst).Nodup → (i, v) ∈ xs → i < vs.length → (scatter vs xs)[i]? = some v
  | x :: xs, vs, hnodup, hmem, hi => by
    obtain ⟨hx, hrest⟩ := nodup_cons.1 hnodup
    rcases mem_cons.1 hmem with rfl | hmem
    · have h : (scatter (vs.set i v) xs)[i]? = (vs.set i v)[i]? := scatter_of_notMem hx
      exact h.trans (getElem?_set_self hi)
    · have hi' : i < (vs.set x.1 x.2).length := length_set.symm ▸ hi
      have ih : (scatter (vs.set x.1 x.2) xs)[i]? = some v := scatter_of_mem hrest hmem hi'
      exact ih

end

end Lib
