import Mathlib.Data.List.Basic

/-!
# A bounded queue

A first-in first-out queue of bounded capacity that keeps what was ever put into it: the first
`taken` of these have been taken out. Putting into a full queue and taking from an empty one are not
possible (`put?`, `get?`).
-/

namespace Lib

open List

structure BoundedQueue (α : Type) where
  capacity : Nat
  put : List α
  taken : Nat
  taken_le : taken ≤ put.length

namespace BoundedQueue

variable {α : Type}

def new (capacity : Nat) : BoundedQueue α where
  capacity := capacity
  put := []
  taken := 0
  taken_le := Nat.zero_le _

def items (q : BoundedQueue α) : List α := q.put.drop q.taken

def Full (q : BoundedQueue α) : Prop := q.capacity ≤ q.items.length

instance (q : BoundedQueue α) : Decidable q.Full := inferInstanceAs (Decidable (_ ≤ _))

def push (q : BoundedQueue α) (a : α) : BoundedQueue α where
  capacity := q.capacity
  put := q.put ++ [a]
  taken := q.taken
  taken_le := by
    rw [List.length_append]
    exact Nat.le_add_right_of_le q.taken_le

def put? (q : BoundedQueue α) (a : α) : Option (BoundedQueue α) :=
  if q.Full then none else some (q.push a)

/-- The oldest item and the queue without it. -/
def get? (q : BoundedQueue α) : Option (α × BoundedQueue α) :=
  if h : q.taken < q.put.length then
    some (q.put[q.taken], ⟨q.capacity, q.put, q.taken + 1, h⟩)
  else
    none

variable {q q' : BoundedQueue α} {a : α}

theorem put?_eq_some (h : q.put? a = some q') : ¬ q.Full ∧ q' = q.push a := by
  unfold put? at h
  split at h
  · cases h
  · exact ⟨‹_›, (Option.some.inj h).symm⟩

theorem get?_eq_some (h : q.get? = some (a, q')) :
    q.put[q.taken]? = some a ∧ q'.capacity = q.capacity ∧ q'.put = q.put ∧
      q'.taken = q.taken + 1 := by
  unfold get? at h
  split at h
  · rename_i hlt
    cases h
    exact ⟨getElem?_eq_getElem hlt, rfl, rfl, rfl⟩
  · cases h

theorem get?_of_getElem? (h : q.put[q.taken]? = some a) : ∃ q', q.get? = some (a, q') := by
  obtain ⟨hlt, ha⟩ := List.getElem?_eq_some_iff.1 h
  refine ⟨⟨q.capacity, q.put, q.taken + 1, hlt⟩, ?_⟩
  rw [get?, dif_pos hlt, ha]

theorem items_push : (q.push a).items = q.items ++ [a] := drop_append_of_le_length q.taken_le

theorem length_items_push : (q.push a).items.length = q.items.length + 1 := by
  rw [items_push, length_append]
  rfl

end BoundedQueue

end Lib
