import Callwire.Lib.ArrayUpdate
import Mathlib.Data.List.Perm.Subperm

/-!
# A hand-linked queue

`Queue α` is a singly linked list in a memory of cells with a pointer to its first and to its last
cell, the way C code keeps a FIFO: `push` links a new cell behind the last one, `pop?` unlinks the
first. A value carries the invariant that `head` leads through the cells to `tail`. `items` reads
the queue off its links; `items_push` and `items_pop?` are its operations on lists.
-/

namespace Lib

open List

/-- A cell: a value and the address of the next cell. -/
structure Cell (α : Type) where
  value : α
  next : Option Nat

/-- From `p` the links of `mem` lead through the cells `cs` (address and value) to the end. -/
def Links {α : Type} (mem : List (Cell α)) : Option Nat → List (Nat × α) → Prop
  | p, [] => p = none
  | p, (a, v) :: cs => p = some a ∧ ∃ n, mem[a]? = some ⟨v, n⟩ ∧ Links mem n cs

/-- The values behind `p`, in at most `n` cells. -/
def readLinks {α : Type} (mem : List (Cell α)) : Nat → Option Nat → List α
  | n + 1, some a =>
    match mem[a]? with
    | some c => c.value :: readLinks mem n c.next
    | none => []
  | _, _ => []

section
variable {α : Type} {mem : List (Cell α)} {cs : List (Nat × α)}

theorem Links.read : ∀ {cs : List (Nat × α)} {p : Option Nat} {n : Nat}, Links mem p cs →
    cs.length ≤ n → readLinks mem n p = cs.map Prod.snd
  | [], _, n, h, _ => by
    cases h
    cases n <;> rfl
  | (a, v) :: cs, _, n + 1, ⟨rfl, m, hm, h⟩, hn => by
    rw [readLinks, hm]
    simp only [map_cons, List.cons.injEq, true_and]
    exact h.read (by simpa using hn)

theorem Links.lt : ∀ {cs : List (Nat × α)} {p : Option Nat}, Links mem p cs →
    ∀ a ∈ cs.map Prod.fst, a < mem.length
  | (b, v) :: cs, _, ⟨_, m, hm, h⟩, a, ha => by
    rcases mem_cons.1 ha with rfl | ha
    · exact lt_of_some hm
    · exact h.lt a ha

/-- Distinct cells: no more than the memory has. -/
theorem Links.length_le {p : Option Nat} (h : Links mem p cs) (hn : (cs.map Prod.fst).Nodup) :
    cs.length ≤ mem.length := by
  have hs : cs.map Prod.fst ⊆ List.range mem.length := by
    intro a ha
    exact mem_range.2 (h.lt a ha)
  have := (subperm_of_subset hn hs).length_le
  simpa using this

/-- A cell behind the last one. -/
theorem Links.snoc {v w : α} {t : Nat} (ht : t < mem.length) :
    ∀ {cs : List (Nat × α)} {p : Option Nat}, Links mem p (cs ++ [(t, v)]) →
      ((cs ++ [(t, v)]).map Prod.fst).Nodup →
      Links (mem.modify t (fun c => { c with next := some mem.length }) ++ [⟨w, none⟩]) p
        (cs ++ [(t, v), (mem.length, w)])
  | [], _, ⟨hp, m, hm, _⟩, _ => by
    refine ⟨hp, some mem.length, ?_, rfl, none, ?_, rfl⟩
    · rw [getElem?_append_left (by simpa), getElem?_modify_eq, hm]
      rfl
    · rw [getElem?_append_right (by simp)]
      simp
  | (a, u) :: cs, _, ⟨hp, m, hm, h⟩, hn => by
    rw [cons_append, map_cons, nodup_cons] at hn
    obtain ⟨hna, hn⟩ := hn
    have hne : t ≠ a := by
      rintro rfl
      exact hna (by simp)
    have ha := lt_of_some hm
    refine ⟨hp, m, ?_, h.snoc ht hn⟩
    rw [getElem?_append_left (by simpa), getElem?_modify_ne _ _ hne, hm]

/-- The memory after `v` is linked behind the last cell. -/
def pushMem (mem : List (Cell α)) (tail : Option Nat) (v : α) : List (Cell α) :=
  (match tail with
    | some t => mem.modify t fun c => { c with next := some mem.length }
    | none => mem) ++ [⟨v, none⟩]

/-- The head after a push: unchanged, or the new cell when the queue was empty. -/
def pushHead (mem : List (Cell α)) (head tail : Option Nat) : Option Nat :=
  match tail with
  | some _ => head
  | none => some mem.length

theorem Links.push {head tail : Option Nat} (hl : Links mem head cs)
    (hn : (cs.map Prod.fst).Nodup) (ht : tail = (cs.map Prod.fst).getLast?) (v : α) :
    Links (pushMem mem tail v) (pushHead mem head tail) (cs ++ [(mem.length, v)]) := by
  rcases eq_nil_or_concat cs with rfl | ⟨cs, ⟨t, u⟩, rfl⟩
  · obtain rfl : tail = none := ht
    exact ⟨rfl, none, by simp [pushMem], rfl⟩
  · rw [concat_eq_append] at hl hn ht ⊢
    obtain rfl : tail = some t := by simpa using ht
    have hlt : t < mem.length := hl.lt t (by simp)
    have h := hl.snoc (w := v) hlt hn
    rwa [append_assoc]

/-- The new address is fresh. -/
theorem Links.push_nodup {head : Option Nat} (hl : Links mem head cs)
    (hn : (cs.map Prod.fst).Nodup) (v : α) : ((cs ++ [(mem.length, v)]).map Prod.fst).Nodup := by
  rw [map_append, nodup_append]
  refine ⟨hn, by simp, ?_⟩
  intro a ha b hb
  obtain rfl : b = mem.length := by simpa using hb
  exact Nat.ne_of_lt (hl.lt a ha)

end

/-- A queue: the cells allocated so far and the two pointers. -/
structure Queue (α : Type) where
  mem : List (Cell α)
  head : Option Nat
  tail : Option Nat
  linked : ∃ cs, Links mem head cs ∧ (cs.map Prod.fst).Nodup ∧ tail = (cs.map Prod.fst).getLast?

namespace Queue

section
variable {α : Type}

def empty : Queue α := ⟨[], none, none, [], rfl, List.nodup_nil, rfl⟩

def items (q : Queue α) : List α := readLinks q.mem q.mem.length q.head

theorem items_eq {q : Queue α} {cs : List (Nat × α)} (h : Links q.mem q.head cs)
    (hn : (cs.map Prod.fst).Nodup) : q.items = cs.map Prod.snd :=
  h.read (h.length_le hn)

@[simp] theorem items_empty : (empty : Queue α).items = [] := rfl

/-- Link a new cell behind the last one, or make it the first. -/
def push (q : Queue α) (v : α) : Queue α where
  mem := pushMem q.mem q.tail v
  head := pushHead q.mem q.head q.tail
  tail := some q.mem.length
  linked := by
    obtain ⟨cs, hl, hn, ht⟩ := q.linked
    exact ⟨_, hl.push hn ht v, hl.push_nodup hn v, by simp⟩

/-- **A push appends.** -/
@[simp] theorem items_push (q : Queue α) (v : α) : (q.push v).items = q.items ++ [v] := by
  obtain ⟨cs, hl, hn, ht⟩ := q.linked
  rw [items_eq (q := q.push v) (hl.push hn ht v) (hl.push_nodup hn v), items_eq hl hn]
  simp

/-- The links behind the first cell. -/
theorem linked_tail {mem : List (Cell α)} {head tail : Option Nat} {a : Nat} {c : Cell α}
    (h : ∃ cs, Links mem head cs ∧ (cs.map Prod.fst).Nodup ∧ tail = (cs.map Prod.fst).getLast?)
    (hh : head = some a) (hc : mem[a]? = some c) :
    ∃ cs, Links mem c.next cs ∧ (cs.map Prod.fst).Nodup ∧
      (if c.next = none then none else tail) = (cs.map Prod.fst).getLast? := by
  obtain ⟨cs, hl, hn, ht⟩ := h
  cases cs with
  | nil => cases hh.symm.trans hl
  | cons av cs =>
    obtain ⟨hp, m, hm, hl⟩ := hl
    obtain rfl : av.1 = a := Option.mem_unique hp hh
    obtain rfl : c = ⟨av.2, m⟩ := Option.mem_unique hc hm
    rw [map_cons, nodup_cons] at hn
    refine ⟨cs, hl, hn.2, ?_⟩
    cases cs with
    | nil =>
      obtain rfl : m = none := hl
      rfl
    | cons bw cs =>
      obtain rfl : m = some bw.1 := hl.1
      simpa using ht

/-- Unlink the first cell; `tail` is cleared with the last one. -/
def pop? (q : Queue α) : Option (α × Queue α) :=
  match hh : q.head with
  | none => none
  | some a =>
    match hc : q.mem[a]? with
    | none => none
    | some c => some (c.value, ⟨q.mem, c.next, if c.next = none then none else q.tail,
        linked_tail q.linked hh hc⟩)

/-- **A pop takes the first value**, and fails on the empty queue only. -/
theorem items_pop? (q : Queue α) :
    (q.pop? = none ∧ q.items = []) ∨
      ∃ v q', q.pop? = some (v, q') ∧ q.items = v :: q'.items := by
  obtain ⟨cs, hl, hn, ht⟩ := q.linked
  rw [items_eq hl hn]
  unfold pop?
  cases cs with
  | nil =>
    left
    have hh : q.head = none := hl
    split
    · exact ⟨rfl, rfl⟩
    · simp_all
  | cons av cs =>
    right
    obtain ⟨hp, m, hm, hl⟩ := hl
    rw [map_cons, nodup_cons] at hn
    split
    · simp_all
    · rename_i a ha
      obtain rfl : av.1 = a := Option.mem_unique hp ha
      split
      · simp_all
      · rename_i c hc
        obtain rfl : c = ⟨av.2, m⟩ := Option.mem_unique hc hm
        refine ⟨_, _, rfl, ?_⟩
        rw [items_eq hl hn.2]
        rfl

theorem items_of_pop? {q q' : Queue α} {v : α} (h : q.pop? = some (v, q')) :
    q.items = v :: q'.items := by
  rcases q.items_pop? with ⟨hnone, -⟩ | ⟨w, r, hsome, hitems⟩
  · cases h.symm.trans hnone
  · cases h.symm.trans hsome
    exact hitems

end

end Queue

end Lib
