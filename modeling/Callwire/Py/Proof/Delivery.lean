import Mathlib.Data.List.TakeWhile
import Callwire.Lib.Dues
import Callwire.Py.Proof.ClientStep

/-!
# What the queues of the Python client are given

A queue is registered to be given one final item, a message other than a `stream_chunk` or `DONE`.
The debt is with `_pending` until a thread takes it from there: the reader with such a message, or
`_drain_pending` or `close` with `DONE`. `Post.owed` lists the queues whose debt is with one of
these, and `Post.Sound.once` says that a queue is given one final item at most. A message that the
reader has looked up a queue for before may follow it, but only one (`Post.Sound.late`). The
messages in a queue are those that the reader has handled for its id, in order
(`Post.Sound.replies`).
-/

namespace Callwire.Py

open Lib List ReaderPc Slot Function

variable {P : Python}

def WireMessage.Chunk (m : WireMessage P) : Prop := m.type = some "stream_chunk"

instance (m : WireMessage P) : Decidable m.Chunk := inferInstanceAs (Decidable (_ = _))

namespace Item

def final : Item P → Bool
  | .done => true
  | .msg m => !decide m.Chunk

def msg? : Item P → Option (WireMessage P)
  | .done => none
  | .msg m => some m

theorem final_msg {m : WireMessage P} : (Item.msg m).final = !decide m.Chunk := rfl

end Item

def Slot.finals (slot : Slot P) : Nat := (slot.queue.put.filter Item.final).length

/-- The items from the first final one on. -/
def Slot.ending (slot : Slot P) : List (Item P) := slot.queue.put.dropWhile fun i => !i.final

def Slot.msgs (slot : Slot P) : List (WireMessage P) := slot.queue.put.filterMap Item.msg?

def Slot.push (slot : Slot P) (item : Item P) : Slot P :=
  { slot with queue := slot.queue.push item }

section
variable {slot : Slot P} {item : Item P}

theorem Slot.finals_push : (slot.push item).finals = slot.finals + if item.final then 1 else 0 := by
  rw [finals, finals, push, BoundedQueue.push, filter_append, length_append]
  cases h : item.final <;> simp [h]

theorem Slot.msgs_push : (slot.push item).msgs = slot.msgs ++ item.msg?.toList := by
  rw [msgs, msgs, push, BoundedQueue.push, filterMap_append]
  cases h : item.msg? <;> simp [h]

theorem Slot.ending_eq_nil : slot.ending = [] ↔ slot.finals = 0 := by
  simp [ending, finals, length_eq_zero_iff, dropWhile_eq_nil_iff]

theorem Slot.ending_push_of_paid (h : slot.finals ≠ 0) :
    (slot.push item).ending = slot.ending ++ [item] := by
  rw [ending, ending, push, BoundedQueue.push, dropWhile_append, if_neg]
  rw [List.isEmpty_iff]
  exact fun he => h (ending_eq_nil.1 he)

theorem Slot.ending_push_of_unpaid (h : slot.finals = 0) :
    (slot.push item).ending.length = if item.final then 1 else 0 := by
  have he : slot.ending = [] := ending_eq_nil.2 h
  rw [ending] at he
  rw [ending, push, BoundedQueue.push, dropWhile_append, if_pos (by rw [he]; rfl)]
  cases hf : item.final <;> simp [hf]

end

/-! ## Debts -/

/-- The queues whose final item the reader holds. -/
def ReaderPc.owes : ReaderPc P → List Nat
  | .putting q m => if m.Chunk then [] else [q]
  | .draining rest => rest
  | _ => []

/-- The message that the reader holds for a queue. -/
def ReaderPc.inHand (q : Nat) : ReaderPc P → List (WireMessage P)
  | .putting q' m => if q' = q then [m] else []
  | _ => []

variable {r : ReaderPc P}

theorem ReaderPc.Idle.owes_eq (h : r.Idle) : r.owes = [] := by
  cases r <;> first | rfl | exact h.elim

theorem ReaderPc.Idle.inHand_eq (h : r.Idle) (q : Nat) : r.inHand q = [] := by
  cases r <;> first | rfl | exact h.elim

theorem ReaderPc.inHand_length_le (r : ReaderPc P) (q : Nat) : (r.inHand q).length ≤ 1 := by
  cases r with
  | putting q' m =>
    rw [inHand]
    split <;> simp
  | _ => exact Nat.zero_le _

def paidIn (slots : List (Slot P)) (q : Nat) : Nat := ((slots[q]?).map finals).getD 0

section
variable {slots : List (Slot P)} {q : Nat} {slot slot' : Slot P}

section
variable (h : slots[q]? = some slot)
include h

theorem paidIn_of_some : paidIn slots q = slot.finals := by
  rw [paidIn, h]
  rfl

theorem paidIn_set :
    paidIn (slots.set q slot') = update (paidIn slots) q slot'.finals := by
  funext k
  by_cases hk : k = q
  · subst hk
    rw [update_self]
    exact paidIn_of_some (set_of_some h)
  · rw [update_of_ne hk, paidIn, getElem?_set_ne (Ne.symm hk), paidIn]

theorem paidIn_set_of_eq (hf : slot'.finals = slot.finals) :
    paidIn (slots.set q slot') = paidIn slots := by
  rw [paidIn_set h, hf, ← paidIn_of_some h, update_eq_self]

theorem paidIn_set_push {item : Item P} (hf : item.final = true) :
    paidIn (slots.set q (slot.push item)) =
      update (paidIn slots) q (paidIn slots q + 1) := by
  rw [paidIn_set h, finals_push, hf, paidIn_of_some h]
  rfl

end

theorem paidIn_concat (h : slot.finals = 0) : paidIn (slots ++ [slot]) = paidIn slots := by
  funext k
  rw [paidIn, paidIn]
  rcases Nat.lt_trichotomy k slots.length with hlt | rfl | hgt
  · rw [getElem?_append_left hlt]
  · rw [getElem?_concat_length, getElem?_eq_none (Nat.le_refl _)]
    exact h
  · rw [getElem?_eq_none (Nat.le_of_lt hgt),
      getElem?_eq_none (by rw [length_append, length_singleton]; exact hgt)]

end

/-- The queues that are registered, without those that are being drained. -/
def ReaderPc.registered (pending : List Nat) : ReaderPc P → List Nat
  | .draining _ => []
  | _ => pending

theorem ReaderPc.registered_of_free (h : ∀ rest, r ≠ .draining rest) (pending : List Nat) :
    r.registered pending = pending := by
  cases r <;> first | rfl | exact absurd rfl (h _)

theorem ReaderPc.Idle.free (h : r.Idle) : ∀ rest, r ≠ .draining rest := by
  rintro rest rfl
  exact h

namespace Post

/-- The queues that somebody has still to give a final item. -/
def owed (p : Post P) : List Nat :=
  p.reader.registered p.pending ++ (p.reader.owes ++ p.closes.flatMap ClosePc.rest)

theorem owed_of_idle {p : Post P} (h : p.reader.Idle) :
    p.owed = p.pending ++ p.closes.flatMap ClosePc.rest := by
  rw [owed, registered_of_free h.free, h.owes_eq, nil_append]

theorem rest_split {closes : List ClosePc} {i : Nat} {pc : ClosePc} (hpc : closes[i]? = some pc) :
    ∃ others, (closes.flatMap ClosePc.rest).Perm (pc.rest ++ others) ∧
      ∀ pc', ((closes.set i pc').flatMap ClosePc.rest).Perm (ClosePc.rest pc' ++ others) := by
  obtain ⟨hi, rfl⟩ := List.getElem?_eq_some_iff.1 hpc
  have hset : ∀ pc', closes.set i pc' = closes.take i ++ pc' :: closes.drop (i + 1) :=
    fun pc' => set_eq_take_append_cons_drop.trans (if_pos hi)
  have hperm : ∀ pc', ((closes.set i pc').flatMap ClosePc.rest).Perm (ClosePc.rest pc' ++
      ((closes.take i).flatMap ClosePc.rest ++ (closes.drop (i + 1)).flatMap ClosePc.rest)) := by
    intro pc'
    rw [hset, flatMap_append, flatMap_cons]
    exact perm_append_comm_assoc ..
  refine ⟨_, ?_, hperm⟩
  have hself := hperm closes[i]
  rwa [set_getElem_self] at hself

/-- What a move does to the debts. -/
inductive Dues (p : Post P) : PostEvent P → Post P → Prop
  | keep {e : PostEvent P} {p' : Post P} (howed : p'.owed.Perm p.owed)
      (hpaid : paidIn p'.slots = paidIn p.slots) : Dues p e p'
  | owe {e : PostEvent P} {p' : Post P} (howed : p'.owed.Perm (p.slots.length :: p.owed))
      (hpaid : paidIn p'.slots = paidIn p.slots) (hlen : p.slots.length < p'.slots.length) :
      Dues p e p'
  | pay {e : PostEvent P} {p' : Post P} {q : Nat} (howed : p.owed.Perm (q :: p'.owed))
      (hpaid : paidIn p'.slots = update (paidIn p.slots) q (paidIn p.slots q + 1)) :
      Dues p e p'
  | drop {q : Nat} {p' : Post P} (howed : p'.owed.Subperm p.owed)
      (hrest : ∀ k ∈ p.owed, k = q ∨ k ∈ p'.owed) (hpaid : paidIn p'.slots = paidIn p.slots) :
      Dues p (.pop q) p'

theorem Moves.dues {p p' : Post P} {e : PostEvent P} (h : p.Moves e p') : p.Dues e p' := by
  cases h with
  | same => exact .keep (List.Perm.refl _) rfl
  | reader hidle hidle' =>
    have howed := owed_of_idle (p := { p with reader := _ }) hidle'
    exact .keep (Perm.of_eq (howed.trans (owed_of_idle hidle).symm)) rfl
  | close =>
    refine .keep ?_ rfl
    rw [owed, owed, flatMap_append]
    exact Perm.of_eq (congrArg _ (congrArg _ (append_nil _)))
  | closeNext hpc hrest =>
    refine .keep ?_ rfl
    rw [owed, owed, flatMap_def, map_set_of_eq _ hpc hrest, ← flatMap_def]
  | register hfree =>
    refine .owe ?_ (paidIn_concat rfl) (by rw [length_append]; exact Nat.lt_succ_self _)
    rw [owed, owed, registered_of_free hfree, registered_of_free hfree,
      append_assoc]
    exact perm_middle
  | take hslot hget =>
    obtain ⟨-, -, hput, -⟩ := BoundedQueue.get?_eq_some hget
    refine .keep (List.Perm.refl _) (paidIn_set_of_eq hslot ?_)
    rw [finals, finals, hput]
  | pop hfree =>
    rename_i q
    have howed : p.owed = p.pending ++ (p.reader.owes ++ p.closes.flatMap ClosePc.rest) := by
      rw [owed, registered_of_free hfree]
    have howed' : Post.owed { p with pending := p.pending.erase q } = p.pending.erase q ++
        (p.reader.owes ++ p.closes.flatMap ClosePc.rest) := by
      rw [owed, registered_of_free hfree]
    refine .drop ?_ (fun k hk => ?_) rfl
    · rw [howed, howed']
      exact (List.erase_sublist.append_right _).subperm
    · rw [howed', mem_append]
      rcases mem_append.1 (howed ▸ hk) with hk | hk
      · by_cases he : k = q
        · exact .inl he
        · exact .inr (.inl ((mem_erase_of_ne he).2 hk))
      · exact .inr (.inr hk)
  | @dispatch q m hidle hid hq =>
    refine .keep ?_ rfl
    rw [owed_of_idle hidle]
    change ((if m.Chunk then p.pending else p.pending.erase q) ++
      ((if m.Chunk then [] else [q]) ++ _)).Perm _
    by_cases hm : m.Chunk
    · rw [if_pos hm, if_pos hm, nil_append]
    · rw [if_neg hm, if_neg hm]
      exact perm_middle.trans ((perm_cons_erase hq).symm.append_right _)
  | @deliver q m slot hreader hslot =>
    have howed : p.owed = p.pending ++ ((if m.Chunk then [] else [q]) ++
        p.closes.flatMap ClosePc.rest) := by
      rw [owed, hreader]
      rfl
    by_cases hm : m.Chunk
    · have hf : (Item.msg m).final = false := by rw [Item.final_msg, decide_eq_true hm]; rfl
      have hfinals : (slot.push (.msg m)).finals = slot.finals := by
        rw [finals_push, hf]
        rfl
      refine .keep ?_ (paidIn_set_of_eq hslot hfinals)
      rw [howed, if_pos hm]
      exact List.Perm.refl _
    · have hf : (Item.msg m).final = true := by rw [Item.final_msg, decide_eq_false hm]; rfl
      refine .pay (q := q) ?_ (paidIn_set_push hslot hf)
      rw [howed, if_neg hm]
      exact perm_middle
  | drainStart hidle =>
    refine .keep ?_ rfl
    rw [owed_of_idle hidle]
    exact List.Perm.refl _
  | @drainPut q rest slot hreader hslot =>
    refine .pay (q := q) ?_ (paidIn_set_push hslot rfl)
    rw [owed, hreader]
    exact List.Perm.refl _
  | drainEnd hreader =>
    refine .keep ?_ rfl
    rw [owed, owed, hreader]
    exact List.Perm.refl _
  | closeClear hfree hclose =>
    refine .keep ?_ rfl
    rw [owed, owed, registered_of_free hfree, registered_of_free hfree]
    obtain ⟨others, hold, hnew⟩ := rest_split hclose
    refine ((hnew (.putting p.pending)).append_left _).append_left _ |>.trans ?_
    refine List.Perm.trans ?_ ((hold.symm.append_left _).append_left _)
    exact perm_append_comm_assoc p.reader.owes p.pending others
  | @closePut i q rest slot hclose hslot =>
    refine .pay (q := q) ?_ (paidIn_set_push hslot rfl)
    obtain ⟨others, hold, hnew⟩ := rest_split hclose
    refine ((hold.append_left _).append_left _).trans ?_
    refine List.Perm.trans ?_
      ((((hnew (.putting rest)).symm.append_left _).append_left _).cons q)
    exact (perm_middle.append_left _).trans perm_middle

/-! ## The invariant -/

structure Sound (p : Post P) : Prop where
  once : Once p.owed (paidIn p.slots)
  known : ∀ q ∈ p.owed, q < p.slots.length
  held : ∀ q m, p.reader = .putting q m → q < p.slots.length
  late : ∀ q slot, p.slots[q]? = some slot → slot.finals ≠ 0 →
    slot.ending.length + (p.reader.inHand q).length ≤ 2
  replies : ∀ q slot, p.slots[q]? = some slot →
    slot.msgs ++ p.reader.inHand q = p.handled.filter fun m => m.id = q + 1
  handled : ∀ m ∈ p.handled, m.id ≤ p.slots.length

section
variable {p p' : Post P} {e : PostEvent P} {q : Nat}

theorem Moves.length_le (h : p.Moves e p') : p.slots.length ≤ p'.slots.length := by
  cases h with
  | register => exact length_append ▸ Nat.le_add_right ..
  | take | deliver | drainPut | closePut =>
    exact Nat.le_of_eq length_set.symm
  | _ => exact Nat.le_refl _

theorem Moves.registers (h : p.Moves e p') (hlt : p.slots.length < p'.slots.length) :
    ∃ i kind, e = .register i kind := by
  cases h with
  | register => exact ⟨_, _, rfl⟩
  | take | deliver | drainPut | closePut =>
    exact absurd hlt (Nat.not_lt_of_le (Nat.le_of_eq length_set))
  | _ => exact absurd hlt (Nat.lt_irrefl _)

theorem Sound.finals_eq_zero (h : p.Sound) {slot : Slot P} (hq : q ∈ p.owed)
    (hslot : p.slots[q]? = some slot) : slot.finals = 0 :=
  (paidIn_of_some hslot).symm.trans (h.once.unpaid q hq)

theorem mem_owed_of_idle (hidle : p.reader.Idle) (hq : q ∈ p.pending) : q ∈ p.owed := by
  rw [owed_of_idle hidle]
  exact mem_append_left _ hq

theorem mem_owed_of_draining {rest : List Nat} (hreader : p.reader = .draining (q :: rest)) :
    q ∈ p.owed := by
  rw [owed, hreader]
  exact mem_cons_self ..

theorem mem_owed_of_close {i : Nat} {rest : List Nat}
    (hclose : p.closes[i]? = some (.putting (q :: rest))) : q ∈ p.owed := by
  have hmem : q ∈ p.closes.flatMap ClosePc.rest :=
    mem_flatMap.2 ⟨_, mem_of_getElem? hclose, mem_cons_self ..⟩
  exact mem_append_right _ (mem_append_right _ hmem)

theorem mem_owed_of_putting {m : WireMessage P} (hreader : p.reader = .putting q m)
    (hm : ¬ m.Chunk) : q ∈ p.owed := by
  rw [owed, hreader, owes, if_neg hm]
  exact mem_append_right _ (mem_cons_self ..)

section
variable (h : p.Sound) (hm : p.Moves e p')
include h hm

theorem Sound.step_once : Once p'.owed (paidIn p'.slots) ∧ ∀ q ∈ p'.owed, q < p'.slots.length := by
  have hknown : ∀ q ∈ p.owed, q < p'.slots.length :=
    fun q hq => Nat.lt_of_lt_of_le (h.known q hq) hm.length_le
  cases hm.dues with
  | keep howed hpaid =>
    rw [hpaid]
    exact ⟨h.once.mono howed.subperm, fun q hq => hknown q (howed.mem_iff.1 hq)⟩
  | owe howed hpaid hlen =>
    have hnew : p.slots.length ∉ p.owed := fun hq => Nat.lt_irrefl _ (h.known _ hq)
    have hzero : paidIn p.slots p.slots.length = 0 := by
      rw [paidIn, getElem?_eq_none (Nat.le_refl _)]
      rfl
    rw [hpaid]
    refine ⟨(h.once.owe hnew hzero).mono howed.subperm, fun q hq => ?_⟩
    rcases mem_cons.1 (howed.mem_iff.1 hq) with rfl | hq
    · exact hlen
    · exact hknown q hq
  | pay howed hpaid =>
    rw [hpaid]
    exact ⟨h.once.pay howed, fun q hq => hknown q (howed.mem_iff.2 (mem_cons_of_mem _ hq))⟩
  | drop howed hrest hpaid =>
    rw [hpaid]
    exact ⟨h.once.mono howed, fun q hq => hknown q (howed.subset hq)⟩

theorem Sound.step_late :
    ∀ q slot, p'.slots[q]? = some slot → slot.finals ≠ 0 →
      slot.ending.length + (p'.reader.inHand q).length ≤ 2 := by
  intro k s hk hs
  -- `DONE` is put into a queue that has no final item
  have hdone : ∀ {q : Nat} {slot : Slot P} {r : ReaderPc P}, p.slots[q]? = some slot → q ∈ p.owed →
      r.inHand k = p.reader.inHand k → (p.slots.set q (slot.push .done))[k]? = some s →
      s.ending.length + (r.inHand k).length ≤ 2 := by
    intro q slot r hslot hq hr hk
    rcases set_cases hslot hk with ⟨rfl, rfl⟩ | ⟨-, hk⟩
    · have hlen : (slot.push .done).ending.length = 1 :=
        ending_push_of_unpaid (h.finals_eq_zero hq hslot)
      have hhand := inHand_length_le r q
      omega
    · rw [hr]
      exact h.late k s hk hs
  cases hm with
  | same | close | closeNext | pop | closeClear => exact h.late k s hk hs
  | reader hidle hidle' =>
    have := h.late k s hk hs
    rw [hidle.inHand_eq] at this
    rw [hidle'.inHand_eq]
    exact this
  | register hfree =>
    rcases concat_cases hk with hk | ⟨-, rfl⟩
    · exact h.late k s hk hs
    · exact absurd rfl hs
  | take hslot hget =>
    obtain ⟨-, -, hput, -⟩ := BoundedQueue.get?_eq_some hget
    rcases set_cases hslot hk with ⟨rfl, rfl⟩ | ⟨-, hk⟩
    · have := h.late _ _ hslot (by rwa [finals, hput] at hs)
      rwa [ending, ← hput] at this
    · exact h.late k s hk hs
  | @dispatch q m hidle hid hq =>
    by_cases hkq : q = k
    · subst hkq
      exact absurd (h.finals_eq_zero (mem_owed_of_idle hidle hq) hk) hs
    · have := h.late k s hk hs
      rw [hidle.inHand_eq] at this
      change s.ending.length + (if q = k then [m] else []).length ≤ 2
      rw [if_neg hkq]
      exact this
  | @deliver q m slot hreader hslot =>
    rcases set_cases hslot hk with ⟨rfl, rfl⟩ | ⟨hne, hk⟩
    · change (slot.push (.msg m)).ending.length + 0 ≤ 2
      by_cases hpaid : slot.finals = 0
      · rw [ending_push_of_unpaid hpaid]
        split <;> simp
      · have := h.late q slot hslot hpaid
        rw [hreader, inHand, if_pos rfl] at this
        rw [ending_push_of_paid hpaid, length_append]
        exact this
    · have := h.late k s hk hs
      rwa [hreader, inHand, if_neg hne] at this
  | drainStart hidle =>
    have := h.late k s hk hs
    rwa [hidle.inHand_eq] at this
  | drainPut hreader hslot =>
    exact hdone hslot (mem_owed_of_draining hreader) (by rw [hreader]; rfl) hk
  | drainEnd hreader =>
    have := h.late k s hk hs
    rwa [hreader] at this
  | closePut hclose hslot => exact hdone hslot (mem_owed_of_close hclose) rfl hk

theorem Sound.step_replies :
    ∀ q slot, p'.slots[q]? = some slot →
      slot.msgs ++ p'.reader.inHand q = p'.handled.filter fun m => m.id = q + 1 := by
  intro k s hk
  have hdone : ∀ {q : Nat} {slot : Slot P} {r : ReaderPc P}, p.slots[q]? = some slot →
      r.inHand k = p.reader.inHand k → (p.slots.set q (slot.push .done))[k]? = some s →
      s.msgs ++ r.inHand k = p.handled.filter fun m => m.id = k + 1 := by
    intro q slot r hslot hr hk
    rw [hr]
    rcases set_cases hslot hk with ⟨rfl, rfl⟩ | ⟨-, hk⟩
    · rw [msgs_push, ← h.replies q slot hslot]
      simp [Item.msg?]
    · exact h.replies k s hk
  cases hm with
  | same | close | closeNext | pop | closeClear => exact h.replies k s hk
  | reader hidle hidle' =>
    have := h.replies k s hk
    rw [hidle.inHand_eq] at this
    rw [hidle'.inHand_eq]
    exact this
  | register hfree =>
    rcases concat_cases hk with hk | ⟨rfl, rfl⟩
    · exact h.replies k s hk
    · have hhand : p.reader.inHand p.slots.length = [] := by
        cases hr : p.reader with
        | putting q m => exact if_neg (Nat.ne_of_lt (h.held q m hr))
        | _ => rfl
      change [] ++ p.reader.inHand p.slots.length = _
      rw [hhand, nil_append, eq_comm, filter_eq_nil_iff]
      intro m hm
      have := h.handled m hm
      simp only [decide_eq_true_eq]
      omega
  | take hslot hget =>
    obtain ⟨-, -, hput, -⟩ := BoundedQueue.get?_eq_some hget
    rcases set_cases hslot hk with ⟨rfl, rfl⟩ | ⟨-, hk⟩
    · rw [msgs, hput]
      exact h.replies _ _ hslot
    · exact h.replies k s hk
  | @dispatch q m hidle hid hq =>
    have := h.replies k s hk
    rw [hidle.inHand_eq, append_nil] at this
    change s.msgs ++ (if q = k then [m] else []) = (p.handled ++ [m]).filter _
    rw [this, filter_append, filter_singleton, hid]
    simp
  | @deliver q m slot hreader hslot =>
    rcases set_cases hslot hk with ⟨rfl, rfl⟩ | ⟨hne, hk⟩
    · have := h.replies q slot hslot
      rw [hreader, inHand, if_pos rfl] at this
      change (slot.push (.msg m)).msgs ++ [] = _
      rw [append_nil, msgs_push]
      exact this
    · have := h.replies k s hk
      rwa [hreader, inHand, if_neg hne] at this
  | drainStart hidle =>
    have := h.replies k s hk
    rwa [hidle.inHand_eq] at this
  | drainPut hreader hslot => exact hdone hslot (by rw [hreader]; rfl) hk
  | drainEnd hreader =>
    have := h.replies k s hk
    rwa [hreader] at this
  | closePut hclose hslot => exact hdone hslot rfl hk

theorem Sound.step_held :
    (∀ q m, p'.reader = .putting q m → q < p'.slots.length) ∧
      ∀ m ∈ p'.handled, m.id ≤ p'.slots.length := by
  have hlen := hm.length_le
  have hhandled : ∀ m ∈ p.handled, m.id ≤ p'.slots.length :=
    fun m hm => Nat.le_trans (h.handled m hm) hlen
  have hheld : ∀ q m, p.reader = .putting q m → q < p'.slots.length :=
    fun q m hr => Nat.lt_of_lt_of_le (h.held q m hr) hlen
  cases hm with
  | @reader r hidle hidle' =>
    refine ⟨fun q m hr => ?_, hhandled⟩
    obtain rfl : r = .putting q m := hr
    exact hidle'.elim
  | @dispatch q m hidle hid hq =>
    have hlt : q < p.slots.length := h.known q (mem_owed_of_idle hidle hq)
    refine ⟨fun q' m' hr => ?_, forall_concat hhandled ?_⟩
    · cases hr
      exact hlt
    · rw [hid]
      exact hlt
  | deliver | drainStart | drainPut | drainEnd => exact ⟨nofun, hhandled⟩
  | _ => exact ⟨hheld, hhandled⟩

theorem Sound.step : p'.Sound where
  once := (h.step_once hm).1
  known := (h.step_once hm).2
  held := (h.step_held hm).1
  late := h.step_late hm
  replies := h.step_replies hm
  handled := (h.step_held hm).2

end

end

theorem sound_init : (Client.init : Client P).post.Sound where
  once := ⟨nodup_nil, nofun, fun _ => Nat.zero_le 1⟩
  known _ h := nomatch h
  held := nofun
  late _ _ h := nomatch h
  replies _ _ h := nomatch h
  handled _ h := nomatch h

end Post

theorem Client.sound {imports : List CodecName} {reconnect : Bool} {ls : List (Label P)}
    {c : Client P} (h : run (step imports reconnect) .init ls = some c) : c.post.Sound := by
  have hstep : ∀ (c : Client P) l c', c.post.Sound →
      step imports reconnect c l = some c' → c'.post.Sound := by
    intro c l c' hc hs
    obtain ⟨e, hm, -⟩ := step_post hs
    exact hc.step hm
  exact run_kept hstep Post.sound_init h

end Callwire.Py
