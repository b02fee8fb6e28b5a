import Callwire.Java.Server
import Callwire.Lib.Iteration

/-!
# The iterator over an input queue of the Java server

`Worker.Holds vs n` is the invariant of a worker whose queue was given the values `vs` and then `n`
ends: the iterator stands where its log says, and its answers so far are right. What the connection
thread offers and what the iterator takes both keep it (`offer_value`, `offer_end`, `of_hasNext`,
`of_next`).
-/

namespace Callwire.Java

open Lib List Option

variable {V : Type}

def Event.answer : Event V → Answer (Option V)
  | .hasNext true => .more
  | .hasNext false => .stop
  | .next v => .value v
  | .noSuchElement => .stop

def given (log : List (Event V)) : List (Option V) := values (log.map Event.answer)

/-- What `next` answers after `n` values. -/
def nextOf (sent : List (Option V)) (n : Nat) : Event V :=
  match sent[n]? with
  | some v => .next v
  | none => .noSuchElement

theorem length_given_append (log : List (Event V)) (e : Event V) :
    (given (log ++ [e])).length = (given log).length + (given [e]).length := by
  rw [given, map_append, length_values_append]
  rfl

/-! ## The values in a queue -/

/-- The values `vs`, and then ends. -/
def marked (vs : List V) (n : Nat) : List (Input V) :=
  vs.map .value ++ List.replicate n .streamInputEnd

theorem marked_concat_value (vs : List V) (v : V) :
    marked vs 0 ++ [.value v] = marked (vs ++ [v]) 0 := by
  simp [marked]

theorem marked_concat_end (vs : List V) (n : Nat) :
    marked vs n ++ [.streamInputEnd] = marked vs (n + 1) := by
  rw [marked, marked, append_assoc, ← replicate_succ']

theorem length_marked (vs : List V) (n : Nat) : (marked vs n).length = vs.length + n := by
  rw [marked, length_append, length_map, length_replicate]

theorem marked_value {vs : List V} {n j : Nat} {v : V} (h : (marked vs n)[j]? = some (.value v)) :
    vs[j]? = some v := by
  rw [marked] at h
  by_cases hj : j < vs.length
  · rw [getElem?_append_left (by rwa [length_map]), getElem?_map,
      getElem?_eq_getElem hj] at h
    rw [getElem?_eq_getElem hj]
    exact congrArg some (Input.value.inj (some.inj h))
  · rw [getElem?_append_right (by rw [length_map]; exact Nat.le_of_not_lt hj)] at h
    cases eq_of_mem_replicate (mem_of_getElem? h)

theorem marked_end {vs : List V} {n j : Nat} (h : (marked vs n)[j]? = some .streamInputEnd) :
    vs.length ≤ j ∧ 0 < n := by
  have hj : vs.length ≤ j := by
    by_contra hj
    rw [marked, getElem?_append_left (by rw [length_map]; exact Nat.lt_of_not_le hj),
      getElem?_map] at h
    obtain ⟨v, -, hv⟩ := map_eq_some_iff.1 h
    cases hv
  have hlt := lt_of_some h
  rw [length_marked] at hlt
  exact ⟨hj, by omega⟩

/-! ## A worker -/

namespace Worker

/-- The queue was given `vs` and `n` ends, and the iterator stands where the log says. -/
structure Holds (vs : List V) (n : Nat) (w : Worker V) : Prop where
  put : w.queue.put = marked vs n
  taken : w.queue.taken = (given w.log).length + if w.iter.fetched || w.iter.done then 1 else 0
  ahead : w.iter.fetched = true → w.iter.done = false →
    ∃ v, w.iter.next = some v ∧ vs[(given w.log).length]? = some v
  atEnd : w.iter.done = true → (given w.log).length = vs.length ∧ 0 < n
  answers : Answers (vs.map some) (0 < n) 0 (w.log.map Event.answer)

theorem holds_start (id : BitVec 64) (bidi : Bool) (since : Nat) (pc : WorkerPc) :
    Holds [] 0 (start id bidi since pc : Worker V) where
  put := rfl
  taken := rfl
  ahead h := nomatch h
  atEnd h := nomatch h
  answers := trivial

theorem offer_eq {w : Worker V} {item : Input V} (h : ¬ w.queue.Full) :
    w.offer item = { w with queue := w.queue.push item } := by
  rw [offer, BoundedQueue.put?, if_neg h]

structure Kept (w w' : Worker V) : Prop where
  id : w'.id = w.id
  since : w'.since = w.since

theorem kept_offer (w : Worker V) (item : Input V) : Kept w (w.offer item) := by
  unfold offer
  split <;> exact ⟨rfl, rfl⟩

theorem kept_fetch {w w' : Worker V} (h : w.fetch = some w') : Kept w w' := by
  unfold fetch at h
  split at h
  · cases h
    exact ⟨rfl, rfl⟩
  · obtain ⟨⟨item, queue⟩, -, rfl⟩ := map_eq_some_iff.1 h
    cases item <;> exact ⟨rfl, rfl⟩

theorem kept_hasNext {w w' : Worker V} (h : w.hasNext = some w') : Kept w w' := by
  obtain ⟨w₁, hf, rfl⟩ := map_eq_some_iff.1 h
  have hkept := kept_fetch hf
  exact ⟨hkept.id, hkept.since⟩

theorem kept_next {w w' : Worker V} (h : w.next = some w') : Kept w w' := by
  obtain ⟨w₁, hf, rfl⟩ := map_eq_some_iff.1 h
  have hkept := kept_fetch hf
  split <;> exact ⟨hkept.id, hkept.since⟩

namespace Holds

variable {vs : List V} {n : Nat} {w w' : Worker V}

theorem offer_value (h : Holds vs 0 w) (hroom : ¬ w.queue.Full) (v : V) :
    Holds (vs ++ [v]) 0 (w.offer (.value v)) := by
  rw [offer_eq hroom]
  constructor
  case put =>
    rw [← marked_concat_value, ← h.put]
    rfl
  case taken => exact h.taken
  case ahead =>
    intro hf hd
    obtain ⟨v', hv', hvs⟩ := h.ahead hf hd
    exact ⟨v', hv', concat_of_some hvs⟩
  case atEnd =>
    intro hd
    exact absurd (h.atEnd hd).2 (Nat.lt_irrefl 0)
  case answers =>
    rw [map_append]
    exact h.answers.sent_concat (Nat.lt_irrefl 0)

section
variable (h : Holds vs n w)
include h

theorem push_end :
    Holds vs (n + 1) { w with queue := w.queue.push .streamInputEnd } where
  put := by
    rw [← marked_concat_end, ← h.put]
    rfl
  taken := h.taken
  ahead := h.ahead
  atEnd hd := ⟨(h.atEnd hd).1, Nat.succ_pos n⟩
  answers := h.answers.end_of fun _ => Nat.succ_pos n

theorem offer_end : ∃ n', n ≤ n' ∧ Holds vs n' (w.offer .streamInputEnd) := by
  by_cases hfull : w.queue.Full
  · have hsame : w.offer .streamInputEnd = w := by
      rw [offer, BoundedQueue.put?, if_pos hfull]
    rw [hsame]
    exact ⟨n, Nat.le_refl n, h⟩
  · rw [offer_eq hfull]
    exact ⟨n + 1, Nat.le_succ n, h.push_end⟩

theorem of_fetch (hf : w.fetch = some w') :
    Holds vs n w' ∧ w'.log = w.log ∧ (w'.iter.done = false → w'.iter.fetched = true) := by
  unfold fetch at hf
  split at hf
  · rename_i hat
    cases hf
    refine ⟨h, rfl, fun hd => ?_⟩
    rwa [hd, Bool.or_false] at hat
  · rename_i hat
    obtain ⟨⟨item, queue⟩, hget, hw⟩ := map_eq_some_iff.1 hf
    obtain ⟨hitem, -, hput, htaken⟩ := BoundedQueue.get?_eq_some hget
    have htaken₀ := h.taken
    rw [if_neg hat, Nat.add_zero] at htaken₀
    rw [htaken₀] at hitem htaken
    rw [h.put] at hitem
    cases item with
    | streamInputEnd =>
      subst hw
      obtain ⟨hlen, hpos⟩ := marked_end hitem
      have hle : (given w.log).length ≤ vs.length := by
        have := h.answers.values_prefix.length_le
        rwa [length_map] at this
      exact ⟨⟨hput.trans h.put, htaken, nofun,
        fun _ => ⟨Nat.le_antisymm hle hlen, hpos⟩, h.answers⟩, rfl, fun _ => rfl⟩
    | value v =>
      subst hw
      have hdone : w.iter.done = false := by
        rw [Bool.or_eq_true, not_or] at hat
        exact Bool.eq_false_iff.2 hat.2
      refine ⟨⟨hput.trans h.put, htaken, fun _ _ => ⟨v, rfl, marked_value hitem⟩, fun hd => ?_,
        h.answers⟩, rfl, fun _ => rfl⟩
      rw [show w.iter.done = true from hd] at hdone
      cases hdone

theorem answer {e : Event V} (hnone : given [e] = [])
    (he : e.answer.Right (vs.map some) (0 < n) (given w.log).length) :
    Holds vs n { w with log := w.log ++ [e] } := by
  have hlog : (given (w.log ++ [e])).length = (given w.log).length := by
    rw [length_given_append, hnone]
    rfl
  constructor
  case put => exact h.put
  case taken => exact hlog ▸ h.taken
  case ahead => exact hlog ▸ h.ahead
  case atEnd => exact hlog ▸ h.atEnd
  case answers =>
    rw [map_append]
    exact h.answers.concat ((Nat.zero_add _).symm ▸ he)

theorem of_hasNext (hn : w.hasNext = some w') :
    Holds vs n w' ∧ w'.log = w.log ++ [.hasNext (decide ((given w.log).length < vs.length))] := by
  obtain ⟨w₁, hf, rfl⟩ := map_eq_some_iff.1 hn
  obtain ⟨h₁, hlog, hfetched⟩ := h.of_fetch hf
  rw [hlog]
  refine ⟨hlog ▸ h₁.answer (by cases w₁.iter.done <;> rfl) ?_, ?_⟩
  · cases hd : w₁.iter.done with
    | true =>
      obtain ⟨hlen, hpos⟩ := h₁.atEnd hd
      exact ⟨by rw [hlen, length_map], hpos⟩
    | false =>
      obtain ⟨v, -, hv⟩ := h₁.ahead (hfetched hd) hd
      show (given w₁.log).length < (vs.map some).length
      rw [length_map]
      exact lt_of_some hv
  · cases hd : w₁.iter.done with
    | true =>
      rw [← hlog, (h₁.atEnd hd).1, decide_eq_false (Nat.lt_irrefl _)]
      rfl
    | false =>
      obtain ⟨v, -, hv⟩ := h₁.ahead (hfetched hd) hd
      rw [← hlog, decide_eq_true (lt_of_some hv)]
      rfl

theorem of_next (hn : w.next = some w') :
    Holds vs n w' ∧ w'.log = w.log ++ [nextOf (vs.map some) ((given w.log).length)] := by
  obtain ⟨w₁, hf, hw⟩ := map_eq_some_iff.1 hn
  obtain ⟨h₁, hlog, hfetched⟩ := h.of_fetch hf
  split at hw
  · rename_i hd
    obtain ⟨hlen, hpos⟩ := h₁.atEnd hd
    subst hw
    refine ⟨h₁.answer rfl ⟨by rw [hlen, length_map], hpos⟩, ?_⟩
    rw [← hlog, nextOf, hlen, getElem?_eq_none (by rw [length_map])]
  · rename_i hd
    rw [Bool.not_eq_true] at hd
    obtain ⟨v, hnext, hv⟩ := h₁.ahead (hfetched hd) hd
    have hsent : (vs.map some)[(given w₁.log).length]? = some (some v) := by
      rw [getElem?_map, hv]
      rfl
    subst hw
    rw [hnext]
    refine ⟨?_, by rw [← hlog, nextOf, hsent]⟩
    have hgiven : (given (w₁.log ++ [.next (some v)])).length = (given w₁.log).length + 1 :=
      length_given_append ..
    constructor
    case put => exact h₁.put
    case taken =>
      rw [hgiven]
      refine h₁.taken.trans ?_
      rw [hfetched hd, hd]
      rfl
    case ahead => simp
    case atEnd =>
      intro hd'
      cases hd.symm.trans hd'
    case answers =>
      rw [map_append]
      exact h₁.answers.concat ((Nat.zero_add _).symm ▸ hsent)

theorem fetches (hpos : 0 < n) : ∃ w', w.fetch = some w' := by
  unfold fetch
  split
  · exact ⟨w, rfl⟩
  · rename_i hat
    have htaken := h.taken
    rw [if_neg hat, Nat.add_zero] at htaken
    have hle := h.answers.values_prefix.length_le
    rw [length_map] at hle
    have hlt : w.queue.taken < w.queue.put.length := by
      rw [h.put, length_marked, htaken, given]
      omega
    obtain ⟨queue, hget⟩ := BoundedQueue.get?_of_getElem? (getElem?_eq_getElem hlt)
    rw [hget]
    exact ⟨_, rfl⟩

end

end Holds

end Worker

end Callwire.Java
