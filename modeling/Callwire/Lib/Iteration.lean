import Callwire.Lib.ArrayUpdate
import Mathlib.Data.List.Basic

/-!
# An iterator over a list that grows

An iterator is asked while the list it goes over is still being sent. `Answers sent ended 0 log`
says that every answer in `log` is right in the light of all that was sent: a value is the one that
comes next, there is more only where a value follows, and it is over only after the last value, once
no more can come (`ended`). Then the values given are the first ones that were sent
(`values_prefix`).
-/

namespace Lib

open List

variable {α : Type}

/-- What an iterator answers: that there is a value, the next value, or that there are no more. -/
inductive Answer (α : Type) where
  | more
  | value (a : α)
  | stop
deriving DecidableEq

/-- The answer of an iterator that has given `n` of the values `sent`; `ended` if there are no
more to come. -/
def Answer.Right (sent : List α) (ended : Prop) (n : Nat) : Answer α → Prop
  | .more => n < sent.length
  | .value a => sent[n]? = some a
  | .stop => n = sent.length ∧ ended

def values (log : List (Answer α)) : List α :=
  log.filterMap fun
    | .value a => some a
    | _ => none

/-- The answers are those of an iterator over `sent` that has given `n` values. -/
def Answers (sent : List α) (ended : Prop) : Nat → List (Answer α) → Prop
  | _, [] => True
  | n, e :: log => e.Right sent ended n ∧ Answers sent ended (n + (values [e]).length) log

theorem values_append (log log' : List (Answer α)) :
    values (log ++ log') = values log ++ values log' := filterMap_append

theorem length_values_append (log log' : List (Answer α)) :
    (values (log ++ log')).length = (values log).length + (values log').length := by
  rw [values_append, length_append]

namespace Answers

variable {sent sent' : List α} {ended ended' : Prop} {log : List (Answer α)}

theorem concat {e : Answer α} : ∀ {log : List (Answer α)} {n : Nat}, Answers sent ended n log →
    e.Right sent ended (n + (values log).length) → Answers sent ended n (log ++ [e])
  | [], _, _, he => ⟨he, trivial⟩
  | e' :: log, n, h, he => by
    refine ⟨h.1, h.2.concat ?_⟩
    rwa [Nat.add_assoc, ← length_values_append]

theorem mono (hright : ∀ n (e : Answer α), e.Right sent ended n → e.Right sent' ended' n) :
    ∀ {log : List (Answer α)} {n : Nat}, Answers sent ended n log → Answers sent' ended' n log
  | [], _, _ => trivial
  | e :: _, n, h => ⟨hright n e h.1, h.2.mono hright⟩

/-- Nothing new was sent, and there may be no more to come now. -/
theorem end_of {n : Nat} (h : Answers sent ended n log) (hended : ended → ended') :
    Answers sent ended' n log := by
  refine h.mono fun n e he => ?_
  cases e with
  | more => exact he
  | value a => exact he
  | stop => exact ⟨he.1, hended he.2⟩

/-- One more value is sent. -/
theorem sent_concat {n : Nat} {a : α} (h : Answers sent ended n log) (hended : ¬ ended) :
    Answers (sent ++ [a]) ended' n log := by
  refine h.mono fun n e he => ?_
  cases e with
  | more =>
    show n < (sent ++ [a]).length
    rw [length_append]
    exact Nat.lt_add_right _ he
  | value b => exact concat_of_some he
  | stop => exact absurd he.2 hended

theorem values_eq : ∀ {log : List (Answer α)} {n : Nat}, Answers sent ended n log →
    values log = (sent.drop n).take (values log).length
  | [], _, _ => rfl
  | .value a :: log, n, h => by
    have hrest := h.2.values_eq
    obtain ⟨hlt, ha⟩ := List.getElem?_eq_some_iff.1 (show sent[n]? = some a from h.1)
    have hcons : values (.value a :: log) = a :: values log := rfl
    rw [hcons, length_cons, drop_eq_getElem_cons hlt, ha, take_succ_cons]
    exact congrArg _ hrest
  | .more :: log, n, h => h.2.values_eq
  | .stop :: log, n, h => h.2.values_eq

theorem values_prefix (h : Answers sent ended 0 log) : values log <+: sent := by
  rw [h.values_eq]
  exact take_prefix ..

theorem length_of_stop : ∀ {log : List (Answer α)} {n : Nat}, Answers sent ended n log →
    .stop ∈ log → sent.length ≤ n + (values log).length ∧ ended
  | [], _, _, hstop => nomatch hstop
  | e :: log, n, h, hstop => by
    rw [show e :: log = [e] ++ log from rfl, length_values_append, ← Nat.add_assoc]
    rcases mem_cons.1 hstop with rfl | hstop
    · obtain ⟨hn, hend⟩ := h.1
      rw [hn]
      exact ⟨Nat.le_add_right_of_le (Nat.le_add_right ..), hend⟩
    · exact h.2.length_of_stop hstop

/-- An iterator that is at its end has given everything. -/
theorem values_of_stop (h : Answers sent ended 0 log) (hstop : .stop ∈ log) :
    values log = sent ∧ ended := by
  obtain ⟨hlen, hend⟩ := h.length_of_stop hstop
  rw [Nat.zero_add] at hlen
  exact ⟨h.values_prefix.eq_of_length_le hlen, hend⟩

end Answers

end Lib
