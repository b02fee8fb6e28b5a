import Callwire.Lib.ArrayUpdate
import Mathlib.Data.List.TakeWhile

/-!
# The part of a list up to its terminator

`upTo p l` is the list `l` up to and with its first element that satisfies `p`. A receiver that
listens until the first terminator and no longer has received `upTo p` of what was sent.
-/

namespace Lib

open List

variable {α : Type} (p : α → Bool)

def upTo (l : List α) : List α := l.takeWhile (!p ·) ++ (l.find? p).toList

/-- No element is a terminator. -/
def Unfinished (l : List α) : Prop := ∀ a ∈ l, p a = false

variable {p} {l : List α} {a : α}

theorem unfinished_nil : Unfinished p [] := nofun

theorem Unfinished.takeWhile_eq (h : Unfinished p l) : l.takeWhile (!p ·) = l :=
  takeWhile_eq_self_iff.2 fun a ha => by rw [h a ha]; rfl

theorem Unfinished.find?_eq (h : Unfinished p l) : l.find? p = none :=
  find?_eq_none.2 fun a ha => by rw [h a ha]; exact Bool.false_ne_true

theorem not_unfinished : ¬ Unfinished p l ↔ ∃ a ∈ l, p a = true := by
  simp [Unfinished]

theorem mem_of_upTo (h : a ∈ upTo p l) : a ∈ l := by
  rcases mem_append.1 h with h | h
  · exact ( takeWhile_prefix _).subset h
  · exact mem_of_find?_eq_some (Option.mem_toList.1 h)

theorem Unfinished.upTo_eq (h : Unfinished p l) : upTo p l = l := by
  rw [upTo, h.takeWhile_eq, h.find?_eq]
  exact append_nil l

theorem unfinished_concat : Unfinished p (l ++ [a]) ↔ Unfinished p l ∧ p a = false := by
  constructor
  · intro h
    exact ⟨fun b hb => h b (mem_append_left _ hb),
      h a (mem_append_right _ (mem_singleton.2 rfl))⟩
  · rintro ⟨h, ha⟩
    exact forall_concat h ha

theorem takeWhile_concat_of_finished (h : ¬ Unfinished p l) (a : α) :
    (l ++ [a]).takeWhile (!p ·) = l.takeWhile (!p ·) := by
  rw [takeWhile_append, if_neg]
  intro hlen
  have hself := ( takeWhile_prefix (!p ·)).eq_of_length hlen
  refine h fun b hb => ?_
  have hb' := takeWhile_eq_self_iff.1 hself b hb
  rwa [Bool.not_eq_true'] at hb'

theorem takeWhile_concat_of_unfinished (h : Unfinished p l) (ha : p a = false) :
    (l ++ [a]).takeWhile (!p ·) = l.takeWhile (!p ·) ++ [a] := by
  rw [h.takeWhile_eq, (unfinished_concat.2 ⟨h, ha⟩).takeWhile_eq]

theorem takeWhile_concat_of_final (ha : p a = true) :
    (l ++ [a]).takeWhile (!p ·) = l.takeWhile (!p ·) := by
  by_cases h : Unfinished p l
  · rw [takeWhile_append, h.takeWhile_eq, if_pos rfl, takeWhile_cons, ha]
    exact append_nil l
  · exact takeWhile_concat_of_finished h a

theorem upTo_concat_of_unfinished (h : Unfinished p l) (a : α) : upTo p (l ++ [a]) = l ++ [a] := by
  cases ha : p a with
  | false => exact (unfinished_concat.2 ⟨h, ha⟩).upTo_eq
  | true =>
    rw [upTo, takeWhile_concat_of_final ha, h.takeWhile_eq, find?_append, h.find?_eq,
      find?_singleton, ha]
    rfl

theorem upTo_concat_of_finished (h : ¬ Unfinished p l) (a : α) : upTo p (l ++ [a]) = upTo p l := by
  have hfind : (l.find? p).isSome := by
    rw [find?_isSome]
    by_contra hnone
    refine h fun b hb => Bool.eq_false_iff.2 fun hpb => hnone ⟨b, hb, hpb⟩
  rw [upTo, upTo, takeWhile_concat_of_finished h, find?_append, Option.or_of_isSome hfind]

theorem takeWhile_upTo (l : List α) : (upTo p l).takeWhile (!p ·) = l.takeWhile (!p ·) := by
  have hself : (l.takeWhile (!p ·)).takeWhile (!p ·) = l.takeWhile (!p ·) := by
    refine takeWhile_eq_self_iff.2 fun a ha => ?_
    have hpa := mem_takeWhile_imp ha
    exact hpa
  cases hfind : l.find? p with
  | none =>
    rw [upTo, hfind, Option.toList_none, append_nil]
    exact hself
  | some a =>
    rw [upTo, hfind, Option.toList_some, takeWhile_concat_of_final (find?_some hfind)]
    exact hself

theorem unfinished_upTo (l : List α) : Unfinished p (upTo p l) ↔ Unfinished p l := by
  constructor
  · intro h
    by_contra hfin
    unfold Unfinished at hfin
    push Not at hfin
    obtain ⟨a, ha, hpa⟩ := hfin
    obtain ⟨b, hb⟩ := Option.isSome_iff_exists.1
      (find?_isSome.2 ⟨a, ha, eq_true_of_ne_false hpa⟩)
    have hmem : b ∈ upTo p l := by
      rw [upTo, hb]
      exact mem_append_right _ (mem_singleton.2 rfl)
    have hpb := find?_some hb
    rw [h b hmem] at hpb
    cases hpb
  · intro h
    rw [h.upTo_eq]
    exact h

theorem getElem?_takeWhile_of_upTo {n : Nat} (h : (upTo p l)[n]? = some a) (ha : p a = false) :
    (l.takeWhile (!p ·))[n]? = some a := by
  by_cases hn : n < (l.takeWhile (!p ·)).length
  · rwa [upTo, getElem?_append_left hn] at h
  · rw [upTo, getElem?_append_right (Nat.le_of_not_lt hn)] at h
    have hfind := find?_some (Option.mem_toList.1 (mem_of_getElem? h))
    rw [ha] at hfind
    cases hfind

theorem eq_length_of_upTo {n : Nat} (h : (upTo p l)[n]? = some a) (ha : p a = true) :
    n = (l.takeWhile (!p ·)).length := by
  rcases Nat.lt_or_ge n (l.takeWhile (!p ·)).length with hn | hn
  · rw [upTo, getElem?_append_left hn] at h
    have hpa := mem_takeWhile_imp (mem_of_getElem? h)
    rw [ha] at hpa
    cases hpa
  · have hlt := lt_of_some h
    have hone : ((l.find? p).toList).length ≤ 1 := by
      cases l.find? p with
      | none => exact Nat.zero_le 1
      | some b => exact Nat.le_refl 1
    rw [upTo, length_append] at hlt
    omega

theorem length_upTo_of_finished (h : ¬ Unfinished p l) :
    (upTo p l).length = (l.takeWhile (!p ·)).length + 1 := by
  cases hfind : l.find? p with
  | none =>
    refine absurd (fun a ha => ?_) h
    exact Bool.eq_false_iff.2 (find?_eq_none.1 hfind a ha)
  | some b =>
    rw [upTo, hfind, length_append]
    rfl

end Lib
