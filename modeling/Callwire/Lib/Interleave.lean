import Mathlib.Order.WellFounded

/-!
# Parties that take turns

A list of parties of which one at a time makes a move (`Advance`). If no party can move forever on
its own, they cannot move forever together (`advance_wf`). `acc_of_rank` is the rule by which the
runs of a system are shown to be finite: its states are ranked in a well-founded order, and every
step of a ranked state leads to one of lower rank.
-/

namespace Lib

section
variable {α : Type}

/-- One of the parties moves; `r i a' a` are the moves of party `i`. -/
def Advance (r : Nat → α → α → Prop) (l' l : List α) : Prop :=
  ∃ i a a', l[i]? = some a ∧ r i a' a ∧ l' = l.set i a'

variable {r : Nat → α → α → Prop}

theorem Advance.cons_cases {a : α} {l l' : List α} (h : Advance r l' (a :: l)) :
    (∃ a', r 0 a' a ∧ l' = a' :: l) ∨
      ∃ l₁, Advance (fun i => r (i + 1)) l₁ l ∧ l' = a :: l₁ := by
  obtain ⟨i, b, b', hb, hr, rfl⟩ := h
  cases i with
  | zero =>
    cases hb
    exact .inl ⟨b', hr, rfl⟩
  | succ i => exact .inr ⟨l.set i b', ⟨i, b, b', hb, hr, rfl⟩, rfl⟩

theorem Advance.acc_cons {a : α} {l : List α} (ha : Acc (r 0) a)
    (hl : Acc (Advance fun i => r (i + 1)) l) : Acc (Advance r) (a :: l) := by
  induction ha generalizing l with
  | intro a _ iha =>
    induction hl with
    | intro l hl ihl =>
      constructor
      intro l' h
      rcases h.cons_cases with ⟨a', hr, rfl⟩ | ⟨l₁, hr, rfl⟩
      · exact iha a' hr (Acc.intro l hl)
      · exact ihl l₁ hr

/-- **Parties that each stop, stop together.** -/
theorem advance_wf (h : ∀ i, WellFounded (r i)) : WellFounded (Advance r) := by
  refine ⟨fun l => ?_⟩
  induction l generalizing r with
  | nil =>
    constructor
    rintro l' ⟨i, a, a', ha, -⟩
    cases ha
  | cons a l ih => exact Advance.acc_cons ((h 0).apply a) (ih fun i => h (i + 1))

end

section
variable {S M : Type} {next : S → S → Prop} {lt : M → M → Prop}

/-- **Every run from a ranked state is finite**, if each step leads to a state of lower rank. -/
theorem acc_of_rank (hwf : WellFounded lt) (Rank : S → M → Prop)
    (hstep : ∀ s m s', Rank s m → next s' s → ∃ m', Rank s' m' ∧ lt m' m) {s : S} {m : M}
    (hs : Rank s m) : Acc next s := by
  induction m using hwf.induction generalizing s with
  | _ m ih =>
    constructor
    intro s' hn
    obtain ⟨m', hr, hlt⟩ := hstep s m s' hs hn
    exact ih m' hlt hr

end

end Lib
