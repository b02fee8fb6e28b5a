import Mathlib.Data.List.Perm.Subperm
import Mathlib.Data.List.Nodup
import Mathlib.Logic.Function.Basic

/-!
# Dues that are paid at most once

Accounts are owed one payment each. `owed` lists the accounts that somebody has still to pay, `paid`
counts the payments. If an account is on the list only once and not after it was paid (`Once`), then
no account is ever paid twice, whoever holds the debt: new accounts are owed (`Once.owe`), debts are
handed on or dropped (`Once.mono`) and paid (`Once.pay`).
-/

namespace Lib

open List

variable {ι : Type}

/-- No account is paid twice. -/
structure Once (owed : List ι) (paid : ι → Nat) : Prop where
  nodup : owed.Nodup
  unpaid : ∀ k ∈ owed, paid k = 0
  le_one : ∀ k, paid k ≤ 1

namespace Once

variable {owed owed' : List ι} {paid : ι → Nat} {k : ι}

/-- Debts are handed on or dropped. -/
theorem mono (h : Once owed paid) (hsub : owed'.Subperm owed) : Once owed' paid := by
  obtain ⟨l, hperm, hl⟩ := hsub
  refine ⟨hperm.nodup_iff.1 (h.nodup.sublist hl), fun k hk => ?_, h.le_one⟩
  exact h.unpaid k (hl.subset (hperm.mem_iff.2 hk))

theorem owe (h : Once owed paid) (hk : k ∉ owed) (hpaid : paid k = 0) : Once (k :: owed) paid := by
  refine ⟨nodup_cons.2 ⟨hk, h.nodup⟩, fun k' hk' => ?_, h.le_one⟩
  rcases mem_cons.1 hk' with rfl | hk'
  · exact hpaid
  · exact h.unpaid k' hk'

/-- **One debt is paid.** -/
theorem pay [DecidableEq ι] (h : Once owed paid) (hperm : owed.Perm (k :: owed')) :
    Once owed' (Function.update paid k (paid k + 1)) := by
  have hnodup : (k :: owed').Nodup := hperm.nodup_iff.1 h.nodup
  obtain ⟨hk, hnodup'⟩ := nodup_cons.1 hnodup
  have hunpaid : ∀ k' ∈ k :: owed', paid k' = 0 := fun k' hk' => h.unpaid k' (hperm.mem_iff.2 hk')
  refine ⟨hnodup', fun k' hk' => ?_, fun k' => ?_⟩
  · have hne : k' ≠ k := fun he => hk (he ▸ hk')
    rw [Function.update_of_ne hne]
    exact hunpaid k' (mem_cons_of_mem k hk')
  · by_cases he : k' = k
    · have hone : Function.update paid k (paid k + 1) k' = 1 := by
        rw [he, Function.update_self, hunpaid k (mem_cons_self ..)]
      exact Nat.le_of_eq hone
    · rw [Function.update_of_ne he]
      exact h.le_one k'

end Once

end Lib
