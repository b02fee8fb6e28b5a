import Callwire.Lib.ArrayUpdate
import Mathlib.Data.Set.Insert

/-!
# A ledger of requests and answers

What a server owes its clients, in the abstract: requests come under new keys, messages under the
key of a pending request may be sent, and a final message ends it. `Ledger.Step` are the moves,
`Ledger.Sound` what they keep: a request that is no longer pending has exactly one final message and
no message after it (`AnsweredOnce`), a pending one has none.
-/

namespace Lib

open List

/-- The messages `out` answer `k` exactly once: one final message, nothing after it. -/
def AnsweredOnce {K M : Type} (key : M → K) (final : M → Bool) (k : K) (out : List M) : Prop :=
  ∃ pre m post, out = pre ++ m :: post ∧ key m = k ∧ final m = true ∧
    (∀ x ∈ pre, key x = k → final x = false) ∧ ∀ x ∈ post, key x ≠ k

/-- The requests seen, those still pending, and the messages sent. -/
structure Ledger (K M : Type) where
  asked : Set K
  pending : Set K
  out : List M

section
variable {K M : Type} (key : M → K) (final : M → Bool)

inductive Ledger.Step : Ledger K M → Ledger K M → Prop
  | ask {asked pending : Set K} {out : List M} (k : K) (hk : k ∉ asked) :
      Step ⟨asked, pending, out⟩ ⟨insert k asked, insert k pending, out⟩
  | say {asked pending : Set K} {out : List M} (m : M) (hm : key m ∈ pending)
      (hf : final m = false) : Step ⟨asked, pending, out⟩ ⟨asked, pending, out ++ [m]⟩
  | finish {asked pending : Set K} {out : List M} (m : M) (hm : key m ∈ pending)
      (hf : final m = true) :
      Step ⟨asked, pending, out⟩ ⟨asked, pending \ {key m}, out ++ [m]⟩

structure Ledger.Sound (s : Ledger K M) : Prop where
  asked : ∀ k ∈ s.pending, k ∈ s.asked
  sent : ∀ m ∈ s.out, key m ∈ s.asked
  silent : ∀ m ∈ s.out, key m ∈ s.pending → final m = false
  once : ∀ k ∈ s.asked, k ∉ s.pending → AnsweredOnce key final k s.out

variable {key final}

/-- A message under another key. -/
theorem AnsweredOnce.concat {k : K} {m : M} {out : List M} (h : AnsweredOnce key final k out)
    (hm : key m ≠ k) : AnsweredOnce key final k (out ++ [m]) := by
  obtain ⟨pre, x, post, rfl, hk, hf, hpre, hpost⟩ := h
  exact ⟨pre, x, post ++ [m], by simp, hk, hf, hpre, forall_concat hpost hm⟩

/-- **Every move keeps the ledger sound.** -/
theorem Ledger.Sound.step {s s' : Ledger K M} (h : s.Sound key final) (hs : Step key final s s') :
    s'.Sound key final := by
  cases hs with
  | ask k hk =>
    refine ⟨?_, ?_, ?_, ?_⟩
    · rintro x (rfl | hx)
      · exact .inl rfl
      · exact .inr (h.asked x hx)
    · exact fun m hm => .inr (h.sent m hm)
    · rintro m hm (hkm | hmp)
      · exact absurd (hkm ▸ h.sent m hm) hk
      · exact h.silent m hm hmp
    · rintro x (rfl | hx) hn
      · exact absurd (Set.mem_insert _ _) hn
      · exact h.once x hx fun hp => hn (.inr hp)
  | say m hm hf =>
    refine ⟨h.asked, forall_concat h.sent (h.asked _ hm), ?_, ?_⟩
    · exact forall_concat h.silent fun _ => hf
    · intro k hk hn
      refine (h.once k hk hn).concat ?_
      rintro rfl
      exact hn hm
  | finish m hm hf =>
    refine ⟨fun k hk => h.asked k hk.1, forall_concat h.sent (h.asked _ hm), ?_, ?_⟩
    · exact forall_concat (fun x hx hp => h.silent x hx hp.1) fun hp => absurd rfl hp.2
    · intro k hk hn
      by_cases hkm : k = key m
      · -- the request just answered: nothing final was sent under its key before
        subst hkm
        exact ⟨_, m, [], rfl, rfl, hf, fun x hx hxk => h.silent x hx (hxk ▸ hm), by simp⟩
      · exact (h.once k hk fun hp => hn ⟨hp, hkm⟩).concat (Ne.symm hkm)

end

end Lib
