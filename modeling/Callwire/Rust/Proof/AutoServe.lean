import Callwire.Lib.ArrayUpdate
import Callwire.Rust.AutoServe

/-!
# `AUTO_SERVE_TX` and the listener

While a sender is stored, its server listens or is about to (`Truthful`), as long as neither its
`bind` nor its `accept` fails. Nobody takes the sender out when they do (`nothing_listens`).
-/

namespace Callwire.Rust

open Lib List

/-- Its listener is there, or is being bound after its sender was stored. -/
def ServerPc.Serves : ServerPc → Prop
  | .binding | .starting | .accepting => True
  | _ => False

namespace AutoServe
variable {s s' : AutoServe} {k : Nat} {pc : ServerPc}

def Truthful (s : AutoServe) : Prop :=
  ∀ k, s.tx = some k → ∃ pc, s.servers[k]? = some pc ∧ pc.Serves

/-- `bind` and `accept` do not fail for the server whose sender is stored. -/
def Spared (s : AutoServe) : AutoServeLabel → Prop
  | .server k (.bind false) | .server k (.accept false) => s.tx ≠ some k
  | _ => True

theorem Truthful.goto (h : s.Truthful) (hget : s.servers[k]? = some pc) {pc' : ServerPc}
    (hpc : s.tx = some k → pc.Serves → pc'.Serves) : (s.goto k pc').Truthful := by
  intro j hj
  obtain ⟨pc₁, hget₁, hserves⟩ := h j hj
  by_cases hjk : k = j
  · subst hjk
    obtain rfl : pc = pc₁ := Option.mem_unique hget hget₁
    exact ⟨pc', set_of_some hget, hpc hj hserves⟩
  · exact ⟨pc₁, (getElem?_set_ne hjk).trans hget₁, hserves⟩

theorem Truthful.server (h : s.Truthful) {l : ServerLabel} (hget : s.servers[k]? = some pc)
    (hok : s.Spared (.server k l)) (hs : s.serverStep k pc l = some s') : s'.Truthful := by
  unfold serverStep at hs
  split at hs
  · rename_i ok
    cases hs
    refine h.goto hget fun htx _ => ?_
    cases ok with
    | true => exact trivial
    | false => exact absurd htx hok
  · cases hs
    exact h.goto hget fun _ hserves => hserves.elim
  · split at hs
    · cases hs
      exact h.goto hget fun _ hserves => hserves.elim
    · cases hs
      intro j hj
      cases hj
      exact ⟨_, getElem?_set_self (lt_of_some hget), trivial⟩
  · cases hs
    exact h.goto hget fun _ _ => trivial
  · rename_i ok
    cases hs
    cases ok with
    | true => exact h
    | false => exact h.goto hget fun htx _ => absurd htx hok
  · split at hs
    · cases hs
    · rename_i htx
      cases hs
      exact h.goto hget fun htx' _ => absurd htx' htx
  · cases hs

theorem Truthful.step (h : s.Truthful) {l : AutoServeLabel} (hok : s.Spared l)
    (hs : s.step l = some s') : s'.Truthful := by
  cases l with
  | register auto spawned =>
    cases hs
    unfold spawnAutoServeIfIdle
    split_ifs
    · exact h
    · exact h
    · rintro k ⟨⟩
      exact ⟨.binding, getElem?_concat_length, trivial⟩
  | autoServe auto =>
    cases hs
    unfold autoServe
    split_ifs
    · exact h
    · exact h
    · intro k hk
      obtain ⟨pc, hget, hserves⟩ := h k hk
      exact ⟨pc, concat_of_some hget, hserves⟩
  | close =>
    cases hs
    intro k hk
    cases hk
  | server k l =>
    obtain ⟨pc, hget, hs⟩ := Option.bind_eq_some_iff.1 hs
    exact h.server hget hok hs

/-- **A stored sender belongs to a server that listens or is about to**, so `register_*` and
`auto_serve` start none only if there is one; unless `bind` or `accept` fails for that server. -/
theorem tx_truthful {ls : List AutoServeLabel} (hrun : run step init ls = some s)
    (hok : Along step Spared init ls) :
    s.Truthful ∧ ∀ l, l = .register none none ∨ l = .autoServe none → s.step l = some s →
      ∃ pc ∈ s.servers, pc.Serves := by
  have h : s.Truthful := run_invariant (fun _ _ _ h hok hs => h.step hok hs)
    (fun _ h => by cases h) hok hrun
  refine ⟨h, fun l hl hs => ?_⟩
  cases htx : s.tx with
  | some k =>
    obtain ⟨pc, hget, hserves⟩ := h k htx
    exact ⟨pc, mem_of_getElem? hget, hserves⟩
  | none =>
    -- both would have started a server
    have hlen : ∀ {s₁ : AutoServe}, some s₁ = some s →
        s₁.servers.length = s.servers.length + 1 → False := by
      rintro s₁ ⟨⟩ hlen
      omega
    rcases hl with rfl | rfl
    · refine (hlen hs ?_).elim
      simp [spawnAutoServeIfIdle, htx]
    · refine (hlen hs ?_).elim
      simp [autoServe, htx]

theorem tx_truthful_bound : ∃ s, run step init [.register none none, .server 0 (.bind true)] =
    some s ∧ s.Truthful ∧ s.tx = some 0 ∧ ∃ pc ∈ s.servers, pc.Serves := by
  have hrun : run step init [.register none none, .server 0 (.bind true)] =
    some ⟨some 0, [.accepting]⟩ := rfl
  have h := tx_truthful hrun (.of_labels (by simp [Spared]) _)
  exact ⟨_, rfl, h.1, rfl, h.2 _ (.inl rfl) rfl⟩

/-- **Nothing listens, and nobody starts a server**: `bind` fails after a `register_*`, or `accept`
after that. -/
theorem nothing_listens : ∃ s : AutoServe,
    run step init [.register none none, .server 0 (.bind false)] = some s ∧
    run step init [.register none none, .server 0 (.bind true), .server 0 (.accept false)] =
      some s ∧ s.tx = some 0 ∧ s.servers = [.ended] ∧
    s.step (.register none none) = some s ∧ s.step (.autoServe none) = some s :=
  ⟨⟨some 0, [.ended]⟩, rfl, rfl, rfl, rfl, rfl, rfl⟩

end AutoServe

end Callwire.Rust
