import Callwire.Py.Proof.Calls

/-!
# Waiters of the Python client after a disconnect

Only `close` and, with `reconnect`, a failed read give the registered queues `DONE`. A reader that
leaves its loop for another reason, or before `close` has come to its drain, leaves queues
registered and empty: their calls wait for a timeout (`waiters_left`). If `close` has cleared
`_pending` when the reader leaves, and no call registers in between, then no queue is left behind,
and every queue was given a reply or `DONE`, is still to be given it by the `close`, or has timed
out (`waiters_released`).
-/

namespace Callwire.Py

open Lib List

variable {P : Python}

/-! ## Clearing -/

namespace Post

/-- A `close` has cleared `_pending`. -/
def Cleared (p : Post P) : Prop := ∃ pc ∈ p.closes, pc ≠ .clearing

theorem cleared_of_some {p : Post P} {i : Nat} {pc : ClosePc} (h : p.closes[i]? = some pc)
    (hne : pc ≠ .clearing) : p.Cleared := ⟨pc, mem_of_getElem? h, hne⟩

theorem cleared_set {closes : List ClosePc} {i : Nat} {pc : ClosePc}
    (h : ∃ pc ∈ closes, pc ≠ .clearing) (hpc : pc ≠ .clearing) :
    ∃ pc' ∈ closes.set i pc, pc' ≠ .clearing := by
  obtain ⟨pc₀, hmem, hne⟩ := h
  obtain ⟨j, hj⟩ := mem_iff_getElem?.1 hmem
  by_cases hij : i = j
  · subst hij
    exact ⟨pc, mem_of_getElem? (set_of_some hj), hpc⟩
  · exact ⟨pc₀, mem_of_getElem? ((getElem?_set_ne hij).trans hj), hne⟩

variable {p p' : Post P} {e : PostEvent P}

theorem Moves.cleared (hm : p.Moves e p') (h : p.Cleared) : p'.Cleared := by
  cases hm with
  | close =>
    obtain ⟨pc, hmem, hne⟩ := h
    exact ⟨pc, mem_append_left _ hmem, hne⟩
  | closeNext hpc hrest hcleared hne => exact cleared_set h hne
  | closeClear | closePut => exact cleared_set h nofun
  | _ => exact h

theorem Moves.pending_nil (hm : p.Moves e p') (hreg : ∀ i kind, e = .register i kind → ¬ p.Cleared)
    (h : p.Cleared → p.pending = []) (hc : p'.Cleared) : p'.pending = [] := by
  cases hm with
  | register => exact absurd hc (hreg _ _ rfl)
  | pop =>
    rw [show p.pending = [] from h hc]
    rfl
  | dispatch hidle hid hq =>
    rw [show p.pending = [] from h hc] at hq
    cases hq
  | drainEnd | closeClear => rfl
  | close =>
    refine h ?_
    obtain ⟨pc, hmem, hne⟩ := hc
    rcases mem_concat_cases hmem with hmem | hmem
    · exact ⟨pc, hmem, hne⟩
    · exact absurd hmem hne
  | closeNext hpc hrest hcleared hne => exact h (cleared_of_some hpc hcleared)
  | closePut hclose hslot => exact h (cleared_of_some hclose nofun)
  | _ => exact h hc

end Post

namespace Client

variable {imports : List CodecName} {reconnect : Bool} {c c' : Client P} {l : Label P}

/-- No queue is registered after a `close` has cleared `_pending`, and the reader leaves its loop
only then. -/
def Orderly (imports : List CodecName) (reconnect : Bool) (c : Client P) (l : Label P) : Prop :=
  (∀ i, l = .op i .register → ¬ c.post.Cleared) ∧
    ∀ l' c', l = .reader l' → step imports reconnect c l = some c' → c'.reader = .leaving →
      c.post.Cleared

/-! ## Leaving the loop -/

def Left (c : Client P) : Prop :=
  c.reader = .leaving ∨ c.reader = .closing ∨ c.reader = .exited

theorem OpMoves.reader {i : Nat} {op : Op P} {l : OpLabel P} (h : OpMoves imports c i op l c') :
    c'.reader = c.reader := by
  cases h with
  | send | closeSend | closeAndRecv => exact congrArg Post.reader streamWrite_post
  | _ => rfl

/-- The reader leaves its loop by coming to the first line of `finally`. -/
theorem readerStep_left {l : ReaderLabel P} (h : c.readerStep reconnect l = some c')
    (hleft : c'.Left) : c.Left ∨ c'.reader = .leaving := by
  have hnot : ∀ {r : ReaderPc P}, c'.reader = r → r ≠ .leaving → r ≠ .closing → r ≠ .exited →
      c.Left ∨ c'.reader = .leaving := by
    rintro r rfl h₁ h₂ h₃
    rcases hleft with h | h | h
    · exact absurd h h₁
    · exact absurd h h₂
    · exact absurd h h₃
  unfold readerStep at h
  split at h
  · cases h
    by_cases hc : c.connected = true
    · exact hnot (if_pos hc) nofun nofun nofun
    · exact .inr (if_neg hc)
  · split at h
    · cases h
    · split at h <;> cases h
      · exact hnot rfl nofun nofun nofun
      · exact .inr rfl
      · rename_i m
        unfold dispatch at hnot ⊢
        split at hnot
        · exact hnot rfl nofun nofun nofun
        · exact hnot rfl nofun nofun nofun
  · cases h
    by_cases hc : (reconnect && c.connected) = true
    · exact hnot (if_pos hc) nofun nofun nofun
    · exact .inr (if_neg hc)
  · obtain ⟨c₁, hput, rfl⟩ := Option.map_eq_some_iff.1 h
    exact hnot rfl nofun nofun nofun
  · cases h
    exact hnot rfl nofun nofun nofun
  · obtain ⟨c₁, hput, rfl⟩ := Option.map_eq_some_iff.1 h
    exact hnot rfl nofun nofun nofun
  · cases h
    exact hnot rfl nofun nofun nofun
  · cases h
    by_cases hc : c.connected = true
    · exact hnot (if_pos hc) nofun nofun nofun
    · exact hnot (if_neg hc) nofun nofun nofun
  · split at h <;> cases h <;> exact hnot rfl nofun nofun nofun
  · split at h <;> cases h <;> exact hnot rfl nofun nofun nofun
  · cases h
    exact hnot rfl nofun nofun nofun
  · exact .inl (.inl ‹_›)
  · exact .inl (.inr (.inl ‹_›))
  · cases h

theorem step_left (hs : step imports reconnect c l = some c') (hleft : c'.Left) :
    c.Left ∨ ∃ l', l = .reader l' ∧ c'.reader = .leaving := by
  have hsame : c'.reader = c.reader → c.Left := by
    intro hr
    rw [Left, ← hr]
    exact hleft
  cases l with
  | start kind call | batch calls =>
    rw [step] at hs
    split at hs <;> cases hs
    exact .inl (hsame rfl)
  | op i l =>
    obtain ⟨op, -, hs⟩ := Option.bind_eq_some_iff.1 hs
    exact .inl (hsame (opStep_moves hs).reader)
  | reader l =>
    rcases readerStep_left hs hleft with h | h
    · exact .inl h
    · exact .inr ⟨l, rfl, h⟩
  | close =>
    cases hs
    exact .inl (hsame rfl)
  | closer i =>
    obtain ⟨pc, hpc, hs⟩ := Option.bind_eq_some_iff.1 hs
    obtain ⟨-, -, -, -, -, hr⟩ := closeStep_post hpc hs
    exact .inl (hsame hr)

/-! ## What a queue was given -/

def TimedOut (c : Client P) (q : Nat) : Prop :=
  ∃ (i : Nat) (op : Op P), c.ops[i]? = some op ∧ q ∈ op.qs ∧
    op.pc = .finished (.raised ⟨"TimeoutError", op.kind.timeoutText⟩)

theorem TimedOut.step {q : Nat} (h : c.TimedOut q) (hs : step imports reconnect c l = some c') :
    c'.TimedOut q := by
  obtain ⟨i, op, hop, hq, hpc⟩ := h
  exact ⟨i, op, step_finished hs hop fun hr => hr _ hpc, hq, hpc⟩

/-- Every queue was given a final item, or is owed one, or its call has timed out. -/
def Given (c : Client P) : Prop :=
  ∀ q < c.slots.length, q ∈ c.post.owed ∨ paidIn c.slots q ≠ 0 ∨ c.TimedOut q

theorem Given.step (h : c.Given) (hs : step imports reconnect c l = some c') : c'.Given := by
  intro q hq
  obtain ⟨e, hm, hcause⟩ := step_post hs
  -- a queue that is not new, if its debt stays and no payment is taken back
  have hold : (q ∈ c.post.owed → q ∈ c'.post.owed ∨ paidIn c'.slots q ≠ 0 ∨ c'.TimedOut q) →
      (paidIn c.slots q ≠ 0 → paidIn c'.slots q ≠ 0) → q < c.slots.length →
      q ∈ c'.post.owed ∨ paidIn c'.slots q ≠ 0 ∨ c'.TimedOut q := by
    intro howed hpaid hlt
    rcases h q hlt with hq | hq | hq
    · exact howed hq
    · exact .inr (.inl (hpaid hq))
    · exact .inr (.inr (hq.step hs))
  rcases Nat.lt_or_ge q c.slots.length with hlt | hge
  · cases hm.dues with
    | keep howed hpaid =>
      exact hold (fun hq => .inl (howed.mem_iff.2 hq)) (fun hp => hpaid ▸ hp) hlt
    | owe howed hpaid =>
      exact hold (fun hq => .inl (howed.mem_iff.2 (mem_cons_of_mem _ hq)))
        (fun hp => hpaid ▸ hp) hlt
    | @pay _ _ k howed hpaid =>
      have hmono : ∀ {n}, paidIn c.slots q = n → k = q ∨ n ≠ 0 → paidIn c'.slots q ≠ 0 := by
        rintro n rfl hk
        change paidIn c'.post.slots q ≠ 0
        rw [hpaid]
        by_cases hkq : q = k
        · rw [hkq, Function.update_self]
          exact Nat.succ_ne_zero _
        · rw [Function.update_of_ne hkq]
          exact hk.resolve_left (Ne.symm hkq)
      refine hold (fun hq => ?_) (fun hp => hmono rfl (.inr hp)) hlt
      rcases mem_cons.1 (howed.mem_iff.1 hq) with rfl | hq
      · exact .inr (.inl (hmono rfl (.inl rfl)))
      · exact .inl hq
    | @drop k _ howed hrest hpaid =>
      refine hold (fun hq => ?_) (fun hp => hpaid ▸ hp) hlt
      rcases hrest q hq with rfl | hq
      · -- the call takes its own queue out of `_pending` and raises
        obtain ⟨i, op, rfl, hop, hqueue⟩ := hcause
        obtain ⟨op₁, hop₁, hs⟩ := Option.bind_eq_some_iff.1 hs
        obtain rfl : op = op₁ := Option.mem_unique hop hop₁
        cases opStep_moves hs with
        | pop =>
          refine .inr (.inr ⟨i, _, set_of_some hop, ?_, rfl⟩)
          exact Op.Sound.queue_mem hqueue
      · exact .inl hq
  · obtain ⟨i, kind, rfl⟩ := hm.registers (Nat.lt_of_le_of_lt hge hq)
    generalize hp : c'.post = p' at hm
    have hslots : c'.slots = p'.slots := congrArg Post.slots hp
    cases hm with
    | register hfree =>
      rw [hslots, length_append, length_singleton] at hq
      obtain rfl : q = c.slots.length := Nat.le_antisymm (Nat.le_of_lt_succ hq) hge
      refine .inl ?_
      rw [Post.owed, ReaderPc.registered_of_free hfree]
      exact mem_append_left _ (mem_append_right _ (mem_singleton.2 rfl))

/-! ## Runs -/

structure InOrder (c : Client P) : Prop where
  given : c.Given
  left : c.Left → c.post.Cleared
  pending : c.post.Cleared → c.pending = []

theorem InOrder.step (h : c.InOrder) (hok : Orderly imports reconnect c l)
    (hs : step imports reconnect c l = some c') : c'.InOrder := by
  obtain ⟨e, hm, hcause⟩ := step_post hs
  refine ⟨h.given.step hs, fun hleft => ?_, ?_⟩
  · rcases step_left hs hleft with hleft | ⟨l', hl, hr⟩
    · exact hm.cleared (h.left hleft)
    · exact hm.cleared (hok.2 l' c' hl hs hr)
  · refine hm.pending_nil (fun i kind he => ?_) h.pending
    subst he
    exact hok.1 i hcause.1

theorem inOrder_init : (init : Client P).InOrder where
  given _ h := nomatch h
  left h := by rcases h with h | h | h <;> cases h
  pending h := by
    obtain ⟨pc, hmem, -⟩ := h
    cases hmem

theorem inOrder {ls : List (Label P)} (hok : Along (step imports reconnect)
    (Orderly imports reconnect) .init ls)
    (h : run (step imports reconnect) .init ls = some c) : c.InOrder := by
  have hstep : ∀ (c : Client P) l c', c.InOrder → Orderly imports reconnect c l →
      Client.step imports reconnect c l = some c' → c'.InOrder :=
    fun _ _ _ hc hok hs => hc.step hok hs
  exact run_invariant hstep inOrder_init hok h

theorem step_pending (hs : step imports reconnect c l = some c') {q : Nat} (hq : q ∈ c'.pending) :
    q ∈ c.pending ∨ c.slots.length ≤ q := by
  obtain ⟨e, hm, -⟩ := step_post hs
  change q ∈ c'.post.pending at hq
  generalize c'.post = p' at hm hq
  cases hm with
  | register =>
    rcases mem_concat_cases hq with hq | hq
    · exact .inl hq
    · exact .inr (Nat.le_of_eq hq.symm)
  | pop => exact .inl (mem_of_mem_erase hq)
  | dispatch =>
    dsimp only at hq
    split at hq
    · exact .inl hq
    · exact .inl (mem_of_mem_erase hq)
  | drainEnd | closeClear => cases hq
  | _ => exact .inl hq

theorem step_length (hs : step imports reconnect c l = some c') :
    c.slots.length ≤ c'.slots.length := by
  obtain ⟨e, hm, -⟩ := step_post hs
  exact hm.length_le

theorem run_pending {ls : List (Label P)} (h : run (step imports reconnect) c ls = some c')
    {q : Nat} (hq : q ∉ c.pending) (hlt : q < c.slots.length) : q ∉ c'.pending := by
  have hstep : ∀ (c : Client P) l c', q ∉ c.pending ∧ q < c.slots.length →
      Client.step imports reconnect c l = some c' → q ∉ c'.pending ∧ q < c'.slots.length := by
    rintro c l c' ⟨hq, hlt⟩ hs
    refine ⟨fun hq' => ?_, Nat.lt_of_lt_of_le hlt (step_length hs)⟩
    rcases step_pending hs hq' with h | h
    · exact hq h
    · exact Nat.lt_irrefl _ (Nat.lt_of_lt_of_le hlt h)
  exact (run_kept hstep ⟨hq, hlt⟩ h).1

/-- **Waiters are released** if `close` has cleared `_pending` before the reader leaves its loop. -/
theorem waiters_released {ls ls' : List (Label P)} {c c' : Client P}
    (hrun : run (step imports reconnect) .init ls = some c)
    (hok : Along (step imports reconnect) (Orderly imports reconnect) .init ls)
    (hexit : c.reader = .exited) (hrun' : run (step imports reconnect) c ls' = some c') :
    (∀ q ∈ c'.pending, q < c.slots.length → ∀ slot, c'.slots[q]? = some slot →
      slot.queue.items ≠ []) ∧
    ∀ (q : Nat) slot, c.slots[q]? = some slot →
      slot.queue.put ≠ [] ∨ (∃ pc ∈ c.closes, q ∈ pc.rest) ∨ c.TimedOut q := by
  have h := inOrder hok hrun
  have hpending : c.pending = [] := h.pending (h.left (.inr (.inr hexit)))
  refine ⟨fun q hq hlt => ?_, fun q slot hslot => ?_⟩
  · refine absurd hq (run_pending hrun' ?_ hlt)
    rw [hpending]
    exact not_mem_nil
  · rcases h.given q (lt_of_some hslot) with hq | hq | hq
    · have hidle : c.post.reader.Idle := show c.reader.Idle from hexit ▸ trivial
      rw [Post.owed_of_idle hidle, show c.post.pending = [] from hpending] at hq
      exact .inr (.inl (mem_flatMap.1 hq))
    · rw [paidIn_of_some hslot] at hq
      refine .inl fun hput => hq ?_
      rw [Slot.finals, hput]
      rfl
    · exact .inr (.inr hq)

theorem orderly_of (hs : step imports reconnect c l = some c')
    (hreg : (∀ i, l ≠ .op i .register) ∨ ∀ pc ∈ c.closes, pc = .clearing)
    (hleave : c'.reader ≠ .leaving ∨ ∃ pc ∈ c.closes, pc ≠ .clearing) :
    Orderly imports reconnect c l := by
  refine ⟨fun i hl => ?_, fun _ c₁ _ hs₁ hr => ?_⟩
  · rintro ⟨pc, hmem, hne⟩
    rcases hreg with h | h
    · exact h i hl
    · exact hne (h pc hmem)
  · obtain rfl : c' = c₁ := Option.mem_unique hs hs₁
    exact hleave.resolve_left fun h => h hr

def closeLabels : List (Label plain) :=
  [.start .call ⟨"f", none⟩, .op 0 .register, .op 0 .pack, .op 0 (.write none), .reader .go, .close,
    .closer 0, .closer 0, .closer 0, .closer 0, .reader .readFails, .reader .go, .reader .go]

theorem waiters_released_close : ∃ c : Client plain,
    run (step clientImports false) .init closeLabels = some c ∧ c.reader = .exited ∧
    (∀ q ∈ c.pending, q < c.slots.length → ∀ slot, c.slots[q]? = some slot →
      slot.queue.items ≠ []) ∧
    ∀ (q : Nat) slot, c.slots[q]? = some slot →
      slot.queue.put ≠ [] ∨ (∃ pc ∈ c.closes, q ∈ pc.rest) ∨ c.TimedOut q := by
  have hok : Along (step clientImports false) (Orderly clientImports false) .init closeLabels := by
    refine Along.cons (orderly_of rfl (.inl nofun) (.inl nofun)) rfl ?_
    refine Along.cons (orderly_of rfl (.inr nofun) (.inl nofun)) rfl ?_
    iterate 8 refine Along.cons (orderly_of rfl (.inl nofun) (.inl nofun)) rfl ?_
    refine Along.cons (orderly_of rfl (.inl nofun)
      (.inr ⟨_, mem_singleton.2 rfl, nofun⟩)) rfl ?_
    iterate 2 refine Along.cons (orderly_of rfl (.inl nofun) (.inl nofun)) rfl ?_
    exact trivial
  have h := @waiters_released plain clientImports false closeLabels [] _ _ rfl hok rfl rfl
  exact ⟨_, rfl, rfl, h⟩

def lostLabels : List (Label plain) :=
  [.start .call ⟨"f", none⟩, .op 0 .register, .op 0 .pack, .op 0 (.write none), .reader .go,
    .reader .readFails, .reader .go, .reader .go]

/-- **Without `reconnect` a lost connection leaves the waiters**: the reader has left its loop, and
the queue of the call is registered and empty. -/
theorem waiters_left : ∃ c : Client plain,
    run (step clientImports false) .init lostLabels = some c ∧ c.reader = .exited ∧
    0 ∈ c.pending ∧ (∃ slot, c.slots[0]? = some slot ∧ slot.queue.items.length = 0) ∧
    ∃ op, c.ops[0]? = some op ∧ op.pc = .waiting :=
  ⟨_, rfl, rfl, mem_singleton.2 rfl, ⟨_, rfl, rfl⟩, _, rfl, rfl⟩

end Client

end Callwire.Py
