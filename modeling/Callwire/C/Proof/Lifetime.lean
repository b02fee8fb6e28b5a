import Callwire.C.Proof.Routing

/-!
# The stream inputs and their users

The read loop finds an input under `inputs_mu` and pushes to it after it has dropped the lock; a
dispatch thread receives from the input it found when it started. Both are safe in every run in
which an input is registered only under an id that no registered input has (`Fresh`) and no thread
removes the input that the read loop is about to push to (`Unhurried`): `Kept` is the invariant.
Neither condition is checked by the code.
-/

namespace Callwire.C

open Lib List Conn

def Conn.live (c : Conn) (r : Nat) : Prop :=
  r ∈ c.inputs ∧ ∃ inp, c.heap[r]? = some inp ∧ inp.freed = false

/-- The input that the read loop pushes to next and those that handlers receive from are live. -/
structure InputsLive (c : Conn) : Prop where
  loop : ∀ r item, c.loop = .push r item → c.live r
  handlers : ∀ t ∈ c.threads, t.entry.kind.hasInput = true →
    ∀ r, t.pc = .running (some r) → c.live r

/-- No thread removes the input that the read loop is about to push to. -/
def Unhurried (c : Conn) (l : Label) : Prop :=
  ∀ i ok t r item, l = .thread i ok → c.threads[i]? = some t → t.pc = .remove →
    c.loop = .push r item → c.ids[r]? ≠ some t.id

/-- The invariant: the input the read loop has found is not removed. -/
structure Kept (c : Conn) : Prop where
  owned : Owned c
  pushing : ∀ r item, c.loop = .push r item → r ∈ c.inputs

theorem Kept.init : Kept .init where
  owned := .init
  pushing := by simp [Conn.init]

section
variable {entries : List Entry} {c c' : Conn} {l : Label} {r : Nat}

theorem Owned.live (h : Owned c) (hr : r ∈ c.inputs) : c.live r := by
  have hf := h.alive r hr
  rw [flags, getElem?_map] at hf
  exact ⟨hr, Option.map_eq_some_iff.1 hf⟩

theorem Kept.inputsLive (h : Kept c) : InputsLive c where
  loop r item hl := h.owned.live (h.pushing r item hl)
  handlers t ht hk r hpc := by
    obtain ⟨i, hi⟩ := mem_iff_getElem?.1 ht
    have ho : t.owns = true := Thread.owns_iff.2 ⟨hk, by simp [hpc], by simp [hpc]⟩
    obtain ⟨r', hr', -, hrun⟩ := h.owned.owner i t hi ho
    obtain rfl : r = r' := Option.some.inj (hrun _ hpc)
    exact h.owned.live hr'

/-- The inputs stay, and the read loop has not found another one. -/
theorem Kept.congr (h : Kept c) (ho : Owned c') (hin : c'.inputs = c.inputs)
    (hpu : ∀ r item, c'.loop = .push r item → c.loop = .push r item) : Kept c' :=
  ⟨ho, fun r item hl => hin ▸ h.pushing r item (hpu r item hl)⟩

/-! ## Steps and runs -/

/-- **Every step that meets the two conditions keeps the invariant.** -/
theorem Kept.step (h : Kept c) (hf : Fresh entries c l) (hu : Unhurried c l)
    (hs : Callwire.C.step entries c l = some c') : Kept c' := by
  have ho := h.owned.step hf hs
  cases step_move hs with
  | malformed => exact h
  | route hl hd hsf hfi =>
    refine ⟨ho, fun r item hl' => ?_⟩
    cases hl'
    exact (connFindInput_some hfi).1
  | request | push | accept | spawn | noThread => exact h.congr ho rfl (by simp)
  | drain => exact h.congr ho (drainInputs_eq c).1 (by simp [drainInputs])
  | refuse => exact h.congr ho (write_inputs _ _ _) (by simp)
  | register => exact ⟨ho, by simp⟩
  | emit | reply =>
    exact h.congr ho (write_inputs _ _ _) fun _ _ hl => (write_loop _ _ _).symm.trans hl
  | remove ht hpc hj hid =>
    -- the condition: the input that goes is not the one in the read loop's hand
    refine ⟨ho, fun r' item hl => ?_⟩
    refine (mem_swapRemove h.owned.inputs_nodup hj r').2 ⟨h.pushing r' item hl, ?_⟩
    rintro rfl
    exact hu _ _ _ r' item rfl ht hpc hl (hasId_iff.1 hid)
  | _ => exact h.congr ho rfl fun _ _ hl => hl

end

/-- **Stream inputs outlive their users** in every run whose steps meet the two conditions. -/
theorem inputsLive_of_unhurried (entries : List Entry) (ls : List Label) (c : Conn)
    (hok : Along (step entries) (fun c l => Fresh entries c l ∧ Unhurried c l) .init ls)
    (hrun : run (step entries) .init ls = some c) : InputsLive c := by
  have hstep : ∀ s l s', Kept s → Fresh entries s l ∧ Unhurried s l →
      step entries s l = some s' → Kept s' :=
    fun s l s' hk h hs => hk.step h.1 h.2 hs
  exact (run_invariant hstep .init hok hrun).inputsLive

theorem Kept.run {entries : List Entry} {ls : List Label} {c : Conn}
    (hok : Along (Callwire.C.step entries) Unhurried .init ls)
    (hrun : run (Callwire.C.step entries) .init ls = some c)
    (hids : (requestIds c.frames).Nodup) : Kept c ∧ Routed c := by
  have hstep : ∀ s l s', ((requestIds s.frames).Nodup → Kept s ∧ Routed s) → Unhurried s l →
      Callwire.C.step entries s l = some s' → (requestIds s'.frames).Nodup →
        Kept s' ∧ Routed s' := by
    intro s l s' hi hu hs hn
    obtain ⟨hk, hr⟩ := hi (requestIds_nodup_mono (step_frames hs) hn)
    exact ⟨hk.step hr.fresh hu hs, hr.step hs hn⟩
  exact run_invariant hstep (fun _ => ⟨.init, .init⟩) hok hrun hids

/-- The read loop has found an input. -/
def LoopPc.isPush : LoopPc → Bool
  | .push _ _ => true
  | _ => false

theorem unhurried_of_idle {c : Conn} {l : Label} (h : c.loop.isPush = false) : Unhurried c l := by
  intro _ _ _ r item _ _ _ hl
  rw [hl] at h
  cases h

section

def hasty : Entry where
  name := ⟨lit "f", lit_f⟩
  kind := .clientStreamCtx
  fn _ _ _ := .ret 0 .null
  allowed _ _ _ := trivial

/-- The connection while the thread of the call is at `pc`. -/
def afterCall (pc : ThreadPc) (out : List Outgoing) : Conn where
  inputs := [0]
  heap := [⟨1, .empty, false⟩]
  threads := [⟨hasty, 1, [], [], pc⟩]
  loop := .reading
  out := out
  frames := [{ id := 1, type := some (lit "request"), func := some (lit "f") }]

/-- The call is dispatched and its handler returns. -/
def callLabels : List Label :=
  [.frame callF, .loop true, .loop true, .thread 0 true, .thread 0 true]

theorem run_hasty (es : List Entry) :
    run (step (hasty :: es)) .init (callLabels ++ [.thread 0 true]) =
      some (afterCall .remove [.response 1 (some .null)]) := by
  have hcall : run (step (hasty :: es)) .init callLabels =
      some (afterCall (.reply 0 .null) []) := rfl
  have hreply : step (hasty :: es) (afterCall (.reply 0 .null) []) (.thread 0 true) =
      some (afterCall .remove [.response 1 (some .null)]) := by
    change some (((afterCall (.reply 0 .null) []).write (.response 1 (some .null)) true).2.setThread
      0 _) = _
    rw [write_small _ _ (by decide)]
    rfl
  rw [run_append, hcall]
  exact congrArg (·.bind some) hreply

/-- **The input can be gone before the push**: a chunk that arrives when the handler has returned is
found its input, and the thread removes and frees it. -/
theorem inputsLive_hasty : ∃ c, run (step [hasty]) .init
    ((callLabels ++ [.thread 0 true]) ++ [.frame chunkF, .thread 0 true, .thread 0 true]) =
      some c ∧ ¬ InputsLive c := by
  rw [run_append, run_hasty]
  refine ⟨_, rfl, fun h => ?_⟩
  have hl := (h.loop 0 (.chunk .null) rfl).1
  cases hl

/-- The call, and a chunk for it while its handler runs. -/
theorem inputsLive_of_unhurried_hasty : ∃ (ls : List Label) (c : Conn),
    run (step [hasty]) .init ls = some c ∧ c.loop = .push 0 (.chunk .null) ∧ InputsLive c := by
  have quiet : ∀ c l, (∀ ok, l ≠ Label.loop ok) → (∀ r item, c.loop ≠ .push r item) →
      Fresh [hasty] c l ∧ Unhurried c l := fun c l hl hp =>
    ⟨fun ok _ _ _ h => absurd h (hl ok), fun _ _ _ r item _ _ _ h => absurd h (hp r item)⟩
  have loops : ∀ c ok, c.inputs = [] ∨ (∀ msg, c.loop ≠ .request msg) →
      Fresh [hasty] c (.loop ok) ∧ Unhurried c (.loop ok) := by
    refine fun c ok h => ⟨fun _ msg _ _ _ hl _ _ _ _ r hr => ?_, fun _ _ _ _ _ h => by cases h⟩
    rcases h with h | h
    · rw [h] at hr
      cases hr
    · exact absurd hl (h msg)
  have hrun : run (step [hasty]) .init
      [.frame callF, .loop true, .loop true, .thread 0 true, .frame chunkF] =
        some { afterCall (.running (some 0)) [] with
          loop := .push 0 (.chunk .null)
          frames := [{ id := 1, type := some (lit "request"), func := some (lit "f") },
            { id := 1, type := some (lit "stream_chunk") }] } := rfl
  refine ⟨_, _, hrun, rfl, inputsLive_of_unhurried [hasty] _ _ ?_ hrun⟩
  refine .cons (quiet _ _ (by simp) (by simp [Conn.init])) rfl ?_
  refine .cons (loops _ _ (.inl rfl)) rfl ?_
  refine .cons (loops _ _ (.inr fun _ h => by cases h)) rfl ?_
  refine .cons (quiet _ _ (by simp) fun _ _ h => by cases h) rfl ?_
  exact .cons (quiet _ _ (by simp) fun _ _ h => by cases h) rfl trivial

end

end Callwire.C
