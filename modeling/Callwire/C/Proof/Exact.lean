import Callwire.C.Proof.Routing

/-!
# Names and types are matched exactly

`dup_str` keeps every byte of a string and `strcmp` stops at a NUL, so what the server compares are
the bytes before it. Every thread goes back to a frame that passed these comparisons, and what the
read loop is about to push is the item of the frame it has just read, which passed them too
(`Matched`); without NUL bytes they are exact.
-/

namespace Callwire.C

open Lib List

variable {entries : List Entry} {frames frames' : List WireMessage} {c c' : Conn} {l : Label}

/-- A request for `e` was read. -/
def Requested (entries : List Entry) (frames : List WireMessage) (e : Entry) (id : BitVec 64) :
    Prop :=
  ∃ msg ∈ frames, msg.id = id ∧ Conn.typeIs msg "request" = true ∧
    ∃ func, msg.func = some func ∧ findHandler entries func = some e

/-- The frame that the read loop has in hand was matched. -/
def LoopPc.Matched (entries : List Entry) (frames : List WireMessage) : LoopPc → Prop
  | .push _ item => ∃ msg, frames.getLast? = some msg ∧ item = Conn.itemOf msg ∧
    Conn.isStreamFrame msg = true
  | .request msg => msg ∈ frames ∧ Conn.typeIs msg "request" = true
  | .spawn e id _ => Requested entries frames e id
  | _ => True

/-- What runs and what is routed was matched. -/
structure Matched (entries : List Entry) (c : Conn) : Prop where
  threads : ∀ t ∈ c.threads, Requested entries c.frames t.entry t.id
  loop : c.loop.Matched entries c.frames

namespace Matched

variable (h : Matched entries c)
include h

theorem thread {i : Nat} {t t' : Thread} (ht : c.threads[i]? = some t)
    (hthreads : c'.threads = c.threads.set i t') (hentry : t'.entry = t.entry) (hid : t'.id = t.id)
    (hframes : c'.frames = c.frames) (hloop : c'.loop = c.loop) : Matched entries c' := by
  refine ⟨?_, by simpa [hframes, hloop] using h.loop⟩
  rw [hthreads, hframes]
  refine forall_set ht h.threads ?_
  rw [hentry, hid]
  exact h.threads t (mem_of_getElem? ht)

theorem reader (hthreads : c'.threads = c.threads) (hframes : c.frames ⊆ c'.frames)
    (hloop : c'.loop.Matched entries c'.frames) : Matched entries c' := by
  refine ⟨fun t ht => ?_, hloop⟩
  obtain ⟨msg, hmsg, hreq⟩ := h.threads t (hthreads ▸ ht)
  exact ⟨msg, hframes hmsg, hreq⟩

theorem step (hs : step entries c l = some c') : Matched entries c' := by
  have hl := h.loop
  cases step_move hs with
  | malformed => exact h
  | route _ _ hm =>
    exact h.reader rfl (subset_append_left ..) ⟨_, getLast?_concat, rfl, hm⟩
  | discard hr => exact h.reader rfl (subset_append_left ..) (by simp [hr, LoopPc.Matched])
  | request _ _ _ hm => exact h.reader rfl (subset_append_left ..) ⟨by simp, hm⟩
  | drain =>
    obtain ⟨-, -, hthreads, hframes, -⟩ := drainInputs_eq c
    exact h.reader hthreads (by simp [hframes]) trivial
  | push => exact h.reader rfl (Subset.refl _) trivial
  | refuse => exact h.reader (by simp [Conn.writeError]) (by simp [Conn.writeError]) trivial
  | register hr hf he | accept hr hf he =>
    rw [hr] at hl
    exact h.reader rfl (Subset.refl _) ⟨_, hl.1, rfl, hl.2, _, hf, he⟩
  | spawn hr =>
    rw [hr] at hl
    refine ⟨forall_concat h.threads ?_, trivial⟩
    rw [newThread_entry, newThread_id]
    exact hl
  | noThread => exact h.reader rfl (Subset.refl _) trivial
  | find ht | ret ht | recv ht | remove ht | removeNone ht | free ht =>
    exact h.thread ht rfl rfl rfl rfl rfl
  | emit ht | reply ht =>
    exact h.thread ht (Conn.write_setThread ..) rfl rfl (by simp) (by simp)
  | reuse => exact ⟨h.threads, h.loop⟩

end Matched

end Callwire.C
