import Callwire.Go.Proof.Blocked
import Callwire.Go.Proof.Correlation

/-!
# The entry of an `Import`

The read loop takes the entry of a call out of the map before it sends a message other than a
`stream_chunk`, so an `Import` that has returned with such a message has no entry
(`import_released`). `Import` itself removes nothing: one that returns without a message leaves its
entry behind (`import_left`).
-/

namespace Callwire.Go

open Lib List

/-- A call that was sent a message that ends it is not registered. -/
structure Released (a : CallView) : Prop where
  traced : Traced a
  got : ∀ d ∈ a.call.got, d.msg.type ≠ "stream_chunk" → a.registered = false
  inFlight : ∀ d, a.inFlight = some d → d.msg.type ≠ "stream_chunk" → a.registered = false

theorem Released.event {m : Msgpack} {v : View} {i : Nat} {a a' : CallView} {l : Label}
    (h : Released a) (he : CallEvent m v i a l a') : Released a' := by
  have htraced := h.traced.event he
  cases he with
  | still hr =>
    exact ⟨htraced, fun d hd ht => unregistered hr (h.got d hd ht),
      fun d hd ht => unregistered hr (h.inFlight d hd ht)⟩
  | frame => exact ⟨htraced, h.got, h.inFlight⟩
  | register hpc =>
    obtain ⟨hgot, -, hfl⟩ := h.traced.allocated hpc
    refine ⟨htraced, fun d hd => ?_, fun d hd => nomatch hfl.symm.trans hd⟩
    dsimp only at hd
    rw [hgot] at hd
    cases hd
  | @move cl call' e r hl hm hr =>
    have hgot : call'.got = a.call.got := congrArg Fixed.got hm.fixed
    exact ⟨htraced, fun d hd ht => unregistered hr (h.got d (hgot ▸ hd) ht),
      fun d hd ht => unregistered hr (h.inFlight d hd ht)⟩
  | chunk hr hf hid htype =>
    refine ⟨htraced, h.got, fun d hd ht => ?_⟩
    cases hd
    exact absurd htype ht
  | final | drained => exact ⟨htraced, fun _ _ _ => rfl, fun _ _ _ => rfl⟩
  | sent hf => exact ⟨htraced, forall_concat h.got (h.inFlight _ hf), nofun⟩

/-- **An `Import` that has returned with a message has left no entry**, unless the message is a
`stream_chunk`: its id is not in the map, or it is there for another call with the same id. -/
theorem import_released {m : Msgpack} {reconnect : Bool} {ls : List Label} {c : Client} {i : Nat}
    {call : Call} {msg : WireMessage} (hrun : run (step m reconnect) .init ls = some c)
    (hcall : c.calls[i]? = some call) (hk : call.kind = .importUnary)
    (hpc : call.pc = .returned (.reply msg)) (ht : msg.type ≠ "stream_chunk") :
    call.id ∉ c.pending ∨ ∃ j other, c.pending.lookup call.id = some j ∧ j ≠ i ∧
      c.calls[j]? = some other ∧ other.id = call.id := by
  have h : Each Released c := run_kept (fun _ _ _ hi => hi.step
    (fun _ _ _ _ => ⟨.start .., nofun, nofun⟩) fun _ _ _ _ he hr => hr.event he) .init hrun
  cases hj : c.pending.lookup call.id with
  | none => exact .inl (AList.lookup_eq_none.1 hj)
  | some j =>
    obtain ⟨other, hother, hid⟩ := h.linked.pending _ _ hj
    refine .inr ⟨j, other, rfl, ?_, hother, hid⟩
    rintro rfl
    have hr := h.each j call hcall
    have ha : call.Answered := hr.traced.answered hk
    rw [Call.Answered, hpc] at ha
    obtain ⟨d, hd, rfl⟩ := ha
    cases (decide_eq_true hj).symm.trans (hr.got d (mem_of_mem_head? hd) ht)

def answeredLabels : List Label :=
  callLabels .importUnary ++ [.loop (.frame (response 1 .nil)), .loop .send,
    .call 0 (.receive true)]

theorem import_released_response :
    ∃ c call, run (step msgpack false) .init answeredLabels = some c ∧
    c.calls[0]? = some call ∧ (call.id ∉ c.pending ∨ ∃ j other, c.pending.lookup call.id = some j ∧
      j ≠ 0 ∧ c.calls[j]? = some other ∧ other.id = call.id) := by
  obtain ⟨c, hrun, call, hcall, hk, hpc⟩ : ∃ c, run (step msgpack false) .init answeredLabels =
      some c ∧ ∃ call, c.calls[0]? = some call ∧ call.kind = .importUnary ∧
        call.pc = .returned (.reply (response 1 .nil)) := ⟨_, rfl, _, rfl, rfl, rfl⟩
  exact ⟨c, call, hrun, hcall, import_released hrun hcall hk hpc (by decide)⟩

/-- **The context of an `Import` is done**: it returns, and its entry stays. -/
theorem import_left : ∃ c call,
    run (step msgpack false) .init (callLabels .importUnary ++ [.call 0 .expire]) = some c ∧
    c.calls[0]? = some call ∧ call.pc = .returned .contextDone ∧
    c.pending.lookup call.id = some 0 :=
  ⟨_, _, rfl, rfl, rfl, rfl⟩

/-- **An `Import` returns with its own reply**, in whatever order they come: the first frame with
its id since it was registered, if the connection was not lost. No frame goes to two calls. -/
theorem imports_correlated {m : Msgpack} {reconnect : Bool} {ls : List Label} {c : Client}
    (hrun : run (step m reconnect) .init ls = some c) :
    (∀ i call msg, c.calls[i]? = some call → call.kind = .importUnary →
      call.pc = .returned (.reply msg) → msg = connectionLost call.id ∨
        ∃ k, FirstFrame c.handled call k msg ∧ c.Holds i k) ∧
    ∀ i j k, c.Holds i k → c.Holds j k → i = j := by
  have h : Correlated c := run_kept (fun _ _ _ => Correlated.step) .init hrun
  refine ⟨fun i call msg hcall hk hpc => ?_, h.unique⟩
  obtain hlost | ⟨d, k, hd, hframe, hfirst⟩ := (h.traced.each i call hcall).reply hk hpc
  · exact .inl hlost
  · exact .inr ⟨k, hfirst, call, hcall, d, .inl (mem_of_mem_head? hd), hframe⟩

theorem imports_correlated_response : ∃ c, run (step msgpack false) .init answeredLabels = some c ∧
    ∃ k call, FirstFrame c.handled call k (response 1 .nil) ∧ c.Holds 0 k := by
  have h :=
    (@imports_correlated msgpack false answeredLabels _ rfl).1 0 _ (response 1 .nil) rfl rfl rfl
  obtain ⟨k, h⟩ := h.resolve_left (ne_of_apply_ne WireMessage.type (by decide))
  exact ⟨_, rfl, k, _, h⟩

end Callwire.Go
