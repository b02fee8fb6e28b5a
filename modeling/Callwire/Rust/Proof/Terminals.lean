import Callwire.Lib.ArrayUpdate
import Callwire.Rust.Server

/-!
# The frames that end a call of the Rust server

A frame of type `response`, `error` or `stream_end` ends its call. The dispatch task of a call
writes at most one such frame, and writes nothing after it (`Task.Moved`); but the read loop writes
one of its own when a terminator is not the expected one, and the task goes on
(`wire_answeredTwice`). Without such a terminator the task is the only writer of its call's frames
(`Answering`), and each call is ended at most once (`wire_answeredAtMostOnce`).
-/

namespace Callwire.Rust.Server

open Lib List Option

/-- The types that end a call. -/
def Terminal (m : WireMessage) : Prop :=
  m.msgType = "response" ∨ m.msgType = "error" ∨ m.msgType = "stream_end"

/-- **At most one frame ends a call, and no chunk of the call follows it.** -/
def AnsweredAtMostOnce (wire : List WireMessage) : Prop :=
  wire.Pairwise fun m later =>
    Terminal m → later.id = m.id → ¬ Terminal later ∧ later.msgType ≠ "stream_chunk"

/-! ## One task -/

namespace Task

def Over (t : Task) : Prop := t.pc = .returned ∨ t.pc = .done

/-- What a move of a task does to the call's frames. -/
structure Moved (t t' : Task) (out : List WireMessage) : Prop where
  msg : t'.msg = t.msg
  ended : t.Over → t'.Over
  length : out.length ≤ 1
  out : ∀ m ∈ out, m.id = t.msg.id ∧ ¬ t.Over ∧ (Terminal m → t'.Over)

theorem Moved.quiet {t t' : Task} (hmsg : t'.msg = t.msg) (hover : t.Over → t'.Over) :
    t.Moved t' [] :=
  ⟨hmsg, hover, Nat.zero_le _, nofun⟩

theorem start_msg (registry : Registry) (t : Task) : (t.start registry).msg = t.msg := by
  unfold start startDispatch startInput
  split
  · split
    · rfl
    · split <;> rfl
  all_goals
    dsimp only
    split <;> rfl

theorem handled_msg {t t' : Task} {entry : RegistryEntry} {r : HandlerResult}
    (h : t.handled entry r = some t') : t'.msg = t.msg := by
  unfold handled at h
  split at h
  · cases h
    rfl
  · split at h <;> cases h
    all_goals rfl
  · split at h <;> cases h
    all_goals rfl

theorem next_msg (t : Task) (item : StreamItem) : (t.next item).msg = t.msg := by
  cases item <;> rfl

theorem forwardStep_keeps {t t' : Task} {connected : Bool} (h : t.forwardStep connected = some t') :
    t'.msg = t.msg ∧ t'.pc = t.pc := by
  unfold forwardStep at h
  split at h
  · cases h
    exact ⟨rfl, rfl⟩
  · cases h
    exact ⟨rfl, rfl⟩
  · split at h <;> cases h
    exact ⟨rfl, rfl⟩
  · split at h
    · cases h
      exact ⟨rfl, rfl⟩
    · split at h <;> cases h
      exact ⟨rfl, rfl⟩
  · cases h
  · cases h

theorem takeStep_keeps {t t' : Task} (h : t.takeStep = some t') :
    t'.msg = t.msg ∧ t'.pc = t.pc := by
  unfold takeStep at h
  split at h
  · cases h
  · split at h <;> cases h
    · exact ⟨rfl, rfl⟩
    · exact ⟨rfl, rfl⟩

theorem terminal_chunk (id : BitVec 64) (value : Value) :
    ¬ Terminal (Output.pack id (.chunk value)) := by
  simp [Terminal, Output.pack, packStreamChunk]

theorem pack_id (id : BitVec 64) (out : Output) : (out.pack id).id = id := by
  cases out <;> rfl

theorem written_msg (t : Task) (ok : Bool) (out : Output) : (t.written ok out).msg = t.msg := by
  cases out <;> cases ok <;> rfl

theorem written_over (t : Task) (ok : Bool) {id : BitVec 64} {out : Output}
    (h : Terminal (out.pack id)) : (t.written ok out).Over := by
  cases out with
  | chunk value => exact absurd h (terminal_chunk id value)
  | response value | error errorType message | streamEnd => exact .inl rfl

/-- **A task answers its own call, once.** -/
theorem step_moved {registry : Registry} {connected : Bool} {t t' : Task} {l : TaskLabel}
    {out : List WireMessage} (h : t.step registry connected l = some (t', out)) :
    t.Moved t' out := by
  -- `pc` decides all but the moves of the input, which leave it alone
  have hquiet : ∀ {t₁ : Task}, t₁.msg = t.msg → t₁.pc = t.pc → t.Moved t₁ [] := by
    intro t₁ hmsg hpc
    exact .quiet hmsg (by rw [Over, Over, hpc]; exact id)
  cases l with
  | start =>
    rw [step] at h
    split at h <;> cases h
    rename_i hpc
    exact .quiet (start_msg registry t) (by simp [Over, hpc])
  | handled r =>
    rw [step] at h
    split at h
    · rename_i hpc
      obtain ⟨t₁, ht₁, he⟩ := map_eq_some_iff.1 h
      cases he
      exact .quiet (handled_msg ht₁) (by simp [Over, hpc])
    · cases h
  | next item =>
    rw [step] at h
    split at h <;> cases h
    rename_i hpc
    exact .quiet (next_msg t item) (by simp [Over, hpc])
  | write ok =>
    rw [step] at h
    split at h <;> cases h
    rename_i o hpc
    have hover : ¬ t.Over := by simp [Over, hpc]
    refine ⟨written_msg t ok o, fun h => absurd h hover, ?_, ?_⟩
    · split <;> simp
    · intro m hm
      split at hm
      · rw [mem_singleton.1 hm]
        exact ⟨pack_id _ o, hover, written_over t ok⟩
      · cases hm
  | forward =>
    obtain ⟨t₁, ht₁, he⟩ := map_eq_some_iff.1 h
    cases he
    obtain ⟨hmsg, hpc⟩ := forwardStep_keeps ht₁
    exact hquiet hmsg hpc
  | take =>
    obtain ⟨t₁, ht₁, he⟩ := map_eq_some_iff.1 h
    cases he
    obtain ⟨hmsg, hpc⟩ := takeStep_keeps ht₁
    exact hquiet hmsg hpc
  | dropValues =>
    cases h
    exact hquiet rfl rfl

end Task

/-! ## The connection -/

def FreshRequest (c : Connection) : Label → Prop
  | .frame msg => msg.msgType = "request" → ∀ t ∈ c.tasks, t.msg.id ≠ msg.id
  | _ => True

/-- A terminator for a registered input is the expected one. -/
def MatchingTerminator (c : Connection) : Label → Prop
  | .frame msg => msg.msgType = "stream_close" ∨ msg.msgType = "stream_end" →
      ∀ task isBidi, c.streamInputs.lookup msg.id = some (task, isBidi) →
        msg.msgType = expected isBidi
  | _ => True

/-- Every frame that ends a call is its task's. -/
structure Answering (c : Connection) : Prop where
  loop : ∀ task id error, c.loop ≠ .mismatch task id error
  ids : (c.tasks.map fun t => t.msg.id).Nodup
  ended : ∀ m ∈ c.wire, Terminal m → ∃ t ∈ c.tasks, t.msg.id = m.id ∧ t.Over
  wire : AnsweredAtMostOnce c.wire

namespace Answering
variable {c c' : Connection} {msg : WireMessage}

theorem init (registry : Registry) : Answering (.init registry) :=
  ⟨nofun, nodup_nil, nofun, .nil⟩

section
variable (h : Answering c)
include h

theorem congr (hloop : ∀ task id error, c'.loop ≠ .mismatch task id error)
    (htasks : c'.tasks = c.tasks) (hwire : c'.wire = c.wire) : Answering c' :=
  ⟨hloop, htasks ▸ h.ids, by rw [htasks, hwire]; exact h.ended, hwire ▸ h.wire⟩

theorem unique {t u : Task} (ht : t ∈ c.tasks) (hu : u ∈ c.tasks) (hid : t.msg.id = u.msg.id) :
    t = u :=
  inj_on_of_nodup_map h.ids ht hu hid

theorem moved {i : Nat} {t t' : Task} {out : List WireMessage} (ht : c.tasks[i]? = some t)
    (hm : t.Moved t' out) :
    Answering { c with tasks := c.tasks.set i t', wire := c.wire ++ out } := by
  have hmem : t ∈ c.tasks := mem_of_getElem? ht
  obtain ⟨hi, -⟩ := List.getElem?_eq_some_iff.1 ht
  have hset : t' ∈ c.tasks.set i t' := mem_set hi _
  refine ⟨h.loop, ?_, ?_, ?_⟩
  · show ((c.tasks.set i t').map fun t => t.msg.id).Nodup
    rw [map_set_of_eq (fun t => t.msg.id) ht (congrArg WireMessage.id hm.msg)]
    exact h.ids
  · intro m hmem' hterm
    rcases mem_append.1 hmem' with hw | ho
    · obtain ⟨u, hu, hid, hover⟩ := h.ended m hw hterm
      refine exists_mem_set ht hu ?_ ⟨hid, hover⟩
      rintro rfl
      exact ⟨by rw [hm.msg]; exact hid, hm.ended hover⟩
    · obtain ⟨hid, -, hover⟩ := hm.out m ho
      exact ⟨t', hset, by rw [hm.msg, hid], hover hterm⟩
  · apply pairwise_append.2
    refine ⟨h.wire, ?_, ?_⟩
    · match out, hm.length with
      | [], _ => exact .nil
      | [_], _ => exact pairwise_singleton _ _
    · intro m hw x hx hterm hid
      -- the call of `m` is over, so its task does not write `x`
      obtain ⟨hxid, hnot, -⟩ := hm.out x hx
      obtain ⟨u, hu, huid, hover⟩ := h.ended m hw hterm
      have : u = t := h.unique hu hmem (by rw [huid, ← hid, hxid])
      exact absurd (this ▸ hover) hnot

theorem spawn {kind : Dispatch} (hloop : c.loop = .reading)
    (hfresh : ∀ t ∈ c.tasks, t.msg.id ≠ msg.id) : Answering (c.spawn msg kind) := by
  refine ⟨?_, ?_, ?_, h.wire⟩
  · intro task id error he
    cases hloop.symm.trans he
  · show ((c.tasks ++ [Task.spawn msg kind]).map fun t => t.msg.id).Nodup
    rw [map_append, nodup_append]
    refine ⟨h.ids, nodup_singleton _, ?_⟩
    intro a ha b hb hab
    obtain ⟨t, ht, rfl⟩ := mem_map.1 ha
    exact hfresh t ht (hab.trans (mem_singleton.1 hb))
  · intro m hm hterm
    obtain ⟨t, ht, hid, hover⟩ := h.ended m hm hterm
    exact ⟨t, mem_append_left _ ht, hid, hover⟩

theorem routeInput
    (htype : msg.msgType = "stream_chunk" ∨ msg.msgType = "stream_close" ∨
      msg.msgType = "stream_end")
    (hmatch : MatchingTerminator c (.frame msg)) : Answering (c.routeInput msg) := by
  unfold Connection.routeInput
  split
  · exact h
  · rename_i task isBidi hl
    split
    · exact h.congr nofun rfl rfl
    · rename_i hchunk
      have hmsg := hmatch (htype.resolve_left hchunk) task isBidi hl
      rw [if_neg (not_not.2 hmsg)]
      exact h.congr nofun rfl rfl

theorem handleFrame (hloop : c.loop = .reading) (hfresh : FreshRequest c (.frame msg))
    (hmatch : MatchingTerminator c (.frame msg)) : Answering (c.handleFrame msg) := by
  unfold Connection.handleFrame
  split
  · exact h.routeInput ‹_› hmatch
  · split
    · exact h
    · exact h.spawn hloop (hfresh (not_not.1 ‹_›))

theorem trySend {task : Nat} {signal : StreamInputMsg} (hs : c.trySend task signal = some c') :
    Answering c' ∧ c'.loop = c.loop := by
  unfold Connection.trySend at hs
  obtain ⟨t, ht, hs⟩ := bind_eq_some_iff.1 hs
  split at hs
  · cases hs
    exact ⟨h, rfl⟩
  · split at hs <;> cases hs
    refine ⟨?_, rfl⟩
    have hquiet : t.Moved { t with input := t.input ++ [signal] } [] := .quiet rfl id
    have := h.moved ht hquiet
    exact this.congr this.loop rfl (append_nil _).symm

theorem step {l : Label} (hok : FreshRequest c l ∧ MatchingTerminator c l)
    (hs : Server.step c l = some c') : Answering c' := by
  cases l with
  | register name entry =>
    cases hs
    exact h.congr h.loop rfl rfl
  | frame msg =>
    rw [Server.step] at hs
    split at hs <;> cases hs
    exact h.handleFrame ‹_› hok.1 hok.2
  | disconnect =>
    rw [Server.step] at hs
    split at hs <;> cases hs
    exact h.congr nofun rfl rfl
  | complain ok =>
    rw [Server.step] at hs
    split at hs
    · rename_i hloop
      exact absurd hloop (h.loop _ _ _)
    · cases hs
  | send =>
    rw [Server.step] at hs
    split at hs
    · rename_i task id signal _
      obtain ⟨c₁, hc₁, rfl⟩ := map_eq_some_iff.1 hs
      obtain ⟨h₁, -⟩ := h.trySend hc₁
      cases signal with
      | chunk value | close => exact h₁.congr nofun rfl rfl
    · cases hs
  | task i l =>
    rw [Server.step] at hs
    obtain ⟨t, ht, hs⟩ := bind_eq_some_iff.1 hs
    obtain ⟨⟨t', out⟩, ht', hs⟩ := bind_eq_some_iff.1 hs
    cases hs
    exact h.moved ht (Task.step_moved ht')
  | finish i =>
    rw [Server.step] at hs
    obtain ⟨t, ht, hs⟩ := bind_eq_some_iff.1 hs
    split at hs <;> cases hs
    have hdone : t.Moved { t with pc := .done } [] := .quiet rfl fun _ => .inr rfl
    have := h.moved ht hdone
    unfold Connection.removeInput
    split <;> exact this.congr this.loop rfl (append_nil _).symm

end

end Answering

/-! ## At most one answer -/

/-- **With new request ids and matching terminators, every call is answered at most once**, and no
chunk follows the answer. -/
theorem wire_answeredAtMostOnce {registry : Registry} {ls : List Label} {c : Connection}
    (hok : Along step (fun c l => FreshRequest c l ∧ MatchingTerminator c l) (.init registry) ls)
    (hrun : run step (.init registry) ls = some c) : AnsweredAtMostOnce c.wire := by
  have h : Answering c :=
    run_invariant (fun _ _ _ hi hp hs => hi.step hp hs) (.init registry) hok hrun
  exact h.wire

def clientStreamRegistry : Registry := AList.insert "f" .clientStream ∅

def inputConnection : Connection where
  registry := clientStreamRegistry
  loop := .reading
  streamInputs := AList.insert 1 (0, false) ∅
  tasks := [{ Task.spawn (packRequest 1 "f" .nil) .dispatchClientStream with
    pc := .calling .clientStream, forward := .receiving }]
  wire := []

def inputLabels : List Label := [.frame (packRequest 1 "f" .nil), .task 0 .start]

theorem run_input : run step (.init clientStreamRegistry) inputLabels = some inputConnection := rfl

def answerLabels : List Label :=
  [.send, .task 0 .forward, .task 0 .take, .task 0 (.handled (.value .nil)), .task 0 (.write true)]

theorem along_input {Ok : Connection → Label → Prop} {ls : List Label}
    (hopen : Ok (.init clientStreamRegistry) (.frame (packRequest 1 "f" .nil)))
    (htask : ∀ c l, Ok c (.task 0 l)) (h : Along step Ok inputConnection ls) :
    Along step Ok (.init clientStreamRegistry) (inputLabels ++ ls) :=
  .append (.cons hopen rfl (.cons (htask _ _) rfl trivial)) run_input h

def mismatchLabels : List Label :=
  inputLabels ++ .frame (packStreamEnd 1) :: .complain true :: answerLabels

/-- **A `stream_end` for a client-streaming call is answered twice**: by the read loop, and by the
call's own task. -/
theorem wire_answeredTwice : ∃ c,
    Along step FreshRequest (.init clientStreamRegistry) mismatchLabels ∧
    run step (.init clientStreamRegistry) mismatchLabels = some c ∧
    c.wire = [packError 1 "ProtocolError"
      "expected 'stream_close' to terminate this call, got 'stream_end'", packResponse 1 .nil] ∧
    ¬ AnsweredAtMostOnce c.wire := by
  refine ⟨_, ?_, rfl, rfl, ?_⟩
  · refine along_input (fun _ => forall_mem_nil _) (fun _ _ => trivial) (.of_labels ?_ _)
    simp [answerLabels, FreshRequest, packStreamEnd]
  · intro h
    obtain ⟨hlater, -⟩ := pairwise_cons.1 h
    exact (hlater _ (mem_singleton_self _) (.inr (.inl rfl)) rfl).1 (.inl rfl)

theorem wire_answeredAtMostOnce_close : ∃ c,
    run step (.init clientStreamRegistry)
      (inputLabels ++ .frame (packStreamClose 1) :: answerLabels) = some c ∧
    c.wire = [packResponse 1 .nil] ∧ AnsweredAtMostOnce c.wire := by
  have hok : Along step (fun c l => FreshRequest c l ∧ MatchingTerminator c l)
      (.init clientStreamRegistry) (inputLabels ++ .frame (packStreamClose 1) :: answerLabels) := by
    refine along_input ⟨fun _ => forall_mem_nil _, fun h => absurd h (by decide)⟩
      (fun _ _ => ⟨trivial, trivial⟩) ?_
    refine .cons ⟨fun h => absurd h (by decide), fun _ task isBidi hl => ?_⟩ rfl
      (.of_labels ?_ _)
    · cases hl
      rfl
    · simp [answerLabels, FreshRequest, MatchingTerminator]
  exact ⟨_, rfl, rfl, wire_answeredAtMostOnce hok rfl⟩

end Callwire.Rust.Server
