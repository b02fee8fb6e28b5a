import Callwire.Java.Client
import Callwire.Lib.Iteration
import Callwire.Lib.Segment

/-!
# The consumer of a stream that the Java client receives

`Call.Stage` is the invariant of a call of `callStream` or `importBidi`: the consumer has taken what
its reports say, and at most one message more (`Call.Held`), and its answers are those of an
iterator over the chunks in its queue. It speaks of the queue only, and not of what was received. A
message that arrives keeps it (`Stage.push`), and so does each method (`Stage.advance`,
`Stage.next`, `Stage.hasNext`, `Stage.receive`). `moved_callStep` says what a move of a call is.
-/

namespace Callwire.Java

open Lib List Call

variable {V : Type}

namespace Msg

/-- No chunk comes after it. -/
def isFinal (m : Msg V) : Bool := !m.isChunk

def OfStream (m : Msg V) : Prop :=
  m.isChunk ∨ m.type = some "stream_end" ∨ m.type = some "error"

theorem OfStream.final {m : Msg V} (h : m.OfStream) (hf : m.isFinal = true) :
    m.type = some "stream_end" ∨ m.type = some "error" := by
  refine h.resolve_left fun hc => ?_
  rw [isFinal, hc] at hf
  cases hf

theorem isFinal_of_type {m : Msg V}
    (h : m.type = some "stream_end" ∨ m.type = some "error") : m.isFinal = true := by
  rw [isFinal, isChunk]
  rcases h with h | h
  · rw [h]
    decide
  · rw [h]
    decide

end Msg

def Report.answer : Report V → Option (Answer (Option V))
  | .hasNext true => some .more
  | .hasNext false => some .stop
  | .next v | .returned v => some (.value v)
  | .noSuchElement | .ended | .callwireException .. => some .stop
  | .ignored | .timeoutException _ | .ioException _ => none

/-! ## A call -/

namespace Call

/-- The calls that receive a stream. -/
def Streaming (call : Call V) : Prop := call.kind = .callStream ∨ call.kind = .importBidi

/-- What the iterator, or `recv`, has answered. -/
def answers (call : Call V) : List (Answer (Option V)) := call.log.filterMap Report.answer

def given (call : Call V) : List (Option V) := values call.answers

/-- The message that was taken from the queue and not given yet. -/
def Held (call : Call V) (held : Option (Msg V)) : Prop :=
  match call.kind, call.pc with
  | .callStream, .writing _ | .callStream, .advancing none => call.done = false ∧ held = none
  | .callStream, .advancing (some result) =>
    call.done = false ∧ ∃ m, held = some m ∧ m.isFinal = false ∧ m.result = result
  | .callStream, .opened =>
    ∃ m, held = some m ∧ call.nextMsg = some m ∧ call.done = m.isFinal
  | .importBidi, .writing _ => held = none
  | .importBidi, .opened | .importBidi, .receiving =>
    ∀ m, held = some m → m.isFinal = true ∧ .stop ∈ call.answers
  | _, _ => False

/-- The results of the chunks in the queue. -/
def chunks (call : Call V) : List (Option V) :=
  (call.queue.put.takeWhile (!Msg.isFinal ·)).map Msg.result

/-- The consumer stands where its reports say. -/
structure Stage (call : Call V) : Prop where
  segment : upTo Msg.isFinal call.queue.put = call.queue.put
  ofStream : ∀ m ∈ call.queue.put, m.OfStream
  held : ∃ held, call.Held held ∧
    call.queue.taken = call.given.length + held.toList.length ∧
    ∀ m, held = some m → call.queue.put[call.given.length]? = some m
  answers : Answers call.chunks (¬ Unfinished Msg.isFinal call.queue.put) 0 call.answers

/-- A stream answers nothing before its request is written, and nothing if that fails. -/
def Sound (call : Call V) : Prop :=
  call.Streaming → call.pc = .finished ∧ call.answers = [] ∨
    call.pc ≠ .finished ∧ call.Stage ∧ ∀ request, call.pc = .writing request → call.answers = []

/-- What a move of a call leaves alone. -/
structure Kept (call call' : Call V) : Prop where
  id : call'.id = call.id
  kind : call'.kind = call.kind
  since : call'.since = call.since
  put : call'.queue.put = call.queue.put

section Stage

variable {call call' : Call V}

theorem answers_report (call : Call V) (r : Report V) :
    (call.report r).answers = call.answers ++ r.answer.toList := by
  rw [answers, answers, report, filterMap_append]
  cases h : r.answer <;> simp [h]

theorem given_report {r : Report V} (h : values r.answer.toList = []) (call : Call V) :
    (call.report r).given = call.given := by
  rw [given, answers_report, values_append, h, append_nil]
  rfl

theorem sound_start (kind : CallKind) (id : BitVec 64) (func : String) (args : List (Option V))
    (since : Nat) : Sound (start kind id func args since) := by
  intro hs
  refine .inr ⟨nofun, ⟨rfl, nofun, ⟨none, ?_, rfl,
    nofun⟩, trivial⟩, fun _ _ => rfl⟩
  rcases hs with hs | hs
  · have hk : kind = .callStream := hs
    subst hk
    exact ⟨rfl, rfl⟩
  · have hk : kind = .importBidi := hs
    subst hk
    rfl

end Stage

namespace Stage

variable {call call' : Call V} {m : Msg V} {queue : BoundedQueue (Msg V)}

section
variable {n : Nat} (h : call.Stage) (hm : call.queue.put[n]? = some m)
include h hm

theorem right_value (hf : m.isFinal = false) : call.chunks[n]? = some m.result := by
  rw [← h.segment] at hm
  rw [chunks, getElem?_map, getElem?_takeWhile_of_upTo hm hf]
  rfl

theorem right_more (hf : m.isFinal = false) : n < call.chunks.length :=
  lt_of_some (h.right_value hm hf)

theorem right_stop (hf : m.isFinal = true) :
    n = call.chunks.length ∧ ¬ Unfinished Msg.isFinal call.queue.put := by
  constructor
  · rw [← h.segment] at hm
    rw [chunks, length_map]
    exact eq_length_of_upTo hm hf
  · intro hu
    rw [hu m (mem_of_getElem? hm)] at hf
    cases hf

end

theorem push (h : call.Stage) (hm : m.OfStream) (hu : Unfinished Msg.isFinal call.queue.put) :
    Stage { call with queue := call.queue.push m } := by
  have hput : (call.queue.push m).put = call.queue.put ++ [m] := rfl
  constructor
  case segment => exact upTo_concat_of_unfinished hu m
  case ofStream => exact forall_concat h.ofStream hm
  case held =>
    obtain ⟨held, hheld, htaken, hat⟩ := h.held
    exact ⟨held, hheld, htaken, fun m' hm' => concat_of_some (hat m' hm')⟩
  case answers =>
    have hans := h.answers
    rw [chunks] at hans ⊢
    rw [hput]
    cases hf : m.isFinal with
    | false =>
      rw [takeWhile_concat_of_unfinished hu hf, map_append]
      exact hans.sent_concat fun hfin => hfin hu
    | true =>
      rw [takeWhile_concat_of_final hf]
      exact hans.end_of fun hfin => absurd hu hfin

theorem same (h : call.Stage) (hq : call'.queue = call.queue) (ha : call'.answers = call.answers)
    (hheld : ∀ held, call.Held held → call'.Held held) : call'.Stage := by
  have hg : call'.given = call.given := congrArg values ha
  have hc : call'.chunks = call.chunks := by rw [chunks, chunks, hq]
  obtain ⟨held, hh, htaken, hat⟩ := h.held
  refine ⟨hq ▸ h.segment, hq ▸ h.ofStream, ⟨held, hheld held hh, ?_, ?_⟩, ?_⟩
  · rw [hq, hg, htaken]
  · rw [hq, hg]
    exact hat
  · rw [hq, ha, hc]
    exact h.answers

theorem held_report {held : Option (Msg V)} (h : call.Held held) (r : Report V) :
    (call.report r).Held held := by
  have hmem : .stop ∈ call.answers → .stop ∈ (call.report r).answers := by
    intro hstop
    rw [answers_report]
    exact mem_append_left _ hstop
  unfold Held at h ⊢
  simp only [report] at h ⊢
  split at h <;> try exact h
  all_goals exact fun m hm => ⟨(h m hm).1, hmem (h m hm).2⟩

section
variable (h : call.Stage)
include h

theorem answer {r : Report V} (hnone : values r.answer.toList = [])
    (hright : ∀ a, r.answer = some a → a.Right call.chunks
      (¬ Unfinished Msg.isFinal call.queue.put) call.given.length) :
    (call.report r).Stage := by
  have hg := given_report hnone call
  obtain ⟨held, hh, htaken, hat⟩ := h.held
  refine ⟨h.segment, h.ofStream, ⟨held, held_report hh r, ?_, ?_⟩, ?_⟩
  · rw [hg]
    exact htaken
  · rw [hg]
    exact hat
  · rw [answers_report]
    cases ha : r.answer with
    | none =>
      rw [Option.toList_none, append_nil]
      exact h.answers
    | some a => exact h.answers.concat ((Nat.zero_add _).symm ▸ hright a ha)

/-- `hasNext` and the `NoSuchElementException` of `next` are right. -/
theorem right_hasNext (hk : call.kind = .callStream) (hpc : call.pc = .opened) :
    (call.hasNext = true → call.given.length < call.chunks.length) ∧
    (call.hasNext = false →
      call.given.length = call.chunks.length ∧ ¬ Unfinished Msg.isFinal call.queue.put) := by
  obtain ⟨held, hh, -, hat⟩ := h.held
  rw [Held, hk, hpc] at hh
  obtain ⟨m, hm, hnext, hdone⟩ := hh
  have hhas : call.hasNext = !m.isFinal := by
    rw [hasNext, hnext, hdone]
    exact Bool.and_true _
  rw [hhas]
  constructor
  · intro hf
    exact h.right_more (hat m hm) (by simpa using hf)
  · intro hf
    exact h.right_stop (hat m hm) (by simpa using hf)

/-- `next` gives the chunk that is held, once `advance` has returned. -/
theorem next (hk : call.kind = .callStream) (hpc : call.pc = .opened) (hdone : call.done = false)
    (hnext : call.nextMsg = some m) : Stage { call with pc := .advancing (some m.result) } := by
  refine h.same rfl rfl fun held hh => ?_
  rw [Held, hk, hpc] at hh
  obtain ⟨m', hm', hnext', hfinal⟩ := hh
  obtain rfl : m = m' := Option.mem_unique hnext hnext'
  rw [Held, hk]
  exact ⟨hdone, m, hm', hfinal ▸ hdone, rfl⟩

theorem hasNext (hk : call.kind = .callStream) (hpc : call.pc = .opened) :
    (call.report (.hasNext call.hasNext)).Stage := by
  have hright := h.right_hasNext hk hpc
  refine h.answer (by cases call.hasNext <;> rfl) fun a ha => ?_
  cases hh : call.hasNext with
  | true =>
    rw [hh] at ha
    cases ha
    exact hright.1 hh
  | false =>
    rw [hh] at ha
    cases ha
    exact hright.2 hh

theorem not_done (hs : call.Streaming) {result : Option (Option V)}
    (hpc : call.pc = .advancing result) : call.done = false := by
  obtain ⟨held, hh, -⟩ := h.held
  rw [Held, hpc] at hh
  rcases hs with hk | hk
  · rw [hk] at hh
    cases result with
    | none | some v => exact hh.1
  · rw [hk] at hh
    exact hh.elim

theorem get {held : Option (Msg V)}
    (htaken : call.queue.taken = call.given.length + held.toList.length)
    (hget : call.queue.get? = some (m, queue)) :
    call.queue.put[call.given.length + held.toList.length]? = some m ∧
      queue.put = call.queue.put ∧
      queue.taken = call.given.length + held.toList.length + 1 ∧ m.OfStream := by
  obtain ⟨hm, -, hput, htaken'⟩ := BoundedQueue.get?_eq_some hget
  exact ⟨htaken ▸ hm, hput, htaken ▸ htaken', h.ofStream m (mem_of_getElem? hm)⟩

theorem advance (hk : call.kind = .callStream) {result : Option (Option V)}
    (hpc : call.pc = .advancing result) (hget : call.queue.get? = some (m, queue)) {done : Bool}
    (hdone : done = m.isFinal) :
    Stage ({ call with queue, nextMsg := some m, done }.advanced result) := by
  obtain ⟨held, hh, htaken, hat⟩ := h.held
  obtain ⟨hm, hput, htaken', -⟩ := h.get htaken hget
  rw [Held, hk, hpc] at hh
  have hans : Call.answers ({ call with queue, nextMsg := some m, done }.advanced result) =
      call.answers ++ (result.map .value).toList := by
    rw [Call.answers, advanced, filterMap_append]
    cases result <;> rfl
  -- what is given is what was held
  have hgiven : values (result.map Answer.value).toList = held.toList.map Msg.result ∧
      ∀ a, a ∈ (result.map Answer.value).toList →
        a.Right call.chunks (¬ Unfinished Msg.isFinal call.queue.put) call.given.length := by
    cases result with
    | none =>
      rw [hh.2]
      exact ⟨rfl, nofun⟩
    | some v =>
      obtain ⟨-, m₀, hm₀, hf, hv⟩ := hh
      rw [hm₀, ← hv]
      refine ⟨rfl, fun a ha => ?_⟩
      rw [mem_singleton.1 ha]
      exact h.right_value (hat m₀ hm₀) hf
  have hlen : (given ({ call with queue, nextMsg := some m, done }.advanced result)).length =
      call.given.length + held.toList.length := by
    rw [given, hans, length_values_append, hgiven.1, length_map]
    rfl
  refine ⟨?_, ?_, ⟨some m, ?_, ?_, ?_⟩, ?_⟩
  · exact hput ▸ h.segment
  · exact hput ▸ h.ofStream
  · rw [Held]
    simp only [advanced, hk]
    exact ⟨m, rfl, rfl, hdone⟩
  · rw [hlen]
    exact htaken'
  · intro m' hm'
    cases hm'
    rw [hlen]
    exact hput ▸ hm
  · rw [hans]
    have hc : chunks ({ call with queue, nextMsg := some m, done }.advanced result) =
        call.chunks := by
      rw [chunks, chunks, advanced, hput]
    rw [hc]
    simp only [advanced, hput]
    cases hr : result with
    | none =>
      rw [Option.map_none, Option.toList_none, append_nil]
      exact h.answers
    | some v =>
      rw [hr] at hgiven
      exact h.answers.concat ((Nat.zero_add _).symm ▸ hgiven.2 _ (mem_singleton.2 rfl))

theorem receive (hk : call.kind = .importBidi) (hpc : call.pc = .receiving)
    (hget : call.queue.get? = some (m, queue)) {r : Report V}
    (hr : r.answer = some (if m.isFinal then .stop else .value m.result)) :
    Stage (report { call with queue, pc := .opened } r) := by
  obtain ⟨held, hh, htaken, hat⟩ := h.held
  obtain ⟨hm, hput, htaken', -⟩ := h.get htaken hget
  rw [Held, hk, hpc] at hh
  -- nothing comes after the terminator
  have hnone : held = none := by
    cases hheld : held with
    | none => rfl
    | some m₀ =>
      obtain ⟨hf, -⟩ := hh m₀ hheld
      obtain ⟨hlen, hfin⟩ := h.right_stop (hat m₀ hheld) hf
      have hlt := lt_of_some hm
      rw [hheld, hlen, ← h.segment, length_upTo_of_finished hfin, chunks, length_map] at hlt
      exact absurd hlt (Nat.lt_irrefl _)
  rw [hnone] at hm htaken'
  have hans := answers_report { call with queue, pc := .opened } r
  rw [hr] at hans
  have hc : chunks (report { call with queue, pc := .opened } r) = call.chunks := by
    rw [chunks, chunks, report, hput]
  have hlen := congrArg (fun as => (values as).length) hans
  simp only [length_values_append] at hlen
  cases hf : m.isFinal with
  | false =>
    rw [hf, if_neg Bool.false_ne_true] at hans hlen
    refine ⟨hput ▸ h.segment, hput ▸ h.ofStream, ⟨none, ?_, ?_, nofun⟩, ?_⟩
    · rw [Held]
      simp only [report, hk]
      exact nofun
    · exact htaken'.trans hlen.symm
    · rw [hans, hc]
      simp only [report, hput]
      exact h.answers.concat ((Nat.zero_add _).symm ▸ h.right_value hm hf)
  | true =>
    rw [hf, if_pos rfl] at hans hlen
    refine ⟨hput ▸ h.segment, hput ▸ h.ofStream, ⟨some m, ?_, ?_, fun m' hm' => ?_⟩, ?_⟩
    · rw [Held]
      simp only [report, hk]
      intro m' hm'
      cases hm'
      refine ⟨hf, ?_⟩
      show Answer.stop ∈ (report { call with queue, pc := .opened } r).answers
      rw [hans]
      exact mem_append_right _ (mem_singleton.2 rfl)
    · exact htaken'.trans (congrArg (· + 1) hlen.symm)
    · cases hm'
      have hat' : queue.put[call.given.length]? = some m := hput ▸ hm
      exact (congrArg (queue.put[·]?) hlen).trans hat'
    · rw [hans, hc]
      simp only [report, hput]
      exact h.answers.concat ((Nat.zero_add _).symm ▸ h.right_stop hm hf)

theorem polls (hfin : ¬ Unfinished Msg.isFinal call.queue.put)
    (hpc : (∃ result, call.pc = .advancing result) ∨ call.pc = .receiving ∧ .stop ∉ call.answers)
    (hs : call.Streaming) : ∃ m queue, call.queue.get? = some (m, queue) := by
  obtain ⟨held, hh, htaken, hat⟩ := h.held
  have hle := h.answers.values_prefix.length_le
  have hlen : call.queue.put.length = call.chunks.length + 1 := by
    rw [← h.segment, length_upTo_of_finished hfin, chunks, length_map]
  have hlt : call.queue.taken < call.queue.put.length := by
    rw [htaken, hlen]
    cases held with
    | none => exact Nat.lt_succ_of_le hle
    | some m =>
      -- the message that is held is a chunk
      have hf : m.isFinal = false := by
        unfold Held at hh
        rcases hpc with ⟨result, hpc⟩ | ⟨hpc, hstop⟩
        · rcases hs with hk | hk
          · rw [hk, hpc] at hh
            cases result with
            | none => cases hh.2
            | some v =>
              obtain ⟨-, m', hm', hf, -⟩ := hh
              cases hm'
              exact hf
          · rw [hk, hpc] at hh
            exact hh.elim
        · rcases hs with hk | hk
          · rw [hk, hpc] at hh
            exact hh.elim
          · rw [hk, hpc] at hh
            exact absurd (hh m rfl).2 hstop
      exact Nat.succ_lt_succ (h.right_more (hat m rfl) hf)
  obtain ⟨queue, hget⟩ := BoundedQueue.get?_of_getElem? (getElem?_eq_getElem hlt)
  exact ⟨_, queue, hget⟩

end

end Stage

variable {call : Call V}

theorem Sound.stage (h : call.Sound) (hs : call.Streaming) (hpc : call.pc ≠ .finished) :
    call.Stage :=
  (h hs).elim (fun hf => absurd hf.1 hpc) (·.2.1)

theorem Sound.not_waiting (h : call.Sound) (hpc : call.pc = .waiting) : ¬ call.Streaming := by
  intro hs
  obtain ⟨held, hh, -⟩ := (h.stage hs (hpc ▸ nofun)).held
  rw [Held, hpc] at hh
  rcases hs with hk | hk
  · rw [hk] at hh
    exact hh
  · rw [hk] at hh
    exact hh

theorem Sound.push (h : call.Sound) {m : Msg V}
    (hm : call.Streaming → call.pc ≠ .finished → m.OfStream ∧
      Unfinished Msg.isFinal call.queue.put) :
    Sound { call with queue := call.queue.push m } := by
  intro hs
  rcases h hs with hf | ⟨hpc, hst, hw⟩
  · exact .inl hf
  · exact .inr ⟨hpc, hst.push (hm hs hpc).1 (hm hs hpc).2, hw⟩

/-- Past the write of the request. -/
def Begun (call : Call V) : Prop :=
  match call.pc with
  | .writing _ | .finished => False
  | _ => True

theorem Begun.not_finished (h : call.Begun) : call.pc ≠ .finished := by
  intro hpc
  rw [Begun, hpc] at h
  exact h

theorem Begun.of_ne (hw : ∀ request, call.pc ≠ .writing request) (hf : call.pc ≠ .finished) :
    call.Begun := by
  unfold Begun
  split
  · exact hw _ ‹_›
  · exact hf ‹_›
  · exact trivial

theorem Begun.sound (hpc : call.Begun) (h : call.Streaming → call.Stage) : call.Sound := by
  refine fun hs => .inr ⟨hpc.not_finished, h hs, fun request hw => ?_⟩
  rw [Begun, hw] at hpc
  exact hpc.elim

theorem sound_of_not_streaming (h : ¬ call.Streaming) : call.Sound :=
  fun hs => absurd hs h

theorem Kept.sound_other {call' : Call V} (hk : Kept call call') (h : ¬ call.Streaming) :
    call'.Sound := by
  refine sound_of_not_streaming ?_
  rw [Streaming, hk.kind]
  exact h

end Call

/-! ## The moves of a call -/

namespace Client

/-- What a move of a call, or of a thread that uses its stream, does. -/
structure CallMove (c c' : Client V) (k : Nat) (call call' : Call V) : Prop where
  calls : c'.calls = c.calls.set k call'
  received : c'.received = c.received
  reader : c'.reader = c.reader
  nextId : c'.nextId = c.nextId
  kept : Kept call call'
  sound : call'.Sound
  alive : call'.pc ≠ .finished → call.pc ≠ .finished
  pending : c'.pending = c.pending ∨ c'.pending = c.pending.erase call.id ∧
    (call.Streaming → call'.pc = .finished ∨ ¬ Unfinished Msg.isFinal call.queue.put)

section CallStep

variable {c c' : Client V} {k : Nat} {call : Call V}

theorem write_eq_ok {fail : Option String} {m : Msg V} (h : c.write fail m = .ok c') :
    c' = { c with wire := c.wire ++ [m] } := by
  unfold write at h
  split at h
  · split at h
    · cases h
    · cases h
      rfl
  · cases h

theorem CallMove.keep {call' : Call V} {wire : List (Msg V)} (hk : Kept call call')
    (hs : call'.Sound) (hpc : call.pc ≠ .finished) :
    CallMove c ({ c with wire }.setCall k call') k call call' :=
  ⟨rfl, rfl, rfl, rfl, hk, hs, fun _ => hpc, .inl rfl⟩

theorem CallMove.unchanged {wire : List (Msg V)} (hget : c.calls[k]? = some call)
    (hs : call.Sound) (hpc : call.pc ≠ .finished) : CallMove c { c with wire } k call call := by
  obtain ⟨hlt, rfl⟩ := List.getElem?_eq_some_iff.1 hget
  exact ⟨(set_getElem_self hlt).symm, rfl, rfl, rfl, ⟨rfl, rfl, rfl, rfl⟩, hs, fun _ => hpc,
    .inl rfl⟩

theorem CallMove.drop {call' : Call V} (hk : Kept call call') (hs : call'.Sound)
    (hpc : call.pc ≠ .finished)
    (hfin : call.Streaming → call'.pc = .finished ∨ ¬ Unfinished Msg.isFinal call.queue.put) :
    CallMove c ((c.remove call.id).setCall k call') k call call' :=
  ⟨rfl, rfl, rfl, rfl, hk, hs, fun _ => hpc, .inr ⟨rfl, hfin⟩⟩

theorem moved_write {fail : Option String} (hsound : call.Sound)
    (h : c.callStep k call (.write fail) = some c') : ∃ call', CallMove c c' k call call' := by
  simp only [callStep] at h
  split at h
  · rename_i request hpc
    have hlive : call.pc ≠ .finished := hpc ▸ nofun
    split at h
    · rename_i c₁ hw
      obtain rfl := write_eq_ok hw
      cases h
      refine ⟨_, .keep ?_ (Begun.sound ?_ fun hs => ?_) hlive⟩
      · unfold written
        split <;> exact ⟨rfl, rfl, rfl, rfl⟩
      · unfold written
        split <;> exact trivial
      · have hs' : call.Streaming := by
          unfold written at hs
          split at hs <;> exact hs
        have hstage := hsound.stage hs' hlive
        unfold written
        rcases hs' with hk | hk
        · rw [hk]
          refine hstage.same rfl rfl fun held hh => ?_
          rw [Held, hk, hpc] at hh
          exact hh
        · rw [hk]
          refine hstage.same rfl rfl fun held hh => ?_
          rw [Held, hk, hpc] at hh
          intro m hm
          rw [hh] at hm
          cases hm
    · cases h
      refine ⟨_, .drop ⟨rfl, rfl, rfl, rfl⟩ (fun hs => .inl ⟨rfl, ?_⟩) hlive fun _ => .inl rfl⟩
      rcases hsound hs with ⟨hf, -⟩ | ⟨-, -, hnone⟩
      · exact absurd hf hlive
      · refine (answers_report call _).trans ?_
        rw [hnone request hpc]
        rfl
  · cases h

theorem moved_pollMessage {m : Msg V} {queue : BoundedQueue (Msg V)} (hsound : call.Sound)
    (hget : call.queue.get? = some (m, queue))
    (h : c.pollMessage k { call with queue } m = some c') :
    ∃ call', CallMove c c' k call call' := by
  obtain ⟨hmem, -, hput, -⟩ := BoundedQueue.get?_eq_some hget
  have hfinal : m.isFinal = true → ¬ Unfinished Msg.isFinal call.queue.put := by
    intro hf hu
    rw [hu m (mem_of_getElem? hmem)] at hf
    cases hf
  simp only [pollMessage] at h
  split at h
  · rename_i hpc
    have hpc : call.pc = .waiting := hpc
    have hns := hsound.not_waiting hpc
    cases h
    exact ⟨_, .drop ⟨rfl, rfl, rfl, hput⟩ (sound_of_not_streaming hns)
      (hpc ▸ nofun) fun hs => absurd hs hns⟩
  · rename_i result hpc
    have hpc : call.pc = .advancing result := hpc
    have hlive : call.pc ≠ .finished := hpc ▸ nofun
    have hstage : ∀ done, (call.Streaming → done = m.isFinal) →
        Streaming ({ call with queue, nextMsg := some m, done }.advanced result) →
        Stage ({ call with queue, nextMsg := some m, done }.advanced result) := by
      intro done hdone hs
      have hs : call.Streaming := hs
      have hst := hsound.stage hs hlive
      rcases hs with hk | hk
      · exact hst.advance hk hpc hget (hdone (.inl hk))
      · obtain ⟨held, hh, -⟩ := hst.held
        rw [Held, hk, hpc] at hh
        exact hh.elim
    split at h
    · rename_i htype
      have hf := Msg.isFinal_of_type htype
      cases h
      exact ⟨_, .drop ⟨rfl, rfl, rfl, hput⟩
        (Begun.sound trivial (hstage true fun _ => hf.symm)) hlive
        fun _ => .inr (hfinal hf)⟩
    · rename_i htype
      cases h
      refine ⟨_, .keep ⟨rfl, rfl, rfl, hput⟩
        (Begun.sound trivial (hstage call.done fun hs => ?_)) hlive⟩
      have hst := hsound.stage hs hlive
      have hf : m.isFinal = false :=
        Bool.eq_false_iff.2 fun hf => htype ((hst.ofStream m (mem_of_getElem? hmem)).final hf)
      rw [hf]
      exact hst.not_done hs hpc
  · rename_i hpc
    have hpc : call.pc = .receiving := hpc
    have hlive : call.pc ≠ .finished := hpc ▸ nofun
    have hstage : ∀ r : Report V, (m.OfStream →
          r.answer = some (if m.isFinal then .stop else .value m.result)) →
        Streaming (report { call with queue, pc := .opened } r) →
        Stage (report { call with queue, pc := .opened } r) := by
      intro r hr hs
      have hs : call.Streaming := hs
      have hst := hsound.stage hs hlive
      rcases hs with hk | hk
      · obtain ⟨held, hh, -⟩ := hst.held
        rw [Held, hk, hpc] at hh
        exact hh.elim
      · exact hst.receive hk hpc hget (hr (hst.ofStream m (mem_of_getElem? hmem)))
    split at h
    · rename_i hchunk
      have hf : m.isFinal = false := by rw [Msg.isFinal, hchunk]; rfl
      cases h
      exact ⟨_, .keep ⟨rfl, rfl, rfl, hput⟩
        (Begun.sound trivial (hstage _ fun _ => by rw [hf]; rfl)) hlive⟩
    · rename_i hchunk
      have hf : m.isFinal = true := by
        rw [Msg.isFinal, Bool.eq_false_iff.2 hchunk]
        rfl
      split at h
      · cases h
        exact ⟨_, .drop ⟨rfl, rfl, rfl, hput⟩
          (Begun.sound trivial (hstage _ fun _ => by rw [hf]; rfl)) hlive
          fun _ => .inr (hfinal hf)⟩
      · rename_i hend
        split at h
        · cases h
          exact ⟨_, .drop ⟨rfl, rfl, rfl, hput⟩
            (Begun.sound trivial (hstage _ fun _ => by rw [hf]; rfl)) hlive
            fun _ => .inr (hfinal hf)⟩
        · rename_i herror
          cases h
          refine ⟨_, .keep ⟨rfl, rfl, rfl, hput⟩
            (Begun.sound trivial (hstage _ fun hof => ?_)) hlive⟩
          exact absurd (hof.final hf) (not_or.2 ⟨hend, herror⟩)
  · cases h

/-- A `poll` that gives no message, of a call that receives no stream. -/
theorem moved_unpolled (hns : ¬ call.Streaming)
    (h : c.pollTimeout k call = some c' ∨ c.pollInterrupt k call = some c') :
    ∃ call', CallMove c c' k call call' := by
  have hdrop : ∀ {call' : Call V}, call.Kept call' → call.pc ≠ .finished →
      ∃ call₁, CallMove c ((c.remove call.id).setCall k call') k call call₁ :=
    fun hk hlive => ⟨_, .drop hk (hk.sound_other hns) hlive fun hs => absurd hs hns⟩
  rcases h with h | h
  · unfold pollTimeout at h
    split at h <;> cases h <;> rename_i hpc
    · exact hdrop ⟨rfl, rfl, rfl, rfl⟩ (hpc ▸ nofun)
    · exact hdrop ⟨rfl, rfl, rfl, rfl⟩ (hpc ▸ nofun)
    · exact ⟨_, .keep ⟨rfl, rfl, rfl, rfl⟩ (sound_of_not_streaming hns) (hpc ▸ nofun)⟩
  · unfold pollInterrupt at h
    split at h <;> cases h <;> rename_i hpc
    · exact hdrop ⟨rfl, rfl, rfl, rfl⟩ (hpc ▸ nofun)
    · exact hdrop ⟨rfl, rfl, rfl, rfl⟩ (hpc ▸ nofun)
    · exact ⟨_, .keep ⟨rfl, rfl, rfl, rfl⟩ (sound_of_not_streaming hns) (hpc ▸ nofun)⟩

theorem sound_io (hsound : call.Sound) (hb : call.Begun) (message : String) :
    (call.report (.ioException message)).Sound :=
  Begun.sound hb fun hs =>
    (hsound.stage hs hb.not_finished).answer rfl nofun

theorem moved_callStep {l : CallLabel V} (hget : c.calls[k]? = some call) (hsound : call.Sound)
    (hok : ∀ how, l = .poll how → call.Streaming → how = .message)
    (h : c.callStep k call l = some c') : ∃ call', CallMove c c' k call call' := by
  cases l with
  | write fail => exact moved_write hsound h
  | poll how =>
    have hns : how ≠ .message → ¬ call.Streaming := fun hne hs => hne (hok how rfl hs)
    cases how with
    | message =>
      obtain ⟨⟨m, queue⟩, hq, h⟩ := Option.bind_eq_some_iff.1 h
      exact moved_pollMessage hsound hq h
    | timeout =>
      simp only [callStep] at h
      split at h
      · exact moved_unpolled (hns nofun) (.inl h)
      · cases h
    | interrupt => exact moved_unpolled (hns nofun) (.inr h)
  | hasNext =>
    simp only [callStep] at h
    split at h
    · rename_i hk hpc
      have hb : call.Begun := by rw [Begun, hpc]; exact trivial
      cases h
      refine ⟨_, .keep ⟨rfl, rfl, rfl, rfl⟩ (Begun.sound hb fun hs => ?_) hb.not_finished⟩
      exact (hsound.stage hs hb.not_finished).hasNext hk hpc
    · cases h
  | next =>
    simp only [callStep] at h
    split at h
    · rename_i hk hpc
      have hb : call.Begun := by rw [Begun, hpc]; exact trivial
      have hst := fun hs => hsound.stage hs hb.not_finished
      split at h
      · rename_i m hhas hnext
        cases h
        refine ⟨_, .keep ⟨rfl, rfl, rfl, rfl⟩ (Begun.sound trivial fun hs => ?_)
          hb.not_finished⟩
        refine (hst hs).next hk hpc ?_ hnext
        rw [hasNext, Bool.and_eq_true, Bool.not_eq_true'] at hhas
        exact hhas.1
      · rename_i hno
        cases h
        refine ⟨_, .keep ⟨rfl, rfl, rfl, rfl⟩ (Begun.sound hb fun hs => ?_)
          hb.not_finished⟩
        refine (hst hs).answer rfl fun a ha => ?_
        cases ha
        refine ((hst hs).right_hasNext hk hpc).2 (Bool.eq_false_iff.2 fun hhas => ?_)
        cases hn : call.nextMsg with
        | none =>
          rw [hasNext, hn, Option.isSome_none, Bool.and_false] at hhas
          cases hhas
        | some m => exact hno m hhas hn
    · cases h
  | send v fail =>
    simp only [callStep] at h
    split at h
    · cases h
    · cases h
    · cases h
    · cases h
    · rename_i hw hf
      have hb : call.Begun := .of_ne hw hf
      split at h
      · rename_i c₁ hwrite
        obtain rfl := write_eq_ok hwrite
        cases h
        exact ⟨call, .unchanged hget hsound hb.not_finished⟩
      · cases h
        exact ⟨_, .keep ⟨rfl, rfl, rfl, rfl⟩ (sound_io hsound hb _) hb.not_finished⟩
  | closeSend fail =>
    simp only [callStep] at h
    split at h
    · cases h
    · cases h
    · rename_i hk hw hf
      have hb : call.Begun := .of_ne hw hf
      split at h
      · cases h
        exact ⟨call, .unchanged hget hsound hb.not_finished⟩
      · have hsent : Sound { call with sentEnd := true } :=
          Begun.sound hb fun hs =>
            (hsound.stage hs hb.not_finished).same rfl rfl fun _ hh => hh
        split at h
        · rename_i c₁ hwrite
          obtain rfl := write_eq_ok hwrite
          cases h
          exact ⟨_, .keep ⟨rfl, rfl, rfl, rfl⟩ hsent hb.not_finished⟩
        · cases h
          exact ⟨_, .keep ⟨rfl, rfl, rfl, rfl⟩ (sound_io hsent hb _) hb.not_finished⟩
    · cases h
  | closeAndRecv fail =>
    simp only [callStep] at h
    split at h
    · rename_i hk hpc
      have hns : ¬ call.Streaming := by
        rintro (hs | hs)
        · cases hk.symm.trans hs
        · cases hk.symm.trans hs
      have hlive : call.pc ≠ .finished := hpc ▸ nofun
      split at h
      · rename_i c₁ hwrite
        obtain rfl := write_eq_ok hwrite
        cases h
        exact ⟨_, .keep ⟨rfl, rfl, rfl, rfl⟩ (sound_of_not_streaming hns) hlive⟩
      · cases h
        exact ⟨_, .keep ⟨rfl, rfl, rfl, rfl⟩ (sound_of_not_streaming hns) hlive⟩
    · cases h
  | recv =>
    simp only [callStep] at h
    split at h
    · rename_i hk hpc
      cases h
      refine ⟨_, .keep ⟨rfl, rfl, rfl, rfl⟩ (Begun.sound trivial fun hs => ?_)
        (hpc ▸ nofun)⟩
      refine (hsound.stage hs (hpc ▸ nofun)).same rfl rfl fun held hh => ?_
      rw [Held, hk, hpc] at hh
      rw [Held, hk]
      exact hh
    · cases h


end CallStep

end Client

end Callwire.Java
