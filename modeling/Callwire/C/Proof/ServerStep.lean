import Callwire.C.Server
import Callwire.C.Proof.RoundTrip

/-!
# The moves of a connection

`Move entries c l c'` lists what the step function can do, one constructor for each section of the
code, with the branch conditions that lead there; `step_move` is the inversion lemma all invariants
of the connection are proved from. The rest are the small facts about `write`, `setThread` and the
input array that these proofs use.
-/

namespace Callwire.C

open Lib List Conn

/-! ## Moves -/

/-- The thread that `pthread_create` starts. -/
def newThread (e : Entry) (id : BitVec 64) (args : List Value) : Thread :=
  if e.kind.hasInput then ⟨e, id, [], [], .start⟩ else ⟨e, id, args, [], .running none⟩

section
variable (e : Entry) (id : BitVec 64) (args : List Value)

theorem newThread_id : (newThread e id args).id = id := by
  unfold newThread
  split <;> rfl

theorem newThread_entry : (newThread e id args).entry = e := by
  unfold newThread
  split <;> rfl

end

inductive Move (entries : List Entry) (c : Conn) : Label → Conn → Prop
  | malformed {p : Payload} (hl : c.loop = .reading)
      (hd : ∀ msg, callwireCodecDecode .ok p ≠ .ok (some msg)) : Move entries c (.frame p) c
  | route {p : Payload} {msg : WireMessage} {r : Nat} (hl : c.loop = .reading)
      (hd : callwireCodecDecode .ok p = .ok (some msg)) (hs : isStreamFrame msg = true)
      (hf : c.connFindInput msg.id = some r) :
      Move entries c (.frame p)
        { c with frames := c.frames ++ [msg], loop := .push r (itemOf msg) }
  | discard {p : Payload} {msg : WireMessage} (hl : c.loop = .reading)
      (hd : callwireCodecDecode .ok p = .ok (some msg))
      (hs : isStreamFrame msg = true ∧ c.connFindInput msg.id = none ∨
        isStreamFrame msg = false ∧ typeIs msg "request" = false) :
      Move entries c (.frame p) { c with frames := c.frames ++ [msg] }
  | request {p : Payload} {msg : WireMessage} (hl : c.loop = .reading)
      (hd : callwireCodecDecode .ok p = .ok (some msg)) (hs : isStreamFrame msg = false)
      (hr : typeIs msg "request" = true) :
      Move entries c (.frame p) { c with frames := c.frames ++ [msg], loop := .request msg }
  | drain (hl : c.loop = .reading) : Move entries c .eof c.drainInputs
  | push {r : Nat} {item : Item} {ok : Bool} (hl : c.loop = .push r item) :
      Move entries c (.loop ok) { c.streamInputPush r item with loop := .reading }
  | refuse {msg : WireMessage} {ok : Bool} {errorType text : CString} (hl : c.loop = .request msg)
      (ht : text.bytes.length ≤ 100 ∧ errorType.bytes.length ≤ 100) :
      Move entries c (.loop ok) { c.writeError msg.id errorType text ok with loop := .reading }
  | register {msg : WireMessage} {ok : Bool} {func : Bytes} {e : Entry} (hl : c.loop = .request msg)
      (hf : msg.func = some func) (he : findHandler entries func = some e)
      (hk : e.kind.hasInput = true) (hs : e.kind = .bidiCtx ↔ msg.stream ≠ 0) :
      Move entries c (.loop ok)
        { c.connRegisterInput msg.id with loop := .spawn e msg.id msg.args }
  | accept {msg : WireMessage} {ok : Bool} {func : Bytes} {e : Entry} (hl : c.loop = .request msg)
      (hf : msg.func = some func) (he : findHandler entries func = some e)
      (hk : e.kind.hasInput = false) :
      Move entries c (.loop ok) { c with loop := .spawn e msg.id msg.args }
  | spawn {e : Entry} {id : BitVec 64} {args : List Value} (hl : c.loop = .spawn e id args) :
      Move entries c (.loop true)
        { c with threads := c.threads ++ [newThread e id args], loop := .reading }
  | noThread {e : Entry} {id : BitVec 64} {args : List Value} (hl : c.loop = .spawn e id args) :
      Move entries c (.loop false) { c with loop := .reading }
  | find {i : Nat} {t : Thread} {ok : Bool} (ht : c.threads[i]? = some t) (hpc : t.pc = .start) :
      Move entries c (.thread i ok)
        (c.setThread i { t with pc := .running (c.connFindInput t.id) })
  | ret {i : Nat} {t : Thread} {ok : Bool} {input : Option Nat} {rc : Int} {result : Value}
      (ht : c.threads[i]? = some t) (hpc : t.pc = .running input)
      (ha : t.entry.fn i t.args t.events = .ret rc result) :
      Move entries c (.thread i ok) (c.setThread i { t with pc := .reply rc result })
  | emit {i : Nat} {t : Thread} {ok : Bool} {input : Option Nat} {chunk : Option Value}
      (ht : c.threads[i]? = some t) (hpc : t.pc = .running input)
      (ha : t.entry.fn i t.args t.events = .emit chunk) :
      Move entries c (.thread i ok)
        ((c.write (.streamChunk t.id chunk) ok).2.setThread i { t with
          events := t.events ++ [.emitted (c.write (.streamChunk t.id chunk) ok).1] })
  | recv {i : Nat} {t : Thread} {ok : Bool} {r : Nat} {inp : Input} {item : Item}
      {queue : Queue Item} (ht : c.threads[i]? = some t) (hpc : t.pc = .running (some r))
      (ha : t.entry.fn i t.args t.events = .recv) (hr : c.heap[r]? = some inp)
      (hq : inp.queue.pop? = some (item, queue)) :
      Move entries c (.thread i ok)
        (setThread { c with heap := c.heap.set r { inp with queue } } i
          { t with events := t.events ++ [.received item] })
  | reply {i : Nat} {t : Thread} {ok : Bool} {rc : Int} {result : Value}
      (ht : c.threads[i]? = some t) (hpc : t.pc = .reply rc result) :
      Move entries c (.thread i ok)
        ((c.write (replyOf t rc result) ok).2.setThread i
          { t with pc := if t.entry.kind.hasInput then .remove else .done })
  | remove {i j r : Nat} {t : Thread} {ok : Bool} (ht : c.threads[i]? = some t)
      (hpc : t.pc = .remove) (hj : c.inputs[j]? = some r) (hid : c.hasId t.id r = true) :
      Move entries c (.thread i ok)
        (setThread { c with inputs := swapRemove c.inputs j } i { t with pc := .free r })
  | removeNone {i : Nat} {t : Thread} {ok : Bool} (ht : c.threads[i]? = some t)
      (hpc : t.pc = .remove) (hn : ∀ r ∈ c.inputs, c.hasId t.id r = false) :
      Move entries c (.thread i ok) (c.setThread i { t with pc := .done })
  | free {i r : Nat} {t : Thread} {ok : Bool} (ht : c.threads[i]? = some t) (hpc : t.pc = .free r) :
      Move entries c (.thread i ok) ((c.streamInputFree r).setThread i { t with pc := .done })
  | reuse {r : Nat} {id : BitVec 64} {queue : Queue Item} {inp : Input} (hr : c.heap[r]? = some inp)
      (hf : inp.freed = true) :
      Move entries c (.reuse r id queue) { c with heap := c.heap.set r ⟨id, queue, true⟩ }

section
variable {entries : List Entry} {c c' : Conn}

theorem handleFrame_move {p : Payload} (hl : c.loop = .reading) :
    Move entries c (.frame p) (c.handleFrame p) := by
  unfold handleFrame
  split
  · rename_i msg hd
    simp only
    split
    · rename_i hs
      cases hf : connFindInput { c with frames := c.frames ++ [msg] } msg.id with
      | some r => exact .route hl hd hs hf
      | none => exact .discard hl hd (.inl ⟨hs, hf⟩)
    · rename_i hs
      rw [Bool.not_eq_true] at hs
      split
      · rename_i hr
        exact .request hl hd hs hr
      · rename_i hr
        exact .discard hl hd (.inr ⟨hs, by simpa using hr⟩)
  · rename_i hd
    exact .malformed hl fun msg hm => hd msg hm

theorem HandlerKind.of_hasInput {k : HandlerKind} (h : k.hasInput = true) :
    k = .clientStreamCtx ∨ k = .bidiCtx := by
  cases k with
  | clientStreamCtx => exact .inl rfl
  | bidiCtx => exact .inr rfl
  | _ => cases h

theorem dispatchRequest_move {msg : WireMessage} {ok : Bool} (hl : c.loop = .request msg) :
    Move entries c (.loop ok) (c.dispatchRequest entries msg ok) := by
  unfold dispatchRequest
  split
  · exact .refuse hl (by decide)
  · rename_i func hf
    split
    · exact .refuse hl (by decide)
    · rename_i e he
      split
      · exact .refuse hl (by decide)
      · rename_i hbidi
        split
        · exact .refuse hl (by decide)
        · rename_i hclient
          split
          · rename_i hk
            refine .register hl hf he hk ⟨fun hb h0 => hbidi ⟨hb, h0⟩, fun h0 => ?_⟩
            exact (HandlerKind.of_hasInput hk).resolve_left fun hc => hclient ⟨hc, h0⟩
          · rename_i hk
            exact .accept hl hf he (by simpa using hk)

theorem handlerStep_move {i : Nat} {t : Thread} {ok : Bool} {input : Option Nat}
    (ht : c.threads[i]? = some t) (hpc : t.pc = .running input)
    (h : c.handlerStep i t input ok = some c') : Move entries c (.thread i ok) c' := by
  unfold handlerStep at h
  split at h
  · rename_i rc result ha
    cases h
    exact .ret ht hpc ha
  · rename_i chunk ha
    cases h
    exact .emit ht hpc ha
  · rename_i ha
    simp only [Option.bind_eq_bind, Option.bind_eq_some_iff, streamInputRecv] at h
    obtain ⟨r, rfl, ⟨item, c₁⟩, ⟨inp, hr, ⟨item', queue⟩, hq, h₁⟩, h⟩ := h
    cases h₁
    cases h
    exact .recv ht hpc ha hr hq

theorem connRemoveInput_cases (c : Conn) (id : BitVec 64) :
    (∃ j r, c.inputs[j]? = some r ∧ c.hasId id r = true ∧
      c.connRemoveInput id = some (r, { c with inputs := swapRemove c.inputs j })) ∨
    ((∀ r ∈ c.inputs, c.hasId id r = false) ∧ c.connRemoveInput id = none) := by
  unfold connRemoveInput
  cases hj : c.inputs.findIdx? (c.hasId id) with
  | none => exact .inr ⟨findIdx?_eq_none_iff.1 hj, rfl⟩
  | some j =>
    obtain ⟨hlt, hid, -⟩ := findIdx?_eq_some_iff_getElem.1 hj
    have hr := getElem?_eq_getElem hlt
    refine .inl ⟨j, _, hr, hid, ?_⟩
    simp only [Option.bind_eq_bind, Option.bind_some, hr]
    rfl

theorem threadStep_move {i : Nat} {t : Thread} {ok : Bool} (ht : c.threads[i]? = some t)
    (h : c.threadStep i t ok = some c') : Move entries c (.thread i ok) c' := by
  unfold threadStep at h
  split at h
  · rename_i hpc
    cases h
    exact .find ht hpc
  · rename_i input hpc
    exact handlerStep_move ht hpc h
  · rename_i rc result hpc
    cases h
    exact .reply ht hpc
  · rename_i hpc
    rcases connRemoveInput_cases c t.id with ⟨j, r, hj, hid, hr⟩ | ⟨hn, hr⟩
    · rw [hr] at h
      cases h
      exact .remove ht hpc hj hid
    · rw [hr] at h
      cases h
      exact .removeNone ht hpc hn
  · rename_i r hpc
    cases h
    exact .free ht hpc
  · cases h

/-- **Every step is one of the moves.** -/
theorem step_move {l : Label} (h : step entries c l = some c') : Move entries c l c' := by
  unfold step at h
  split at h
  · split at h
    · rename_i hl
      cases h
      exact handleFrame_move hl
    · cases h
  · split at h
    · rename_i hl
      cases h
      exact .drain hl
    · cases h
  · rename_i ok
    split at h
    · rename_i r item hl
      cases h
      exact .push hl
    · rename_i msg hl
      cases h
      exact dispatchRequest_move hl
    · rename_i e id args hl
      cases h
      cases ok with
      | true => exact .spawn hl
      | false => exact .noThread hl
    · cases h
  · rename_i i ok
    obtain ⟨t, ht, h⟩ := Option.bind_eq_some_iff.1 h
    exact threadStep_move ht h
  · obtain ⟨inp, hr, h⟩ := Option.bind_eq_some_iff.1 h
    split at h
    · rename_i hf
      cases h
      exact .reuse hr hf
    · cases h

end

/-! ## Writes and threads -/

namespace Conn

section
variable (c : Conn) (m : Outgoing) (ok : Bool) (i : Nat) (t : Thread)

theorem write_cases : (c.write m ok = (0, { c with out := c.out ++ [m] }) ∧ ok = true ∧
      ∃ p, m.payload = some p ∧ p.length ≤ callwireMaxFrameSize) ∨
    (c.write m ok = (-1, c) ∧ (ok = false ∨
      ∀ p, m.payload = some p → callwireMaxFrameSize < p.length)) := by
  unfold write callwireFramingWriteFrame
  cases hp : m.payload with
  | none => exact .inr ⟨rfl, .inr (by simp)⟩
  | some p =>
    by_cases hl : p.length > callwireMaxFrameSize
    · refine .inr ⟨by simp [hl], .inr fun q hq => ?_⟩
      cases hq
      exact hl
    · cases ok with
      | true => exact .inl ⟨by simp [hl], rfl, p, rfl, by omega⟩
      | false => exact .inr ⟨by simp [hl], .inl rfl⟩

theorem write_small (h : (Value.map m.entries).size ≤ callwireMaxFrameSize) :
    c.write m true = (0, { c with out := c.out ++ [m] }) := by
  obtain ⟨p, hp, hl⟩ := Outgoing.payload_of_size (h.trans (by decide))
  rcases c.write_cases m true with ⟨hw, -⟩ | ⟨-, hf | hf⟩
  · exact hw
  · cases hf
  · have := hf p hp
    omega

@[simp] theorem write_inputs : (c.write m ok).2.inputs = c.inputs := by
  rcases c.write_cases m ok with ⟨h, -⟩ | ⟨h, -⟩ <;> rw [h]

@[simp] theorem write_heap : (c.write m ok).2.heap = c.heap := by
  rcases c.write_cases m ok with ⟨h, -⟩ | ⟨h, -⟩ <;> rw [h]

@[simp] theorem write_threads : (c.write m ok).2.threads = c.threads := by
  rcases c.write_cases m ok with ⟨h, -⟩ | ⟨h, -⟩ <;> rw [h]

@[simp] theorem write_loop : (c.write m ok).2.loop = c.loop := by
  rcases c.write_cases m ok with ⟨h, -⟩ | ⟨h, -⟩ <;> rw [h]

@[simp] theorem write_frames : (c.write m ok).2.frames = c.frames := by
  rcases c.write_cases m ok with ⟨h, -⟩ | ⟨h, -⟩ <;> rw [h]

@[simp] theorem setThread_inputs : (c.setThread i t).inputs = c.inputs := rfl
@[simp] theorem setThread_heap : (c.setThread i t).heap = c.heap := rfl
@[simp] theorem setThread_loop : (c.setThread i t).loop = c.loop := rfl
@[simp] theorem setThread_out : (c.setThread i t).out = c.out := rfl
@[simp] theorem setThread_frames : (c.setThread i t).frames = c.frames := rfl
@[simp] theorem setThread_threads : (c.setThread i t).threads = c.threads.set i t := rfl

theorem write_setThread : ((c.write m ok).2.setThread i t).threads = c.threads.set i t := by
  rw [setThread_threads, write_threads]

end

/-! ## The ids of the inputs -/

/-- The ids of the inputs, by address. -/
def ids (c : Conn) : List (BitVec 64) := c.heap.map Input.id

/-- Which inputs are freed, by address. -/
def flags (c : Conn) : List Bool := c.heap.map Input.freed

section
variable {c : Conn} {id : BitVec 64} {r : Nat}

theorem hasId_iff : c.hasId id r = true ↔ c.ids[r]? = some id := by
  rw [hasId, ids, getElem?_map]
  cases c.heap[r]? <;> simp

theorem connFindInput_some (h : c.connFindInput id = some r) :
    r ∈ c.inputs ∧ c.ids[r]? = some id :=
  ⟨mem_of_find?_eq_some h, hasId_iff.1 (find?_some h)⟩

theorem connFindInput_none (h : c.connFindInput id = none) :
    ∀ r ∈ c.inputs, c.ids[r]? ≠ some id := by
  intro r hr hid
  have := find?_eq_none.1 h r hr
  exact this (hasId_iff.2 hid)

@[simp] theorem write_ids (m : Outgoing) (ok : Bool) : (c.write m ok).2.ids = c.ids := by
  rw [ids, ids, write_heap]

@[simp] theorem streamInputPush_ids (item : Item) : (c.streamInputPush r item).ids = c.ids :=
  map_modify_of_eq _ _ _ _ fun _ => rfl

@[simp] theorem streamInputFree_ids : (c.streamInputFree r).ids = c.ids :=
  map_modify_of_eq _ _ _ _ fun _ => rfl

theorem write_flags (c : Conn) (m : Outgoing) (ok : Bool) : (c.write m ok).2.flags = c.flags := by
  rw [flags, write_heap, flags]

theorem push_flags (c : Conn) (item : Item) : (c.streamInputPush r item).flags = c.flags :=
  map_modify_of_eq _ _ _ _ fun _ => rfl

end

end Conn

end Callwire.C
