import Callwire.Go.Proof.Answers

/-!
# Client streams in the Go server

The server takes a call for a client stream if a chunk comes before its timer fires. `Upload` is the
frames of such a call. If there is a chunk, no chunk is nil, the first one is received before the
timer fires and the request has the arguments for the other parameters (`Serves`, `Undisturbed`),
then the function is called exactly once, with a closed channel that holds the chunks, and answered
with its result (`clientStream_delivered`); not so for an empty stream, a late first chunk or a nil
chunk (`clientStream_undelivered`).

`At` says where the frames of the call are: with the goroutine (`Pc.Stage`) or in the read loop
(`pending`).
-/

namespace Callwire.Go.Server

open Lib List Connection

variable {R : Reflect} {registry : Registry R}

/-- The frames of a client-streaming call. -/
structure Upload where
  request : WireMessage
  chunks : List WireMessage
  close : WireMessage
  request_type : request.type = "request"
  request_stream : request.stream = false
  chunks_type : ∀ m ∈ chunks, m.type = "stream_chunk"
  close_type : close.type = "stream_close"
  ids : ∀ m ∈ chunks ++ [close], m.id = request.id

namespace Upload

variable (u : Upload)

def key : BitVec 64 := u.request.id

/-- The frames after the request. -/
def body : List WireMessage := u.chunks ++ [u.close]

def frames : List WireMessage := u.request :: u.body

variable {u}

theorem body_stream {m : WireMessage} (h : m ∈ u.body) : IsStreamFrame m := by
  rcases mem_concat_cases h with h | rfl
  · exact .inl (u.chunks_type m h)
  · exact .inr (.inl u.close_type)

end Upload

/-- The frames with the id `key` that are read. -/
def Label.read (key : BitVec 64) : Label R → List WireMessage
  | .frame msg => if msg.id = key then [msg] else []
  | _ => []

/-- The function can be called with the chunks and the arguments of the request. -/
structure Serves (u : Upload) (fn : FuncType R) (chanType : R.Ty) (items vs : List R.Val) :
    Prop where
  variadic : fn.variadic = false
  chan : R.chan chanType = some (.both, R.any)
  nonempty : u.chunks ≠ []
  items : u.chunks.map (fun m => R.valueOf m.result) = items.map some
  rest : ∃ rest, fn.ins = chanType :: rest ∧ (u.request.args.getD []).length = rest.length ∧
    convertArgs u.key 2 (u.request.args.getD []) rest = .ok vs

/-- The arguments of the call: the channel and the arguments of the request. -/
def uploadArgs (chanType : R.Ty) (items vs : List R.Val) : List (Arg R) :=
  .chunks chanType items :: vs.map .value

/-- The timer does not fire first, the function returns `results`, and the reply can be written. -/
def RoutineLabel.Undisturbed (results : List R.Val) : RoutineLabel R → Prop
  | .timeout => False
  | .returned results' => results' = results
  | .write ok => ok = true
  | _ => True

/-- The function stays exported, and its call is not disturbed. -/
def Undisturbed (u : Upload) (results : List R.Val) (c : Connection R) : Label R → Prop
  | .register name _ => name ≠ u.request.func
  | .routine i l => ∀ r, c.routines[i]? = some r → r.msg.id = u.key → l.Undisturbed results
  | _ => True

/-! ## The goroutine -/

/-- How far the goroutine is when it has been sent the frames `seen`, of which `input` are in its
channel. -/
def Pc.Stage (u : Upload) (fn : FuncType R) (args : List (Arg R)) (reply : WireMessage)
    (seen input : List WireMessage) (calls : List (List (Arg R))) (out : List WireMessage) :
    Pc R → Prop
  | .start => input = seen ∧ calls = [] ∧ out = []
  | .detect fn' => fn' = fn ∧ input = seen ∧ calls = [] ∧ out = []
  | .collect fn' chunks => fn' = fn ∧ calls = [] ∧ out = [] ∧
      ∃ ms, chunks = ms.map WireMessage.result ∧ seen = ms ++ input ∧
        ∀ m ∈ ms, m.type = "stream_chunk"
  | .call fn' mode => fn' = fn ∧ mode = .clientStream ∧ seen = u.body ∧ calls = [args] ∧ out = []
  | .recv _ => False
  | .write frame more => frame = reply ∧ more = none ∧ seen = u.body ∧ calls = [args] ∧ out = []
  | .returned | .closed | .done => seen = u.body ∧ calls = [args] ∧ out = [reply]

/-- An element of the start of a list is not the last one, or it is and nothing follows it. -/
theorem mem_or_last {α : Type} {a b l : List α} {x y : α} (h : a ++ x :: b <+: l ++ [y]) :
    x ∈ l ∨ a = l ∧ x = y ∧ b = [] := by
  obtain ⟨t, ht⟩ := h
  rcases eq_nil_or_concat (b ++ t) with hnil | ⟨b', z, hcons⟩
  · rw [append_assoc, cons_append, hnil] at ht
    obtain ⟨ha, hx⟩ := append_inj' ht rfl
    exact .inr ⟨ha, head_eq_of_cons_eq hx, (append_eq_nil_iff.1 hnil).1⟩
  · rw [append_assoc, cons_append, hcons, concat_eq_append, ← cons_append,
      ← append_assoc] at ht
    obtain ⟨hl, -⟩ := append_inj' ht rfl
    rw [← hl]
    exact .inl (mem_append_right _ mem_cons_self)

/-- The goroutine of the call calls the function with `args`. -/
structure Calls (u : Upload) (fn : FuncType R) (args : List (Arg R)) : Prop where
  nonempty : u.chunks ≠ []
  call : ∀ r : Routine R, r.msg = u.request →
    r.callClientOrUnary fn (u.chunks.map WireMessage.result) =
      ({ r with pc := .call fn .clientStream, calls := r.calls ++ [args] }, .quiet)

theorem Serves.calls {u : Upload} {fn : FuncType R} {chanType : R.Ty} {items vs : List R.Val}
    (hserves : Serves u fn chanType items vs) : Calls u fn (uploadArgs chanType items vs) := by
  refine ⟨hserves.nonempty, fun r hmsg => ?_⟩
  obtain ⟨rest, hins, hlen, hvs⟩ := hserves.rest
  have hitems : sendChunks R.any (u.chunks.map WireMessage.result) = some items := by
    refine sendChunks_any ?_
    rw [map_map]
    exact hserves.items
  have hargs : clientStreamArgs chanType rest r.msg (u.chunks.map WireMessage.result) =
      .ok ((uploadArgs chanType items vs).map some) := by
    rw [hmsg, clientStreamArgs_eq hserves.chan hitems hlen]
    exact congrArg _ hvs
  have hcall : fn.call ((uploadArgs chanType items vs).map some) =
      some (uploadArgs chanType items vs) :=
    clientStreamArgs_call hserves.variadic hins hlen hvs
  obtain ⟨m, ms, hchunks⟩ := exists_cons_of_ne_nil hserves.nonempty
  have hin : isChannelInput chanType = true := by simp [isChannelInput, hserves.chan]
  rw [hchunks, map_cons] at hargs ⊢
  simp only [Routine.callClientOrUnary, hins, hin, if_true, hargs, Routine.invoke, hcall]

section
variable {u : Upload} {fn : Exported R} {args : List (Arg R)} {results : List R.Val}
  {reply : WireMessage} {seen : List WireMessage} {r : Routine R}

abbrev Routine.Stage (r : Routine R) (u : Upload) (fn : FuncType R) (args : List (Arg R))
    (reply : WireMessage) (seen : List WireMessage) : Prop :=
  r.pc.Stage u fn args reply seen r.chunksChan r.calls r.out

/-- What is left to do for a call, apart from the frames it has not seen. -/
def Pc.left : Pc R → Nat
  | .start => 4
  | .detect _ | .collect _ _ => 3
  | .call _ _ => 2
  | .write _ _ => 1
  | _ => 0

/-- A frame is received: a chunk is collected, and after the terminator the function is called. -/
theorem Routine.Stage.receive {msg : WireMessage} {rest : List WireMessage}
    (hfn : Calls u fn.1 args) (hmsg : r.msg = u.request)
    (hseen : seen <+: u.body) (h : r.Stage u fn.1 args reply seen)
    (hpc : r.pc.Listens) (hc : r.chunksChan = msg :: rest) :
    ∃ pc calls, r.step registry .receive =
        some ({ r with chunksChan := rest, pc, calls }, .quiet) ∧
      pc.Stage u fn.1 args reply seen rest calls r.out ∧ pc.left ≤ 3 := by
  unfold Routine.Stage at h
  rw [Routine.step, hc]
  cases hr : r.pc with
  | detect fn' =>
    rw [hr, hc] at h
    obtain ⟨rfl, hin, hcalls, hout⟩ := h
    -- the first frame is a chunk, because there is one
    have hpre : [] ++ msg :: rest <+: u.chunks ++ [u.close] := by
      rw [nil_append, hin]
      exact hseen
    have hmem : msg ∈ u.chunks :=
      (mem_or_last hpre).resolve_right fun h => hfn.nonempty h.1.symm
    have htype := u.chunks_type msg hmem
    refine ⟨.collect fn.1 [msg.result], r.calls, ?_, ?_, Nat.le_refl 3⟩
    · simp [Routine.detect, htype]
    · exact ⟨rfl, hcalls, hout, [msg], rfl, hin.symm, forall_mem_singleton.2 htype⟩
  | collect fn' chunks =>
    rw [hr, hc] at h
    obtain ⟨rfl, hcalls, hout, ms, rfl, hseen', htypes⟩ := h
    rcases mem_or_last (hseen' ▸ hseen) with hmem | ⟨rfl, rfl, rfl⟩
    · have htype := u.chunks_type msg hmem
      refine ⟨.collect fn.1 (ms.map WireMessage.result ++ [msg.result]), r.calls, ?_, ?_,
        Nat.le_refl 3⟩
      · simp [Routine.collect, htype]
      · refine ⟨rfl, hcalls, hout, ms ++ [msg], ?_, ?_, ?_⟩
        · rw [map_append]
          rfl
        · rw [hseen', append_assoc]
          rfl
        · exact forall_mem_append.2 ⟨htypes, forall_mem_singleton.2 htype⟩
    · have hcall := hfn.call { r with chunksChan := [] } hmsg
      refine ⟨.call fn.1 .clientStream, r.calls ++ [args], ?_, ?_,
        Nat.le_succ 2⟩
      · simp only [Routine.collect, if_pos u.close_type]
        rw [← hr]
        exact congrArg some hcall
      · exact ⟨rfl, rfl, hseen', by rw [hcalls]; rfl, hout⟩
  | _ =>
    rw [hr] at hpc
    exact hpc.elim

/-- **A move of the goroutine of the call.** -/
theorem Routine.Stage.step {l : RoutineLabel R} {x : Routine R × Effect}
    (hfn : Calls u fn.1 args) (hreply : unaryReply u.key results = some reply)
    (hreg : registry.lookup u.request.func = some fn) (hmsg : r.msg = u.request)
    (hkind : r.kind = .clientOrUnary) (hfeeder : r.feeder = .unspawned)
    (hseen : seen <+: u.body) (hok : l.Undisturbed results)
    (h : r.Stage u fn.1 args reply seen)
    (hs : r.step registry l = some x) :
    x.1.Stage u fn.1 args reply seen ∧ x.1.feeder = .unspawned := by
  have hat : ∀ {pc : Pc R}, r.pc = pc → pc.Stage u fn.1 args reply seen
      r.chunksChan r.calls r.out := by
    intro pc hpc
    rw [← hpc]
    exact h
  cases step_move hs with
  | startDispatch _ hk | startBidi _ hk => cases hkind.symm.trans hk
  | startClientOrUnary hpc =>
    rw [startClientOrUnary, hmsg, hreg]
    exact ⟨⟨rfl, hat hpc⟩, hfeeder⟩
  | timeout => exact hok.elim
  | first hpc hc | next hpc hc =>
    obtain ⟨pc, calls, hx, hstage, -⟩ := h.receive hfn hmsg hseen (hpc ▸ trivial) hc
    rw [Option.mem_unique hs hx]
    exact ⟨hstage, hfeeder⟩
  | returned hpc =>
    obtain ⟨rfl, rfl, hall, hcalls, hout⟩ := hat hpc
    rw [show _ = results from hok, handleResults, hmsg, show u.request.id = u.key from rfl, hreply]
    exact ⟨⟨rfl, rfl, hall, hcalls, hout⟩, hfeeder⟩
  | panicked =>
    rw [panic, hkind]
    exact ⟨h, hfeeder⟩
  | recvPanic hpc | recv hpc => exact (hat hpc).elim
  | wrote hpc =>
    obtain ⟨rfl, rfl, hall, hcalls, hout⟩ := hat hpc
    exact ⟨⟨hall, hcalls, by rw [hout]; rfl⟩, hfeeder⟩
  | unwritten => cases hok
  | feed hf | feedEnd hf | feedPanic hf | feedSend hf => cases hfeeder.symm.trans hf
  | closeInput hf => exact absurd hfeeder hf
  | take | takeEnd => exact ⟨h, hfeeder⟩
  | closeEnd hpc =>
    obtain ⟨hall, hcalls, hout⟩ := hat hpc
    exact ⟨⟨hall, hcalls, hout⟩, hfeeder⟩

end

/-! ## The connection -/

/-- The frame with the id `key` that the read loop holds. -/
def pending (key : BitVec 64) : LoopPc R → List WireMessage
  | .sending _ msg => if msg.id = key then [msg] else []
  | _ => []

@[simp] theorem pending_reading (key : BitVec 64) : pending key (.reading : LoopPc R) = [] := rfl

@[simp] theorem pending_closed (key : BitVec 64) : pending key (.closed : LoopPc R) = [] := rfl

@[simp] theorem pending_dispatching (key : BitVec 64) (r : Routine R) :
    pending key (.dispatching r) = [] := rfl

@[simp] theorem pending_afterDispatch (key : BitVec 64) (r : Routine R) :
    pending key (afterDispatch r) = [] := by
  unfold afterDispatch
  split <;> rfl

section
variable (u : Upload) (fn : FuncType R) (args : List (Arg R)) (reply : WireMessage)

/-- The call has the goroutine `i`, which has been sent the frames `seen`. -/
structure At (i : Nat) (r : Routine R) (seen : List WireMessage) (c : Connection R) : Prop where
  routine : c.routines[i]? = some r
  msg : r.msg = u.request
  kind : r.kind = .clientOrUnary
  feeder : r.feeder = .unspawned
  others : ∀ j r', c.routines[j]? = some r' → j ≠ i → r'.msg.id ≠ u.key
  dispatching : ∀ r', c.loop = .dispatching r' → r'.msg.id ≠ u.key
  streams : r.pc ≠ .done → c.streams.lookup u.key = some i
  wire : writtenBy WireMessage.id u.key c.wire = r.out
  stage : r.Stage u fn args reply seen

structure Unseen (c : Connection R) : Prop where
  routines : ∀ r ∈ c.routines, r.msg.id ≠ u.key
  dispatching : ∀ r, c.loop = .dispatching r → r.msg.id ≠ u.key
  wire : writtenBy WireMessage.id u.key c.wire = []

/-- The frames `es` of the call have been read. -/
inductive Delivering (c : Connection R) : List WireMessage → Prop
  | before (h : Unseen u c) : Delivering c []
  | during {i : Nat} {r : Routine R} {seen : List WireMessage} (h : At u fn args reply i r seen c) :
      Delivering c (u.request :: (seen ++ pending u.key c.loop))

end

section
variable {u : Upload} {fn : Exported R} {args : List (Arg R)} {results : List R.Val}
  {reply : WireMessage} {seen : List WireMessage} {r : Routine R} {i : Nat} {c c' : Connection R}

theorem writtenBy_wrote {e : Effect} {id : BitVec 64} {wire : List WireMessage}
    (h : ∀ m ∈ e.frames, m.id = id) (hid : id ≠ u.key) :
    writtenBy WireMessage.id u.key (wire ++ e.frames) = writtenBy WireMessage.id u.key wire := by
  have hnil : writtenBy WireMessage.id u.key e.frames = [] :=
    writtenBy_eq_nil fun m hm => (h m hm).symm ▸ hid
  rw [writtenBy_append, hnil, append_nil]

theorem ne_of_prefix_concat {α : Type} {l l' : List α} {x : α} (h : l ++ [x] <+: l') : l ≠ l' := by
  rintro rfl
  have hlen := h.length_le
  rw [length_append, length_singleton] at hlen
  exact absurd hlen (Nat.not_succ_le_self _)

theorem Pc.Stage.put {pc : Pc R} {input out : List WireMessage} {calls : List (List (Arg R))}
    (h : pc.Stage u fn.1 args reply seen input calls out) (hne : seen ≠ u.body) (m : WireMessage) :
    pc.Stage u fn.1 args reply (seen ++ [m]) (input ++ [m]) calls out := by
  cases pc with
  | start => exact ⟨congrArg (· ++ [m]) h.1, h.2⟩
  | detect fn' => exact ⟨h.1, congrArg (· ++ [m]) h.2.1, h.2.2⟩
  | collect fn' chunks =>
    obtain ⟨hfn, hcalls, hout, ms, hms, hseen, htypes⟩ := h
    exact ⟨hfn, hcalls, hout, ms, hms, by rw [hseen, append_assoc], htypes⟩
  | call | write => exact absurd h.2.2.1 hne
  | recv => exact h.elim
  | returned | closed | done => exact absurd h.1 hne

theorem Routine.Stage.over (h : r.Stage u fn.1 args reply seen) (hover : r.Over) :
    seen = u.body ∧ r.calls = [args] ∧ r.out = [reply] := by
  unfold Routine.Over at hover
  unfold Routine.Stage at h
  cases hpc : r.pc with
  | returned | closed | done =>
    rw [hpc] at h
    exact h
  | _ =>
    rw [hpc] at hover
    exact hover.elim

namespace At

section
variable (h : At u fn.1 args reply i r seen c)
include h

theorem other {j : Nat} {r₁ r₁' : Routine R} (hj : c.routines[j]? = some r₁) (hne : j ≠ i)
    (hroutines : c'.routines = c.routines.set j r₁') (hmsg : r₁'.msg = r₁.msg)
    (hdisp : ∀ r', c'.loop = .dispatching r' → r'.msg.id ≠ u.key)
    (hstreams : c'.streams.lookup u.key = c.streams.lookup u.key)
    (hwire : writtenBy WireMessage.id u.key c'.wire = writtenBy WireMessage.id u.key c.wire) :
    At u fn.1 args reply i r seen c' := by
  refine ⟨?_, h.msg, h.kind, h.feeder, fun j' r' hj' hne' => ?_, hdisp, ?_, hwire.trans h.wire,
    h.stage⟩
  · rw [hroutines, getElem?_set_ne hne]
    exact h.routine
  · rw [hroutines] at hj'
    rcases set_cases hj hj' with ⟨rfl, rfl⟩ | ⟨-, hj'⟩
    · rw [hmsg]
      exact h.others _ _ hj hne
    · exact h.others j' r' hj' hne'
  · rw [hstreams]
    exact h.streams

theorem own {r' : Routine R} {seen' : List WireMessage} (hmsg : r'.msg = r.msg)
    (hkind : r'.kind = r.kind) (hfeeder : r'.feeder = .unspawned)
    (hroutines : c'.routines = c.routines.set i r')
    (hdisp : ∀ r', c'.loop = .dispatching r' → r'.msg.id ≠ u.key)
    (hstreams : r'.pc ≠ .done → c'.streams.lookup u.key = some i)
    (hwire : writtenBy WireMessage.id u.key c'.wire = r'.out)
    (hstage : r'.Stage u fn.1 args reply seen') : At u fn.1 args reply i r' seen' c' := by
  refine ⟨?_, hmsg.trans h.msg, hkind.trans h.kind, hfeeder, fun j r₁ hj hne => ?_, hdisp, hstreams,
    hwire, hstage⟩
  · rw [hroutines]
    exact set_of_some h.routine
  · rw [hroutines, getElem?_set_ne (Ne.symm hne)] at hj
    exact h.others j r₁ hj hne

end

variable {msg : WireMessage}

section
variable (h : At u fn.1 args reply i r seen c)
include h

theorem sending {j : Nat} (hlawful : Lawful c) (hloop : c.loop = .sending j msg) :
    msg.id = u.key ↔ j = i := by
  obtain ⟨-, r₁, hr₁, hid⟩ := hlawful.sending j msg hloop
  constructor
  · intro he
    by_contra hne
    exact h.others j r₁ hr₁ hne (hid.trans he)
  · rintro rfl
    cases h.routine.symm.trans hr₁
    rw [← hid, h.msg]
    rfl

theorem wrote {e : Effect} {id : BitVec 64} (hid : id ≠ u.key)
    (hframes : ∀ m ∈ e.frames, m.id = id) : At u fn.1 args reply i r seen (c.apply e) := by
  refine ⟨by simpa using h.routine, h.msg, h.kind, h.feeder, by simpa using h.others,
    by simpa using h.dispatching, by simpa using h.streams, ?_, h.stage⟩
  rw [apply_wire, writtenBy_wrote hframes hid]
  exact h.wire

theorem handleMessage (hloop : c.loop = .reading) (hid : msg.id ≠ u.key) :
    At u fn.1 args reply i r seen (c.handleMessage msg) ∧
      pending u.key (c.handleMessage msg).loop = [] := by
  unfold Connection.handleMessage
  split
  · have hspawn : (c.spawn msg).loop = .reading := hloop
    refine ⟨{ h with routine := ?_, others := fun j r' hj hne => ?_, streams := ?_ }, hspawn ▸ rfl⟩
    · exact (getElem?_append_left (lt_of_some h.routine)).trans h.routine
    · rcases concat_cases hj with hj | ⟨-, rfl⟩
      · exact h.others j r' hj hne
      · exact hid
    · exact fun hpc => (AList.lookup_insert_ne (Ne.symm hid)).trans (h.streams hpc)
  · refine ⟨{ h with dispatching := fun r' he => ?_ }, rfl⟩
    cases he
    exact hid

theorem handleFrame (hloop : c.loop = .reading)
    (hpre : seen ++ Label.read (R := R) u.key (.frame msg) <+: u.body) :
    At u fn.1 args reply i r seen (c.handleFrame msg) ∧
      pending u.key (c.handleFrame msg).loop = Label.read (R := R) u.key (.frame msg) := by
  by_cases hid : msg.id = u.key
  · rw [Label.read, if_pos hid] at hpre ⊢
    have hmem : msg ∈ u.body := hpre.subset (mem_append_right _ mem_cons_self)
    have hpc : r.pc ≠ .done := fun he =>
      ne_of_prefix_concat hpre (h.stage.over (by rw [Routine.Over, he]; exact trivial)).1
    have hl : c.streams.lookup msg.id = some i := hid ▸ h.streams hpc
    have heq : c.handleFrame msg = { c with loop := .sending i msg } := by
      simp only [Connection.handleFrame, if_pos (u.body_stream hmem), hl]
    rw [heq]
    exact ⟨{ h with dispatching := by simp }, if_pos hid⟩
  · rw [Label.read, if_neg hid]
    unfold Connection.handleFrame
    split
    · split
      · exact ⟨{ h with dispatching := by simp }, if_neg hid⟩
      · exact h.handleMessage hloop hid
    · exact h.handleMessage hloop hid

end

theorem step {l : Label R} (hfn : Calls u fn.1 args)
    (hreply : unaryReply u.key results = some reply)
    (hreg : c.registry.lookup u.request.func = some fn) (hlawful : Lawful c)
    (h : At u fn.1 args reply i r seen c)
    (hok : Undisturbed u results c l)
    (hpre : seen ++ pending u.key c.loop ++ l.read u.key <+: u.body)
    (hs : Server.step c l = some c') :
    ∃ r' seen', At u fn.1 args reply i r' seen' c' ∧
      seen' ++ pending u.key c'.loop = seen ++ pending u.key c.loop ++ l.read u.key := by
  cases (step_move hs).2 with
  | register => exact ⟨r, seen, { h with }, (append_nil _).symm⟩
  | @frame msg hloop =>
    rw [hloop, pending_reading, append_nil] at hpre
    obtain ⟨h', hpend⟩ := h.handleFrame hloop hpre
    exact ⟨r, seen, h', by rw [hpend, hloop, pending_reading, append_nil]⟩
  | disconnect hloop =>
    exact ⟨r, seen, { h with dispatching := fun _ he => nomatch he }, by simp [hloop, Label.read]⟩
  | @send j msg r₁ hloop hr₁ =>
    by_cases hj : j = i
    · subst hj
      cases h.routine.symm.trans hr₁
      have hpend : pending u.key c.loop = [msg] := by
        rw [hloop]
        exact if_pos ((h.sending hlawful hloop).2 rfl)
      have hpre : seen ++ [msg] <+: u.body := by simpa [hpend, Label.read] using hpre
      refine ⟨{ r with chunksChan := r.chunksChan ++ [msg] }, seen ++ [msg], ?_,
        by simp [hpend, Label.read]⟩
      exact h.own rfl rfl h.feeder rfl (fun _ he => (nomatch he)) h.streams h.wire
        (h.stage.put (ne_of_prefix_concat hpre) msg)
    · have hid : msg.id ≠ u.key := fun he => hj ((h.sending hlawful hloop).1 he)
      exact ⟨r, seen, h.other hr₁ hj rfl rfl (fun _ he => (nomatch he)) rfl rfl,
        by simp [hloop, pending, hid, Label.read]⟩
  | @ignore j msg r₁ hloop hr₁ hend =>
    refine ⟨r, seen, { h with dispatching := fun _ he => nomatch he }, ?_⟩
    have hid : msg.id ≠ u.key := by
      intro he
      obtain rfl := (h.sending hlawful hloop).1 he
      cases h.routine.symm.trans hr₁
      have hpre : seen ++ [msg] <+: u.body := by simpa [hloop, pending, he, Label.read] using hpre
      exact ne_of_prefix_concat hpre (h.stage.over (Routine.over_of_endClosed hend)).1
    simp [hloop, pending, hid, Label.read]
  | @dispatch r₁ r₁' l e hloop hm =>
    have hx := (hlawful.dispatching r₁ hloop).step hm
    have hid : r₁.msg.id ≠ u.key := h.dispatching r₁ hloop
    have h' : At u fn.1 args reply i r seen
        { c with loop := afterDispatch r₁' } := by
      refine { h with dispatching := fun r' he => ?_ }
      dsimp only [afterDispatch] at he
      split at he <;> cases he
      exact hx.msg ▸ hid
    exact ⟨r, seen, h'.wrote hid hx.frames, by simp [hloop, Label.read]⟩
  | @routine j r₁ r₁' l e hr₁ hm =>
    have hx := (hlawful.routines r₁ (mem_of_getElem? hr₁)).step hm
    by_cases hj : j = i
    · subst hj
      cases h.routine.symm.trans hr₁
      have hseen : seen <+: u.body :=
        ((prefix_append _ _).trans (prefix_append _ _)).trans hpre
      obtain ⟨hstage, hfeeder⟩ := h.stage.step hfn hreply hreg h.msg h.kind h.feeder hseen
        (hok r hr₁ (congrArg WireMessage.id h.msg)) hm
      refine ⟨r₁', seen, h.own hx.msg (Routine.step_same hm).2 hfeeder (by simp)
        (by simpa using h.dispatching) (fun hpc => ?_) ?_ hstage, by simp [Label.read]⟩
      · rw [apply_streams]
        exact h.streams fun he => hpc (Routine.step_done hm he)
      · rw [apply_wire, writtenBy_append, h.wire, hx.out]
        exact congrArg _ (writtenBy_eq_self fun m hm => (hx.frames m hm).trans (h.msg ▸ rfl))
    · refine ⟨r, seen, ?_, by simp [Label.read]⟩
      have h' : At u fn.1 args reply i r seen
          { c with routines := c.routines.set j r₁' } :=
        h.other hr₁ hj rfl hx.msg h.dispatching rfl rfl
      exact h'.wrote (h.others j r₁ hr₁ hj) hx.frames
  | @cleanup j r₁ hr₁ hpc =>
    by_cases hj : j = i
    · subst hj
      cases h.routine.symm.trans hr₁
      have hstage : r.pc.Stage u fn.1 args reply seen r.chunksChan r.calls
        r.out := h.stage
      rw [hpc] at hstage
      exact ⟨{ r with pc := .done }, seen, h.own rfl rfl h.feeder rfl h.dispatching
        (fun hne => absurd rfl hne) h.wire hstage, by simp [Label.read]⟩
    · have hid : u.key ≠ r₁.msg.id := (h.others j r₁ hr₁ hj).symm
      exact ⟨r, seen, h.other hr₁ hj rfl rfl h.dispatching (AList.lookup_erase_ne hid) rfl,
        by simp [Label.read]⟩

end At

namespace Unseen

theorem set {j : Nat} {r r' : Routine R} (h : Unseen u c) (hj : c.routines[j]? = some r)
    (hroutines : c'.routines = c.routines.set j r') (hmsg : r'.msg = r.msg)
    (hdisp : ∀ r, c'.loop = .dispatching r → r.msg.id ≠ u.key) (hwire : c'.wire = c.wire) :
    Unseen u c' := by
  refine ⟨?_, hdisp, hwire ▸ h.wire⟩
  rw [hroutines]
  refine forall_set hj h.routines ?_
  rw [hmsg]
  exact h.routines r (mem_of_getElem? hj)

theorem wrote {e : Effect} {id : BitVec 64} (h : Unseen u c) (hid : id ≠ u.key)
    (hframes : ∀ m ∈ e.frames, m.id = id) : Unseen u (c.apply e) := by
  refine ⟨by simpa using h.routines, by simpa using h.dispatching, ?_⟩
  rw [apply_wire, writtenBy_wrote hframes hid]
  exact h.wire

theorem request (h : Unseen u c) (hloop : c.loop = .reading) :
    Delivering u fn.1 args reply (c.handleFrame u.request) [u.request] := by
  have hstream : ¬ IsStreamFrame u.request := by simp [IsStreamFrame, u.request_type]
  have heq : c.handleFrame u.request = c.spawn u.request := by
    simp only [Connection.handleFrame, if_neg hstream, Connection.handleMessage, u.request_type,
      if_true]
  have hroutines : (c.spawn u.request).routines =
      c.routines ++ [.spawn u.request .clientOrUnary] := by
    simp [spawn, u.request_stream]
  have hat : At u fn.1 args reply c.routines.length (.spawn u.request .clientOrUnary) []
      (c.spawn u.request) := by
    refine ⟨?_, rfl, rfl, rfl, fun j r' hj hne => ?_, h.dispatching,
      fun _ => AList.lookup_insert _, h.wire, rfl, rfl, rfl⟩
    · rw [hroutines]
      exact getElem?_concat_length
    · rw [hroutines] at hj
      rcases concat_cases hj with hj | ⟨hj, -⟩
      · exact h.routines r' (mem_of_getElem? hj)
      · exact absurd hj hne
  have hpend : pending u.key (c.spawn u.request).loop = [] := congrArg (pending u.key) hloop
  have hduring := Delivering.during hat
  rw [hpend] at hduring
  rw [heq]
  exact hduring

theorem handleMessage {msg : WireMessage} (h : Unseen u c) (hid : msg.id ≠ u.key) :
    Unseen u (c.handleMessage msg) := by
  unfold Connection.handleMessage
  split
  · exact ⟨forall_concat h.routines hid, h.dispatching, h.wire⟩
  · refine ⟨h.routines, fun r he => ?_, h.wire⟩
    cases he
    exact hid

theorem handleFrame {msg : WireMessage} (h : Unseen u c) (hloop : c.loop = .reading)
    (hpre : Label.read (R := R) u.key (.frame msg) <+: u.frames) :
    Delivering u fn.1 args reply (c.handleFrame msg) (Label.read (R := R) u.key (.frame msg)) := by
  by_cases hid : msg.id = u.key
  · rw [Label.read, if_pos hid] at hpre ⊢
    obtain ⟨rfl, -⟩ := cons_prefix_cons.1 hpre
    exact h.request hloop
  · rw [Label.read, if_neg hid]
    unfold Connection.handleFrame
    split
    · split
      · exact .before ⟨h.routines, fun _ he => (nomatch he), h.wire⟩
      · exact .before (h.handleMessage hid)
    · exact .before (h.handleMessage hid)

theorem step {l : Label R} (hlawful : Lawful c) (h : Unseen u c)
    (hpre : l.read u.key <+: u.frames) (hs : Server.step c l = some c') :
    Delivering u fn.1 args reply c' (l.read u.key) := by
  cases (step_move hs).2 with
  | register => exact .before { h with }
  | frame hloop => exact h.handleFrame hloop hpre
  | disconnect | ignore => exact .before ⟨h.routines, fun _ he => (nomatch he), h.wire⟩
  | send _ hr => exact .before (h.set hr rfl rfl (fun _ he => (nomatch he)) rfl)
  | @dispatch r r' l e hloop hm =>
    have hx := (hlawful.dispatching r hloop).step hm
    have hid : r.msg.id ≠ u.key := h.dispatching r hloop
    have h' : Unseen u { c with loop := afterDispatch r' } := by
      refine ⟨h.routines, fun r₁ he => ?_, h.wire⟩
      dsimp only [afterDispatch] at he
      split at he <;> cases he
      exact hx.msg ▸ hid
    exact .before (h'.wrote hid hx.frames)
  | @routine j r r' l e hr hm =>
    have hmem := mem_of_getElem? hr
    have hx := (hlawful.routines r hmem).step hm
    have h' : Unseen u { c with routines := c.routines.set j r' } :=
      h.set hr rfl hx.msg h.dispatching rfl
    exact .before (h'.wrote (h.routines r hmem) hx.frames)
  | cleanup hr => exact .before (h.set hr rfl rfl h.dispatching rfl)

end Unseen

/-- **A move of the connection, before the request or after it.** -/
theorem Delivering.step {l : Label R} {es : List WireMessage}
    (hfn : Calls u fn.1 args) (hreply : unaryReply u.key results = some reply)
    (hreg : c.registry.lookup u.request.func = some fn) (hlawful : Lawful c)
    (h : Delivering u fn.1 args reply c es)
    (hok : Undisturbed u results c l) (hpre : es ++ l.read u.key <+: u.frames)
    (hs : Server.step c l = some c') :
    Delivering u fn.1 args reply c' (es ++ l.read u.key) := by
  cases h with
  | before h => exact h.step hlawful hpre hs
  | during h =>
    rw [cons_append] at hpre ⊢
    obtain ⟨r', seen', h', hseen⟩ :=
      h.step hfn hreply hreg hlawful hok (cons_prefix_cons.1 hpre).2 hs
    rw [← hseen]
    exact .during h'

theorem lookup_step {l : Label R} (hreg : c.registry.lookup u.request.func = some fn)
    (hok : Undisturbed u results c l) (hs : step c l = some c') :
    c'.registry.lookup u.request.func = some fn := by
  cases (step_move hs).2 with
  | register => exact (AList.lookup_insert_ne (Ne.symm hok)).trans hreg
  | @frame msg =>
    have hmsg : (c.handleMessage msg).registry = c.registry := by
      unfold Connection.handleMessage
      split <;> rfl
    have hframe : (c.handleFrame msg).registry = c.registry := by
      unfold Connection.handleFrame
      split
      · split
        · rfl
        · exact hmsg
      · exact hmsg
    rw [hframe]
    exact hreg
  | disconnect | send | ignore | cleanup => exact hreg
  | dispatch | routine =>
    rw [apply_registry]
    exact hreg

end

/-! ## The call goes through -/

/-- The moves that a call needs. -/
def Label.Own (results : List R.Val) : Label R → Prop
  | .send => True
  | .routine _ l => l = .start ∨ l = .receive ∨ l = .returned results ∨ l = .write true
  | _ => False

/-- All frames of the call have been read. -/
structure Ready (u : Upload) (fn : Exported R) (args : List (Arg R)) (reply : WireMessage) (i : Nat)
    (c : Connection R) : Prop where
  crashed : c.crashed = false
  lawful : Lawful c
  registry : c.registry.lookup u.request.func = some fn
  delivering : ∃ r seen, At u fn.1 args reply i r seen c ∧ seen ++ pending u.key c.loop = u.body

/-- The function has been called with `args` and answered. -/
def Answered (u : Upload) (args : List (Arg R)) (reply : WireMessage) (c : Connection R) : Prop :=
  (∃ r ∈ c.routines, r.msg.id = u.key ∧ r.calls = [args]) ∧
    writtenBy WireMessage.id u.key c.wire = [reply]

def Routine.left (r : Routine R) : Nat := r.chunksChan.length + r.pc.left

def Connection.left (key : BitVec 64) (i : Nat) (c : Connection R) : Nat :=
  2 * (pending key c.loop).length + (c.routines[i]?.map Routine.left).getD 0

section
variable {u : Upload} {fn : Exported R} {args : List (Arg R)} {results : List R.Val}
  {reply : WireMessage} {seen : List WireMessage} {r : Routine R} {i : Nat} {c c' : Connection R}
  {e : Effect}

theorem Label.Own.undisturbed {l : Label R} (h : l.Own results) : Undisturbed u results c l := by
  cases l with
  | send => exact trivial
  | routine i l =>
    intro r _ _
    rcases h with rfl | rfl | rfl | rfl
    · exact trivial
    · exact trivial
    · exact rfl
    · exact rfl
  | _ => exact h.elim

theorem Label.Own.read {l : Label R} (h : l.Own results) (key : BitVec 64) : l.read key = [] := by
  cases l with
  | frame => exact h.elim
  | _ => rfl

theorem exists_pending {key : BitVec 64} {loop : LoopPc R} (h : pending key loop ≠ []) :
    ∃ j msg, loop = .sending j msg ∧ msg.id = key := by
  unfold pending at h
  split at h
  · rename_i j msg
    refine ⟨j, msg, rfl, ?_⟩
    by_contra hid
    exact h (if_neg hid)
  · exact absurd rfl h

/-- A goroutine that listens has a frame to receive, or one is on the way to it. -/
theorem Pc.Stage.pending {pc : Pc R} {out : List WireMessage} {calls : List (List (Arg R))}
    (h : pc.Stage u fn.1 args reply seen [] calls out) (hpc : pc.Listens) : seen ≠ u.body := by
  have hclose : u.close ∈ u.body := mem_append_right _ mem_cons_self
  rintro rfl
  cases pc with
  | detect fn' => cases h.2.1 ▸ hclose
  | collect fn' chunks =>
    obtain ⟨-, -, -, ms, -, hseen, htypes⟩ := h
    rw [hseen, append_nil] at hclose
    exact nomatch u.close_type.symm.trans (htypes _ hclose)
  | _ => exact hpc.elim

theorem routine_step {l : RoutineLabel R} {r' : Routine R} (hc : c.crashed = false)
    (hr : c.routines[i]? = some r) (hs : r.step c.registry l = some (r', e)) :
    step c (.routine i l) = some ({ c with routines := c.routines.set i r' }.apply e) := by
  simp [step, hc, hr, hs]

theorem send_step {msg : WireMessage} (hc : c.crashed = false) (hloop : c.loop = .sending i msg)
    (hr : c.routines[i]? = some r) (hlen : r.chunksChan.length < capacity) :
    step c .send = some { c with
      loop := .reading
      routines := c.routines.set i { r with chunksChan := r.chunksChan ++ [msg] } } := by
  simp [step, hc, hloop, hr, hlen]

theorem left_routine {r' : Routine R} (hr : c.routines[i]? = some r) (hlt : r'.left < r.left)
    (key : BitVec 64) : ({ c with routines := c.routines.set i r' }.apply e).left key i <
      c.left key i := by
  have hset : (c.routines.set i r')[i]? = some r' :=
    set_of_some hr
  simp only [left, apply_loop, apply_routines, hset, hr,
    Option.map_some, Option.getD_some]
  exact Nat.add_lt_add_left hlt _

theorem apply_crashed (he : e ≠ .crash) : (c.apply e).crashed = c.crashed := by
  cases e with
  | crash => exact absurd rfl he
  | _ => rfl

section
variable (hfn : Calls u fn.1 args) (hreply : unaryReply u.key results = some reply)
  (hlen : results.length = fn.1.outs.length)

namespace Ready

include hfn hreply

include hlen in
theorem routine (hreg : c.registry.lookup u.request.func = some fn)
    (h : At u fn.1 args reply i r seen c) (hseen : seen <+: u.body)
    (hover : ¬ r.Over) (hc : r.pc.Listens → r.chunksChan ≠ []) :
    ∃ l r' e, Label.Own results (.routine i l) ∧ r.step c.registry l = some (r', e) ∧ e ≠ .crash ∧
      r'.left < r.left := by
  have hstage := h.stage
  unfold Routine.Stage at hstage
  have hreceive : r.pc.Listens → r.pc.left = 3 → ∃ l r' e, Label.Own results (.routine i l) ∧
      r.step c.registry l = some (r', e) ∧ e ≠ .crash ∧
      r'.left < r.left := by
    intro hl hleft
    obtain ⟨msg, rest, hin⟩ := exists_cons_of_ne_nil (hc hl)
    obtain ⟨pc, calls, hs, -, hpc⟩ := h.stage.receive hfn h.msg hseen hl hin
    refine ⟨.receive, _, _, .inr (.inl rfl), hs, by simp, ?_⟩
    simp only [Routine.left, hin, hleft, length_cons]
    omega
  cases hpc : r.pc with
  | start =>
    refine ⟨.start, { r with pc := .detect fn.1 }, .quiet, .inl rfl, ?_, by simp, ?_⟩
    · have hl : c.registry.lookup r.msg.func = some fn := h.msg ▸ hreg
      simp only [Routine.step, hpc, h.kind, Routine.startClientOrUnary, hl]
    · simp [Routine.left, Pc.left, hpc]
  | detect | collect => exact hreceive (hpc ▸ trivial) (hpc ▸ rfl)
  | call =>
    rw [hpc] at hstage
    obtain ⟨rfl, rfl, -⟩ := hstage
    refine ⟨.returned results, { r with pc := .write reply none }, .quiet, .inr (.inr (.inl rfl)),
      ?_, by simp, by simp [Routine.left, Pc.left, hpc]⟩
    have hid : r.msg.id = u.key := congrArg WireMessage.id h.msg
    simp [Routine.step, hpc, hlen, Routine.handleResults, hid, hreply, Routine.reply]
  | recv =>
    rw [hpc] at hstage
    exact hstage.elim
  | write frame more =>
    rw [hpc] at hstage
    obtain ⟨rfl, rfl, -⟩ := hstage
    refine ⟨.write true, { r with pc := .returned, out := r.out ++ [frame] }, .wrote frame,
      .inr (.inr (.inr rfl)), ?_, by simp, by simp [Routine.left, Pc.left, hpc]⟩
    rw [Routine.step, hpc]
    rfl
  | returned | closed | done =>
    rw [Routine.Over, hpc] at hover
    exact absurd trivial hover

include hlen in
/-- **Something can move until the function has been called and answered.** -/
theorem progress (h : Ready u fn args reply i c) :
    Answered u args reply c ∨ ∃ l c', l.Own results ∧
      step c l = some c' ∧ c'.crashed = false ∧ c'.left u.key i < c.left u.key i := by
  obtain ⟨r, seen, hat, hall⟩ := h.delivering
  have hseen : seen <+: u.body := hall ▸ prefix_append _ _
  by_cases hover : r.Over
  · obtain ⟨-, hcalls, hout⟩ := hat.stage.over hover
    exact .inl ⟨⟨r, mem_of_getElem? hat.routine, congrArg WireMessage.id hat.msg, hcalls⟩,
      hat.wire.trans hout⟩
  · refine .inr ?_
    by_cases hc : r.pc.Listens → r.chunksChan ≠ []
    · obtain ⟨l, r', e, hown, hs, he, hlt⟩ :=
        routine hfn hreply hlen h.registry hat hseen hover hc
      exact ⟨_, _, hown, routine_step h.crashed hat.routine hs,
        (apply_crashed he).trans h.crashed, left_routine hat.routine hlt _⟩
    · obtain ⟨hl, hnil⟩ := Classical.not_imp.1 hc
      have hnil := not_not.1 hnil
      have hpend : pending u.key c.loop ≠ [] := by
        intro hp
        rw [hp, append_nil] at hall
        have hstage := hat.stage
        rw [Routine.Stage, hnil] at hstage
        exact hstage.pending hl hall
      obtain ⟨j, msg, hloop, hid⟩ := exists_pending hpend
      obtain rfl := (hat.sending h.lawful hloop).1 hid
      refine ⟨.send, _, trivial, send_step h.crashed hloop hat.routine ?_, h.crashed, ?_⟩
      · rw [hnil]
        decide
      · have hset : (c.routines.set j { r with chunksChan := r.chunksChan ++ [msg] })[j]? =
            some { r with chunksChan := r.chunksChan ++ [msg] } :=
          set_of_some hat.routine
        simp only [left, hset, hat.routine, hloop, pending, if_pos hid, Option.map_some,
          Option.getD_some, Routine.left, length_append, length_singleton,
          length_nil]
        omega

theorem step {l : Label R} (h : Ready u fn args reply i c) (hown : l.Own results)
    (hs : Server.step c l = some c') (hcrashed : c'.crashed = false) :
    Ready u fn args reply i c' := by
  obtain ⟨r, seen, hat, hall⟩ := h.delivering
  have hread := hown.read u.key
  have hpre : seen ++ pending u.key c.loop ++ l.read u.key <+: u.body := by
    rw [hread, append_nil, hall]
  obtain ⟨r', seen', hat', hall'⟩ :=
    hat.step hfn hreply h.registry h.lawful hown.undisturbed hpre hs
  refine ⟨hcrashed, h.lawful.step hs, lookup_step h.registry hown.undisturbed hs, r', seen',
    hat', ?_⟩
  rw [hall', hread, append_nil, hall]

include hlen in
theorem reaches (h : Ready u fn args reply i c) :
    Reaches Server.step (Label.Own results) (Answered u args reply) c := by
  refine Reaches.of_progress (Ready u fn args reply i)
    (left u.key i) (fun c h => ?_) h
  rcases progress hfn hreply hlen h with hdone | ⟨l, c', hown, hs, hcrashed, hlt⟩
  · exact .inl hdone
  · exact .inr (.step_one hs hown ⟨step hfn hreply h hown hs hcrashed, hlt⟩)

end Ready

theorem Pc.Stage.calls {pc : Pc R} {input out : List WireMessage} {calls : List (List (Arg R))}
    (h : pc.Stage u fn.1 args reply seen input calls out) :
    calls = [] ∧ out = [] ∨ calls = [args] ∧ (out = [] ∨ out = [reply]) := by
  cases pc with
  | start => exact .inl h.2
  | detect => exact .inl h.2.2
  | collect => exact .inl ⟨h.2.1, h.2.2.1⟩
  | call | write => exact .inr ⟨h.2.2.2.1, .inl h.2.2.2.2⟩
  | recv => exact h.elim
  | returned | closed | done => exact .inr ⟨h.2.1, .inr h.2.2⟩

include hfn hreply in
theorem delivering_run {ls : List (Label R)} (hreg : registry.lookup u.request.func = some fn)
    (hok : Along step (Undisturbed u results) (.init registry) ls)
    (hrun : run step (.init registry) ls = some c) :
    Lawful c ∧ c.registry.lookup u.request.func = some fn ∧
      (ls.flatMap (Label.read u.key) <+: u.frames →
        Delivering u fn.1 args reply c (ls.flatMap (Label.read u.key))) := by
  rw [← trace_of_labels hrun]
  let Inv (es : List WireMessage) (c : Connection R) : Prop :=
    Lawful c ∧ c.registry.lookup u.request.func = some fn ∧
      (es <+: u.frames → Delivering u fn.1 args reply c es)
  have hstep : ∀ es c l c', Inv es c → Undisturbed u results c l → step c l = some c' →
      Inv (es ++ l.read u.key) c' := by
    rintro es c l c' ⟨hlawful, hreg, hdel⟩ hp hs
    refine ⟨hlawful.step hs, lookup_step hreg hp hs, fun hpre => ?_⟩
    exact (hdel ((prefix_append _ _).trans hpre)).step hfn hreply hreg hlawful hp hpre hs
  have hinit : Inv [] (.init registry) :=
    ⟨.init registry, hreg, fun _ => .before ⟨forall_mem_nil _, fun _ he => (nomatch he), rfl⟩⟩
  exact trace_invariant hstep ls [] _ c hinit hok hrun

end

end

/-- **A client stream is delivered once, as a whole**: at any time the function of the call has been
called not at all or once, with a closed channel that holds the chunks in order and the arguments of
the request, and the call has been answered not at all or, after that, with the reply for the
results; and once all its frames have been read, the moves of the server lead there. -/
theorem clientStream_delivered {u : Upload} {fn : Exported R} {chanType : R.Ty}
    {items vs results : List R.Val} {reply : WireMessage} {ls : List (Label R)} {c : Connection R}
    (hserves : Serves u fn.1 chanType items vs) (hreply : unaryReply u.key results = some reply)
    (hlen : results.length = fn.1.outs.length)
    (hreg : registry.lookup u.request.func = some fn)
    (hok : Along step (Undisturbed u results) (.init registry) ls)
    (hread : ls.flatMap (Label.read u.key) <+: u.frames)
    (hrun : run step (.init registry) ls = some c) :
    (∀ r ∈ c.routines, r.msg.id = u.key →
      r.calls = [] ∨ r.calls = [uploadArgs chanType items vs]) ∧
    (writtenBy WireMessage.id u.key c.wire = [] ∨
      Answered u (uploadArgs chanType items vs) reply c) ∧
    (ls.flatMap (Label.read u.key) = u.frames → c.crashed = false →
      Reaches step (Label.Own results) (Answered u (uploadArgs chanType items vs) reply) c) := by
  obtain ⟨hlawful, hreg', hdel⟩ := delivering_run hserves.calls hreply hreg hok hrun
  have hdel := hdel hread
  generalize ls.flatMap (Label.read u.key) = es at hdel hread
  cases hdel with
  | before h =>
    exact ⟨fun r hr hid => absurd hid (h.routines r hr), .inl h.wire, fun he => nomatch he⟩
  | @during i r seen h =>
    have hcalls := h.stage.calls
    refine ⟨fun r' hr' hid => ?_, ?_, fun he hcrashed => ?_⟩
    · obtain ⟨j, hj⟩ := mem_iff_getElem?.1 hr'
      have hji : j = i := by
        by_contra hne
        exact h.others j r' hj hne hid
      subst hji
      cases h.routine.symm.trans hj
      exact hcalls.imp And.left And.left
    · rw [Answered, h.wire]
      rcases hcalls with ⟨-, hout⟩ | ⟨hcalls, hout | hout⟩
      · exact .inl hout
      · exact .inl hout
      · exact .inr ⟨⟨r, mem_of_getElem? h.routine, congrArg WireMessage.id h.msg, hcalls⟩, hout⟩
    · have hready : Ready u fn (uploadArgs chanType items vs) reply i c :=
        ⟨hcrashed, hlawful, hreg', r, seen, h, (List.cons.inj he).2⟩
      exact Ready.reaches hserves.calls hreply hlen hready

def numberUpload : Upload where
  request := request 1 "g" []
  chunks := [streamChunk 1 (.int 7)]
  close := streamClose 1
  request_type := rfl
  request_stream := rfl
  chunks_type := by decide
  close_type := rfl
  ids := by decide

def numberLabels : List (Label plain) :=
  [.frame (request 1 "g" []), .routine 0 .start, .frame (streamChunk 1 (.int 7)), .send,
    .routine 0 .receive, .frame (streamClose 1), .send, .routine 0 .receive,
    .routine 0 (.returned []), .routine 0 (.write true)]

theorem clientStream_delivered_number : ∃ c, run step (.init chanRegistry) numberLabels = some c ∧
    Answered numberUpload
      (uploadArgs (R := plain) (.chan .both .any) [.of .number (.int 7)] [])
        (response 1 .nil) c := by
  let fn : Exported plain := ⟨⟨[.chan .both .any], [], false⟩, rfl⟩
  have hserves : Serves numberUpload fn.1 (.chan .both .any) [.of .number (.int 7)] [] :=
    ⟨rfl, rfl, nofun, rfl, [], rfl, rfl, rfl⟩
  have hreg : chanRegistry.lookup "g" = some fn := rfl
  have hok : Along step (Undisturbed numberUpload []) (.init chanRegistry) numberLabels := by
    refine .of_labels ?_ _
    simp [numberLabels, Undisturbed, RoutineLabel.Undisturbed]
  have hmain := clientStream_delivered hserves rfl rfl hreg hok (prefix_refl _) rfl
  exact ⟨_, rfl, hmain.2.1.resolve_left (by decide)⟩

/-- **A client stream is not delivered** if it is empty, if the timer fires before the first chunk
is received, or if a chunk is nil: the first two are taken for calls without the argument, the last
one ends the program. -/
theorem clientStream_undelivered :
    (∃ c, run step (.init chanRegistry) [.frame (request 1 "g" []), .routine 0 .start,
        .frame (streamClose 1), .send, .routine 0 .receive, .routine 0 (.write true)] = some c ∧
      c.routines.map Routine.calls = [[]] ∧
      c.wire = [errorMessage 1 "TypeError" "expected 1 args, got 0"]) ∧
    (∃ c, run step (.init chanRegistry) [.frame (request 1 "g" []), .routine 0 .start,
        .routine 0 .timeout, .routine 0 (.write true), .frame (streamChunk 1 (.int 7)), .send,
        .frame (streamClose 1), .send] = some c ∧
      c.routines.map Routine.calls = [[]] ∧
      c.wire = [errorMessage 1 "TypeError" "expected 1 args, got 0"]) ∧
    ∃ c, run step (.init chanRegistry) [.frame (request 1 "g" []), .routine 0 .start,
        .frame (streamChunk 1 .nil), .send, .routine 0 .receive, .frame (streamClose 1), .send,
        .routine 0 .receive] = some c ∧
      c.crashed = true ∧ c.routines.map Routine.calls = [[]] ∧ c.wire = [] :=
  ⟨⟨_, rfl, rfl, rfl⟩, ⟨_, rfl, rfl, rfl⟩, _, rfl, rfl, rfl, rfl⟩

end Callwire.Go.Server
