import Callwire.Go.Server
import Callwire.Go.Proof.Arguments

/-!
# The moves of the Go server

`Routine.Move` lists the moves of a routine, each with the operation it performs, and
`Connection.Move` those of a connection; `Routine.step` and `step` allow these and no others
(`Routine.step_move`, `step_move`). What the operations of a routine can do to it is `Routine.Goes`:
they decide on a reply, wait, call the function, or crash.
-/

namespace Callwire.Go.Server

variable {R : Reflect} {registry : Registry R}

/-! ## Routines -/

namespace Routine

inductive Move (registry : Registry R) (r : Routine R) :
    RoutineLabel R → Routine R × Effect → Prop
  | startDispatch (hpc : r.pc = .start) (hk : r.kind = .dispatch) :
      Move registry r .start (r.startDispatch registry)
  | startClientOrUnary (hpc : r.pc = .start) (hk : r.kind = .clientOrUnary) :
      Move registry r .start (r.startClientOrUnary registry)
  | startBidi (hpc : r.pc = .start) (hk : r.kind = .bidi) :
      Move registry r .start (r.startBidi registry)
  | timeout {fn : FuncType R} (hpc : r.pc = .detect fn) :
      Move registry r .timeout (r.callClientOrUnary fn [])
  | first {fn : FuncType R} {msg : WireMessage} {rest : List WireMessage} (hpc : r.pc = .detect fn)
      (hc : r.chunksChan = msg :: rest) :
      Move registry r .receive ({ r with chunksChan := rest }.detect fn msg)
  | next {fn : FuncType R} {chunks : List Value} {msg : WireMessage} {rest : List WireMessage}
      (hpc : r.pc = .collect fn chunks) (hc : r.chunksChan = msg :: rest) :
      Move registry r .receive ({ r with chunksChan := rest }.collect fn chunks msg)
  | returned {fn : FuncType R} {mode : Mode} {results : List R.Val} (hpc : r.pc = .call fn mode)
      (hlen : results.length = fn.outs.length) :
      Move registry r (.returned results) (r.handleResults fn results mode)
  | panicked {fn : FuncType R} {mode : Mode} (hpc : r.pc = .call fn mode) :
      Move registry r .panicked r.panic
  | recvPanic {item : Option R.Val} (hpc : r.pc = .recv .send) :
    Move registry r (.recv item) r.panic
  | recv {item : Option R.Val} {dir : ChanDir} (hpc : r.pc = .recv dir) (hdir : dir ≠ .send) :
      Move registry r (.recv item) (r.streamItem dir item, .quiet)
  | wrote {frame : WireMessage} {more : Option ChanDir} (hpc : r.pc = .write frame more) :
      Move registry r (.write true)
        ({ r with pc := afterWrite true more, out := r.out ++ [frame] }, .wrote frame)
  | unwritten {frame : WireMessage} {more : Option ChanDir} (hpc : r.pc = .write frame more) :
      Move registry r (.write false) ({ r with pc := afterWrite false more }, .quiet)
  | feed {elem : R.Ty} {msg : WireMessage} {rest : List WireMessage}
      (hf : r.feeder = .receiving elem) (hc : r.chunksChan = msg :: rest) :
      Move registry r .feed ({ r with chunksChan := rest }.feed elem msg)
  | feedEnd {elem : R.Ty} (hf : r.feeder = .receiving elem) (hend : r.endClosed = true) :
      Move registry r .feedEnd r.closeInCh
  | feedPanic {elem : R.Ty} {v : R.Val} (hf : r.feeder = .sending elem v)
      (hclosed : r.inClosed = true) : Move registry r .feedSend (r, .crash)
  | feedSend {elem : R.Ty} {v : R.Val} (hf : r.feeder = .sending elem v)
      (hclosed : r.inClosed = false) (hlen : r.inCh.length < capacity) :
      Move registry r .feedSend
        ({ r with inCh := r.inCh ++ [v], feeder := .receiving elem }, .quiet)
  | take {v : R.Val} {inCh : List R.Val} (hin : r.inCh = v :: inCh) :
      Move registry r .take ({ r with inCh, taken := r.taken ++ [v] }, .quiet)
  | takeEnd (hin : r.inCh = []) (hclosed : r.inClosed = true) :
      Move registry r .take ({ r with ended := true }, .quiet)
  | closeInput (hf : r.feeder ≠ .unspawned) (hclosed : r.inClosed = false) :
      Move registry r .closeInput ({ r with inClosed := true }, .quiet)
  | closeEnd (hpc : r.pc = .returned) : Move registry r .closeEnd ({ r with pc := .closed }, .quiet)

/-- **The moves of a routine are these.** -/
theorem step_move {r : Routine R} {l : RoutineLabel R} {x : Routine R × Effect}
    (h : r.step registry l = some x) : r.Move registry l x := by
  cases l with
  | start =>
    rw [step] at h
    split at h
    · rename_i hpc
      split at h <;> cases h
      · exact .startDispatch hpc ‹_›
      · exact .startClientOrUnary hpc ‹_›
      · exact .startBidi hpc ‹_›
    · cases h
  | timeout =>
    rw [step] at h
    split at h <;> cases h
    exact .timeout ‹_›
  | receive =>
    rw [step] at h
    split at h <;> cases h
    · exact .first ‹_› ‹_›
    · exact .next ‹_› ‹_›
  | returned results =>
    rw [step] at h
    split at h
    · split at h <;> cases h
      exact .returned ‹_› ‹_›
    · cases h
  | panicked =>
    rw [step] at h
    split at h <;> cases h
    exact .panicked ‹_›
  | recv item =>
    rw [step] at h
    split at h <;> cases h
    · exact .recvPanic ‹_›
    · rename_i dir hdir hpc
      exact .recv hpc hdir
  | write ok =>
    rw [step] at h
    split at h
    · cases ok <;> cases h
      · exact .unwritten ‹_›
      · exact .wrote ‹_›
    · cases h
  | feed =>
    rw [step] at h
    split at h <;> cases h
    exact .feed ‹_› ‹_›
  | feedEnd =>
    rw [step] at h
    split at h
    · split at h <;> cases h
      exact .feedEnd ‹_› ‹_›
    · cases h
  | feedSend =>
    rw [step] at h
    split at h
    · rename_i hf
      split at h
      · cases h
        exact .feedPanic hf ‹_›
      · split at h <;> cases h
        exact .feedSend hf (Bool.eq_false_of_not_eq_true ‹_›) ‹_›
    · cases h
  | take =>
    rw [step] at h
    split at h
    · cases h
      exact .take ‹_›
    · split at h <;> cases h
      exact .takeEnd ‹_› ‹_›
  | closeInput =>
    rw [step] at h
    split at h
    · cases h
    · split at h <;> cases h
      exact .closeInput ‹_› (Bool.eq_false_of_not_eq_true ‹_›)
  | closeEnd =>
    rw [step] at h
    split at h <;> cases h
    exact .closeEnd ‹_›

end Routine

/-- The dispatch function has returned. -/
def Pc.Over : Pc R → Prop
  | .returned | .closed | .done => True
  | _ => False

/-- A reply is decided on, or the function has been called. -/
def Pc.Past : Pc R → Prop
  | .start | .detect _ | .collect _ _ => False
  | _ => True

/-- The routine looks for a client stream. -/
def Pc.Listens : Pc R → Prop
  | .detect _ | .collect _ _ => True
  | _ => False

theorem Pc.Past.not_listens {pc : Pc R} (h : pc.Past) : ¬ pc.Listens := by
  cases pc with
  | detect | collect => exact h.elim
  | _ => exact not_false

/-- The function is at work. -/
def Pc.InCall : Pc R → Prop
  | .call _ _ => True
  | _ => False

namespace Routine

def Over (r : Routine R) : Prop := r.pc.Over

/-- What the operations do to the routine. -/
inductive Goes (r : Routine R) : Routine R × Effect → Prop
  | refuse {frame : WireMessage} (hid : frame.id = r.msg.id) (herr : frame.type = "error") :
      Goes r ({ r with pc := .write frame none }, .quiet)
  | reply {frame : WireMessage} (hid : frame.id = r.msg.id) (hcall : r.pc.InCall) :
      Goes r ({ r with pc := .write frame none }, .quiet)
  | recover (hk : r.kind = .dispatch) {frame : WireMessage} (hid : frame.id = r.msg.id)
      (herr : frame.type = "error") :
      Goes r ({ r with pc := .write frame none, recovered := true }, .quiet)
  | listen {pc : Pc R} (hpc : pc.Listens) : Goes r ({ r with pc }, .quiet)
  | stream {dir : ChanDir} (hcall : r.pc.InCall) : Goes r ({ r with pc := .recv dir }, .quiet)
  | call {fn : FuncType R} {mode : Mode} {args : List (Arg R)} (hargs : fn.accepts args = true) :
      Goes r ({ r with pc := .call fn mode, calls := r.calls ++ [args] }, .quiet)
  | crash (hk : r.kind ≠ .dispatch) : Goes r (r, .crash)

/-- What an operation leaves of the routine. -/
def Stays (r : Routine R) (x : Routine R × Effect) : Prop :=
  x.1.kind = r.kind ∧ x.1.feeder = r.feeder ∧ (x.2 = .crash ∨ x.1.pc.Past)

/-- The routine looks for no client stream any more. -/
structure Settles (r : Routine R) (x : Routine R × Effect) : Prop where
  goes : r.Goes x
  stays : r.Stays x

variable {r : Routine R} {fn : FuncType R} {x : Routine R × Effect}

theorem panic_settles (r : Routine R) : r.Settles r.panic := by
  unfold panic
  split
  · exact ⟨.recover ‹_› rfl rfl, rfl, rfl, .inr trivial⟩
  all_goals exact ⟨.crash (by simp [*]), rfl, rfl, .inl rfl⟩

theorem refuse_settles {frame : WireMessage} (hid : frame.id = r.msg.id)
    (herr : frame.type = "error") : r.Settles (r.reply (some frame)) :=
  ⟨.refuse hid herr, rfl, rfl, .inr trivial⟩

theorem reply_settles {frame : Option WireMessage} (hcall : r.pc.InCall)
    (hid : ∀ f ∈ frame, f.id = r.msg.id) : r.Settles (r.reply frame) := by
  cases frame with
  | none => exact r.panic_settles
  | some frame => exact ⟨.reply (hid frame rfl) hcall, rfl, rfl, .inr trivial⟩

theorem invoke_settles {mode : Mode} {ins : Except Stop (List (Option (Arg R)))}
    (hrefuse : ∀ f, ins = .error (.reply f) → Refusal r.msg.id f) :
    r.Settles (r.invoke fn mode ins) := by
  unfold invoke
  split
  · exact refuse_settles (hrefuse _ rfl).id_eq (hrefuse _ rfl).type_eq
  · exact r.panic_settles
  · split
    · exact ⟨.call (FuncType.call_accepts ‹_›), rfl, rfl, .inr trivial⟩
    · exact r.panic_settles

theorem startDispatch_settles (r : Routine R) : r.Settles (r.startDispatch registry) := by
  unfold startDispatch
  split
  · exact refuse_settles rfl rfl
  · exact invoke_settles fun f hf => unaryArgs_refused hf

theorem startClientOrUnary_goes (r : Routine R) : r.Goes (r.startClientOrUnary registry) := by
  unfold startClientOrUnary
  split
  · exact .refuse rfl rfl
  · exact .listen trivial

theorem startBidi_goes (r : Routine R) :
    r.Goes (r.startBidi registry) ∨
      ∃ elem, { r with feeder := .receiving elem }.Goes (r.startBidi registry) := by
  unfold startBidi
  split
  · exact .inl (.refuse rfl rfl)
  · split
    · split
      · exact .inl (.refuse rfl rfl)
      · split
        · exact .inl (.refuse rfl rfl)
        · split
          · exact .inr ⟨_, Settles.goes (invoke_settles fun f hf => nomatch hf)⟩
          · exact .inl r.panic_settles.goes
    · exact .inl (.refuse rfl rfl)

theorem callClientOrUnary_settles (r : Routine R) (fn : FuncType R) (chunks : List Value) :
    r.Settles (r.callClientOrUnary fn chunks) := by
  have hunary : r.Settles (r.invoke fn .unary (unaryArgs fn r.msg)) :=
    invoke_settles fun f hf => unaryArgs_refused hf
  unfold callClientOrUnary
  split
  · split
    · exact invoke_settles fun f hf => clientStreamArgs_refused hf
    · exact hunary
  · exact hunary

theorem detect_goes (r : Routine R) (fn : FuncType R) (msg : WireMessage) :
    r.Goes (r.detect fn msg) := by
  unfold detect
  split
  · exact .listen trivial
  · split
    · exact .refuse rfl rfl
    · exact (r.callClientOrUnary_settles fn []).goes

theorem collect_goes {chunks : List Value} {msg : WireMessage} (hpc : r.pc = .collect fn chunks)
    (hid : msg.type = "error" → msg.id = r.msg.id) : r.Goes (r.collect fn chunks msg) := by
  unfold collect
  split
  · exact (r.callClientOrUnary_settles fn chunks).goes
  · split
    · exact .listen trivial
    · split
      · exact .refuse (hid ‹_›) rfl
      · have : r.Goes ({ r with pc := .collect fn chunks }, .quiet) := .listen trivial
        rwa [← hpc] at this

theorem dispatchStream_settles (hcall : r.pc.InCall) (fn : FuncType R) (results : List R.Val) :
    r.Settles (r.dispatchStream fn results) := by
  unfold dispatchStream
  split
  · exact reply_settles hcall fun f hf => GoError.frame_id hf
  · split
    · exact ⟨.stream hcall, rfl, rfl, .inr trivial⟩
    · exact r.panic_settles

theorem handleResults_settles (hcall : r.pc.InCall) (fn : FuncType R) (results : List R.Val)
    (mode : Mode) : r.Settles (r.handleResults fn results mode) := by
  have hreply : r.Settles (r.reply (unaryReply r.msg.id results)) :=
    reply_settles hcall fun f hf => unaryReply_id hf
  cases mode with
  | unary =>
    rw [handleResults]
    split
    · exact dispatchStream_settles hcall fn results
    · exact hreply
  | clientStream => exact hreply
  | bidi => exact dispatchStream_settles hcall fn results

/-- The operations leave the channels alone, and go on from the start. -/
structure Keeps (r : Routine R) (x : Routine R × Effect) : Prop where
  msg : x.1.msg = r.msg
  kind : x.1.kind = r.kind
  chunksChan : x.1.chunksChan = r.chunksChan
  feeder : x.1.feeder = r.feeder
  inClosed : x.1.inClosed = r.inClosed
  start : x.2 ≠ .crash → x.1.pc ≠ .start

theorem Keeps.same (h : r.Keeps x) : x.1.msg = r.msg ∧ x.1.kind = r.kind :=
  ⟨h.msg, h.kind⟩

theorem Goes.keeps (h : r.Goes x) : r.Keeps x := by
  cases h with
  | refuse | reply | recover | stream | call => exact ⟨rfl, rfl, rfl, rfl, rfl, nofun⟩
  | listen hpc =>
    refine ⟨rfl, rfl, rfl, rfl, rfl, fun _ he => ?_⟩
    cases he
    exact hpc
  | crash => exact ⟨rfl, rfl, rfl, rfl, rfl, fun hne => absurd rfl hne⟩

theorem collect_keeps {chunks : List Value} (hpc : r.pc = .collect fn chunks) (msg : WireMessage) :
    r.Keeps (r.collect fn chunks msg) := by
  by_cases he : msg.type = "error"
  · simp only [collect, he]
    exact ⟨rfl, rfl, rfl, rfl, rfl, nofun⟩
  · exact (collect_goes hpc fun h => absurd h he).keeps

theorem streamItem_stays (r : Routine R) (dir : ChanDir) (item : Option R.Val) :
    r.Stays (r.streamItem dir item, .quiet) := by
  cases item with
  | none => exact ⟨rfl, rfl, .inr trivial⟩
  | some v =>
    rw [streamItem]
    split <;> exact ⟨rfl, rfl, .inr trivial⟩

/-- The operations of the feeder leave the dispatch function where it is. -/
structure Aside (r : Routine R) (x : Routine R × Effect) : Prop where
  kind : x.1.kind = r.kind
  msg : x.1.msg = r.msg
  pc : x.1.pc = r.pc
  out : x.1.out = r.out
  chunksChan : x.1.chunksChan = r.chunksChan
  quiet : ∀ frame, x.2 ≠ .wrote frame

theorem closeInCh_aside (r : Routine R) : r.Aside r.closeInCh := by
  unfold closeInCh
  split <;> exact ⟨rfl, rfl, rfl, rfl, rfl, nofun⟩

theorem feed_aside (r : Routine R) (elem : R.Ty) (msg : WireMessage) :
    r.Aside (r.feed elem msg) := by
  unfold feed
  split
  · split
    · split <;> exact ⟨rfl, rfl, rfl, rfl, rfl, nofun⟩
    · exact ⟨rfl, rfl, rfl, rfl, rfl, nofun⟩
  · split
    · exact r.closeInCh_aside
    · exact ⟨rfl, rfl, rfl, rfl, rfl, nofun⟩

theorem streamItem_msg (r : Routine R) (dir : ChanDir) (item : Option R.Val) :
    (r.streamItem dir item).msg = r.msg := by
  cases item with
  | none => rfl
  | some v =>
    rw [streamItem]
    split <;> rfl

/-- The request that is served, and how, stay as they are. -/
theorem step_same {l : RoutineLabel R} (h : r.step registry l = some x) :
    x.1.msg = r.msg ∧ x.1.kind = r.kind := by
  cases step_move h with
  | startDispatch => exact r.startDispatch_settles.goes.keeps.same
  | startClientOrUnary => exact r.startClientOrUnary_goes.keeps.same
  | startBidi =>
    rcases startBidi_goes r with hx | ⟨elem, hx⟩
    · exact hx.keeps.same
    · exact hx.keeps.same
  | timeout => exact (r.callClientOrUnary_settles ..).goes.keeps.same
  | first => exact (detect_goes ..).keeps.same
  | @next fn chunks msg rest hpc =>
    exact (collect_keeps (r := { r with chunksChan := rest }) hpc msg).same
  | returned hpc => exact (handleResults_settles (hpc ▸ trivial) ..).goes.keeps.same
  | panicked | recvPanic => exact r.panic_settles.goes.keeps.same
  | @recv item dir => exact ⟨r.streamItem_msg .., (r.streamItem_stays dir item).1⟩
  | feed => exact ⟨(feed_aside ..).msg, (feed_aside ..).kind⟩
  | feedEnd => exact ⟨r.closeInCh_aside.msg, r.closeInCh_aside.kind⟩
  | _ => exact ⟨rfl, rfl⟩

theorem step_done {l : RoutineLabel R} (h : r.step registry l = some x) (hdone : r.pc = .done) :
    x.1.pc = .done := by
  cases step_move h with
  | feed => exact (feed_aside ..).pc.trans hdone
  | feedEnd => exact r.closeInCh_aside.pc.trans hdone
  | feedPanic | feedSend | take | takeEnd | closeInput => exact hdone
  | startDispatch hpc | startClientOrUnary hpc | startBidi hpc | timeout hpc | first hpc | next hpc
  | returned hpc | panicked hpc | recvPanic hpc | recv hpc | wrote hpc | unwritten hpc
  | closeEnd hpc => cases hpc.symm.trans hdone

theorem over_of_endClosed (h : r.endClosed = true) : r.Over := by
  unfold endClosed at h
  unfold Over
  cases hpc : r.pc with
  | closed | done => exact trivial
  | _ =>
    rw [hpc] at h
    cases h

end Routine

/-! ## Connections -/

namespace Connection

inductive Move (c : Connection R) : Label R → Connection R → Prop
  | register (name : String) (fn : Exported R) :
      Move c (.register name fn) { c with registry := c.registry.insert name fn }
  | frame {msg : WireMessage} (hloop : c.loop = .reading) : Move c (.frame msg) (c.handleFrame msg)
  | disconnect (hloop : c.loop = .reading) : Move c .disconnect { c with loop := .closed }
  | send {i : Nat} {msg : WireMessage} {r : Routine R} (hloop : c.loop = .sending i msg)
      (hr : c.routines[i]? = some r) (hlen : r.chunksChan.length < capacity) :
      Move c .send
        { c with
          loop := .reading
          routines := c.routines.set i { r with chunksChan := r.chunksChan ++ [msg] } }
  | ignore {i : Nat} {msg : WireMessage} {r : Routine R} (hloop : c.loop = .sending i msg)
      (hr : c.routines[i]? = some r) (hend : r.endClosed = true) :
      Move c .ignore { c with loop := .reading }
  | dispatch {r r' : Routine R} {l : RoutineLabel R} {e : Effect}
      (hloop : c.loop = .dispatching r) (hs : r.step c.registry l = some (r', e)) :
      Move c (.dispatch l) ({ c with loop := afterDispatch r' }.apply e)
  | routine {i : Nat} {r r' : Routine R} {l : RoutineLabel R} {e : Effect}
      (hr : c.routines[i]? = some r) (hs : r.step c.registry l = some (r', e)) :
      Move c (.routine i l) ({ c with routines := c.routines.set i r' }.apply e)
  | cleanup {i : Nat} {r : Routine R} (hr : c.routines[i]? = some r) (hpc : r.pc = .closed) :
      Move c (.cleanup i)
        { c with
          routines := c.routines.set i { r with pc := .done }
          streams := c.streams.erase r.msg.id }

end Connection

def Effect.frames : Effect → List WireMessage
  | .wrote frame => [frame]
  | .quiet | .crash => []

namespace Connection

variable (c : Connection R) (e : Effect)

@[simp] theorem apply_wire : (c.apply e).wire = c.wire ++ e.frames := by
  cases e <;> simp [apply, Effect.frames]

@[simp] theorem apply_routines : (c.apply e).routines = c.routines := by
  cases e <;> rfl

@[simp] theorem apply_loop : (c.apply e).loop = c.loop := by
  cases e <;> rfl

@[simp] theorem apply_streams : (c.apply e).streams = c.streams := by
  cases e <;> rfl

@[simp] theorem apply_registry : (c.apply e).registry = c.registry := by
  cases e <;> rfl

end Connection

/-- **The moves of a connection are these.** -/
theorem step_move {c c' : Connection R} {l : Label R} (h : step c l = some c') :
    c.crashed = false ∧ c.Move l c' := by
  unfold step at h
  split at h
  · cases h
  · rename_i hc
    refine ⟨Bool.eq_false_of_not_eq_true hc, ?_⟩
    cases l with
    | register name fn =>
      cases h
      exact .register name fn
    | frame msg =>
      dsimp only at h
      split at h <;> cases h
      exact .frame ‹_›
    | disconnect =>
      dsimp only at h
      split at h <;> cases h
      exact .disconnect ‹_›
    | send =>
      dsimp only at h
      split at h
      · obtain ⟨r, hr, h⟩ := Option.bind_eq_some_iff.1 h
        split at h <;> cases h
        exact .send ‹_› hr ‹_›
      · cases h
    | ignore =>
      dsimp only at h
      split at h
      · obtain ⟨r, hr, h⟩ := Option.bind_eq_some_iff.1 h
        split at h <;> cases h
        exact .ignore ‹_› hr ‹_›
      · cases h
    | dispatch l =>
      dsimp only at h
      split at h
      · obtain ⟨⟨r', e⟩, hs, h⟩ := Option.bind_eq_some_iff.1 h
        cases h
        exact .dispatch ‹_› hs
      · cases h
    | routine i l =>
      obtain ⟨r, hr, h⟩ := Option.bind_eq_some_iff.1 h
      obtain ⟨⟨r', e⟩, hs, h⟩ := Option.bind_eq_some_iff.1 h
      cases h
      exact .routine hr hs
    | cleanup i =>
      obtain ⟨r, hr, h⟩ := Option.bind_eq_some_iff.1 h
      split at h
      · cases h
        exact .cleanup hr ‹_›
      · cases h

end Callwire.Go.Server
