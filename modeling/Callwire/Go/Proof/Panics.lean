import Callwire.Lib.ArrayUpdate
import Callwire.Go.Proof.ServerStep

/-!
# Panics in the Go server

A panic in a goroutine of the server ends the program. It is raised by `reflect`, when a chunk does
not fit the channel of the function, when a channel type has the wrong direction or arguments are
missing (`chunk_crashes`); but not if the exported functions have types that `reflect` can serve
(`Safe`) and the chunks and results are of the kind that the code takes for granted (`Careful`):
then nothing crashes, the functions are called with arguments that fit, and a request whose function
is not called is answered with errors only (`server_not_crashed`).
-/

namespace Callwire.Go.Server

open Lib List

variable {R : Reflect} {registry : Registry R}

/-- The types of a function that can be called through `reflect` without a panic: no variadic
parameter, a channel parameter that can be made, an output channel that can be received from, and no
conversion to a parameter type that can fail. -/
structure Safe (fn : FuncType R) : Prop where
  variadic : fn.variadic = false
  input : ∀ {t rest dir elem}, fn.ins = t :: rest → R.chan t = some (dir, elem) → dir = .both
  output : ∀ {t dir elem}, fn.outs.head? = some t → R.chan t = some (dir, elem) → dir ≠ .send
  params : ∀ t ∈ fn.ins, Converts t

/-- If the function takes a client stream, then the chunk can be sent into its channel and the
request has the arguments for its other parameters. -/
def Takes (fn : FuncType R) (request : WireMessage) (chunk : Value) : Prop :=
  ∀ {t rest dir elem}, fn.ins = t :: rest → R.chan t = some (dir, elem) →
    Sendable elem chunk ∧ rest.length ≤ (request.args.getD []).length

namespace Routine

/-- What the code takes for granted: a chunk fits the function it is for, no result is an error
whose method panics, and the function neither panics nor closes its input channel. -/
def Careful (r : Routine R) : RoutineLabel R → Prop
  | .receive => ∀ {msg rest}, r.chunksChan = msg :: rest → msg.type = "stream_chunk" →
      (∀ fn, r.pc = .detect fn → Takes fn r.msg msg.result) ∧
      ∀ fn chunks, r.pc = .collect fn chunks → Takes fn r.msg msg.result
  | .feed => ∀ {msg rest elem}, r.chunksChan = msg :: rest → msg.type = "stream_chunk" →
      r.feeder = .receiving elem → Sendable elem msg.result
  | .returned results => ∀ v ∈ results, R.asError v ≠ some .broken
  | .panicked | .closeInput => False
  | _ => True

end Routine

/-- What a state of a routine promises. -/
def Pc.Sound (request : WireMessage) : Pc R → Prop
  | .detect fn => Safe fn
  | .collect fn chunks => Safe fn ∧ ∀ c ∈ chunks, Takes fn request c
  | .call fn mode => Safe fn ∧ (mode = .bidi → isChannelReturn fn = true)
  | .recv dir => dir ≠ .send
  | .write _ more => more ≠ some .send
  | _ => True

namespace Routine

/-- Only the feeder closes the input channel, when it is done. -/
structure Sound (r : Routine R) : Prop where
  pc : r.pc.Sound r.msg
  feeder : r.feeder ≠ .done → r.inClosed = false
  start : r.pc = .start → r.feeder = .unspawned

def Fine (r : Routine R) (x : Routine R × Effect) : Prop := x.2 ≠ .crash ∧ x.1.pc.Sound r.msg

variable {r : Routine R} {fn : FuncType R} {x : Routine R × Effect} {chunks : List Value}
  {msg : WireMessage}

theorem reply_fine (r : Routine R) (frame : WireMessage) : r.Fine (r.reply (some frame)) :=
  ⟨nofun, nofun⟩

theorem invoke_fine {mode : Mode} {ins : Except Stop (List (Option (Arg R)))} (hfn : Safe fn)
    (hmode : mode = .bidi → isChannelReturn fn = true) (hpanic : ins ≠ .error .panic)
    (hcall : ∀ i, ins = .ok i → ∃ args, fn.call i = some args) : r.Fine (r.invoke fn mode ins) := by
  unfold invoke
  split
  · exact r.reply_fine _
  · exact absurd rfl hpanic
  · obtain ⟨args, hargs⟩ := hcall _ rfl
    rw [hargs]
    exact ⟨nofun, hfn, hmode⟩

theorem unary_fine (r : Routine R) (hfn : Safe fn) :
    r.Fine (r.invoke fn .unary (unaryArgs fn r.msg)) :=
  invoke_fine hfn nofun (unaryArgs_noPanic hfn.params) fun _ h => unaryArgs_call hfn.variadic h

theorem clientStream_fine {t : R.Ty} {rest : List R.Ty} (hfn : Safe fn)
    (hins : fn.ins = t :: rest) (hchan : isChannelInput t = true)
    (htakes : ∀ c ∈ chunks, Takes fn r.msg c) (hne : chunks ≠ []) :
    r.Fine (r.invoke fn .clientStream (clientStreamArgs t rest r.msg chunks)) := by
  obtain ⟨⟨dir, elem⟩, hc⟩ := Option.isSome_iff_exists.1 hchan
  obtain rfl := hfn.input hins hc
  obtain ⟨c, hmem⟩ := exists_mem_of_ne_nil chunks hne
  have hargs := (htakes c hmem hins hc).2
  obtain ⟨items, hitems⟩ := sendChunks_of_sendable fun c h => (htakes c h hins hc).1
  have hparams : ∀ t' ∈ rest, Converts t' := fun t' ht =>
    hfn.params t' (hins ▸ mem_cons_of_mem _ ht)
  by_cases hlen : (r.msg.args.getD []).length = rest.length
  · rw [clientStreamArgs_eq hc hitems hlen]
    refine invoke_fine hfn nofun ?_ ?_
    · cases hvs : convertArgs r.msg.id 2 (r.msg.args.getD []) rest with
      | error stop =>
        intro he
        cases he
        exact convertArgs_noPanic hlen.le hparams hvs
      | ok vs => exact nofun
    · cases hvs : convertArgs r.msg.id 2 (r.msg.args.getD []) rest with
      | error stop => exact nofun
      | ok vs =>
        intro i he
        cases he
        exact ⟨_, clientStreamArgs_call hfn.variadic hins hlen hvs⟩
  · have hmore : (r.msg.args.getD []).length > rest.length := by omega
    simp only [clientStreamArgs, if_pos hmore]
    exact r.reply_fine _

theorem callClientOrUnary_fine (hfn : Safe fn) (htakes : ∀ c ∈ chunks, Takes fn r.msg c) :
    r.Fine (r.callClientOrUnary fn chunks) := by
  unfold callClientOrUnary
  split
  · split
    · exact clientStream_fine hfn ‹_› ‹_› htakes nofun
    · exact r.unary_fine hfn
  · exact r.unary_fine hfn

theorem startClientOrUnary_fine (r : Routine R)
    (hreg : ∀ name fn, registry.lookup name = some fn → Safe fn.1) :
    r.Fine (r.startClientOrUnary registry) := by
  unfold startClientOrUnary
  split
  · exact r.reply_fine _
  · exact ⟨nofun, hreg _ _ ‹_›⟩

theorem startBidi_fine (r : Routine R)
    (hreg : ∀ name fn, registry.lookup name = some fn → Safe fn.1) :
    r.Fine (r.startBidi registry) := by
  unfold startBidi
  split
  · exact r.reply_fine _
  · rename_i fn hl
    have hfn := hreg _ _ hl
    split
    · rename_i t out outs hins houts
      split
      · exact r.reply_fine _
      · rename_i hin
        split
        · exact r.reply_fine _
        · rename_i hret
          have hret := Bool.eq_true_of_not_eq_false hret
          have hfits : fits fn.1.ins [Arg.input t] = true := by
            simp [hins, fits, Arg.type, R.assignableTo_self]
          split
          · refine invoke_fine hfn (fun _ => hret) (by simp) fun i he => ?_
            cases he
            exact ⟨_, FuncType.call_of_fits hfn.variadic hfits⟩
          · rename_i hnot
            obtain ⟨⟨dir, elem⟩, hc⟩ :=
              Option.isSome_iff_exists.1 (Bool.eq_true_of_not_eq_false hin)
            obtain rfl := hfn.input hins hc
            exact absurd hc (hnot elem)
    · exact r.reply_fine _

theorem detect_fine (hfn : Safe fn)
    (htakes : msg.type = "stream_chunk" → Takes fn r.msg msg.result) :
    r.Fine (r.detect fn msg) := by
  unfold detect
  split
  · refine ⟨nofun, hfn, fun c hc => ?_⟩
    rw [mem_singleton.1 hc]
    exact htakes ‹_›
  · split
    · exact r.reply_fine _
    · exact callClientOrUnary_fine hfn fun c hc => nomatch hc

theorem collect_fine (hpc : r.pc = .collect fn chunks) (hsound : r.pc.Sound r.msg)
    (htakes : msg.type = "stream_chunk" → Takes fn r.msg msg.result) :
    r.Fine (r.collect fn chunks msg) := by
  have hkeep := hsound
  rw [hpc] at hsound
  obtain ⟨hfn, hchunks⟩ := hsound
  unfold collect
  split
  · exact callClientOrUnary_fine hfn hchunks
  · split
    · exact ⟨nofun, hfn, forall_concat hchunks (htakes ‹_›)⟩
    · split
      · exact r.reply_fine _
      · exact ⟨nofun, hkeep⟩

theorem frame_isSome (id : BitVec 64) {err : GoError} (h : err ≠ .broken) :
    ∃ frame, err.frame id = some frame := by
  cases err with
  | wire errorType message | other text => exact ⟨_, rfl⟩
  | broken => exact absurd rfl h

theorem dispatchStream_fine {results : List R.Val} (hfn : Safe fn)
    (hret : isChannelReturn fn = true) (hresults : ∀ v ∈ results, R.asError v ≠ some .broken) :
    r.Fine (r.dispatchStream fn results) := by
  unfold dispatchStream
  split
  · rename_i err herr
    obtain ⟨v, hv, he⟩ := Option.bind_eq_some_iff.1 herr
    obtain ⟨frame, hframe⟩ := frame_isSome r.msg.id
      (fun hb => hresults v (mem_of_getElem? hv) (hb ▸ he))
    rw [hframe]
    exact r.reply_fine _
  · split
    · rename_i dir elem hchan
      obtain ⟨t, ht, hc⟩ := Option.bind_eq_some_iff.1 hchan
      exact ⟨nofun, hfn.output ht hc⟩
    · rename_i hnone
      unfold isChannelReturn at hret
      split at hret
      · cases hret
      · rename_i houts
        simp [houts] at hnone
        simp [hnone] at hret

theorem handleResults_fine {mode : Mode} {results : List R.Val} (hfn : Safe fn)
    (hmode : mode = .bidi → isChannelReturn fn = true)
    (hresults : ∀ v ∈ results, R.asError v ≠ some .broken) :
    r.Fine (r.handleResults fn results mode) := by
  have hreply : r.Fine (r.reply (unaryReply r.msg.id results)) := by
    unfold unaryReply
    split
    · rename_i err herr
      obtain ⟨v, hv, he⟩ := Option.bind_eq_some_iff.1 herr
      obtain ⟨frame, hframe⟩ := frame_isSome r.msg.id
        (fun hb => hresults v (mem_of_getLast? hv) (hb ▸ he))
      rw [hframe]
      exact r.reply_fine _
    · exact r.reply_fine _
    · split <;> exact r.reply_fine _
  cases mode with
  | unary =>
    rw [handleResults]
    split
    · exact dispatchStream_fine hfn ‹_› hresults
    · exact hreply
  | clientStream => exact hreply
  | bidi => exact dispatchStream_fine hfn (hmode rfl) hresults

theorem Fine.sound (h : r.Fine x) (hk : r.Keeps x)
    (hfeeder : r.feeder ≠ .done → r.inClosed = false) : x.2 ≠ .crash ∧ x.1.Sound := by
  refine ⟨h.1, ⟨?_, ?_, fun he => absurd he (hk.start h.1)⟩⟩
  · rw [hk.msg]
    exact h.2
  · rw [hk.feeder, hk.inClosed]
    exact hfeeder

theorem streamItem_sound (h : r.Sound) {dir : ChanDir} (hdir : dir ≠ .send) (item : Option R.Val) :
    (r.streamItem dir item).Sound := by
  cases item with
  | none => exact ⟨nofun, h.feeder, nofun⟩
  | some v =>
    rw [streamItem]
    split
    · exact ⟨fun he => hdir (Option.some.inj he), h.feeder, by simp⟩
    · exact ⟨nofun, h.feeder, by simp⟩

theorem afterWrite_sound {request : WireMessage} {more : Option ChanDir} (ok : Bool)
    (h : more ≠ some .send) : (afterWrite ok more : Pc R).Sound request := by
  cases more with
  | none => exact trivial
  | some dir =>
    cases ok with
    | true => exact fun he => h (congrArg some he)
    | false => exact trivial

theorem afterWrite_ne_start (ok : Bool) (more : Option ChanDir) :
    (afterWrite ok more : Pc R) ≠ .start := by
  cases more with
  | none => exact nofun
  | some dir => cases ok <;> exact nofun

theorem closeInCh_sound (h : r.Sound) (hf : r.feeder ≠ .done) (hpc : r.pc ≠ .start) :
    r.closeInCh.2 ≠ .crash ∧ r.closeInCh.1.Sound := by
  rw [closeInCh, h.feeder hf]
  exact ⟨nofun, h.pc, fun hne => absurd rfl hne, fun he => absurd he hpc⟩

theorem feed_sound {elem : R.Ty} (h : r.Sound) (hf : r.feeder = .receiving elem)
    (hsend : msg.type = "stream_chunk" → Sendable elem msg.result) :
    (r.feed elem msg).2 ≠ .crash ∧ (r.feed elem msg).1.Sound := by
  have hpc : r.pc ≠ .start := fun he => nomatch hf.symm.trans (h.start he)
  unfold feed
  split
  · obtain ⟨v, hv, ha⟩ := hsend ‹_›
    simp only [hv, ha, if_true]
    exact ⟨nofun, h.pc, fun _ => h.feeder (hf ▸ nofun), fun he => absurd he hpc⟩
  · split
    · exact closeInCh_sound h (hf ▸ nofun) hpc
    · exact ⟨nofun, h⟩

/-- **A goroutine that is used with care does not panic.** -/
theorem Sound.step {l : RoutineLabel R} (h : r.Sound) (hkind : r.kind ≠ .dispatch)
    (hreg : ∀ name fn, registry.lookup name = some fn → Safe fn.1) (hcare : r.Careful l)
    (hs : r.step registry l = some x) : x.2 ≠ .crash ∧ x.1.Sound := by
  have hpcs : ∀ {pc : Pc R}, r.pc = pc → pc.Sound r.msg := by
    intro pc hpc
    rw [← hpc]
    exact h.pc
  cases step_move hs with
  | startDispatch _ hk => exact absurd hk hkind
  | startClientOrUnary =>
    exact (r.startClientOrUnary_fine hreg).sound r.startClientOrUnary_goes.keeps h.feeder
  | startBidi hpc =>
    have hfine := r.startBidi_fine hreg
    rcases startBidi_goes r with hx | ⟨elem, hx⟩
    · exact hfine.sound hx.keeps h.feeder
    · have hopen : r.inClosed = false := h.feeder (h.start hpc ▸ nofun)
      exact Fine.sound (r := { r with feeder := .receiving elem }) hfine hx.keeps fun _ => hopen
  | @timeout fn hpc =>
    have hfine : r.Fine (r.callClientOrUnary fn []) :=
      callClientOrUnary_fine (hpcs hpc) fun c hc => nomatch hc
    exact hfine.sound (r.callClientOrUnary_settles ..).goes.keeps h.feeder
  | @first fn msg rest hpc hc =>
    have hfine := detect_fine (r := { r with chunksChan := rest }) (hpcs hpc) fun ht =>
      (hcare hc ht).1 fn hpc
    exact hfine.sound (detect_goes ..).keeps h.feeder
  | @next fn chunks msg rest hpc hc =>
    have hfine := collect_fine (r := { r with chunksChan := rest }) hpc h.pc fun ht =>
      (hcare hc ht).2 fn chunks hpc
    exact hfine.sound (collect_keeps (r := { r with chunksChan := rest }) hpc msg) h.feeder
  | returned hpc =>
    have hfine := handleResults_fine (r := r) (hpcs hpc).1 (hpcs hpc).2 hcare
    exact hfine.sound (handleResults_settles (hpc ▸ trivial) ..).goes.keeps h.feeder
  | panicked => exact hcare.elim
  | recvPanic hpc => exact absurd rfl (hpcs hpc)
  | recv _ hdir => exact ⟨nofun, streamItem_sound h hdir _⟩
  | wrote hpc | unwritten hpc =>
    refine ⟨nofun, afterWrite_sound _ (hpcs hpc), h.feeder, fun he => ?_⟩
    exact absurd he (afterWrite_ne_start _ _)
  | @feed elem msg rest hf hc =>
    have h₀ : { r with chunksChan := rest }.Sound := { h with }
    exact feed_sound h₀ hf fun ht => hcare hc ht hf
  | feedEnd hf =>
    exact closeInCh_sound h (hf ▸ nofun) fun he => nomatch hf.symm.trans (h.start he)
  | feedPanic hf hclosed => cases hclosed.symm.trans (h.feeder (hf ▸ nofun))
  | feedSend hf hclosed =>
    exact ⟨nofun, h.pc, fun _ => hclosed, fun he => nomatch hf.symm.trans (h.start he)⟩
  | take | takeEnd => exact ⟨nofun, { h with }⟩
  | closeInput => exact hcare.elim
  | closeEnd => exact ⟨nofun, trivial, h.feeder, nofun⟩

theorem goes_dispatch (hk : r.kind = .dispatch) (hx : r.Goes x) : x.2 ≠ .crash := by
  cases hx with
  | crash hne => exact absurd hk hne
  | _ => exact nofun

/-- `dispatch` does not look for a client stream, and has no feeder. -/
structure Dispatching (r : Routine R) : Prop where
  kind : r.kind = .dispatch
  feeder : r.feeder = .unspawned
  pc : ¬ r.pc.Listens

theorem Dispatching.step {l : RoutineLabel R} (h : r.Dispatching)
    (hs : r.step registry l = some x) : x.2 ≠ .crash ∧ x.1.Dispatching := by
  have hstays : ∀ {x}, x.2 ≠ .crash → r.Stays x → x.2 ≠ .crash ∧ x.1.Dispatching := by
    intro x hne hx
    exact ⟨hne, hx.1.trans h.kind, hx.2.1.trans h.feeder,
      Pc.Past.not_listens (hx.2.2.resolve_left hne)⟩
  have hgoes : ∀ {x}, r.Settles x → x.2 ≠ .crash ∧ x.1.Dispatching :=
    fun hx => hstays (goes_dispatch h.kind hx.goes) hx.stays
  have hpc : ∀ {pc : Pc R}, r.pc = pc → pc.Listens → x.2 ≠ .crash ∧ x.1.Dispatching := by
    intro pc hpc hl
    exact absurd (hpc ▸ hl) h.pc
  cases step_move hs with
  | startDispatch => exact hgoes r.startDispatch_settles
  | startClientOrUnary _ hk | startBidi _ hk => cases h.kind.symm.trans hk
  | timeout hpc' | first hpc' | next hpc' => exact hpc hpc' trivial
  | returned hcall => exact hgoes (handleResults_settles (hcall ▸ trivial) ..)
  | panicked | recvPanic => exact hgoes r.panic_settles
  | recv => exact hstays nofun (r.streamItem_stays ..)
  | @wrote frame more | @unwritten frame more =>
    refine ⟨nofun, h.kind, h.feeder, ?_⟩
    cases more <;> exact not_false
  | take | takeEnd => exact ⟨nofun, { h with }⟩
  | closeEnd => exact ⟨nofun, h.kind, h.feeder, not_false⟩
  | feed hf | feedEnd hf | feedPanic hf | feedSend hf => cases h.feeder.symm.trans hf
  | closeInput hf => exact absurd h.feeder hf

/-! ## Refusals -/

end Routine

def Pc.Refuses : Pc R → Prop
  | .call _ _ | .recv _ => False
  | .write frame more => frame.type = "error" ∧ more = none
  | _ => True

namespace Routine

/-- A function is called with arguments that it takes; until then only errors are written. -/
structure Refusing (r : Routine R) : Prop where
  call : ∀ fn mode, r.pc = .call fn mode → ∃ args, r.calls.getLast? = some args ∧
    fn.accepts args = true
  pc : r.calls = [] → r.pc.Refuses
  out : r.calls = [] → ∀ m ∈ r.out, m.type = "error"

namespace Refusing

variable {r : Routine R} {fn : FuncType R}

section
variable (h : r.Refusing)
include h

/-- The routine goes on with the same calls and frames, but not to a call. -/
theorem goto {pc : Pc R} (hcall : ¬ pc.InCall) (hpc : r.calls = [] → pc.Refuses) :
    { r with pc }.Refusing := by
  refine ⟨fun fn mode he => ?_, hpc, h.out⟩
  cases he
  exact absurd trivial hcall

theorem called (hcall : r.pc.InCall) : r.calls ≠ [] := by
  intro hnil
  have hpc := h.pc hnil
  cases hr : r.pc with
  | call => exact (hr ▸ hpc :)
  | _ => exact (hr ▸ hcall :)

theorem goes {x : Routine R × Effect} (hx : r.Goes x) : x.1.Refusing := by
  cases hx with
  | refuse _ herr => exact h.goto not_false fun _ => ⟨herr, rfl⟩
  | reply _ hcall => exact h.goto not_false fun hnil => absurd hnil (h.called hcall)
  | recover _ _ herr => exact ⟨nofun, fun _ => ⟨herr, rfl⟩, h.out⟩
  | @listen pc hpc =>
    cases pc with
    | detect | collect => exact h.goto not_false fun _ => trivial
    | _ => exact hpc.elim
  | stream hcall => exact h.goto not_false fun hnil => absurd hnil (h.called hcall)
  | @call fn mode args hargs =>
    have hne : r.calls ++ [args] ≠ [] := append_ne_nil_of_right_ne_nil _ (by simp)
    refine ⟨fun fn' mode' he => ?_, fun hnil => absurd hnil hne, fun hnil => absurd hnil hne⟩
    cases he
    exact ⟨args, getLast?_concat, hargs⟩
  | crash => exact h

theorem collect {chunks : List Value} (hpc : r.pc = .collect fn chunks) (msg : WireMessage) :
    (r.collect fn chunks msg).1.Refusing := by
  by_cases he : msg.type = "error"
  · simp only [Routine.collect, he]
    exact h.goto not_false fun _ => ⟨rfl, rfl⟩
  · exact h.goes (collect_goes hpc fun h => absurd h he)

theorem streamItem (hcalls : r.calls ≠ []) (dir : ChanDir) (item : Option R.Val) :
    (r.streamItem dir item).Refusing := by
  cases item with
  | none => exact h.goto not_false fun hnil => absurd hnil hcalls
  | some v =>
    rw [Routine.streamItem]
    split <;> exact h.goto not_false fun hnil => absurd hnil hcalls

end

theorem afterWrite {frame : WireMessage} {more : Option ChanDir} (ok : Bool) (h : r.Refusing)
    (hpc : r.pc = .write frame more) : { r with pc := afterWrite ok more }.Refusing := by
  cases more with
  | none => exact h.goto not_false fun _ => trivial
  | some dir =>
    have hcalls : r.calls ≠ [] := by
      intro hnil
      have hw := h.pc hnil
      rw [hpc] at hw
      cases hw.2
    cases ok <;> exact h.goto not_false fun hnil => absurd hnil hcalls

theorem closeInCh (h : r.Refusing) : r.closeInCh.1.Refusing := by
  unfold Routine.closeInCh
  split
  · exact h
  · exact { h with }

theorem feed (h : r.Refusing) (elem : R.Ty) (msg : WireMessage) : (r.feed elem msg).1.Refusing := by
  unfold Routine.feed
  split
  · split
    · split
      · exact { h with }
      · exact h
    · exact h
  · split
    · exact h.closeInCh
    · exact h

theorem step {l : RoutineLabel R} {x : Routine R × Effect} (h : r.Refusing)
    (hs : r.step registry l = some x) : x.1.Refusing := by
  cases step_move hs with
  | startDispatch => exact h.goes r.startDispatch_settles.goes
  | startClientOrUnary => exact h.goes r.startClientOrUnary_goes
  | startBidi =>
    rcases r.startBidi_goes with hx | ⟨elem, hx⟩
    · exact h.goes hx
    · exact goes (r := { r with feeder := .receiving elem }) { h with } hx
  | timeout => exact h.goes (r.callClientOrUnary_settles ..).goes
  | @first _ _ rest =>
    exact goes (r := { r with chunksChan := rest }) { h with } (detect_goes ..)
  | @next _ _ msg rest hpc =>
    exact collect (r := { r with chunksChan := rest }) { h with } hpc msg
  | returned hpc => exact h.goes (handleResults_settles (hpc ▸ trivial) ..).goes
  | panicked | recvPanic => exact h.goes r.panic_settles.goes
  | recv hpc =>
    refine h.streamItem (fun hnil => ?_) ..
    exact (hpc ▸ h.pc hnil :)
  | @wrote frame more hpc =>
    have hw := h.afterWrite true hpc
    refine ⟨hw.call, hw.pc, fun hnil m hm => ?_⟩
    rcases mem_append.1 hm with hm | hm
    · exact h.out hnil m hm
    · have hpc' := h.pc hnil
      rw [hpc] at hpc'
      rw [mem_singleton.1 hm]
      exact hpc'.1
  | unwritten hpc => exact h.afterWrite false hpc
  | @feed elem msg rest =>
    exact feed (r := { r with chunksChan := rest }) { h with } elem msg
  | feedEnd => exact h.closeInCh
  | feedPanic => exact h
  | feedSend | take | takeEnd | closeInput => exact { h with }
  | closeEnd => exact h.goto not_false fun _ => trivial

end Refusing

theorem spawn_refusing (msg : WireMessage) (kind : Kind) : (spawn msg kind : Routine R).Refusing :=
  ⟨nofun, fun _ => trivial, fun _ => forall_mem_nil _⟩

theorem spawn_sound (msg : WireMessage) (kind : Kind) : (spawn msg kind : Routine R).Sound :=
  ⟨trivial, fun _ => rfl, fun _ => rfl⟩

end Routine

/-! ## The connection -/

/-- Functions that `reflect` can serve are exported, and the goroutines are used with care. -/
def Care (c : Connection R) : Label R → Prop
  | .register _ fn => Safe fn.1
  | .routine i l => ∀ r, c.routines[i]? = some r → r.Careful l
  | _ => True

theorem safe_insert {name : String} {fn : Exported R}
    (h : ∀ name fn, registry.lookup name = some fn → Safe fn.1) (hfn : Safe fn.1) :
    ∀ name' fn', (registry.insert name fn).lookup name' = some fn' → Safe fn'.1 := by
  intro name' fn' hl
  by_cases hn : name' = name
  · subst hn
    rw [AList.lookup_insert] at hl
    cases hl
    exact hfn
  · rw [AList.lookup_insert_ne hn] at hl
    exact h name' fn' hl

/-- Nothing has panicked outside `dispatch`. -/
structure Steady (c : Connection R) : Prop where
  crashed : c.crashed = false
  registry : ∀ name fn, c.registry.lookup name = some fn → Safe fn.1
  routines : ∀ r ∈ c.routines, r.kind ≠ .dispatch ∧ r.Sound ∧ r.Refusing
  dispatching : ∀ r, c.loop = .dispatching r → r.Dispatching ∧ r.Refusing

namespace Steady

variable {c c' : Connection R}

theorem init {registry : Registry R}
    (hreg : ∀ name fn, registry.lookup name = some fn → Safe fn.1) : Steady (.init registry) :=
  ⟨rfl, hreg, fun _ hr => (nomatch hr), fun _ he => (nomatch he)⟩

section
variable (h : Steady c)
include h

theorem set {i : Nat} {r r' : Routine R} (hr : c.routines[i]? = some r) (hk : r'.kind ≠ .dispatch)
    (hsound : r'.Sound) (href : r'.Refusing) :
    Steady { c with routines := c.routines.set i r' } :=
  { h with routines := forall_set hr h.routines ⟨hk, hsound, href⟩ }

theorem apply {e : Effect} (he : e ≠ .crash) : Steady (c.apply e) := by
  cases e with
  | crash => exact absurd rfl he
  | quiet => exact h
  | wrote frame => exact { h with }

theorem handleMessage {msg : WireMessage} : Steady (c.handleMessage msg) := by
  unfold Connection.handleMessage
  split
  · refine { h with routines := forall_concat h.routines ⟨?_, Routine.spawn_sound ..,
      Routine.spawn_refusing ..⟩ }
    show (if msg.stream then Kind.bidi else .clientOrUnary) ≠ .dispatch
    split <;> exact nofun
  · refine { h with dispatching := fun r he => ?_ }
    cases he
    exact ⟨⟨rfl, rfl, not_false⟩, Routine.spawn_refusing ..⟩

theorem handleFrame {msg : WireMessage} : Steady (c.handleFrame msg) := by
  unfold Connection.handleFrame
  split
  · split
    · exact { h with dispatching := fun _ he => nomatch he }
    · exact h.handleMessage
  · exact h.handleMessage

theorem step {l : Label R} (hok : Care c l) (hs : Server.step c l = some c') : Steady c' := by
  cases (step_move hs).2 with
  | register => exact { h with registry := safe_insert h.registry hok }
  | frame => exact h.handleFrame
  | disconnect => exact { h with dispatching := fun _ he => nomatch he }
  | @send i msg r hloop hr =>
    obtain ⟨hk, hsound, href⟩ := h.routines r (mem_of_getElem? hr)
    have hset : Steady { c with
        routines := c.routines.set i { r with chunksChan := r.chunksChan ++ [msg] } } :=
      h.set hr hk { hsound with } { href with }
    exact { hset with dispatching := fun _ he => nomatch he }
  | ignore => exact { h with dispatching := fun _ he => nomatch he }
  | @dispatch r r' l e hloop hm =>
    obtain ⟨hdisp, href⟩ := h.dispatching r hloop
    obtain ⟨hne, hdisp'⟩ := hdisp.step hm
    refine apply (c := { c with loop := Connection.afterDispatch r' }) ?_ hne
    refine { h with dispatching := fun r₁ he => ?_ }
    dsimp only [Connection.afterDispatch] at he
    split at he <;> cases he
    exact ⟨hdisp', href.step hm⟩
  | @routine i r r' l e hr hm =>
    obtain ⟨hk, hsound, href⟩ := h.routines r (mem_of_getElem? hr)
    obtain ⟨hne, hsound'⟩ := hsound.step hk h.registry (hok r hr) hm
    exact (h.set hr ((Routine.step_same hm).2 ▸ hk) hsound' (href.step hm)).apply hne
  | @cleanup i r hr =>
    obtain ⟨hk, hsound, href⟩ := h.routines r (mem_of_getElem? hr)
    have hset : Steady { c with routines := c.routines.set i { r with pc := .done } } :=
      h.set hr hk ⟨trivial, hsound.feeder, nofun⟩ (href.goto not_false fun _ => trivial)
    exact { hset with }

end

end Steady

/-- **Nothing crashes a server of functions that `reflect` can serve**, as long as the chunks fit:
the functions are called with arguments that they take, and before a call only errors are
written. -/
theorem server_not_crashed {ls : List (Label R)} {c : Connection R}
    (hreg : ∀ name fn, registry.lookup name = some fn → Safe fn.1)
    (hok : Along step Care (.init registry) ls) (hrun : run step (.init registry) ls = some c) :
    c.crashed = false ∧ ∀ r, r ∈ c.routines ∨ c.loop = .dispatching r → r.Refusing := by
  have h : Steady c :=
    run_invariant (fun _ _ _ hi hp hs => hi.step hp hs) (.init hreg) hok hrun
  refine ⟨h.crashed, fun r hr => ?_⟩
  rcases hr with hr | hr
  · exact (h.routines r hr).2.2
  · exact (h.dispatching r hr).2

theorem chanRegistry_safe : ∀ name fn, chanRegistry.lookup name = some fn → Safe fn.1 := by
  have hparams : ∀ t : plain.Ty, Converts t := fun t arg v _ h => nomatch h
  have hin : ∀ {elem t : PlainTy} {rest : List PlainTy} {dir : ChanDir} {elem' : PlainTy},
      [PlainTy.chan .both elem] = t :: rest → plain.chan t = some (dir, elem') → dir = .both := by
    intro elem t rest dir elem' hins hc
    cases hins
    cases hc
    rfl
  refine safe_insert (safe_insert (fun _ _ hl => nomatch hl) ?_) ?_
  · exact ⟨rfl, hin, fun ho => (nomatch ho), fun t _ => hparams t⟩
  · refine ⟨rfl, hin, fun ho hc => ?_, fun t _ => hparams t⟩
    cases ho
    cases hc
    exact nofun

def chunkLabels (msg : WireMessage) (chunk : Value) (l : RoutineLabel plain) : List (Label plain) :=
  [.frame msg, .routine 0 .start, .frame (streamChunk 1 chunk), .send, .routine 0 l]

theorem server_not_crashed_chunk : ∃ c, run step (.init chanRegistry)
    (chunkLabels (bidiRequest 1 "h" []) (.int 1) .feed) = some c ∧ c.crashed = false := by
  have hfeed : ∀ r : Routine plain, r.chunksChan = [streamChunk 1 (.int 1)] →
      r.feeder = .receiving .number → r.Careful .feed := by
    intro r hc hf msg rest elem hc' _ hf'
    cases hc.symm.trans hc'
    cases hf.symm.trans hf'
    exact ⟨_, rfl, rfl⟩
  have hok : Along step Care (.init chanRegistry)
      (chunkLabels (bidiRequest 1 "h" []) (.int 1) .feed) := by
    refine .cons trivial rfl (.cons (fun r _ => trivial) rfl (.cons trivial rfl
      (.cons trivial rfl (.cons (fun r hr => ?_) rfl trivial))))
    cases hr
    exact hfeed _ rfl rfl
  exact ⟨_, rfl, (server_not_crashed chanRegistry_safe hok rfl).1⟩

/-- **A client crashes the server with one chunk**: with a nil that is sent into a channel of
`interface{}`, and with a string that is fed into a channel of numbers. -/
theorem chunk_crashes :
    (∃ c, run step (.init chanRegistry) (chunkLabels (request 1 "g" []) .nil .receive ++
      [.frame (streamClose 1), .send, .routine 0 .receive]) = some c ∧ c.crashed = true) ∧
    ∃ c, run step (.init chanRegistry) (chunkLabels (bidiRequest 1 "h" []) (.str "x") .feed) =
      some c ∧ c.crashed = true :=
  ⟨⟨_, rfl, rfl⟩, _, rfl, rfl⟩

end Callwire.Go.Server
