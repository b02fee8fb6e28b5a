import Callwire.Go.Proof.ServerStep

/-!
# The two dispatch functions of the Go server

`dispatch` answers a message in the read loop; `dispatchClientOrUnary` answers a request in a
goroutine, after a look for a client stream. Without stream frames their moves are the same
(`Routine.step_twin`), apart from a panic: `dispatch` recovers and replies, and
`dispatchClientOrUnary` takes the program down. So the two write the same frames for the same
answers of the function and the connection as long as nothing panics
(`dispatchClientOrUnary_agrees`), and a function that panics ends the server (`panic_crashes`).
-/

namespace Callwire.Go.Server

open Lib Routine RoutineLabel

variable {R : Reflect} {registry : Registry R}

namespace Routine

def asDispatch (r : Routine R) : Routine R := { r with kind := .dispatch }

/-- What `dispatch` does where `dispatchClientOrUnary` does this. -/
def twin : Routine R × Effect → Routine R × Effect
  | (r, .crash) => r.asDispatch.panic
  | (r, e) => (r.asDispatch, e)

variable {r : Routine R} {fn : FuncType R}

section
variable (hk : r.kind = .clientOrUnary)
include hk

theorem twin_panic : twin r.panic = r.asDispatch.panic := by
  unfold panic
  rw [hk]
  rfl

theorem twin_reply (frame : Option WireMessage) :
    twin (r.reply frame) = r.asDispatch.reply frame := by
  cases frame with
  | none => exact twin_panic hk
  | some frame => rfl

theorem twin_invoke (fn : FuncType R) (mode : Mode) (ins : Except Stop (List (Option (Arg R)))) :
    twin (r.invoke fn mode ins) = r.asDispatch.invoke fn mode ins := by
  unfold invoke
  split
  · exact twin_reply hk _
  · exact twin_panic hk
  · split
    · rfl
    · exact twin_panic hk

theorem twin_dispatchStream (fn : FuncType R) (results : List R.Val) :
    twin (r.dispatchStream fn results) = r.asDispatch.dispatchStream fn results := by
  unfold dispatchStream
  split
  · exact twin_reply hk _
  · split
    · rfl
    · exact twin_panic hk

theorem twin_handleResults (fn : FuncType R) (results : List R.Val) (mode : Mode) :
    twin (r.handleResults fn results mode) = r.asDispatch.handleResults fn results mode := by
  cases mode with
  | unary =>
    rw [handleResults, handleResults]
    split
    · exact twin_dispatchStream hk fn results
    · exact twin_reply hk _
  | clientStream => exact twin_reply hk _
  | bidi => exact twin_dispatchStream hk fn results

end

theorem streamItem_asDispatch (r : Routine R) (dir : ChanDir) (item : Option R.Val) :
    r.asDispatch.streamItem dir item = (r.streamItem dir item).asDispatch := by
  cases item with
  | none => rfl
  | some v =>
    rw [streamItem, streamItem]
    split <;> rfl

/-- **Once the function is called, the two functions do the same**, but for a panic. -/
theorem step_twin (hk : r.kind = .clientOrUnary) (hpast : r.pc.Past) (hf : r.feeder = .unspawned)
    (l : RoutineLabel R) : r.asDispatch.step registry l = (r.step registry l).map twin := by
  have hpc : r.asDispatch.pc = r.pc := rfl
  have hfeeder : r.asDispatch.feeder = r.feeder := rfl
  cases l with
  | start | timeout | receive =>
    rw [step, step, hpc]
    cases h : r.pc <;> first | rfl | (rw [h] at hpast; exact hpast.elim)
  | returned results =>
    rw [step, step, hpc]
    cases h : r.pc with
    | call fn mode =>
      dsimp only
      split
      · rw [Option.map_some, twin_handleResults hk]
      · rfl
    | _ => rfl
  | panicked =>
    rw [step, step, hpc]
    cases h : r.pc with
    | call fn mode => exact congrArg some (twin_panic hk).symm
    | _ => rfl
  | recv item =>
    rw [step, step, hpc]
    cases h : r.pc with
    | recv dir =>
      cases dir with
      | send => exact congrArg some (twin_panic hk).symm
      | recv | both => simp [twin, streamItem_asDispatch]
    | _ => rfl
  | write ok =>
    rw [step, step, hpc]
    cases h : r.pc with
    | write frame more => cases ok <;> rfl
    | _ => rfl
  | feed | feedEnd | feedSend => rw [step, step, hfeeder, hf]; rfl
  | take =>
    have hin : r.asDispatch.inCh = r.inCh := rfl
    rw [step, step, hin]
    cases h : r.inCh with
    | nil =>
      have hclosed : r.asDispatch.inClosed = r.inClosed := rfl
      dsimp only
      rw [hclosed]
      split <;> rfl
    | cons v inCh => rfl
  | closeInput => rw [step, step, hfeeder, hf]; rfl
  | closeEnd =>
    rw [step, step, hpc]
    cases h : r.pc <;> rfl

end Routine

/-! ## Runs in which nothing panics -/

/-- What the function, its output channel and the connection answer. -/
def RoutineLabel.answer : RoutineLabel R → List (RoutineLabel R)
  | .returned results => [.returned results]
  | .panicked => [.panicked]
  | .recv item => [.recv item]
  | .write ok => [.write ok]
  | _ => []

namespace Routine

/-- A move of a routine on its own. -/
def alone (registry : Registry R) (r : Routine R) (l : RoutineLabel R) : Option (Routine R) :=
  (r.step registry l).map Prod.fst

/-- A move of a routine on its own in which nothing panics. -/
def calm (registry : Registry R) (r : Routine R) (l : RoutineLabel R) : Option (Routine R) :=
  match r.step registry l with
  | some (r', e) => if r'.recovered then none else if e matches .crash then none else some r'
  | none => none

theorem calm_eq_some {r r' : Routine R} {l : RoutineLabel R} :
    r.calm registry l = some r' ↔
      ∃ e, r.step registry l = some (r', e) ∧ e ≠ .crash ∧ r'.recovered = false := by
  unfold calm
  cases h : r.step registry l with
  | none => simp
  | some x =>
    obtain ⟨r₁, e⟩ := x
    dsimp only
    cases e <;> cases h₁ : r₁.recovered <;> simp <;> grind

/-- After the call a routine does not look for a client stream again. -/
theorem step_stays {r : Routine R} {l : RoutineLabel R} {x : Routine R × Effect}
    (hpast : r.pc.Past) (hf : r.feeder = .unspawned) (h : r.step registry l = some x) :
    r.Stays x := by
  have hnot : ∀ {pc : Pc R}, r.pc = pc → ¬ pc.Past → r.Stays x := by
    intro pc hpc hnot
    exact absurd (hpc ▸ hpast) hnot
  cases step_move h with
  | startDispatch hpc | startClientOrUnary hpc | startBidi hpc | timeout hpc | first hpc
  | next hpc => exact hnot hpc not_false
  | returned hpc => exact (handleResults_settles (hpc ▸ trivial) ..).stays
  | panicked | recvPanic => exact r.panic_settles.stays
  | recv => exact r.streamItem_stays ..
  | @wrote frame more | @unwritten frame more =>
    refine ⟨rfl, rfl, .inr ?_⟩
    cases more <;> exact trivial
  | feed hf' | feedEnd hf' | feedPanic hf' | feedSend hf' => cases hf.symm.trans hf'
  | closeInput hf' => exact absurd hf hf'
  | take | takeEnd => exact ⟨rfl, rfl, .inr hpast⟩
  | closeEnd => exact ⟨rfl, rfl, .inr trivial⟩

end Routine

/-! ## The simulation -/

def Routine.atSelect (msg : WireMessage) (fn : FuncType R) : Routine R :=
  { spawn msg .clientOrUnary with pc := .detect fn }

/-- A state of `dispatchClientOrUnary` and the state of `dispatch` that it stands for. -/
inductive Twins (registry : Registry R) (msg : WireMessage) : Routine R → Routine R → Prop
  | start : Twins registry msg (.spawn msg .clientOrUnary) (.spawn msg .dispatch)
  | detect {fn : Exported R} (hl : registry.lookup msg.func = some fn) :
      Twins registry msg (.atSelect msg fn.1) (.spawn msg .dispatch)
  | past {r : Routine R} (hk : r.kind = .clientOrUnary) (hpast : r.pc.Past)
      (hf : r.feeder = .unspawned) : Twins registry msg r r.asDispatch

namespace Twins

variable {msg : WireMessage} {live disp : Routine R}

theorem out_eq (h : Twins registry msg live disp) : disp.out = live.out := by
  cases h <;> rfl

theorem over_iff (h : Twins registry msg live disp) : disp.Over ↔ live.Over := by
  cases h <;> rfl

theorem of_stays {r : Routine R} {x : Routine R × Effect} (hk : r.kind = .clientOrUnary)
    (hf : r.feeder = .unspawned) (hx : r.Stays x) (hcrash : x.2 ≠ .crash) :
    Twins registry msg x.1 x.1.asDispatch :=
  .past (hx.1.trans hk) (hx.2.2.resolve_left hcrash) (hx.2.1.trans hf)

end Twins

namespace Routine

variable {x : Routine R × Effect}

theorem twin_of_ne_crash (h : x.2 ≠ .crash) : twin x = (x.1.asDispatch, x.2) := by
  obtain ⟨r, e⟩ := x
  cases e with
  | crash => exact absurd rfl h
  | quiet | wrote frame => rfl

theorem ne_crash_of_twin {r : Routine R} {e : Effect} (h : twin x = (r, e))
    (hrec : r.recovered = false) : x.2 ≠ .crash := by
  obtain ⟨r₁, e₁⟩ := x
  rintro rfl
  cases h
  cases hrec

theorem invoke_pc {r : Routine R} (hk : r.kind = .dispatch) (pc : Pc R) (fn : FuncType R)
    (mode : Mode) (ins : Except Stop (List (Option (Arg R)))) :
    { r with pc }.invoke fn mode ins = r.invoke fn mode ins := by
  have hpanic : { r with pc }.panic = r.panic := by
    unfold panic
    rw [hk]
  unfold invoke
  split
  · rfl
  · exact hpanic
  · split
    · rfl
    · exact hpanic

variable {msg : WireMessage}

/-- The first move of `dispatch` is the first two of `dispatchClientOrUnary`. -/
theorem startDispatch_eq {fn : Exported R} (hl : registry.lookup msg.func = some fn) :
    (spawn msg .dispatch).startDispatch registry =
      twin ((atSelect msg fn.1).callClientOrUnary fn.1 []) := by
  have hcall : (atSelect msg fn.1).callClientOrUnary fn.1 [] =
      (atSelect msg fn.1).invoke fn.1 .unary (unaryArgs fn.1 msg) := rfl
  have hfunc : (spawn msg .dispatch : Routine R).msg.func = msg.func := rfl
  rw [hcall, twin_invoke rfl, startDispatch, hfunc, hl]
  exact (invoke_pc rfl (.detect fn.1) fn.1 .unary _).symm

theorem spawn_step {kind : Kind} {l : RoutineLabel R}
    (h : (spawn msg kind).step registry l = some x) : l = .start := by
  cases step_move h with
  | startDispatch | startClientOrUnary | startBidi => rfl
  | timeout hpc | first hpc | next hpc | returned hpc | panicked hpc | recvPanic hpc | recv hpc
  | wrote hpc | unwritten hpc | closeEnd hpc => cases hpc
  | feed hf | feedEnd hf | feedPanic hf | feedSend hf => cases hf
  | closeInput hf => exact absurd rfl hf
  | take hin => cases hin
  | takeEnd _ hclosed => cases hclosed

theorem detect_step {fn : FuncType R} {l : RoutineLabel R}
    (h : (atSelect msg fn).step registry l = some x) : l = .timeout := by
  cases step_move h with
  | timeout => rfl
  | first _ hc => cases hc
  | startDispatch hpc | startClientOrUnary hpc | startBidi hpc | next hpc | returned hpc
  | panicked hpc | recvPanic hpc | recv hpc | wrote hpc | unwritten hpc | closeEnd hpc =>
    cases hpc
  | feed hf | feedEnd hf | feedPanic hf | feedSend hf => cases hf
  | closeInput hf => exact absurd rfl hf
  | take hin => cases hin
  | takeEnd _ hclosed => cases hclosed

theorem start_missing {kind : Kind} (hkind : kind = .dispatch ∨ kind = .clientOrUnary)
    (hl : registry.lookup msg.func = none) : (spawn msg kind).step registry .start =
      some ({ spawn msg kind with pc := .write (notFound msg) none }, .quiet) := by
  rcases hkind with rfl | rfl
  · simp only [step, startDispatch, spawn, hl]
    rfl
  · simp only [step, startClientOrUnary, spawn, hl]
    rfl

theorem start_found {fn : Exported R} (hl : registry.lookup msg.func = some fn) :
    (spawn msg .clientOrUnary).step registry .start = some (atSelect msg fn.1, .quiet) := by
  have hstart : (spawn msg .clientOrUnary).startClientOrUnary registry =
      (atSelect msg fn.1, .quiet) := by
    simp only [startClientOrUnary, spawn, hl, atSelect]
  exact congrArg some hstart

end Routine

namespace Twins

open Routine

variable {msg : WireMessage} {live disp : Routine R} {l : RoutineLabel R}

theorem forth {live' : Routine R} (h : Twins registry msg live disp)
    (hs : live.calm registry l = some live') :
    ∃ ls disp', run (calm registry) disp ls = some disp' ∧
      ls.flatMap answer = l.answer ∧ Twins registry msg live' disp' := by
  obtain ⟨e, hstep, hcrash, hrec⟩ := calm_eq_some.1 hs
  cases h with
  | start =>
    obtain rfl := spawn_step hstep
    cases hl : registry.lookup msg.func with
    | none =>
      rw [start_missing (.inr rfl) hl] at hstep
      cases hstep
      have hd := calm_eq_some.2 ⟨.quiet, start_missing (.inl rfl) hl, hcrash, rfl⟩
      exact ⟨[.start], _, run_singleton hd, rfl, .past rfl trivial rfl⟩
    | some fn =>
      rw [start_found hl] at hstep
      cases hstep
      exact ⟨[], _, rfl, rfl, .detect hl⟩
  | @detect fn hl =>
    obtain rfl := detect_step hstep
    have hx : (atSelect msg fn.1).callClientOrUnary fn.1 [] = (live', e) := Option.some.inj hstep
    have hd : (spawn msg .dispatch).step registry .start = some (live'.asDispatch, e) := by
      refine congrArg some ((startDispatch_eq hl).trans ?_)
      rw [hx]
      exact twin_of_ne_crash hcrash
    refine ⟨[.start], _, run_singleton (calm_eq_some.2 ⟨e, hd, hcrash, hrec⟩), rfl, ?_⟩
    have hstays : (atSelect msg fn.1).Stays (live', e) := hx ▸ (callClientOrUnary_settles ..).stays
    exact of_stays rfl rfl hstays hcrash
  | past hk hpast hf =>
    have hd : live.asDispatch.step registry l = some (live'.asDispatch, e) := by
      rw [step_twin hk hpast hf, hstep]
      exact congrArg some (twin_of_ne_crash hcrash)
    refine ⟨[l], _, run_singleton (calm_eq_some.2 ⟨e, hd, hcrash, hrec⟩), List.append_nil _, ?_⟩
    exact of_stays hk hf (step_stays hpast hf hstep) hcrash

/-- What `dispatch` does without a panic, `dispatchClientOrUnary` does. -/
theorem back {disp' : Routine R} (h : Twins registry msg live disp)
    (hs : disp.calm registry l = some disp') :
    ∃ ls live', run (calm registry) live ls = some live' ∧
      ls.flatMap answer = l.answer ∧ Twins registry msg live' disp' := by
  obtain ⟨e, hstep, hcrash, hrec⟩ := calm_eq_some.1 hs
  -- `dispatch` calls the function where the other one is at the `select`
  have hcall : ∀ {fn : Exported R}, registry.lookup msg.func = some fn →
      (spawn msg .dispatch).step registry .start = some (disp', e) →
      ∃ live', (atSelect msg fn.1).calm registry .timeout = some live' ∧
        Twins registry msg live' disp' := by
    intro fn hl hstep
    have hx := (startDispatch_eq hl).symm.trans (Option.some.inj hstep)
    have hne := ne_crash_of_twin hx hrec
    rw [twin_of_ne_crash hne] at hx
    obtain ⟨rfl, rfl⟩ := Prod.mk.inj hx
    have hstays := ((atSelect msg fn.1).callClientOrUnary_settles fn.1 []).stays
    exact ⟨_, calm_eq_some.2 ⟨_, rfl, hne, hrec⟩, of_stays rfl rfl hstays hne⟩
  cases h with
  | start =>
    obtain rfl := spawn_step hstep
    cases hl : registry.lookup msg.func with
    | none =>
      rw [start_missing (.inl rfl) hl] at hstep
      cases hstep
      have hd := calm_eq_some.2 ⟨.quiet, start_missing (.inr rfl) hl, hcrash, rfl⟩
      exact ⟨[.start], _, run_singleton hd, rfl, .past rfl trivial rfl⟩
    | some fn =>
      obtain ⟨live', hlive, htwins⟩ := hcall hl hstep
      have hd := calm_eq_some.2 ⟨.quiet, start_found hl, nofun, rfl⟩
      refine ⟨[.start, .timeout], live', ?_, rfl, htwins⟩
      rw [run, hd]
      exact run_singleton hlive
  | @detect fn hl =>
    obtain rfl := spawn_step hstep
    obtain ⟨live', hlive, htwins⟩ := hcall hl hstep
    exact ⟨[.timeout], live', run_singleton hlive, rfl, htwins⟩
  | past hk hpast hf =>
    rw [step_twin hk hpast hf] at hstep
    obtain ⟨x, hx, htwin⟩ := Option.map_eq_some_iff.1 hstep
    have hne := ne_crash_of_twin htwin hrec
    rw [twin_of_ne_crash hne] at htwin
    obtain ⟨rfl, rfl⟩ := Prod.mk.inj htwin
    refine ⟨[l], x.1, run_singleton (calm_eq_some.2 ⟨x.2, hx, hne, hrec⟩), List.append_nil _, ?_⟩
    exact of_stays hk hf (step_stays hpast hf hx) hne

end Twins

/-- **As long as nothing panics, the two functions write the same frames**: for the same answers of
the function, its output channel and the connection, either of them gets as far as the other and has
written what the other has. -/
theorem dispatchClientOrUnary_agrees (registry : Registry R) (msg : WireMessage) :
    (∀ ls r, run (calm registry) (.spawn msg .clientOrUnary) ls = some r →
      ∃ ls' r', run (calm registry) (.spawn msg .dispatch) ls' = some r' ∧
        ls'.flatMap answer = ls.flatMap answer ∧
        r'.out = r.out ∧ (r'.Over ↔ r.Over)) ∧
    ∀ ls r, run (calm registry) (.spawn msg .dispatch) ls = some r →
      ∃ ls' r', run (calm registry) (.spawn msg .clientOrUnary) ls' = some r' ∧
        ls'.flatMap answer = ls.flatMap answer ∧
        r'.out = r.out ∧ (r'.Over ↔ r.Over) := by
  constructor
  · intro ls r hrun
    obtain ⟨ls', r', hrun', hans, htwins⟩ :=
      run_simulation (Twins registry msg) (fun _ _ _ _ h hs => h.forth hs) ls _ r _ .start hrun
    exact ⟨ls', r', hrun', hans, htwins.out_eq, htwins.over_iff⟩
  · intro ls r hrun
    obtain ⟨ls', r', hrun', hans, htwins⟩ :=
      run_simulation (fun disp live => Twins registry msg live disp)
        (fun _ _ _ _ h hs => h.back hs) ls _ r _ .start hrun
    exact ⟨ls', r', hrun', hans, htwins.out_eq.symm, htwins.over_iff.symm⟩

theorem dispatchClientOrUnary_agrees_void :
    ∃ ls' r', run (calm voidRegistry) (.spawn (request 1 "f" []) .dispatch) ls' = some r' ∧
      ls'.flatMap answer = [.returned [], .write true] ∧
      r'.out = [response 1 .nil] ∧ r'.Over := by
  obtain ⟨ls', r', hrun, hans, hout, hover⟩ :=
    (dispatchClientOrUnary_agrees voidRegistry (request 1 "f" [])).1
      [.start, .timeout, .returned [], .write true] _ rfl
  exact ⟨ls', r', hrun, hans, hout, hover.2 trivial⟩

/-- **A function that panics takes the server down**: its request is not answered, where `dispatch`
answers it with a `PanicError`. -/
theorem panic_crashes :
    (∃ c, run step (.init voidRegistry)
      [.frame (request 1 "f" []), .routine 0 .start, .routine 0 .timeout, .routine 0 .panicked] =
        some c ∧ c.crashed = true ∧ c.wire = []) ∧
    ∃ r, run (alone voidRegistry) (.spawn (request 1 "f" []) .dispatch)
      [.start, .panicked, .write true] = some r ∧
        r.out = [errorMessage 1 "PanicError" "function panicked"] :=
  ⟨⟨_, rfl, rfl, rfl⟩, _, rfl, rfl⟩

end Callwire.Go.Server
