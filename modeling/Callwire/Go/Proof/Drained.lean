import Callwire.Go.Proof.CallView
import Callwire.Go.Proof.Library

/-!
# The calls that the Go read loop leaves behind

`drainPending` sends a message to every registered call when a read fails. The other ends of the
read loop do not drain: a `Close` that the loop sees at its top, or while it redials, leaves the
registered calls without a message (`loop_leavesWaiting`). They are all told when `Close` comes
during a read and no call is registered after it (`loop_leavesNone`).
-/

namespace Callwire.Go

open Lib

/-- Every registered call has been sent a message, but for those that came after the read loop had
returned. -/
def Client.Told (c : Client) : Prop :=
  ∀ id i call, c.pending.lookup id = some i → c.calls[i]? = some call → call.late = false →
    call.got ≠ []

/-- **The read loop leaves no call waiting.** -/
def Client.LeavesNone (c : Client) : Prop := c.loop = .returned → c.Told

/-- A drain is still to come. -/
def LoopPc.Drains : LoopPc → Prop
  | .reading _ | .draining | .drainSend _ _ => True
  | _ => False

/-- `Close` comes during a read or a drain, and the read does not return a frame any more; or there
is nobody to tell. -/
def ClosedInRead (c : Client) : Label → Prop
  | .close => c.loop.Drains ∨ c.Told
  | .loop (.frame _) | .loop .badFrame => c.closed = true → c.Told
  | _ => True

/-- No call is registered between the last drain of the read loop and its end. -/
def RegisteredInTime (reconnect : Bool) (c : Client) : Label → Prop
  | .call _ .register => c.loop = .returned ∨ c.loop.Drains ∨
      (c.closed = false ∧ (reconnect = false → c.loop ≠ .drained))
  | _ => True

/-! ## What has been told stays told -/

section
variable {m : Msgpack} {reconnect : Bool} {c c' : Client} {l : Label}

/-- The call has been sent a message if it is registered and the read loop still runs. -/
def CallView.Told (a : CallView) : Prop :=
  a.registered = true → a.call.late = false → a.call.got ≠ []

theorem CallEvent.told {v : View} {i : Nat} {a a' : CallView} (he : CallEvent m v i a l a')
    (h : a.Told) (hl : l ≠ .call i .register) : a'.Told := by
  intro hr' hlate
  cases he with
  | still hr => exact h (hr hr') hlate
  | frame => exact h hr' hlate
  | register => exact absurd rfl hl
  | @move cl call' e r _ hm hr =>
    have hgot : call'.got = a.call.got := congrArg Fixed.got hm.fixed
    have hlate' : call'.late = a.call.late := congrArg Fixed.late hm.fixed
    exact hgot ▸ h (hr hr') (hlate'.symm.trans hlate)
  | chunk => exact h hr' hlate
  | final => cases hr'
  | sent | drained => exact List.concat_ne_nil _ _

/-- Only a registration can leave a registered call without a message. -/
theorem Client.Told.move (ht : c.Told) (h : Linked c) (hmove : Move m reconnect c l c')
    (hl : ∀ i, l ≠ .call i .register) : c'.Told := by
  intro id i call' hl' hcall' hlate
  obtain ⟨call₁, hcall₁, hid⟩ := (h.step hmove).pending id i hl'
  obtain rfl : call' = call₁ := Option.mem_unique hcall' hcall₁
  have hr' : c'.registered i call' = true := decide_eq_true (hid ▸ hl')
  obtain ⟨-, kind, id', payload, hview⟩ | ⟨call, hcall, he⟩ := h.event hmove hcall'
  · have hnew : c'.registered i call' = false := congrArg CallView.registered hview
    cases hr'.symm.trans hnew
  · have ha : (c.callView i call).Told := fun hr =>
      ht call.id i call (Client.registered_true hr) hcall
    exact he.told ha (hl i) hr' hlate

/-- A call that is registered after the end of the read loop does not count. -/
theorem Client.Told.register (ht : c.Told) {j : Nat} {a : Call} (ha : c.calls[j]? = some a)
    (hret : c.loop = .returned) : Client.Told
      { c with
        pending := c.pending.insert a.id j
        calls := c.calls.set j { a with
          pc := .registered, since := c.handled.length, late := c.loopReturned } } := by
  intro id i call hl hcall hlate
  rcases set_cases ha hcall with ⟨-, rfl⟩ | ⟨hij, hcall⟩
  · dsimp only [Client.loopReturned] at hlate
    rw [hret] at hlate
    cases hlate
  · rcases lookup_insert_cases hl with ⟨-, rfl⟩ | ⟨-, hl⟩
    · exact absurd rfl hij
    · exact ht id i call hl hcall hlate

end

/-! ## The invariant -/

/-- The read loop is neither behind a drain nor at its end. -/
def LoopPc.Runs : LoopPc → Prop
  | .drained | .dialling | .dialled _ | .returned => False
  | _ => True

/-- What holds on the way to the end of the read loop. -/
structure Draining (reconnect : Bool) (c : Client) : Prop where
  linked : Linked c
  conn : c.closed = false → c.conn ≠ none
  redials : c.loop = .dialling ∨ (∃ conn, c.loop = .dialled conn) → reconnect = true
  closed : c.closed = true → c.loop.Drains ∨ c.Told
  drained : reconnect = false → c.loop = .drained → c.Told
  returned : c.LeavesNone

namespace Draining
variable {m : Msgpack} {reconnect : Bool} {c c' : Client} {l : Label}

theorem init : Draining reconnect .init where
  linked := .init
  conn := fun _ => nofun
  redials := fun h => nomatch h
  closed := fun h => nomatch h
  drained := fun _ h => nomatch h
  returned := fun h => nomatch h

/-- The read loop stays where it is, and the client as open as it is. -/
theorem stays (h : Draining reconnect c) (hlinked : Linked c') (htold : c.Told → c'.Told)
    (hconn : c'.conn = c.conn) (hclosed : c'.closed = c.closed) (hloop : c'.loop = c.loop) :
    Draining reconnect c' := by
  refine ⟨hlinked, ?_, ?_, fun hc => ?_, fun hr hd => ?_, fun hret => ?_⟩
  · rw [hclosed, hconn]
    exact h.conn
  · rw [hloop]
    exact h.redials
  · rw [hloop]
    exact (h.closed (hclosed.symm.trans hc)).imp_right htold
  · exact htold (h.drained hr (hloop.symm.trans hd))
  · exact htold (h.returned (hloop.symm.trans hret))

theorem goesOn (hlinked : Linked c') (hconn : c'.closed = false → c'.conn ≠ none)
    (hruns : c'.loop.Runs) (hclosed : c'.closed = true → c'.loop.Drains ∨ c'.Told) :
    Draining reconnect c' := by
  have hne : ∀ {pc : LoopPc}, ¬ pc.Runs → c'.loop ≠ pc := fun hpc h => hpc (h ▸ hruns)
  refine ⟨hlinked, hconn, fun h => ?_, hclosed, fun _ h => absurd h (hne not_false),
    fun h => absurd h (hne not_false)⟩
  obtain h | ⟨conn, h⟩ := h
  · exact absurd h (hne not_false)
  · exact absurd h (hne not_false)

theorem done (hlinked : Linked c') (hconn : c'.closed = false → c'.conn ≠ none)
    (hredials : c'.loop = .dialling ∨ (∃ conn, c'.loop = .dialled conn) → reconnect = true)
    (ht : c'.Told) : Draining reconnect c' where
  linked := hlinked
  conn := hconn
  redials := hredials
  closed := fun _ => .inr ht
  drained := fun _ _ => ht
  returned := fun _ => ht

theorem register (h : Draining reconnect c) {j : Nat} {a : Call} (ha : c.calls[j]? = some a)
    (hok : c.loop = .returned ∨ c.loop.Drains ∨
      (c.closed = false ∧ (reconnect = false → c.loop ≠ .drained)))
    (hlinked : Linked
      { c with
        pending := c.pending.insert a.id j
        calls := c.calls.set j { a with
          pc := .registered, since := c.handled.length, late := c.loopReturned } }) :
    Draining reconnect
      { c with
        pending := c.pending.insert a.id j
        calls := c.calls.set j { a with
          pc := .registered, since := c.handled.length, late := c.loopReturned } } := by
  refine ⟨hlinked, h.conn, h.redials, fun hc => ?_, fun hr hd => ?_,
    fun hret => (h.returned hret).register ha hret⟩
  · rcases hok with hret | hdrains | ⟨hopen, -⟩
    · exact .inr ((h.returned hret).register ha hret)
    · exact .inl hdrains
    · cases hopen.symm.trans hc
  · rcases hok with hret | hdrains | ⟨-, hnd⟩
    · cases hret.symm.trans hd
    · rw [hd] at hdrains
      cases hdrains
    · exact absurd hd (hnd hr)

theorem step (h : Draining reconnect c)
    (hok : ClosedInRead c l ∧ RegisteredInTime reconnect c l)
    (hstep : step m reconnect c l = some c') : Draining reconnect c' := by
  obtain ⟨hread, hreg⟩ := hok
  have hmove := step_move hstep
  have hlinked := h.linked.step hmove
  have htold : (∀ i, l ≠ .call i .register) → c.Told → c'.Told :=
    fun hl ht => ht.move h.linked hmove hl
  -- at a place from which no drain comes any more, a closed client has told everybody
  have hplace : ∀ {pc : LoopPc}, c.loop = pc → ¬ pc.Drains → c.closed = true → c.Told :=
    fun he hpc hc => (h.closed hc).resolve_left (he ▸ hpc)
  cases hmove with
  | start => exact h.stays hlinked (htold (by simp)) rfl rfl rfl
  | quiet ha hm | write ha hm | crash ha hm =>
    refine h.stays hlinked (htold fun i hl => ?_) rfl rfl rfl
    cases hl
    cases hm
  | register ha => exact h.register ha hreg hlinked
  | unregister => exact h.stays hlinked (htold (by simp)) rfl rfl rfl
  | close =>
    exact ⟨hlinked, (fun hc => by cases hc), h.redials, fun _ => hread, h.drained, h.returned⟩
  | closeConn => exact h.stays hlinked (htold (by simp)) rfl rfl rfl
  | leave hloop hu =>
    refine done hlinked h.conn (by simp) (htold (by simp) (hplace hloop not_false ?_))
    by_contra hc
    have hc := Bool.eq_false_iff.2 hc
    obtain ⟨conn, hconn⟩ := Option.ne_none_iff_exists'.1 (h.conn hc)
    rw [Client.view, View.usable, hc, hconn] at hu
    cases hu
  | read | readError | drainSent | drain =>
    exact goesOn hlinked h.conn trivial fun _ => .inl trivial
  | ignored | chunk | final | badFrame =>
    exact goesOn hlinked h.conn trivial fun hc => .inr (htold (by simp) (hread hc))
  | sent hloop =>
    exact goesOn hlinked h.conn trivial fun hc => .inr (htold (by simp) (hplace hloop not_false hc))
  | drainEnd hloop hp =>
    refine done hlinked h.conn (by simp) fun id i call hl => ?_
    rw [hp] at hl
    cases hl
  | giveUp hloop hend =>
    refine done hlinked h.conn (by simp) (htold (by simp) ?_)
    obtain hr | hc := hend
    · exact h.drained hr hloop
    · exact hplace hloop not_false hc
  | redial hloop hr hc =>
    exact ⟨hlinked, h.conn, fun _ => hr, by simp [hc], by simp,
      fun hr => by cases hr⟩
  | dialFailed hloop =>
    have hr := h.redials (.inl hloop)
    exact ⟨hlinked, h.conn, by simp, fun hc => .inr (htold (by simp) (hplace hloop not_false hc)),
      by simp [hr], fun hr => by cases hr⟩
  | dialled hloop =>
    exact ⟨hlinked, h.conn, fun _ => h.redials (.inl hloop),
      fun hc => .inr (htold (by simp) (hplace hloop not_false hc)), by simp,
      fun hr => by cases hr⟩
  | discard hloop hc =>
    exact done hlinked h.conn (by simp) (htold (by simp) (hplace hloop not_false hc))
  | install hloop hc =>
    exact goesOn hlinked (by simp) trivial (by simp [hc])

end Draining

/-- **A read loop that returns leaves no call waiting**, if `Close` comes during a read and no call
is registered between the last drain and the end of the loop. -/
theorem loop_leavesNone {m : Msgpack} {reconnect : Bool} {ls : List Label} {c : Client}
    (hok : Along (step m reconnect)
      (fun c l => ClosedInRead c l ∧ RegisteredInTime reconnect c l) .init ls)
    (hrun : run (step m reconnect) .init ls = some c) : c.LeavesNone := by
  have h : Draining reconnect c :=
    run_invariant (fun _ _ _ hi hp hs => hi.step hp hs) .init hok hrun
  exact h.returned

def importLabels : List Label :=
  [.start .importUnary "f" [], .call 0 .register, .call 0 (.prepare true), .call 0 (.write true)]

/-- **A `Close` between two reads leaves the `Import` waiting.** -/
theorem loop_leavesWaiting : ∃ c, run (step msgpack false) .init
    (importLabels ++ [.close, .loop .head]) = some c ∧ ¬ c.LeavesNone :=
  ⟨_, rfl, fun h => h rfl 1 0 _ rfl rfl rfl rfl⟩

theorem loop_leavesNone_read : ∃ c, run (step msgpack false) .init
    (importLabels ++ [.loop .head, .close, .loop .readError, .loop (.drain 1), .loop .send,
      .loop .drainEnd, .loop .redial]) = some c ∧ c.loop = .returned ∧ c.LeavesNone := by
  have hok : Along (step msgpack false)
      (fun c l => ClosedInRead c l ∧ RegisteredInTime false c l) .init
      (importLabels ++ [.loop .head, .close, .loop .readError, .loop (.drain 1), .loop .send,
        .loop .drainEnd, .loop .redial]) := by
    refine .cons ⟨trivial, trivial⟩ rfl (.cons ⟨trivial, .inr (.inr ⟨rfl, nofun⟩)⟩ rfl
      (.cons ⟨trivial, trivial⟩ rfl (.cons ⟨trivial, trivial⟩ rfl (.cons ⟨trivial, trivial⟩ rfl
        (.cons ⟨.inl trivial, trivial⟩ rfl (.of_labels ?_ _))))))
    simp [ClosedInRead, RegisteredInTime]
  exact ⟨_, rfl, rfl, loop_leavesNone hok rfl⟩

end Callwire.Go
