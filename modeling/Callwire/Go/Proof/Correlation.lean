import Callwire.Go.Proof.CallView

/-!
# The reply of an `Import`

A frame goes to the call that the map leads to, so that an `Import` returns with the first frame
with its id that the read loop has handled since it was registered (`FirstFrame`), if it returns
with a frame at all (`Traced.reply`). No frame goes to two calls (`Correlated.unique`), also if two
calls have the same id.
-/

namespace Callwire.Go

open Lib List

/-! ## First frames -/

/-- Frame `k` is the first one with the id of the call among those handled since the call was
registered. -/
structure FirstFrame (handled : List WireMessage) (call : Call) (k : Nat) (msg : WireMessage) :
    Prop where
  since : call.since ≤ k
  frame : handled[k]? = some msg
  id : msg.id = call.id
  first : ∀ (j : Nat) (msg' : WireMessage), call.since ≤ j → j < k → handled[j]? = some msg' →
    msg'.id ≠ call.id

def Unanswered (handled : List WireMessage) (call : Call) : Prop :=
  ∀ (j : Nat) (msg : WireMessage), call.since ≤ j → handled[j]? = some msg → msg.id ≠ call.id

section
variable {handled : List WireMessage} {call call' : Call} {k : Nat} {msg : WireMessage}

namespace FirstFrame

theorem append (h : FirstFrame handled call k msg) (new : WireMessage) :
    FirstFrame (handled ++ [new]) call k msg := by
  have hk := lt_of_some h.frame
  refine ⟨h.since, (getElem?_append_left hk).trans h.frame, h.id, fun j msg' hj hlt hm => ?_⟩
  rw [getElem?_append_left (Nat.lt_trans hlt hk)] at hm
  exact h.first j msg' hj hlt hm

theorem congr (h : FirstFrame handled call k msg) (hsince : call'.since = call.since)
    (hid : call'.id = call.id) : FirstFrame handled call' k msg := by
  refine ⟨hsince.trans_le h.since, h.frame, h.id.trans hid.symm, ?_⟩
  rw [hsince, hid]
  exact h.first

end FirstFrame

namespace Unanswered

theorem append (h : Unanswered handled call) {new : WireMessage} (hid : new.id ≠ call.id) :
    Unanswered (handled ++ [new]) call := by
  intro j msg hj hm
  rcases concat_cases hm with hm | ⟨-, rfl⟩
  · exact h j msg hj hm
  · exact hid

theorem next (h : Unanswered handled call) (hsince : call.since ≤ handled.length)
    (hid : msg.id = call.id) : FirstFrame (handled ++ [msg]) call handled.length msg := by
  refine ⟨hsince, getElem?_concat_length, hid, fun j msg' hj hlt hm => ?_⟩
  rw [getElem?_append_left hlt] at hm
  exact h j msg' hj hm

end Unanswered

end

/-! ## One call -/

namespace CallView

/-- Frame `k` has been sent to the call, or is being sent. -/
def Holds (a : CallView) (k : Nat) : Prop :=
  ∃ d, (d ∈ a.call.got ∨ a.inFlight = some d) ∧ d.frame = some k

end CallView

/-- What an `Import` has made of its channel. -/
def Call.Answered (c : Call) : Prop :=
  match c.pc with
  | .allocated | .registered | .writing _ | .waiting => c.taken = 0
  | .returned (.reply msg) => ∃ d, c.got.head? = some d ∧ d.msg = msg
  | .returned .encodeFailed | .returned .connectionClosed | .returned .writeFailed
  | .returned .contextDone => True
  | .returned .decodeFailed | .returned .abandoned => False
  | .opened | .delivering _ | .exiting _ => False

/-- What the first message for a call is. -/
structure Traced (a : CallView) : Prop where
  since : a.call.since ≤ a.handled.length
  allocated : a.call.pc = .allocated →
    a.call.got = [] ∧ a.registered = false ∧ a.inFlight = none
  unanswered : a.registered = true → a.inFlight = none → a.call.got = [] →
    Unanswered a.handled a.call
  inFlight : ∀ d, a.inFlight = some d → a.call.got = [] →
    ∃ k, d.frame = some k ∧ FirstFrame a.handled a.call k d.msg
  head : ∀ d, a.call.got.head? = some d → d.msg = connectionLost a.call.id ∨
    ∃ k, d.frame = some k ∧ FirstFrame a.handled a.call k d.msg
  held : ∀ k, a.Holds k → k < a.handled.length
  answered : a.call.kind = .importUnary → a.call.Answered

namespace Call
variable {m : Msgpack} {v : View} {c c' : Call} {l : CallLabel} {e : Effect}

/-- **An `Import` returns with the first message of its channel.** -/
theorem Answered.move (h : c.Answered) (hk : c.kind = .importUnary) (hm : CallMove m v c l c' e) :
    c'.Answered := by
  cases hm with
  | register hpc | prepared hpc | requested hpc =>
    rw [Answered, hpc] at h
    exact h
  | encodeFailed | disconnected | writeFailed =>
    rw [Answered, fail_pc]
    trivial
  | reply hd _ hpc =>
    rw [Answered, hpc] at h
    rw [h] at hd
    exact ⟨_, head?_eq_getElem?.trans hd, rfl⟩
  | expired => trivial
  | unrequested _ hs | handedOver _ hs =>
    rw [hk] at hs
    cases hs
  | item _ hk' | undecoded _ hk' | ended _ hk' | skipped _ hk' | recv _ hk' | recvEnd _ hk'
  | recvEndTwice _ hk' | expiredStream hk' | closeTwice _ hk' | terminatedExport _ _ hk'
  | terminateFailed _ _ hk' => cases hk.symm.trans hk'
  -- an `Import` has neither a consumer nor a stream
  | deliver hpc | cleanup hpc | send hpc | closeSend hpc | closeAgain hpc | abandon hpc =>
    rw [Answered, hpc] at h
    cases h
  | takeResult | terminateNil | terminated | take | takeEnd | chunkNil | chunk => exact h

theorem Answered.sent (d : Delivery) : c.Answered → { c with got := c.got ++ [d] }.Answered := by
  unfold Answered
  dsimp only
  cases c.pc with
  | returned o =>
    cases o with
    | reply msg =>
      intro ⟨d', hd', hmsg⟩
      exact ⟨d', by rw [head?_append, hd', Option.some_or], hmsg⟩
    | _ => exact fun h => h
  | _ => exact fun h => h

theorem allocated_move (hm : CallMove m v c l c' e) (h : c'.pc = .allocated) :
    c.pc = .allocated := by
  cases hm with
  | encodeFailed | disconnected | writeFailed =>
    cases (fail_pc c _).symm.trans h
  | takeResult | send | closeSend | closeTwice | closeAgain | terminateNil | terminated | take
  | takeEnd | chunkNil | chunk | skipped | recv | recvEnd | recvEndTwice => exact h
  | _ => cases h

theorem returned_move {o : Outcome} (hpc : c.pc = .returned o) (hk : c.kind = .importUnary)
    (hm : CallMove m v c l c' e) : c'.pc = .returned o := by
  cases hm with
  | register h | encodeFailed h | disconnected h | prepared h | unrequested h | requested h
  | writeFailed h | handedOver h | reply _ _ h | item _ _ h | undecoded _ _ h | ended _ _ h
  | recv _ _ h | recvEnd _ _ h | expired _ h | deliver h | cleanup h | abandon h =>
    cases hpc.symm.trans h
  | expiredStream h | terminatedExport _ _ h | terminateFailed _ _ h => cases hk.symm.trans h
  | _ => exact hpc

end Call

namespace Traced
variable {m : Msgpack} {v : View} {i : Nat} {a a' : CallView} {l : Label}

theorem start (handled : List WireMessage) (kind : Kind) (id : BitVec 64) (payload : WireMessage) :
    Traced ⟨handled, false, none, .start kind id payload⟩ where
  since := Nat.zero_le _
  allocated := fun _ => ⟨rfl, rfl, rfl⟩
  unanswered := fun h => nomatch h
  inFlight := fun _ h => nomatch h
  head := fun _ h => nomatch h
  held := by
    rintro k ⟨d, hd | hd, -⟩
    · cases hd
    · cases hd
  answered := fun _ => rfl

theorem arrives (h : Traced a) {msg : WireMessage} (hr : a.registered = true)
    (hf : a.inFlight = none) (hid : msg.id = a.call.id) (r : Bool) :
    Traced
      { a with
        handled := a.handled ++ [msg]
        registered := r
        inFlight := some ⟨msg, some a.handled.length⟩ } where
  since := by
    rw [length_append]
    exact Nat.le_add_right_of_le h.since
  allocated := fun hpc => nomatch hr.symm.trans (h.allocated hpc).2.1
  unanswered := fun _ h => nomatch h
  inFlight := by
    intro d hd hgot
    cases hd
    exact ⟨_, rfl, (h.unanswered hr hf hgot).next h.since hid⟩
  head := by
    intro d hd
    obtain hlost | ⟨k, hk, hfirst⟩ := h.head d hd
    · exact .inl hlost
    · exact .inr ⟨k, hk, hfirst.append msg⟩
  held := by
    rintro k ⟨d, hd, hk⟩
    rw [length_append]
    rcases hd with hd | hd
    · exact Nat.lt_succ_of_lt (h.held k ⟨d, .inl hd, hk⟩)
    · cases hd
      cases hk
      exact Nat.lt_succ_self _
  answered := h.answered

theorem delivered (h : Traced a) {d : Delivery} (hpc : a.call.pc ≠ .allocated)
    (hhead : a.call.got = [] → d.msg = connectionLost a.call.id ∨
      ∃ k, d.frame = some k ∧ FirstFrame a.handled a.call k d.msg)
    (hheld : ∀ k, d.frame = some k → k < a.handled.length) (r : Bool) :
    Traced
      { a with
        registered := r
        inFlight := none
        call := { a.call with got := a.call.got ++ [d] } } where
  since := h.since
  allocated := fun h => absurd h hpc
  unanswered := fun _ _ h => absurd h (concat_ne_nil _ _)
  inFlight := fun _ h => nomatch h
  head := by
    intro d' hd'
    have hcongr : ∀ {d' : Delivery}, (d'.msg = connectionLost a.call.id ∨
        ∃ k, d'.frame = some k ∧ FirstFrame a.handled a.call k d'.msg) →
        d'.msg = connectionLost a.call.id ∨ ∃ k, d'.frame = some k ∧
          FirstFrame a.handled { a.call with got := a.call.got ++ [d] } k d'.msg := by
      rintro d' (hlost | ⟨k, hk, hfirst⟩)
      · exact .inl hlost
      · exact .inr ⟨k, hk, hfirst.congr rfl rfl⟩
    refine hcongr ?_
    dsimp only at hd'
    cases hgot : a.call.got with
    | nil =>
      rw [hgot] at hd'
      cases hd'
      exact hhead hgot
    | cons d₀ got =>
      rw [hgot] at hd'
      cases hd'
      exact h.head _ (by rw [hgot]; rfl)
  held := by
    rintro k ⟨d', hd' | hd', hk⟩
    · rcases mem_concat_cases hd' with hd' | hd'
      · exact h.held k ⟨d', .inl hd', hk⟩
      · cases hd'
        exact hheld k hk
    · cases hd'
  answered := fun hk => .sent d (h.answered hk)

/-- **Every event keeps track of the first message.** -/
theorem event (h : Traced a) (he : CallEvent m v i a l a') : Traced a' := by
  cases he with
  | still hr =>
    refine { h with allocated := fun hpc => ?_, unanswered := fun hr' => h.unanswered (hr hr') }
    obtain ⟨hgot, hreg, hfl⟩ := h.allocated hpc
    exact ⟨hgot, unregistered hr hreg, hfl⟩
  | @frame msg hid =>
    refine ⟨?_, h.allocated, fun hr hf hgot => (h.unanswered hr hf hgot).append (hid hr),
      fun d hd hgot => ?_, fun d hd => ?_, fun k hk => ?_, h.answered⟩
    · rw [length_append]
      exact Nat.le_add_right_of_le h.since
    · obtain ⟨k, hk, hfirst⟩ := h.inFlight d hd hgot
      exact ⟨k, hk, hfirst.append msg⟩
    · obtain hlost | ⟨k, hk, hfirst⟩ := h.head d hd
      · exact .inl hlost
      · exact .inr ⟨k, hk, hfirst.append msg⟩
    · rw [length_append]
      exact Nat.lt_succ_of_lt (h.held k hk)
  | register hpc =>
    obtain ⟨hgot, -, hfl⟩ := h.allocated hpc
    refine ⟨Nat.le_refl _, nofun, fun _ _ _ j msg hj hm => ?_, fun d hd => ?_, fun d hd => ?_,
      h.held, fun hk => ?_⟩
    · exact absurd (lt_of_some hm) (Nat.not_lt.2 hj)
    · cases hfl.symm.trans hd
    · dsimp only at hd
      rw [hgot] at hd
      cases hd
    · have := h.answered hk
      rw [Call.Answered, hpc] at this
      exact this
  | @move cl call' e r hl hm hr =>
    have hgot : call'.got = a.call.got := congrArg Fixed.got hm.fixed
    have hsince : call'.since = a.call.since := congrArg Fixed.since hm.fixed
    have hid : call'.id = a.call.id := congrArg Fixed.id hm.fixed
    have hkind : call'.kind = a.call.kind := congrArg Fixed.kind hm.fixed
    refine ⟨hsince.trans_le h.since, fun hpc => ?_, fun hr' hf hg => ?_, fun d hd hg => ?_,
      fun d hd => ?_, ?_, fun hk => (h.answered (hkind ▸ hk)).move (hkind ▸ hk) hm⟩
    · obtain ⟨hg, hreg, hfl⟩ := h.allocated (Call.allocated_move hm hpc)
      exact ⟨hgot.trans hg, unregistered hr hreg, hfl⟩
    · have := h.unanswered (hr hr') hf (hgot ▸ hg)
      unfold Unanswered
      rw [hsince, hid]
      exact this
    · obtain ⟨k, hk, hfirst⟩ := h.inFlight d hd (hgot ▸ hg)
      exact ⟨k, hk, hfirst.congr hsince hid⟩
    · dsimp only at hd
      rw [hgot] at hd
      dsimp only
      rw [hid]
      obtain hlost | ⟨k, hk, hfirst⟩ := h.head d hd
      · exact .inl hlost
      · exact .inr ⟨k, hk, hfirst.congr hsince hid⟩
    · rintro k ⟨d, hd, hk⟩
      dsimp only at hd
      rw [hgot] at hd
      exact h.held k ⟨d, hd, hk⟩
  | chunk hr hf hid => exact h.arrives hr hf hid a.registered
  | final hr hf hid => exact h.arrives hr hf hid false
  | @sent d hf =>
    refine h.delivered (fun hpc => ?_) (fun hgot => .inr (h.inFlight d hf hgot))
      (fun k hk => h.held k ⟨d, .inr hf, hk⟩) a.registered
    cases hf.symm.trans (h.allocated hpc).2.2
  | drained hr hf =>
    rw [hf]
    refine h.delivered (d := ⟨connectionLost a.call.id, none⟩) (fun hpc => ?_)
      (fun _ => .inl rfl) (fun k hk => nomatch hk) false
    cases hr.symm.trans (h.allocated hpc).2.1

/-- **The reply of an `Import` is the first frame with its id**, or the message of a drain. -/
theorem reply (h : Traced a) {msg : WireMessage} (hk : a.call.kind = .importUnary)
    (hpc : a.call.pc = .returned (.reply msg)) : msg = connectionLost a.call.id ∨
      ∃ d k, a.call.got.head? = some d ∧ d.frame = some k ∧
        FirstFrame a.handled a.call k msg := by
  have ha := h.answered hk
  rw [Call.Answered, hpc] at ha
  obtain ⟨d, hd, rfl⟩ := ha
  obtain hlost | ⟨k, hk, hfirst⟩ := h.head d hd
  · exact .inl hlost
  · exact .inr ⟨d, k, hd, hk, hfirst⟩

end Traced

theorem CallEvent.returned {m : Msgpack} {v : View} {i : Nat} {a a' : CallView} {l : Label}
    (he : CallEvent m v i a l a') {o : Outcome} (hk : a.call.kind = .importUnary)
    (hpc : a.call.pc = .returned o) : a'.call.pc = .returned o := by
  cases he with
  | register h => cases hpc.symm.trans h
  | move _ hm => exact Call.returned_move hpc hk hm
  | _ => exact hpc

/-! ## All calls -/

theorem CallEvent.holds {m : Msgpack} {v : View} {i k : Nat} {a a' : CallView} {l : Label}
    (he : CallEvent m v i a l a') (h : a'.Holds k) : a.Holds k ∨
      k = a.handled.length ∧ ∃ msg, l = .loop (.frame msg) ∧ a.registered = true ∧
        msg.id = a.call.id := by
  obtain ⟨d, hd, hk⟩ := h
  cases he with
  | still | frame | register => exact .inl ⟨d, hd, hk⟩
  | @move cl call' e r hl hm =>
    have hgot : call'.got = a.call.got := congrArg Fixed.got hm.fixed
    exact .inl ⟨d, hgot ▸ hd, hk⟩
  | chunk hr hf hid | final hr hf hid =>
    rcases hd with hd | hd
    · exact .inl ⟨d, .inl hd, hk⟩
    · cases hd
      cases hk
      exact .inr ⟨rfl, _, rfl, hr, hid⟩
  | sent hf =>
    rcases hd with hd | hd
    · rcases mem_concat_cases hd with hd | hd
      · exact .inl ⟨d, .inl hd, hk⟩
      · cases hd
        exact .inl ⟨d, .inr hf, hk⟩
    · cases hd
  | drained hr hf =>
    rcases hd with hd | hd
    · rcases mem_concat_cases hd with hd | hd
      · exact .inl ⟨d, .inl hd, hk⟩
      · cases hd
        cases hk
    · exact .inl ⟨d, .inr hd, hk⟩

def Client.Holds (c : Client) (i k : Nat) : Prop :=
  ∃ call, c.calls[i]? = some call ∧ (c.callView i call).Holds k

/-- **Replies are correlated with calls.** -/
structure Correlated (c : Client) : Prop where
  traced : Each Traced c
  unique : ∀ i j k, c.Holds i k → c.Holds j k → i = j

namespace Correlated
variable {m : Msgpack} {reconnect : Bool} {c c' : Client} {l : Label}

theorem init : Correlated .init where
  traced := .init
  unique := by
    intro i j k ⟨call, hcall, _⟩
    cases hcall

/-- A frame that goes to call `i` is one that had gone there, or the new one. -/
theorem holds (h : Correlated c) (hmove : Move m reconnect c l c') {i k : Nat}
    (hi : c'.Holds i k) : c.Holds i k ∧ k < c.handled.length ∨
      k = c.handled.length ∧ ∃ msg, l = .loop (.frame msg) ∧ c.pending.lookup msg.id = some i := by
  obtain ⟨call', hcall', hk⟩ := hi
  obtain ⟨-, kind, id, payload, hview⟩ | ⟨call, hcall, he⟩ := h.traced.linked.event hmove hcall'
  · rw [hview] at hk
    obtain ⟨d, hd | hd, -⟩ := hk
    · cases hd
    · cases hd
  · rcases he.holds hk with hk | ⟨hk, msg, hl, hr, hid⟩
    · exact .inl ⟨⟨call, hcall, hk⟩, (h.traced.each i call hcall).held k hk⟩
    · exact .inr ⟨hk, msg, hl, hid ▸ Client.registered_true hr⟩

theorem step (h : Correlated c) (hstep : step m reconnect c l = some c') : Correlated c' := by
  refine ⟨h.traced.step Traced.start (fun _ _ _ _ he ht => ht.event he) hstep, ?_⟩
  intro i j k hi hj
  have hmove := step_move hstep
  rcases h.holds hmove hi with ⟨hi, hlt⟩ | ⟨hk, msg, hl, hi⟩
  · rcases h.holds hmove hj with ⟨hj, -⟩ | ⟨hk, -⟩
    · exact h.unique i j k hi hj
    · omega
  · rcases h.holds hmove hj with ⟨-, hlt⟩ | ⟨-, msg', hl', hj⟩
    · omega
    · cases hl.symm.trans hl'
      exact Option.mem_unique hi hj

/-- A call of the client stays what it is, and an `Import` that has returned stays so. -/
theorem kept (h : Correlated c) (hstep : Go.step m reconnect c l = some c') {j : Nat} {imp : Call}
    (himp : c.calls[j]? = some imp) :
    ∃ imp', c'.calls[j]? = some imp' ∧ imp'.kind = imp.kind ∧ imp'.id = imp.id ∧
      imp'.payload = imp.payload ∧
      ∀ o, imp.kind = .importUnary → imp.pc = .returned o → imp'.pc = .returned o := by
  have hmove := step_move hstep
  obtain ⟨imp', himp', hkind, hid, hpayload⟩ := hmove.kept himp
  refine ⟨imp', himp', hkind, hid, hpayload, fun o hk hpc => ?_⟩
  obtain ⟨hj, -⟩ | ⟨imp₀, himp₀, he⟩ := h.traced.linked.event hmove himp'
  · rw [hj, getElem?_eq_none (Nat.le_refl _)] at himp
    cases himp
  · obtain rfl : imp = imp₀ := Option.mem_unique himp himp₀
    exact he.returned hk hpc

end Correlated

end Callwire.Go
