import Callwire.Go.Proof.CallView
import Callwire.Go.Proof.Library

/-!
# The sends of the Go read loop

The read loop sends to the channel of a pending call and waits while the channel is full. What a
channel holds, what the read loop is sending to it and, as long as its call is registered, the one
message that can still end the call are what the channel has to take (`Call.owed`). If that fits
whenever nobody receives any more (`Call.Room`), the read loop is never stuck for good
(`loop_not_stuck`). It does not fit when chunks answer a call that takes one reply
(`loop_stuck`).
-/

namespace Callwire.Go

open Lib List

/-! ## One channel -/

namespace Call

def Receiving (c : Call) : Prop :=
  match c.pc with
  | .opened | .waiting | .delivering _ => True
  | _ => False

def Gone (c : Call) : Prop :=
  match c.pc with
  | .exiting _ | .returned _ => True
  | _ => False

theorem Gone.not_receiving {c : Call} (h : c.Gone) : ¬ c.Receiving := by
  unfold Gone at h
  unfold Receiving
  split at h
  · rename_i hpc
    simp [hpc]
  · rename_i hpc
    simp [hpc]
  · cases h

/-- The messages that the channel holds, is being sent, and can still be sent without a receiver:
one, while the call is registered. -/
def owed (c : Call) (registered : Bool) (inFlight : Option Delivery) : Nat :=
  c.unread + registered.toNat + inFlight.toList.length

/-- The channel has room for what it is owed, unless a receiver is there to make room. -/
structure Room (c : Call) (registered : Bool) (inFlight : Option Delivery) : Prop where
  fresh : c.pc = .allocated → c.got = [] ∧ registered = false ∧ inFlight = none
  taken : c.taken ≤ c.got.length
  /-- the message that ends the call is the last one -/
  last : ∀ k d, c.got[k]? = some d → d.msg.type ≠ "stream_chunk" →
    k + 1 = c.got.length ∧ registered = false ∧ inFlight = none
  ending : ∀ d, inFlight = some d → d.msg.type ≠ "stream_chunk" → registered = false
  room : ¬ c.Receiving ∨ c.kind.capacity = 1 → c.owed registered inFlight ≤ c.kind.capacity

namespace Room
variable {c c' : Call} {registered : Bool} {inFlight : Option Delivery} {d : Delivery}

theorem start (kind : Kind) (id : BitVec 64) (payload : WireMessage) :
    (Call.start kind id payload).Room false none where
  fresh := fun _ => ⟨rfl, rfl, rfl⟩
  taken := Nat.le_refl _
  last := fun _ _ h => nomatch h
  ending := fun _ h => nomatch h
  room := fun _ => Nat.zero_le _

theorem mono (h : c.Room registered inFlight) {registered' : Bool}
    (hr : registered' = true → registered = true) : c.Room registered' inFlight := by
  cases registered' with
  | true =>
    rw [hr rfl] at h
    exact h
  | false =>
    refine ⟨fun hpc => ?_, h.taken, fun k d hd ht => ?_, fun _ _ _ => rfl, fun hc => ?_⟩
    · obtain ⟨hgot, -, hfl⟩ := h.fresh hpc
      exact ⟨hgot, rfl, hfl⟩
    · obtain ⟨hk, -, hfl⟩ := h.last k d hd ht
      exact ⟨hk, rfl, hfl⟩
    · have := h.room hc
      unfold owed at this ⊢
      rw [Bool.toNat_false]
      omega

theorem register (h : c.Room registered inFlight) (hpc : c.pc = .allocated) (since : Nat)
    (late : Bool) : { c with pc := .registered, since, late }.Room true inFlight := by
  obtain ⟨hgot, -, rfl⟩ := h.fresh hpc
  refine ⟨nofun, h.taken, fun k d hd _ => ?_, nofun, fun _ => ?_⟩
  · rw [hgot] at hd
    cases hd
  · have hcap : 1 ≤ c.kind.capacity := by cases c.kind <;> decide
    simpa [owed, unread, hgot] using hcap

theorem chunk (h : c.Room true none) (hd : d.msg.type = "stream_chunk") (hrecv : c.Receiving)
    (hcap : c.kind.capacity ≠ 1) : c.Room true (some d) := by
  refine ⟨fun hpc => ?_, h.taken, fun k d' hk ht => ?_, fun d' hd' ht => ?_, fun hc => ?_⟩
  · cases (h.fresh hpc).2.1
  · cases (h.last k d' hk ht).2.1
  · obtain rfl : d = d' := Option.some.inj hd'
    exact absurd hd ht
  · exact absurd hrecv (hc.resolve_right hcap)

theorem final (h : c.Room true none) (d : Delivery) : c.Room false (some d) := by
  refine ⟨fun hpc => ?_, h.taken, fun k d' hk ht => ?_, fun _ _ _ => rfl, fun hc => ?_⟩
  · cases (h.fresh hpc).2.1
  · cases (h.last k d' hk ht).2.1
  · simpa [owed] using h.room hc

theorem sent (h : c.Room registered (some d)) :
    { c with got := c.got ++ [d] }.Room registered none := by
  -- there is no final message in the channel before it
  have hnone : ∀ (k : Nat) (d' : Delivery), c.got[k]? = some d' → d'.msg.type = "stream_chunk" := by
    intro k d' hk
    by_contra ht
    cases (h.last k d' hk ht).2.2
  refine ⟨fun hpc => ?_, ?_, fun k d' hk ht => ?_, nofun, fun hc => ?_⟩
  · cases (h.fresh hpc).2.2
  · show c.taken ≤ (c.got ++ [d]).length
    have := h.taken
    rw [length_append]
    omega
  · rcases concat_cases hk with hk | ⟨rfl, rfl⟩
    · exact absurd (hnone k d' hk) ht
    · exact ⟨by rw [length_append, length_singleton], h.ending _ rfl ht, rfl⟩
  · have := h.room hc
    have := h.taken
    simp only [owed, unread, length_append, Option.toList, length_singleton,
      length_nil] at *
    omega

theorem moved (h : c.Room registered inFlight) (hkind : c'.kind = c.kind) (hgot : c'.got = c.got)
    (htaken : c'.taken = c.taken) (hfresh : c'.pc = .allocated → c.pc = .allocated)
    (hroom : c.Receiving → c'.Receiving ∨ c.kind.capacity = 1 ∨
      c.owed registered inFlight ≤ c.kind.capacity) : c'.Room registered inFlight := by
  have howed : c'.owed registered inFlight = c.owed registered inFlight := by
    rw [owed, owed, unread, unread, hgot, htaken]
  refine ⟨fun hpc => hgot ▸ h.fresh (hfresh hpc), ?_, hgot ▸ h.last, h.ending, fun hc => ?_⟩
  · rw [hgot, htaken]
    exact h.taken
  · rw [howed, hkind]
    rw [hkind] at hc
    by_cases hr : c.Receiving
    · rcases hroom hr with hr' | hcap | hle
      · exact h.room (.inr (hc.resolve_left (not_not.2 hr')))
      · exact h.room (.inr hcap)
      · exact hle
    · exact h.room (.inl hr)

theorem received (h : c.Room registered inFlight) (hd : c.got[c.taken]? = some d)
    (hkind : c'.kind = c.kind) (hgot : c'.got = c.got) (htaken : c'.taken = c.taken + 1)
    (hfresh : c'.pc ≠ .allocated)
    (hroom : ¬ c'.Receiving → c.kind.capacity ≠ 1 →
      c.owed registered inFlight ≤ c.kind.capacity + 1)
    : c'.Room registered inFlight := by
  obtain ⟨hlt, -⟩ := List.getElem?_eq_some_iff.1 hd
  have howed : c'.owed registered inFlight + 1 = c.owed registered inFlight := by
    unfold owed unread
    rw [hgot, htaken]
    omega
  refine ⟨fun hpc => absurd hpc hfresh, ?_, hgot ▸ h.last, h.ending, fun hc => ?_⟩
  · rw [hgot, htaken]
    exact hlt
  · rw [hkind] at hc ⊢
    by_cases hcap : c.kind.capacity = 1
    · have := h.room (.inr hcap)
      omega
    · have := hroom (hc.resolve_right hcap) hcap
      omega

end Room

end Call

/-! ## Moves of a call -/

/-- The receiver stops early: its context is done, a chunk does not decode, or the application does
not receive any more. -/
def CallLabel.GivesUp : CallLabel → Prop
  | .expire | .abandon => True
  | .receive decoded => decoded = false
  | _ => False

namespace Call
variable {m : Msgpack} {v : View} {c c' : Call} {l : CallLabel} {e : Effect} {registered : Bool}
  {inFlight : Option Delivery}

theorem capacity_one (h : c.kind = .importUnary ∨ c.kind = .exportStream) :
    c.kind.capacity = 1 := by
  obtain h | h := h <;> rw [h] <;> rfl

section
variable (h : c.Room registered inFlight)
include h

theorem Room.early (hpc : ¬ c.Receiving) (hfix : c'.fixed = c.fixed) (htaken : c'.taken = c.taken)
    (hfresh : c'.pc ≠ .allocated) : c'.Room registered inFlight :=
  h.moved (congrArg Fixed.kind hfix) (congrArg Fixed.got hfix) htaken
    (fun h => absurd h hfresh) fun hr => absurd hr hpc

theorem Room.fail (o : Outcome) (hpc : ¬ c.Receiving) : (c.fail o).Room registered inFlight := by
  refine h.early hpc (fixed_fail c o) ?_ ?_
  · unfold Call.fail
    split <;> rfl
  · rw [fail_pc]
    exact nofun

/-- **A call keeps its channel roomy**, if it has room when its receiver gives up. -/
theorem Room.move (hup : l.GivesUp → c.owed registered inFlight ≤ c.kind.capacity)
    (hmove : CallMove m v c l c' e) (hl : l ≠ .register) : c'.Room registered inFlight := by
  cases hmove with
  | register => exact absurd rfl hl
  | encodeFailed hpc | disconnected hpc | writeFailed hpc =>
    exact h.fail _ (by simp [Receiving, hpc])
  | prepared hpc | unrequested hpc | requested hpc | handedOver hpc | cleanup hpc =>
    exact h.early (by simp [Receiving, hpc]) rfl rfl nofun
  | reply hd hk => exact h.received hd rfl rfl rfl nofun fun _ hc => absurd (capacity_one hk) hc
  | item hd => exact h.received hd rfl rfl rfl nofun fun hr => absurd trivial hr
  | undecoded hd =>
    exact h.received hd rfl rfl rfl nofun fun _ _ => Nat.le_succ_of_le (hup rfl)
  | @ended decoded d hd hk hpc ht =>
    have hne : d.msg.type ≠ "stream_chunk" := by
      intro hchunk
      rw [hchunk] at ht
      exact absurd ht (by decide)
    obtain ⟨hlen, rfl, rfl⟩ := h.last _ _ hd hne
    refine h.received hd rfl rfl rfl nofun fun _ _ => ?_
    simp only [owed, unread, Bool.toNat_false, Option.toList, length_nil]
    omega
  | skipped hd _ hpc | recv hd _ hpc | recvEnd hd _ hpc | recvEndTwice hd _ hpc =>
    refine h.received hd rfl rfl rfl (by simp [hpc]) fun hr => absurd ?_ hr
    simp [Receiving, hpc]
  | expired hk => exact h.moved rfl rfl rfl nofun fun _ => .inr (.inl (capacity_one hk))
  | expiredStream | abandon => exact h.moved rfl rfl rfl nofun fun _ => .inr (.inr (hup trivial))
  | deliver => exact h.moved rfl rfl rfl nofun fun _ => .inl trivial
  | terminatedExport _ _ hk | terminateFailed _ _ hk =>
    exact h.moved rfl rfl rfl nofun fun _ => .inr (.inl (capacity_one (.inr hk)))
  | _ => exact { h with }

end

end Call

/-! ## The client -/

namespace Client

/-- **The read loop is stuck for good**: it sends to a full channel whose receiver has returned. -/
def Stuck (c : Client) : Prop :=
  ∃ i call, ((∃ d, c.loop = .sending i d) ∨ ∃ id, c.loop = .drainSend id i) ∧
    c.calls[i]? = some call ∧ call.kind.capacity ≤ call.unread ∧ call.Gone

end Client

/-- A chunk comes for a call that takes a stream, while its receiver is at work. -/
def ExpectedChunk (c : Client) : Label → Prop
  | .loop (.frame msg) => msg.type = "stream_chunk" → ∀ i call,
      c.pending.lookup msg.id = some i → c.calls[i]? = some call →
        (call.kind = .importStream ∨ call.kind = .importBidi) ∧ call.Receiving
  | _ => True

/-- A receiver gives up while its channel has room for what it is owed. -/
def RoomyExit (c : Client) : Label → Prop
  | .call i l => l.GivesUp → ∀ call, c.calls[i]? = some call →
      call.owed (c.registered i call) (c.inFlight i) ≤ call.kind.capacity
  | _ => True

/-- **Every event leaves a channel roomy**, if chunks are expected and receivers give up in time. -/
theorem Call.Room.event {m : Msgpack} {v : View} {i : Nat} {a a' : CallView} {l : Label}
    (h : a.call.Room a.registered a.inFlight) (he : CallEvent m v i a l a')
    (hchunk : ∀ msg, l = .loop (.frame msg) → msg.type = "stream_chunk" → msg.id = a.call.id →
      a.registered = true →
        (a.call.kind = .importStream ∨ a.call.kind = .importBidi) ∧ a.call.Receiving)
    (hexit : ∀ cl, l = .call i cl → cl.GivesUp →
      a.call.owed a.registered a.inFlight ≤ a.call.kind.capacity) :
    a'.call.Room a'.registered a'.inFlight := by
  cases he with
  | still hr => exact h.mono hr
  | frame => exact h
  | register hpc => exact h.register hpc _ _
  | move hl hm hr => exact (h.move (hexit _ rfl) hm hl).mono hr
  | chunk hr hf hid ht =>
    obtain ⟨hk, hrecv⟩ := hchunk _ rfl ht hid hr
    rw [hr, hf] at h
    refine hr.symm ▸ h.chunk ht hrecv ?_
    obtain hk | hk := hk <;> rw [hk] <;> decide
  | final hr hf =>
    rw [hr, hf] at h
    exact h.final _
  | sent hf =>
    rw [hf] at h
    exact h.sent
  | drained hr hf =>
    rw [hr, hf] at h
    exact hf.symm ▸ (h.final ⟨connectionLost a.call.id, none⟩).sent

def Unblocked : Client → Prop := Each fun a => a.call.Room a.registered a.inFlight

namespace Unblocked
variable {m : Msgpack} {reconnect : Bool} {c c' : Client}

theorem init : Unblocked .init := Each.init

theorem step {l : Label} (h : Unblocked c) (hok : ExpectedChunk c l ∧ RoomyExit c l)
    (hstep : step m reconnect c l = some c') : Unblocked c' := by
  obtain ⟨hchunk, hexit⟩ := hok
  refine Each.step h (fun _ kind id payload => .start kind id payload) ?_ hstep
  intro i call a' hcall he hroom
  refine hroom.event he ?_ ?_
  · rintro msg rfl ht hid hr
    exact hchunk ht i call (hid ▸ Client.registered_true hr) hcall
  · rintro cl rfl hup
    exact hexit hup call hcall

/-- A channel that has room for what it is owed is not full while something is owed. -/
theorem not_stuck (h : Unblocked c) : ¬ c.Stuck := by
  rintro ⟨i, call, hloop, hcall, hfull, hgone⟩
  have hroom := (h.each i call hcall).room (.inl hgone.not_receiving)
  dsimp only [Client.callView, Call.owed] at hroom
  obtain ⟨d, hloop⟩ | ⟨id, hloop⟩ := hloop
  · rw [Client.inFlight_eq hloop] at hroom
    simp only [Option.toList, length_singleton] at hroom
    omega
  · have hl := h.linked.drain id i hloop
    obtain ⟨a, ha, rfl⟩ := h.linked.pending id i hl
    obtain rfl : call = a := Option.mem_unique hcall ha
    rw [show c.registered i call = true from decide_eq_true hl, Bool.toNat_true] at hroom
    omega

end Unblocked

/-- **The read loop is never stuck for good**, if chunks come only for calls that receive them, and
a receiver that gives up leaves room in its channel. -/
theorem loop_not_stuck {m : Msgpack} {reconnect : Bool} {ls : List Label} {c : Client}
    (hok : Along (step m reconnect) (fun c l => ExpectedChunk c l ∧ RoomyExit c l) .init ls)
    (hrun : run (step m reconnect) .init ls = some c) : ¬ c.Stuck := by
  have h : Unblocked c :=
    run_invariant (fun _ _ _ hi hp hs => hi.step hp hs) .init hok hrun
  exact h.not_stuck

def callLabels (kind : Kind) : List Label :=
  [.start kind "f" [], .call 0 .register, .call 0 (.prepare true), .call 0 (.write true),
    .loop .head]

/-- **Three chunks that answer an `Import` block the read loop**: the first is its result, the
second stays in the channel. -/
theorem loop_stuck : ∃ c, run (step msgpack false) .init
    (callLabels .importUnary ++ [.loop (.frame (streamChunk 1 .nil)), .loop .send,
      .call 0 (.receive true), .loop .head, .loop (.frame (streamChunk 1 .nil)), .loop .send,
      .loop .head, .loop (.frame (streamChunk 1 .nil))]) = some c ∧ c.Stuck :=
  ⟨_, rfl, 0, _, .inl ⟨_, rfl⟩, rfl, Nat.le_refl 1, trivial⟩

theorem loop_not_stuck_stream : ∃ c, run (step msgpack false) .init
    (callLabels .importStream ++ [.loop (.frame (streamChunk 1 .nil)), .loop .send,
      .call 0 .expire]) = some c ∧ ¬ c.Stuck := by
  have hok : Along (step msgpack false) (fun c l => ExpectedChunk c l ∧ RoomyExit c l) .init
      (callLabels .importStream ++ [.loop (.frame (streamChunk 1 .nil)), .loop .send,
        .call 0 .expire]) := by
    refine .append (.of_labels ?_ _) rfl (.cons ⟨?_, trivial⟩ rfl (.cons ⟨trivial, trivial⟩ rfl
      (.cons ⟨trivial, ?_⟩ rfl trivial)))
    · simp [callLabels, ExpectedChunk, RoomyExit, CallLabel.GivesUp]
    · intro _ i call hl hcall
      cases hl
      cases hcall
      exact ⟨.inl rfl, trivial⟩
    · intro _ call hcall
      cases hcall
      decide
  exact ⟨_, rfl, loop_not_stuck hok rfl⟩

end Callwire.Go
