import Callwire.Lib.ArrayUpdate
import Callwire.Lib.AssocUpdate
import Callwire.Go.Client

/-!
# The moves of the Go client

`CallMove` lists what a call can do and `Move` what the client can do, one constructor for each
branch of the code; `Call.step_move` and `step_move` are the inversion lemmas from which the
invariants of the client are proved.
-/

namespace Callwire.Go

open Lib Call Option

/-! ## Moves of a call -/

section
variable (m : Msgpack) (v : View) (c : Call)

inductive CallMove : CallLabel → Call → Effect → Prop
  | register (hpc : c.pc = .allocated) :
      CallMove .register { c with pc := .registered } .register
  | encodeFailed (hpc : c.pc = .registered) (hk : c.kind.sends = false) :
      CallMove (.prepare false) (c.fail .encodeFailed) .quiet
  | disconnected (hpc : c.pc = .registered) (hk : c.kind.sends = false) (hu : v.usable = none) :
      CallMove (.prepare true) (c.fail .connectionClosed) .quiet
  | prepared {encoded : Bool} {conn : Nat} (hpc : c.pc = .registered)
      (hu : v.usable = some conn) :
      CallMove (.prepare encoded) { c with pc := .writing conn } .quiet
  | unrequested {encoded : Bool} (hpc : c.pc = .registered) (hk : c.kind.sends = true)
      (hu : v.usable = none) : CallMove (.prepare encoded) c.handOver .quiet
  | requested {conn : Nat} (hpc : c.pc = .writing conn) (hk : c.kind.sends = false)
      (hd : conn ∉ v.dead) :
      CallMove (.write true) { c with pc := .waiting } (.write conn c.payload)
  | writeFailed {ok : Bool} {conn : Nat} (hpc : c.pc = .writing conn)
      (hk : c.kind.sends = false) : CallMove (.write ok) (c.fail .writeFailed) .quiet
  | handedOver {ok : Bool} {conn : Nat} (hpc : c.pc = .writing conn) (hk : c.kind.sends = true) :
      CallMove (.write ok) c.handOver (v.write conn c.payload ok).2
  | reply {decoded : Bool} {d : Delivery} (hd : c.got[c.taken]? = some d)
      (hk : c.kind = .importUnary ∨ c.kind = .exportStream) (hpc : c.pc = .waiting) :
      CallMove (.receive decoded)
        { c with taken := c.taken + 1, pc := .returned (.reply d.msg) } .quiet
  | item {d : Delivery} (hd : c.got[c.taken]? = some d) (hk : c.kind = .importStream)
      (hpc : c.pc = .waiting) (ht : d.msg.type = "stream_chunk") :
      CallMove (.receive true) { c with taken := c.taken + 1, pc := .delivering d.msg } .quiet
  | undecoded {d : Delivery} (hd : c.got[c.taken]? = some d) (hk : c.kind = .importStream)
      (hpc : c.pc = .waiting) (ht : d.msg.type = "stream_chunk") :
      CallMove (.receive false) ({ c with taken := c.taken + 1 }.exit .decodeFailed) .quiet
  | ended {decoded : Bool} {d : Delivery} (hd : c.got[c.taken]? = some d)
      (hk : c.kind = .importStream) (hpc : c.pc = .waiting)
      (ht : d.msg.type = "stream_end" ∨ d.msg.type = "error") :
      CallMove (.receive decoded) ({ c with taken := c.taken + 1 }.exit (.reply d.msg)) .quiet
  | skipped {decoded : Bool} {d : Delivery} (hd : c.got[c.taken]? = some d)
      (hk : c.kind = .importStream) (hpc : c.pc = .waiting)
      (ht : d.msg.type ≠ "stream_chunk") :
      CallMove (.receive decoded) { c with taken := c.taken + 1 } .quiet
  | recv {decoded : Bool} {d : Delivery} (hd : c.got[c.taken]? = some d)
      (hk : c.kind = .importBidi) (hpc : c.pc = .opened) (ht : d.msg.type ≠ "stream_end") :
      CallMove (.receive decoded) { c with taken := c.taken + 1 } .quiet
  | recvEnd {decoded : Bool} {d : Delivery} (hd : c.got[c.taken]? = some d)
      (hk : c.kind = .importBidi) (hpc : c.pc = .opened) (ht : d.msg.type = "stream_end")
      (hs : c.serverEnd = false) :
      CallMove (.receive decoded) { c with taken := c.taken + 1, serverEnd := true } .quiet
  | recvEndTwice {decoded : Bool} {d : Delivery} (hd : c.got[c.taken]? = some d)
      (hk : c.kind = .importBidi) (hpc : c.pc = .opened) (ht : d.msg.type = "stream_end")
      (hs : c.serverEnd = true) :
      CallMove (.receive decoded) { c with taken := c.taken + 1 } .crash
  | expired (hk : c.kind = .importUnary ∨ c.kind = .exportStream) (hpc : c.pc = .waiting) :
      CallMove .expire { c with pc := .returned .contextDone } .quiet
  | expiredStream (hk : c.kind = .importStream)
      (hpc : c.pc = .waiting ∨ ∃ msg, c.pc = .delivering msg) :
      CallMove .expire (c.exit .contextDone) .quiet
  | deliver {msg : WireMessage} (hpc : c.pc = .delivering msg)
      (hr : c.results.length - c.resultsTaken < streamCapacity) :
      CallMove .deliver { c with pc := .waiting, results := c.results ++ [msg] } .quiet
  | takeResult (hr : c.resultsTaken < c.results.length) :
      CallMove .takeResult { c with resultsTaken := c.resultsTaken + 1 } .quiet
  | cleanup {o : Outcome} (hpc : c.pc = .exiting o) :
      CallMove .cleanup { c with pc := .returned o } .unregister
  | send {w : Value} (hpc : c.pc = .opened) (hk : c.kind.sends = true) (hc : c.closed = false)
      (hq : c.queue.length < streamCapacity) :
      CallMove (.send w)
        { c with queue := c.queue ++ [c.kind.enqueue m w], sent := c.sent ++ [w] } .quiet
  | closeSend (hpc : c.pc = .opened)
      (hk : c.kind = .exportStream ∧ c.terminating = false ∨
        c.kind = .importBidi ∧ c.closed = false) :
      CallMove .closeSend { c with closed := true, terminating := true } .quiet
  | closeTwice {o : Outcome} (hpc : c.pc = .returned o) (hk : c.kind = .exportStream) :
      CallMove .closeSend c .crash
  | closeAgain (hpc : c.pc = .opened) (hk : c.kind = .importBidi) (hc : c.closed = true) :
      CallMove .closeSend c .quiet
  | terminateNil {ok : Bool} (ht : c.terminating = true) (hv : v.conn = none) :
      CallMove (.terminate ok) c .crash
  | terminated {ok : Bool} {conn : Nat} (ht : c.terminating = true) (hv : v.conn = some conn)
      (hk : c.kind ≠ .exportStream) :
      CallMove (.terminate ok) { c with terminating := false }
        (v.write conn (c.kind.terminator c.id) ok).2
  | terminatedExport {conn : Nat} (ht : c.terminating = true) (hv : v.conn = some conn)
      (hk : c.kind = .exportStream) (hd : conn ∉ v.dead) :
      CallMove (.terminate true) { c with terminating := false, pc := .waiting }
        (.write conn (c.kind.terminator c.id))
  | terminateFailed {ok : Bool} {conn : Nat} (ht : c.terminating = true)
      (hv : v.conn = some conn) (hk : c.kind = .exportStream)
      (hok : ok = false ∨ conn ∈ v.dead) :
      CallMove (.terminate ok) { c with terminating := false, pc := .returned .writeFailed } .quiet
  | take {item : Value} {queue : List Value} (hs : c.sender = .receiving)
      (hq : c.queue = item :: queue) :
        CallMove .take { c with sender := .writing item, queue } .quiet
  | takeEnd (hs : c.sender = .receiving) (hq : c.queue = []) (hc : c.closed = true) :
      CallMove .take { c with sender := .done } .quiet
  | chunkNil {ok : Bool} {item : Value} (hs : c.sender = .writing item) (hv : v.conn = none) :
      CallMove (.writeChunk ok) c .crash
  | chunk {ok : Bool} {item : Value} {conn : Nat} (hs : c.sender = .writing item)
      (hv : v.conn = some conn) :
      CallMove (.writeChunk ok) { c with sender := .receiving }
        (v.write conn (c.kind.chunk m c.id item) ok).2
  | abandon (hpc : c.pc = .opened) (ht : c.terminating = false) :
      CallMove .abandon { c with pc := .returned .abandoned } .quiet

end

theorem View.write_cases (v : View) (conn : Nat) (frame : WireMessage) (ok : Bool) :
    (ok = true ∧ conn ∉ v.dead ∧ v.write conn frame ok = (true, .write conn frame)) ∨
      ((ok = false ∨ conn ∈ v.dead) ∧ v.write conn frame ok = (false, .quiet)) := by
  unfold View.write
  split
  · rename_i h
    exact .inl ⟨h.1, h.2, rfl⟩
  · rename_i h
    refine .inr ⟨?_, rfl⟩
    cases ok with
    | false => exact .inl rfl
    | true => exact .inr (not_not.1 fun hd => h ⟨rfl, hd⟩)

section
variable {m : Msgpack} {v : View} {c c' : Call} {e : Effect}

theorem prepare_move {encoded : Bool} (hpc : c.pc = .registered) :
    CallMove m v c (.prepare encoded) (c.prepare v encoded) .quiet := by
  unfold prepare
  split
  case h_1 hk | h_2 hk =>
    have hs : c.kind.sends = false := by rw [hk]; rfl
    cases encoded with
    | false => exact .encodeFailed hpc hs
    | true =>
      rw [if_pos rfl]
      split
      · exact .disconnected hpc hs ‹_›
      · exact .prepared hpc ‹_›
  case h_3 hk | h_4 hk =>
    split
    · exact .unrequested hpc (by rw [hk]; rfl) ‹_›
    · exact .prepared hpc ‹_›

theorem afterWrite_move {ok : Bool} {conn : Nat} (hpc : c.pc = .writing conn) :
    CallMove m v c (.write ok) (c.afterWrite (v.write conn c.payload ok).1)
      (v.write conn c.payload ok).2 := by
  unfold afterWrite
  split
  case h_1 hk | h_2 hk =>
    have hs : c.kind.sends = false := by rw [hk]; rfl
    obtain ⟨rfl, hd, hw⟩ | ⟨-, hw⟩ := v.write_cases conn c.payload ok
    · rw [hw]
      exact .requested hpc hs hd
    · rw [hw]
      exact .writeFailed hpc hs
  case h_3 hk | h_4 hk => exact .handedOver hpc (by rw [hk]; rfl)

theorem receive_move {decoded : Bool} (h : c.receive decoded = some (c', e)) :
    CallMove m v c (.receive decoded) c' e := by
  obtain ⟨d, hd, h⟩ := bind_eq_some_iff.1 h
  split at h
  · cases h
    exact .reply hd (.inl ‹_›) ‹_›
  · cases h
    exact .reply hd (.inr ‹_›) ‹_›
  · rename_i hk hpc
    cases h
    unfold consume
    split
    · rename_i ht
      cases decoded with
      | true => exact .item hd hk hpc ht
      | false => exact .undecoded hd hk hpc ht
    · split
      · exact .ended hd hk hpc ‹_›
      · exact .skipped hd hk hpc ‹_›
  · rename_i hk hpc
    have h : recv { c with taken := c.taken + 1 } d.msg = (c', e) := some.inj h
    unfold recv at h
    split at h
    · split at h <;> cases h
      · exact .recvEndTwice hd hk hpc ‹_› ‹_›
      · exact .recvEnd hd hk hpc ‹_› (Bool.eq_false_iff.2 ‹_›)
    · cases h
      exact .recv hd hk hpc ‹_›
  · cases h

theorem expire_move (h : c.expire = some c') : CallMove m v c .expire c' .quiet := by
  unfold expire at h
  split at h <;> cases h
  · exact .expired (.inl ‹_›) ‹_›
  · exact .expired (.inr ‹_›) ‹_›
  · exact .expiredStream ‹_› (.inl ‹_›)
  · exact .expiredStream ‹_› (.inr ⟨_, ‹_›⟩)

theorem closeSend_move (h : c.closeSend = some (c', e)) : CallMove m v c .closeSend c' e := by
  unfold closeSend at h
  split at h
  · split at h <;> cases h
    exact .closeSend ‹_› (.inl ⟨‹_›, Bool.eq_false_iff.2 ‹_›⟩)
  · cases h
  · cases h
    exact .closeTwice ‹_› ‹_›
  · split at h <;> cases h
    · exact .closeAgain ‹_› ‹_› ‹_›
    · exact .closeSend ‹_› (.inr ⟨‹_›, Bool.eq_false_iff.2 ‹_›⟩)
  · cases h

theorem terminate_move {ok : Bool} (h : c.terminate v ok = some (c', e)) :
    CallMove m v c (.terminate ok) c' e := by
  unfold terminate at h
  split at h
  · rename_i ht
    split at h
    · cases h
      exact .terminateNil ht ‹_›
    · rename_i conn hv
      dsimp only at h
      split at h
      · rename_i hk
        obtain ⟨rfl, hd, hw⟩ | ⟨hok, hw⟩ := v.write_cases conn (c.kind.terminator c.id) ok
        · rw [hw] at h
          cases h
          exact .terminatedExport ht hv hk hd
        · rw [hw] at h
          cases h
          exact .terminateFailed ht hv hk hok
      · rename_i hk
        cases h
        exact .terminated ht hv hk
  · cases h

theorem take_move (h : c.take = some c') : CallMove m v c .take c' .quiet := by
  unfold take at h
  split at h
  · cases h
    exact .take ‹_› ‹_›
  · split at h <;> cases h
    exact .takeEnd ‹_› ‹_› ‹_›
  · cases h

theorem writeChunk_move {ok : Bool} (h : c.writeChunk m v ok = some (c', e)) :
    CallMove m v c (.writeChunk ok) c' e := by
  unfold writeChunk at h
  split at h
  · split at h <;> cases h
    · exact .chunkNil ‹_› ‹_›
    · exact .chunk ‹_› ‹_›
  · cases h

/-- **What one move of a call does.** -/
theorem Call.step_move {l : CallLabel} (h : c.step m v l = some (c', e)) :
    CallMove m v c l c' e := by
  cases l with
  | register =>
    rw [step] at h
    split at h <;> cases h
    exact .register ‹_›
  | prepare encoded =>
    rw [step] at h
    split at h <;> cases h
    exact prepare_move ‹_›
  | write ok =>
    rw [step] at h
    split at h <;> cases h
    exact afterWrite_move ‹_›
  | receive decoded => exact receive_move h
  | expire =>
    obtain ⟨c₁, hc₁, he⟩ := map_eq_some_iff.1 h
    cases he
    exact expire_move hc₁
  | deliver =>
    obtain ⟨c₁, hc₁, he⟩ := map_eq_some_iff.1 h
    cases he
    unfold deliver at hc₁
    split at hc₁
    · split at hc₁ <;> cases hc₁
      exact .deliver ‹_› ‹_›
    · cases hc₁
  | takeResult =>
    rw [step] at h
    split at h <;> cases h
    exact .takeResult ‹_›
  | cleanup =>
    rw [step] at h
    split at h <;> cases h
    exact .cleanup ‹_›
  | send w =>
    obtain ⟨c₁, hc₁, he⟩ := map_eq_some_iff.1 h
    cases he
    unfold send at hc₁
    split at hc₁
    · split at hc₁ <;> cases hc₁
      rename_i hpc hopen
      exact .send hpc hopen.1 hopen.2.1 hopen.2.2
    · cases hc₁
  | closeSend => exact closeSend_move h
  | terminate ok => exact terminate_move h
  | take =>
    obtain ⟨c₁, hc₁, he⟩ := map_eq_some_iff.1 h
    cases he
    exact take_move hc₁
  | writeChunk ok => exact writeChunk_move h
  | abandon =>
    rw [step] at h
    split at h
    · split at h <;> cases h
      exact .abandon ‹_› (Bool.eq_false_iff.2 ‹_›)
    · cases h

end

/-! ## What the moves of a call have in common -/

/-- The fields of a call that its own moves do not change. -/
structure Fixed where
  kind : Kind
  id : BitVec 64
  payload : WireMessage
  got : List Delivery
  since : Nat
  late : Bool

def Call.fixed (c : Call) : Fixed := ⟨c.kind, c.id, c.payload, c.got, c.since, c.late⟩

theorem Call.fixed_fail (c : Call) (o : Outcome) : (c.fail o).fixed = c.fixed := by
  unfold fail
  split <;> rfl

theorem Call.fail_pc (c : Call) (o : Outcome) : (c.fail o).pc = .returned o := by
  unfold fail
  split <;> rfl

def Effect.frames : Effect → List WireMessage
  | .write _ frame => [frame]
  | _ => []

inductive Call.Writes (m : Msgpack) (c : Call) : WireMessage → Prop
  | payload : Writes m c c.payload
  | chunk (item : Value) : Writes m c (c.kind.chunk m c.id item)
  | terminator : Writes m c (c.kind.terminator c.id)

section
variable {m : Msgpack} {v : View} {c c' : Call} {l : CallLabel} {e : Effect}

/-- **A call's own moves keep its identity and what it has been sent.** -/
theorem CallMove.fixed (h : CallMove m v c l c' e) : c'.fixed = c.fixed := by
  cases h with
  | encodeFailed | disconnected | writeFailed => exact fixed_fail c _
  | _ => rfl

theorem Call.writes_write {conn : Nat} {frame : WireMessage} {ok : Bool} (h : c.Writes m frame) :
    ∀ f ∈ (v.write conn frame ok).2.frames, c.Writes m f := by
  intro f hf
  obtain ⟨-, -, hw⟩ | ⟨-, hw⟩ := v.write_cases conn frame ok
  · rw [hw] at hf
    rw [List.mem_singleton.1 hf]
    exact h
  · rw [hw] at hf
    cases hf

/-- **A call writes only its own frames.** -/
theorem CallMove.writes (h : CallMove m v c l c' e) : ∀ f ∈ e.frames, c.Writes m f := by
  cases h with
  | requested | terminatedExport =>
    intro f hf
    rw [List.mem_singleton.1 hf]
    constructor
  | handedOver => exact writes_write .payload
  | terminated => exact writes_write .terminator
  | chunk => exact writes_write (.chunk _)
  | _ => exact fun _ hf => nomatch hf

theorem View.write_ne (v : View) (conn : Nat) (frame : WireMessage) (ok : Bool) :
    (v.write conn frame ok).2 ≠ .register ∧ (v.write conn frame ok).2 ≠ .unregister := by
  obtain ⟨-, -, hw⟩ | ⟨-, hw⟩ := v.write_cases conn frame ok
  · rw [hw]
    exact ⟨nofun, nofun⟩
  · rw [hw]
    exact ⟨nofun, nofun⟩

end

/-! ## Moves of the client -/

section
variable (m : Msgpack) (reconnect : Bool) (c : Client)

inductive Move : Label → Client → Prop
  | start {kind : Kind} {func : String} {args : List Value} :
      Move (.start kind func args) (c.startCall kind func args)
  | quiet {i : Nat} {l : CallLabel} {call call' : Call} (hcall : c.calls[i]? = some call)
      (hm : CallMove m c.view call l call' .quiet) :
      Move (.call i l) { c with calls := c.calls.set i call' }
  | register {i : Nat} {call : Call} (hcall : c.calls[i]? = some call)
      (hpc : call.pc = .allocated) (hlock : c.locked = false) :
      Move (.call i .register)
        { c with
          pending := c.pending.insert call.id i
          calls := c.calls.set i { call with
            pc := .registered, since := c.handled.length, late := c.loopReturned } }
  | unregister {i : Nat} {call : Call} {o : Outcome} (hcall : c.calls[i]? = some call)
      (hpc : call.pc = .exiting o) (hlock : c.locked = false) :
      Move (.call i .cleanup)
        { c with
          pending := c.pending.erase call.id
          calls := c.calls.set i { call with pc := .returned o } }
  | write {i : Nat} {l : CallLabel} {call call' : Call} {conn : Nat} {frame : WireMessage}
      (hcall : c.calls[i]? = some call)
      (hm : CallMove m c.view call l call' (.write conn frame)) :
      Move (.call i l)
        { c with wire := c.wire ++ [⟨conn, frame⟩], calls := c.calls.set i call' }
  | crash {i : Nat} {l : CallLabel} {call call' : Call} (hcall : c.calls[i]? = some call)
      (hm : CallMove m c.view call l call' .crash) :
      Move (.call i l) { c with crashed := true, calls := c.calls.set i call' }
  | close : Move .close c.close
  | closeConn {conn : Nat} {toClose : List Nat} (ht : c.toClose = conn :: toClose) :
      Move .closeConn { c with toClose, dead := c.dead ++ [conn] }
  | leave (hloop : c.loop = .head) (hu : c.view.usable = none) :
      Move (.loop .head) { c with loop := .returned }
  | read {conn : Nat} (hloop : c.loop = .head) (hu : c.view.usable = some conn) :
      Move (.loop .head) { c with loop := .reading conn }
  | ignored {conn : Nat} {msg : WireMessage} (hloop : c.loop = .reading conn)
      (hd : conn ∉ c.dead) (hl : c.pending.lookup msg.id = none) :
      Move (.loop (.frame msg)) { c with handled := c.handled ++ [msg], loop := .head }
  | chunk {conn i : Nat} {msg : WireMessage} (hloop : c.loop = .reading conn)
      (hd : conn ∉ c.dead) (hl : c.pending.lookup msg.id = some i)
      (ht : msg.type = "stream_chunk") :
      Move (.loop (.frame msg))
        { c with
          handled := c.handled ++ [msg]
          loop := .sending i ⟨msg, some c.handled.length⟩ }
  | final {conn i : Nat} {msg : WireMessage} (hloop : c.loop = .reading conn)
      (hd : conn ∉ c.dead) (hl : c.pending.lookup msg.id = some i)
      (ht : msg.type ≠ "stream_chunk") :
      Move (.loop (.frame msg))
        { c with
          handled := c.handled ++ [msg]
          loop := .sending i ⟨msg, some c.handled.length⟩
          pending := c.pending.erase msg.id }
  | badFrame {conn : Nat} (hloop : c.loop = .reading conn) (hd : conn ∉ c.dead) :
      Move (.loop .badFrame) { c with loop := .head }
  | readError {conn : Nat} (hloop : c.loop = .reading conn) :
      Move (.loop .readError) { c with loop := .draining }
  | sent {i : Nat} {d : Delivery} {call : Call} (hloop : c.loop = .sending i d)
      (hcall : c.calls[i]? = some call) (hroom : call.unread < call.kind.capacity) :
      Move (.loop .send)
        { c with
          calls := c.calls.set i { call with got := call.got ++ [d] }
          loop := .head }
  | drainSent {id : BitVec 64} {i : Nat} {call : Call} (hloop : c.loop = .drainSend id i)
      (hcall : c.calls[i]? = some call) (hroom : call.unread < call.kind.capacity) :
      Move (.loop .send)
        { c with
          calls := c.calls.set i { call with got := call.got ++ [⟨connectionLost id, none⟩] }
          loop := .draining
          pending := c.pending.erase id }
  | drain {id : BitVec 64} {i : Nat} (hloop : c.loop = .draining)
      (hl : c.pending.lookup id = some i) :
      Move (.loop (.drain id)) { c with loop := .drainSend id i }
  | drainEnd (hloop : c.loop = .draining) (hp : c.pending = ∅) :
      Move (.loop .drainEnd) { c with loop := .drained }
  | giveUp (hloop : c.loop = .drained) (h : reconnect = false ∨ c.closed = true) :
      Move (.loop .redial) { c with loop := .returned }
  | redial (hloop : c.loop = .drained) (hr : reconnect = true) (hc : c.closed = false) :
      Move (.loop .redial) { c with loop := .dialling }
  | dialFailed (hloop : c.loop = .dialling) :
      Move (.loop (.dial false)) { c with loop := .drained }
  | dialled (hloop : c.loop = .dialling) :
      Move (.loop (.dial true)) { c with loop := .dialled c.conns, conns := c.conns + 1 }
  | discard {conn : Nat} (hloop : c.loop = .dialled conn) (hc : c.closed = true) :
      Move (.loop .install) { c with loop := .returned, dead := c.dead ++ [conn] }
  | install {conn : Nat} (hloop : c.loop = .dialled conn) (hc : c.closed = false) :
      Move (.loop .install) { c with loop := .head, conn := some conn }

variable {m reconnect c} {c' : Client} {l : CallLabel}

theorem sendTo_eq {i : Nat} {d : Delivery} (h : c.sendTo i d = some c') :
    ∃ call, c.calls[i]? = some call ∧ call.unread < call.kind.capacity ∧
      c' = { c with calls := c.calls.set i { call with got := call.got ++ [d] } } := by
  obtain ⟨call, hcall, h⟩ := bind_eq_some_iff.1 h
  split at h
  · cases h
    exact ⟨call, hcall, ‹_›, rfl⟩
  · cases h

theorem CallMove.of_register {v : View} {call call' : Call}
    (h : CallMove m v call l call' .register) :
    l = .register ∧ call.pc = .allocated ∧ call' = { call with pc := .registered } := by
  generalize he : Effect.register = e at h
  cases h with
  | register hpc => exact ⟨rfl, hpc, rfl⟩
  | handedOver | terminated | chunk => exact absurd he.symm (v.write_ne _ _ _).1
  | _ => cases he

theorem CallMove.of_unregister {v : View} {call call' : Call}
    (h : CallMove m v call l call' .unregister) :
    ∃ o, l = .cleanup ∧ call.pc = .exiting o ∧ call' = { call with pc := .returned o } := by
  generalize he : Effect.unregister = e at h
  cases h with
  | cleanup hpc => exact ⟨_, rfl, hpc, rfl⟩
  | handedOver | terminated | chunk => exact absurd he.symm (v.write_ne _ _ _).2
  | _ => cases he

theorem callStep_move {i : Nat} (h : c.callStep m i l = some c') :
    Move m reconnect c (.call i l) c' := by
  obtain ⟨call, hcall, h⟩ := bind_eq_some_iff.1 h
  obtain ⟨⟨call', e⟩, hs, h⟩ := bind_eq_some_iff.1 h
  cases e with
  | quiet =>
    cases h
    exact .quiet hcall (step_move hs)
  | register =>
    obtain ⟨rfl, hpc, rfl⟩ := (step_move hs).of_register
    dsimp only [Client.apply] at h
    split at h <;> cases h
    exact .register hcall hpc (Bool.eq_false_iff.2 ‹_›)
  | unregister =>
    obtain ⟨o, rfl, hpc, rfl⟩ := (step_move hs).of_unregister
    dsimp only [Client.apply] at h
    split at h <;> cases h
    exact .unregister hcall hpc (Bool.eq_false_iff.2 ‹_›)
  | write conn frame =>
    cases h
    exact .write hcall (step_move hs)
  | crash =>
    cases h
    exact .crash hcall (step_move hs)

theorem loopStep_move {l : LoopLabel} (h : loopStep reconnect c l = some c') :
    Move m reconnect c (.loop l) c' := by
  cases l with
  | head =>
    rw [loopStep] at h
    split at h
    · split at h <;> cases h
      · exact .leave ‹_› ‹_›
      · exact .read ‹_› ‹_›
    · cases h
  | frame msg =>
    rw [loopStep] at h
    split at h
    · split at h <;> cases h
      rename_i hloop hd
      unfold Client.handleFrame
      cases hl : c.pending.lookup msg.id with
      | none => exact .ignored hloop hd hl
      | some i =>
        by_cases ht : msg.type = "stream_chunk"
        · simp only [if_pos ht]
          exact .chunk hloop hd hl ht
        · simp only [if_neg ht]
          exact .final hloop hd hl ht
    · cases h
  | badFrame =>
    rw [loopStep] at h
    split at h
    · split at h <;> cases h
      exact .badFrame ‹_› ‹_›
    · cases h
  | readError =>
    rw [loopStep] at h
    split at h <;> cases h
    exact .readError ‹_›
  | send =>
    rw [loopStep] at h
    split at h
    · obtain ⟨c₁, hc₁, rfl⟩ := map_eq_some_iff.1 h
      obtain ⟨call, hcall, hroom, rfl⟩ := sendTo_eq hc₁
      exact .sent ‹_› hcall hroom
    · obtain ⟨c₁, hc₁, rfl⟩ := map_eq_some_iff.1 h
      obtain ⟨call, hcall, hroom, rfl⟩ := sendTo_eq hc₁
      exact .drainSent ‹_› hcall hroom
    · cases h
  | drain id =>
    rw [loopStep] at h
    split at h <;> cases h
    exact .drain ‹_› ‹_›
  | drainEnd =>
    rw [loopStep] at h
    split at h
    · split at h <;> cases h
      rename_i hloop hp
      exact .drainEnd hloop (AList.ext (List.isEmpty_iff.1 hp))
    · cases h
  | redial =>
    rw [loopStep] at h
    split at h
    · split at h <;> cases h
      · rename_i hloop hr
        exact .redial hloop hr.1 hr.2
      · rename_i hloop hr
        refine .giveUp hloop ?_
        cases reconnect with
        | false => exact .inl rfl
        | true => exact .inr (Bool.eq_true_of_not_eq_false fun hc => hr ⟨rfl, hc⟩)
    · cases h
  | dial ok =>
    rw [loopStep] at h
    split at h
    · cases ok <;> cases h
      · exact .dialFailed ‹_›
      · exact .dialled ‹_›
    · cases h
  | install =>
    rw [loopStep] at h
    split at h
    · split at h <;> cases h
      · exact .discard ‹_› ‹_›
      · exact .install ‹_› (Bool.eq_false_iff.2 ‹_›)
    · cases h

/-- **What one step does.** -/
theorem step_move {l : Label} (h : step m reconnect c l = some c') : Move m reconnect c l c' := by
  unfold step at h
  split at h
  · cases h
  · split at h
    · cases h
      exact .start
    · exact callStep_move h
    · cases h
      exact .close
    · unfold Client.closeConn at h
      split at h <;> cases h
      exact .closeConn ‹_›
    · exact loopStep_move h

end

end Callwire.Go
