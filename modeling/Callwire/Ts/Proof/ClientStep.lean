import Callwire.Lib.ArrayUpdate
import Callwire.Ts.Client

/-!
# The steps of the TypeScript client

`Link.Moves` says what the events of the connection do. The calls do not touch the connection
(`Client.invoke_same`, `Client.event_link`).
-/

namespace Callwire.Ts

/-! ## The connection -/

namespace Link

inductive Moves (k : Link) : LinkEvent → Link → Prop
  | connected {s : Nat} {sock : Sock} (hsock : k.sockets[s]? = some sock)
      (hphase : sock.phase = .connecting) :
      Moves k (.connected s) (Link.settle
        { k with
          socket := some s
          connected := true
          sockets := k.sockets.set s { sock with phase := .opened, reader := .reading } }
        sock.owner .done)
  | connectFailed {s : Nat} {sock : Sock} (hsock : k.sockets[s]? = some sock)
      (hphase : sock.phase = .connecting) :
      Moves k (.connectFailed s) (Link.settle
        { k with sockets := k.sockets.set s { sock with phase := .failed } } sock.owner .caught)
  | readFailed {s : Nat} {sock : Sock} (hsock : k.sockets[s]? = some sock)
      (hreader : sock.reader = .reading) :
      Moves k (.readFailed s) (Link.handleDisconnect
        { k with sockets := k.sockets.set s { sock with reader := .exited } })
  | loopWake {j : Nat} (hloop : k.loops[j]? = some .sleeping) :
      Moves k (.loopWake j)
        (Link.connectSocket { k with loops := k.loops.set j .connecting } (.loop j))
  | loopRetry {j : Nat} (hloop : k.loops[j]? = some .caught) :
      Moves k (.loopRetry j)
        { k with loops := k.loops.set j (if k.connected then .done else .sleeping) }

variable {k k' : Link}

theorem event_moves {e : LinkEvent} (h : k.event e = some k') : k.Moves e k' := by
  cases e with
  | connected s =>
    rw [event] at h
    split at h
    · split at h <;> cases h
      exact .connected ‹_› ‹_›
    · cases h
  | connectFailed s =>
    rw [event] at h
    split at h
    · split at h <;> cases h
      exact .connectFailed ‹_› ‹_›
    · cases h
  | readFailed s =>
    rw [event] at h
    split at h
    · split at h <;> cases h
      exact .readFailed ‹_› ‹_›
    · cases h
  | loopWake j =>
    rw [event] at h
    split at h <;> cases h
    exact .loopWake ‹_›
  | loopRetry j =>
    rw [event] at h
    split at h <;> cases h
    exact .loopRetry ‹_›

theorem frame_eq_some {s : Nat} (h : k.frame s = some k') :
    ∃ sock, k.sockets[s]? = some sock ∧ sock.reader = .reading ∧ k' = k.goOn s sock := by
  unfold frame at h
  split at h
  · split at h <;> cases h
    exact ⟨_, ‹_›, ‹_›, rfl⟩
  · cases h

structure Kept (P : Link → Prop) : Prop where
  event : ∀ {k k' : Link} {e : LinkEvent}, P k → k.Moves e k' → P k'
  frame : ∀ {k : Link} {s : Nat} {sock : Sock}, P k → k.sockets[s]? = some sock →
    sock.reader = .reading → P (k.goOn s sock)

end Link

/-! ## The client -/

namespace Client

variable {J : Js} {c c' : Client J}

section
variable {id : Nat} {op : Op J} {entry : Entry} {msg : WireMessage J}

@[simp] theorem write_link : (c.write msg).link = c.link := by
  unfold write
  split <;> rfl

@[simp] theorem setOp_link : (c.setOp id op).link = c.link := rfl
@[simp] theorem insertPending_link : (c.insertPending id entry).link = c.link := rfl
@[simp] theorem erasePending_link : (c.erasePending id).link = c.link := rfl

@[simp] theorem pollBidi_link {output : Output J} : (c.pollBidi id output).link = c.link := by
  unfold pollBidi
  dsimp only
  split <;> rfl

@[simp] theorem setOp_ops_self : (c.setOp id op).ops id = some op := Function.update_self ..

@[simp] theorem modifyOp_ops_self {f : Op J → Op J} :
    (c.modifyOp id f).ops id = (c.ops id).map f := Function.update_self ..

@[simp] theorem write_ops : (c.write msg).ops = c.ops := by
  unfold write
  split <;> rfl

@[simp] theorem write_nextId : (c.write msg).nextId = c.nextId := by
  unfold write
  split <;> rfl

@[simp] theorem setOp_nextId : (c.setOp id op).nextId = c.nextId := rfl
@[simp] theorem modifyOp_nextId {f : Op J → Op J} : (c.modifyOp id f).nextId = c.nextId := rfl
@[simp] theorem insertPending_nextId : (c.insertPending id entry).nextId = c.nextId := rfl
@[simp] theorem erasePending_nextId : (c.erasePending id).nextId = c.nextId := rfl

@[simp] theorem pollBidi_nextId {output : Output J} :
    (c.pollBidi id output).nextId = c.nextId := by
  unfold pollBidi
  dsimp only
  split <;> rfl

@[simp] theorem dispatch_nextId : (c.dispatch msg).nextId = c.nextId := by
  unfold dispatch
  split
  · rfl
  · dsimp only
    split <;> rfl
  · repeat' split
    all_goals rfl
  · split <;> rfl
  · split <;> rfl
  · repeat' split
    all_goals rfl

end

/-- What the application and the timers do with call `id`. -/
inductive OpMoves (c : Client J) (id : Nat) : OpEvent J → Client J → Prop
  | callTimeout {func : String} {reply : Waiter J} {result : Settled J}
      (hop : c.ops id = some (.call func reply)) :
      OpMoves c id .timeout ((c.erasePending id).setOp id (.call func (reply.settle result)))
  | exportTimeout {func : String} {recvs : List (Waiter J)}
      (hop : c.ops id = some (.exportStream func true recvs)) :
      OpMoves c id .timeout ((c.erasePending id).setOp id (.exportStream func false recvs))
  | recvTimeout {func : String} {timer : Bool} {recvs : List (Waiter J)} {j : Nat} {w : Waiter J}
      {result : Settled J} (hop : c.ops id = some (.exportStream func timer recvs))
      (hw : recvs[j]? = some w) (htimer : w.timer = true) :
      OpMoves c id (.recvTimeout j) ((c.erasePending id).setOp id
        (.exportStream func timer (recvs.set j (w.settle result))))
  | send {item : J.Val} {c' : Client J} (hc' : c' = c ∨ ∃ payload, c' = c.write payload) :
      OpMoves c id (.send item) c'
  | refused {func : String} {timer : Bool} {recvs : List (Waiter J)}
      (hop : c.ops id = some (.exportStream func timer recvs)) (hsocket : c.link.socket = none) :
      OpMoves c id .closeAndRecv (c.setOp id (.exportStream func timer
        (recvs ++ [{ promise := some (.rejected (.error "Not connected")), timer := false }])))
  | closeAndRecv {func : String} {timer : Bool} {recvs : List (Waiter J)}
      (hop : c.ops id = some (.exportStream func timer recvs)) (hsocket : c.link.socket ≠ none) :
      OpMoves c id .closeAndRecv (((c.write (packStreamClose id)).setOp id
        (.exportStream func timer (recvs ++ [.new]))).insertPending id (.receiving recvs.length))
  | closeSend {output : Output J} (hop : c.ops id = some (.bidi output)) :
      OpMoves c id .closeSend (c.write (packStreamEnd id))
  | imported {request : WireMessage J} (hop : c.ops id = some (.importing request)) :
      OpMoves c id .imported (((c.setOp id (.bidi .new)).insertPending id .bidi).write request)
  | pollStream {e : OpEvent J} {output : Output J} (hop : c.ops id = some (.callStream output))
      (he : e = .next ∨ e = .resume) : OpMoves c id e (c.pollStream id output)
  | pollBidi {e : OpEvent J} {output : Output J} (hop : c.ops id = some (.bidi output))
      (he : e = .next ∨ e = .resume) : OpMoves c id e (c.pollBidi id output)

variable {e : OpEvent J}

section
variable {id : Nat} (h : c.opEvent id e = some c')
include h

theorem opEvent_moves : c.OpMoves id e c' := by
  cases e with
  | timeout =>
    rw [opEvent] at h
    split at h
    · split at h <;> cases h
      exact .callTimeout ‹_›
    · cases h
      exact .exportTimeout ‹_›
    · cases h
  | recvTimeout j =>
    rw [opEvent] at h
    split at h
    · split at h
      · split at h <;> cases h
        exact .recvTimeout ‹_› ‹_› ‹_›
      · cases h
    · cases h
  | send item =>
    rw [opEvent] at h
    split at h
    · split at h <;> cases h
      · exact .send (.inr ⟨_, rfl⟩)
      · exact .send (.inl rfl)
    · split at h <;> cases h
      · exact .send (.inr ⟨_, rfl⟩)
      · exact .send (.inl rfl)
    · cases h
  | closeAndRecv =>
    rw [opEvent] at h
    split at h
    · split at h <;> cases h
      · exact .refused ‹_› ‹_›
      · exact .closeAndRecv ‹_› ‹_›
    · cases h
  | closeSend =>
    rw [opEvent] at h
    split at h <;> cases h
    exact .closeSend ‹_›
  | imported =>
    rw [opEvent] at h
    split at h <;> cases h
    exact .imported ‹_›
  | next =>
    rw [opEvent] at h
    split at h
    · split at h <;> cases h
      exact .pollStream ‹_› (.inl rfl)
    · split at h <;> cases h
      exact .pollBidi ‹_› (.inl rfl)
    · cases h
  | resume =>
    rw [opEvent] at h
    split at h
    · split at h <;> cases h
      exact .pollStream ‹_› (.inr rfl)
    · split at h <;> cases h
      exact .pollBidi ‹_› (.inr rfl)
    · cases h

theorem opEvent_same : c'.link = c.link ∧ c'.nextId = c.nextId := by
  cases opEvent_moves h with
  | send hc' =>
    rcases hc' with rfl | ⟨payload, rfl⟩
    · exact ⟨rfl, rfl⟩
    · exact ⟨write_link, write_nextId⟩
  | pollStream hop he => exact ⟨rfl, rfl⟩
  | _ => simp

end

@[simp] theorem le_increment (n : Nat) : n ≤ increment n := by
  unfold increment
  split <;> omega

theorem lt_increment {n : Nat} (h : n < 2 ^ 53) : n < increment n := by
  rw [increment, if_pos (show n < 9007199254740992 from h)]
  exact n.lt_succ_self

theorem invoke_same {method : Method} {func : String} {args : List J.Val} :
    (c.invoke method func args).1.link = c.link ∧
    c.nextId ≤ (c.invoke method func args).1.nextId := by
  unfold invoke
  split
  · exact ⟨rfl, Nat.le_refl _⟩
  · cases method <;> dsimp only
    · split <;> simp
    · split <;> simp
    · split <;> simp
    · simp

theorem event_link_cases {e : LinkEvent} (h : c.event (.link e) = some c') : ∃ link,
    c.link.event e = some link ∧ (c' = { c with link } ∨
      (∃ s, e = .readFailed s) ∧ c' = Client.rejectAll { c with link }) := by
  cases e <;> simp only [event, Option.bind_eq_bind, Option.bind_eq_some_iff, Option.pure_def,
    Option.some.injEq] at h <;> obtain ⟨link, hl, rfl⟩ := h
  case readFailed s => exact ⟨link, hl, .inr ⟨⟨s, rfl⟩, rfl⟩⟩
  all_goals exact ⟨link, hl, .inl rfl⟩

theorem event_frame_cases {s : Nat} {msg : WireMessage J} (h : c.event (.frame s msg) = some c') :
    ∃ link, c.link.frame s = some link ∧ c' = { c.dispatch msg with link } := by
  simp only [event, Option.bind_eq_bind, Option.bind_eq_some_iff, Option.pure_def,
    Option.some.injEq] at h
  obtain ⟨link, hl, rfl⟩ := h
  exact ⟨link, hl, rfl⟩

/-- **Only the events of the connection touch it.** -/
theorem event_link {P : Link → Prop} {e : Event J} (hP : Link.Kept P) (hc : P c.link)
    (h : c.event e = some c') : P c'.link := by
  cases e with
  | link e =>
    obtain ⟨link, hl, rfl | ⟨-, rfl⟩⟩ := event_link_cases h <;>
      exact hP.event hc (Link.event_moves hl)
  | frame s msg =>
    obtain ⟨link, hl, rfl⟩ := event_frame_cases h
    obtain ⟨sock, hsock, hreader, rfl⟩ := Link.frame_eq_some hl
    exact hP.frame hc hsock hreader
  | op id e => exact (opEvent_same (c := c) h).1 ▸ hc

theorem step_nextId {l : Label J} (h : c.step l = some c') : c.nextId ≤ c'.nextId := by
  cases l with
  | connect addr =>
    cases h
    exact Nat.le_refl _
  | invoke method func args =>
    cases h
    exact invoke_same.2
  | event e =>
    cases e with
    | link e =>
      obtain ⟨link, -, rfl | ⟨-, rfl⟩⟩ := event_link_cases h <;> exact Nat.le_refl _
    | frame s msg =>
      obtain ⟨link, -, rfl⟩ := event_frame_cases h
      exact Nat.le_of_eq dispatch_nextId.symm
    | op id e => exact Nat.le_of_eq (opEvent_same h).2.symm
  | close =>
    cases h
    exact Nat.le_refl _

end Client

end Callwire.Ts
