import Callwire.Ts.Routing
import Callwire.Ts.Proof.ClientStep

/-!
# A closed TypeScript client

`close` destroys the socket, and the loop that reads it then fails: with `reconnect` this starts a
reconnect loop, which does not know that the client was closed (`close_reconnects`). A socket that
is still connecting is not destroyed at all. If there is no such loop and no such socket, and no
operation is about to make a worker, then a closed client stays closed (`close_final`).
-/

namespace Callwire.Ts

open Lib List

/-! ## The connection -/

namespace Link

/-- Nothing is under way that could connect. -/
structure Quiet (k : Link) : Prop where
  sockets : ∀ sock ∈ k.sockets, sock.phase ≠ .connecting
  loops : ∀ loop ∈ k.loops, loop = .done
  readers : k.reconnect = false ∨ ∀ sock ∈ k.sockets, sock.reader ≠ .reading

/-- A connection that was closed when it had `n` sockets. -/
structure Shut (n : Nat) (k : Link) : Prop extends Quiet k where
  connected : k.connected = false
  socket : k.socket = none
  length : k.sockets.length = n

theorem Quiet.close {k : Link} (h : k.Quiet) : k.close.Shut k.sockets.length :=
  { h with connected := rfl, socket := rfl, length := rfl }

theorem Shut.exit {n s : Nat} {k : Link} {sock : Sock} (h : k.Shut n)
    (hsock : k.sockets[s]? = some sock) :
    Link.Shut n { k with sockets := k.sockets.set s { sock with reader := .exited } } := by
  refine ⟨⟨forall_set hsock h.sockets ?_, h.loops, h.readers.imp id fun hr => ?_⟩, h.connected,
    h.socket, length_set.trans h.length⟩
  · exact h.sockets sock (mem_of_getElem? hsock)
  · exact forall_set hsock hr nofun

theorem shut_kept (n : Nat) : Kept (Shut n) where
  event {k k' e} h hm := by
    cases hm with
    | connected hsock hphase | connectFailed hsock hphase =>
      exact absurd hphase (h.sockets _ (mem_of_getElem? hsock))
    | @readFailed s sock hsock hreader =>
      have hreconnect : k.reconnect = false :=
        h.readers.resolve_right fun hr => hr _ (mem_of_getElem? hsock) hreader
      have hexit := h.exit hsock
      have he : Link.handleDisconnect
          { k with sockets := k.sockets.set s { sock with reader := .exited } } =
          { k with sockets := k.sockets.set s { sock with reader := .exited } } := by
        simp only [handleDisconnect, hreconnect, h.connected, Bool.false_eq_true, if_false]
      rw [he]
      exact hexit
    | loopWake hloop | loopRetry hloop => cases h.loops _ (mem_of_getElem? hloop)
  frame {k s sock} h hsock _ := by
    unfold goOn
    split
    · exact h
    · exact h.exit hsock

end Link

/-! ## The client -/

variable {J : Js}

theorem Client.invoke_shut {c : Client J} {n : Nat} (h : c.link.Shut n) (method : Method)
    (func : String) (args : List J.Val) :
    c.invoke method func args = (c, .error (.error "Not connected")) :=
  if_pos (.inl (by rw [h.connected]; simp))

namespace RoutingClient

/-- An operation of a closed client: it has not got a connection, and will not get one. -/
def Refused (op : Operation J) : Prop :=
  op.pc = .asking ∨ op.pc = .ready none ∨ ∃ failure, op.pc = .failed failure

/-- `_resolveWorker` waits for the registry or for a worker. -/
def Resolving (op : Operation J) : Prop :=
  (∃ id, op.pc = .discovering id) ∨ ∃ w, op.pc = .connecting w

theorem Refused.not_resolving {op : Operation J} (h : Refused op) : ¬ Resolving op := by
  rintro (⟨id, hpc⟩ | ⟨w, hpc⟩) <;> rcases h with h | h | ⟨_, h⟩ <;> rw [hpc] at h <;> cases h

/-- `close` is called when nothing is under way that could connect. -/
structure Quiet (r : RoutingClient J) : Prop where
  link : r.client.link.Quiet
  operations : ∀ op ∈ r.operations, ¬ Resolving op

/-- A client that was closed when it had this many sockets, workers and operations. -/
structure Shut (sockets workers operations : Nat) (r : RoutingClient J) : Prop where
  link : r.client.link.Shut sockets
  cache : r.routeCache = ∅
  workers : r.workers.length = workers
  resolving : ∀ op ∈ r.operations, ¬ Resolving op
  later : ∀ i op, operations ≤ i → r.operations[i]? = some op → Refused op

theorem Quiet.close {r : RoutingClient J} (h : r.Quiet) :
    r.close.Shut r.client.link.sockets.length r.workers.length r.operations.length where
  link := h.link.close
  cache := rfl
  workers := length_mapIdx
  resolving := h.operations
  later i op hi hop := by
    have : i < r.operations.length := lt_of_some hop
    omega

namespace Shut

variable {sockets workers operations : Nat} {r r' : RoutingClient J}

section
variable (h : r.Shut sockets workers operations)
include h

theorem append {op : Operation J} (hop : Refused op) :
    Shut sockets workers operations { r with operations := r.operations ++ [op] } := by
  refine { h with
    resolving := forall_concat h.resolving hop.not_resolving, later := fun i v hi hv => ?_ }
  · rcases concat_cases hv with hv | ⟨-, rfl⟩
    · exact h.later i v hi hv
    · exact hop

theorem set {i : Nat} {op op' : Operation J} (hop : r.operations[i]? = some op)
    (hres : ¬ Resolving op') (hlater : operations ≤ i → Refused op') :
    Shut sockets workers operations { r with operations := r.operations.set i op' } := by
  refine { h with
    resolving := forall_set hop h.resolving hres
    later := fun j v hj hv => ?_ }
  rcases set_cases hop hv with ⟨rfl, rfl⟩ | ⟨-, hv⟩
  · exact hlater hj
  · exact h.later j v hj hv

theorem start (method : Method) (func : String) (args : List J.Val) :
    (r.start method func args).Shut sockets workers operations := by
  have hresolve : r.resolveWorker func = (r, .ready none) ∨
      r.resolveWorker func = (r, .asking) := by
    unfold resolveWorker
    split
    · exact .inl rfl
    · rw [h.cache]
      exact .inr rfl
  unfold RoutingClient.start
  rcases hresolve with hr | hr <;> rw [hr]
  · exact h.append (.inr (.inl rfl))
  · exact h.append (.inl rfl)

theorem operation {i : Nat} {op : Operation J} {x : RoutingClient J × OperationPc J}
    (hop : r.operations[i]? = some op) (hx : r.operationStep op = some x) :
    Shut sockets workers operations
      { x.1 with operations := x.1.operations.set i { op with pc := x.2 } } := by
  have hmem := mem_of_getElem? hop
  have hfailed : ∀ failure, Refused { op with pc := .failed failure } :=
    fun failure => .inr (.inr ⟨failure, rfl⟩)
  unfold operationStep at hx
  split at hx
  · simp only [invoke, Client.invoke_shut h.link] at hx
    cases hx
    exact h.set hop (hfailed _).not_resolving fun _ => hfailed _
  · exact absurd (.inl ⟨_, ‹_›⟩) (h.resolving op hmem)
  · exact absurd (.inr ⟨_, ‹_›⟩) (h.resolving op hmem)
  · rename_i worker hpc
    cases worker with
    | none =>
      simp only [invoke, Client.invoke_shut h.link] at hx
      cases hx
      exact h.set hop (hfailed _).not_resolving fun _ => hfailed _
    | some w =>
      -- only an operation from before has a worker
      have hearly : ¬ operations ≤ i := fun hi => by
        rcases h.later i op hi hop with hr | hr | ⟨_, hr⟩ <;> rw [hpc] at hr <;> cases hr
      have hworkers : ∀ worker, Shut sockets workers operations
          { r with workers := r.workers.set w worker } := fun worker =>
        { h with workers := length_set.trans h.workers }
      simp only [invoke] at hx
      cases hw : r.workers[w]? with
      | none =>
        rw [hw] at hx
        cases hx
      | some worker =>
        rw [hw] at hx
        dsimp only at hx
        cases hres : (worker.client.invoke op.method op.func op.args).2 with
        | ok id | error failure =>
          rw [hres] at hx
          cases hx
          exact (hworkers _).set hop nofun fun hi => absurd hi hearly
  · cases hx
  · cases hx

end

end Shut

def Label.Connects : Label J → Prop
  | .connect _ | .connectRegistry _ => True
  | _ => False

/-- **A step of a closed client.** -/
theorem Shut.step {sockets workers operations : Nat} {r r' : RoutingClient J} {l : Label J}
    (h : r.Shut sockets workers operations) (hl : ¬ l.Connects) (hs : step r l = some r') :
    r'.Shut sockets workers operations := by
  cases l with
  | connect addr | connectRegistry addr => exact absurd trivial hl
  | routed s =>
    rw [RoutingClient.step] at hs
    split at hs
    · split at hs <;> cases hs
      exact { h with }
    · cases hs
  | start method func args =>
    cases hs
    exact h.start method func args
  | operation i =>
    obtain ⟨op, hop, hs⟩ := Option.bind_eq_some_iff.1 hs
    obtain ⟨x, hx, hs⟩ := Option.bind_eq_some_iff.1 hs
    cases hs
    exact h.operation hop hx
  | client e =>
    obtain ⟨client, he, hs⟩ := Option.bind_eq_some_iff.1 hs
    cases hs
    exact { h with link := Client.event_link (Link.shut_kept sockets) h.link he }
  | worker w e =>
    obtain ⟨worker, hw, hs⟩ := Option.bind_eq_some_iff.1 hs
    obtain ⟨client, he, hs⟩ := Option.bind_eq_some_iff.1 hs
    cases hs
    exact { h with workers := length_set.trans h.workers }
  | close =>
    cases hs
    exact
      { h with
        link := h.link.length ▸ h.link.toQuiet.close
        cache := rfl
        workers := length_mapIdx.trans h.workers }

/-- **A closed client stays closed**, if nothing was under way that could connect: it does not
become connected, makes no socket and no worker, and no later operation gets a connection. -/
theorem close_final {r r' : RoutingClient J} {ls : List (Label J)} (hquiet : r.Quiet)
    (hls : ∀ l ∈ ls, ¬ l.Connects) (hrun : run step r (.close :: ls) = some r') :
    r'.client.link.connected = false ∧ r'.client.link.socket = none ∧
      r'.client.link.sockets.length = r.client.link.sockets.length ∧
      r'.workers.length = r.workers.length ∧
      ∀ i op, r.operations.length ≤ i → r'.operations[i]? = some op → Refused op := by
  obtain ⟨r₁, hclose, hrun⟩ := run_cons hrun
  cases hclose
  have h := run_invariant (fun _ _ _ => Shut.step) hquiet.close
    (Along.of_labels (fun l hl _ => hls l hl) _) hrun
  exact ⟨h.link.connected, h.link.socket, h.link.length, h.workers, h.later⟩

theorem close_final_call : ∃ r r' : RoutingClient plain,
    run step (.init false 30000) [.connect "a", .client (.link (.connected 0))] = some r ∧
      run step r [.close, .client (.link (.readFailed 0)), .start .call "f" [], .operation 0] =
        some r' ∧
      r'.client.link.connected = false ∧ r'.client.link.socket = none := by
  obtain ⟨r, hr, hquiet⟩ : ∃ r : RoutingClient plain,
      run step (.init false 30000) [.connect "a", .client (.link (.connected 0))] = some r ∧
        r.Quiet := by
    refine ⟨_, rfl, ⟨?_, ?_, .inl rfl⟩, nofun⟩
    · exact forall_mem_singleton.2 nofun
    · exact nofun
  obtain ⟨r', hr'⟩ : ∃ r', run step r
      [.close, .client (.link (.readFailed 0)), .start .call "f" [], .operation 0] = some r' := by
    cases hr
    exact ⟨_, rfl⟩
  have hls : ∀ l ∈ ([.client (.link (.readFailed 0)), .start .call "f" [], .operation 0] :
      List (Label plain)), ¬ l.Connects := by
    intro l hl
    simp only [mem_cons, not_mem_nil, or_false] at hl
    rcases hl with rfl | rfl | rfl <;> exact id
  obtain ⟨hconnected, hsocket, -⟩ := close_final hquiet hls hr'
  exact ⟨r, r', hr, hr', hconnected, hsocket⟩

theorem close_reconnects : ∃ r : RoutingClient plain,
    run step (.init true 30000)
        [.connect "a", .client (.link (.connected 0)), .close, .client (.link (.readFailed 0)),
          .client (.link (.loopWake 0)), .client (.link (.connected 1))] = some r ∧
      r.client.link.connected = true ∧ r.client.link.socket = some 1 :=
  ⟨_, rfl, rfl, rfl⟩

end RoutingClient

end Callwire.Ts
