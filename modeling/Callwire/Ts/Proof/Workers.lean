import Callwire.Ts.Routing
import Callwire.Ts.Proof.ClientStep

/-!
# The workers of a TypeScript client

`_resolveWorker` looks for a worker client of an address, and keeps the new one only after it has
connected. Two operations that find none at the same time both make one, and the second replaces the
first, which nobody closes any more (`workers_leak`); so does an operation that is connecting a
worker when `close` is called. Otherwise a worker client is kept, or is being connected, or has
never connected (`Owned`), so that there is one for each address and `close` closes them all
(`workers_owned`).
-/

namespace Callwire.Ts

open Lib List Option

/-! ## The connection of a worker -/

namespace Link

/-- The first socket is connected. -/
def Opened (k : Link) : Prop := k.sockets.head?.map Sock.phase = some .opened

/-- The first socket is the only one and has not been connected. -/
def Unopened (k : Link) : Prop :=
  k.connected = false ∧ k.loops = [] ∧
    ∃ sock, k.sockets = [sock] ∧ sock.owner = .app ∧ sock.reader = .unstarted ∧ sock.phase ≠ .opened

/-- The first socket could not be connected. -/
def Failed (k : Link) : Prop := k.Unopened ∧ k.sockets.head?.map Sock.phase = some .failed

theorem unopened_connect (reconnect : Bool) (addr : String) :
    ((Link.init reconnect).connect addr .app).Unopened :=
  ⟨rfl, rfl, _, rfl, rfl, rfl, nofun⟩

variable {k : Link}

theorem Unopened.not_opened (h : k.Unopened) : ¬ k.Opened := by
  obtain ⟨-, -, sock, hsockets, -, -, hphase⟩ := h
  unfold Opened
  rw [hsockets]
  exact fun ho => hphase (some.inj ho)

theorem Opened.set {k' : Link} (h : k.Opened) {s : Nat} {sock sock' : Sock}
    (hsock : k.sockets[s]? = some sock) (hk : k'.sockets = k.sockets.set s sock')
    (hphase : sock.phase = .opened → sock'.phase = .opened) : k'.Opened := by
  unfold Opened at h ⊢
  rw [hk]
  cases hs : k.sockets with
  | nil =>
    rw [hs] at h
    cases h
  | cons first rest =>
    rw [hs] at h hsock
    cases s with
    | zero =>
      obtain rfl : first = sock := some.inj hsock
      exact congrArg some (hphase (some.inj h))
    | succ s => exact h

theorem settle_sockets {owner : Owner} {loop : Loop} :
    (k.settle owner loop).sockets = k.sockets := by
  unfold settle
  split <;> rfl

theorem opened_kept : Kept Opened where
  event {k k' e} h hm := by
    cases hm with
    | connected hsock hphase | connectFailed hsock hphase =>
      exact h.set hsock settle_sockets fun ho => nomatch hphase.symm.trans ho
    | readFailed hsock hreader => exact h.set hsock rfl id
    | loopWake hloop =>
      unfold Opened connectSocket at *
      cases hs : k.sockets with
      | nil =>
        rw [hs] at h
        cases h
      | cons first rest =>
        rw [hs] at h
        exact h
    | loopRetry hloop => exact h
  frame {k s sock} h hsock _ := by
    unfold goOn
    split
    · exact h
    · exact h.set hsock rfl id

theorem Unopened.event {k' : Link} {e : LinkEvent} (h : k.Unopened) (hm : k.Moves e k') :
    k.sockets.head?.map Sock.phase = some .connecting ∧ k'.Opened ∨ k'.Failed := by
  obtain ⟨hconnected, hloops, sock, hsockets, howner, hreader, hopened⟩ := h
  have hone : ∀ {s : Nat} {v : Sock}, k.sockets[s]? = some v → s = 0 ∧ v = sock := by
    intro s v hv
    rw [hsockets] at hv
    cases s with
    | zero => exact ⟨rfl, (some.inj hv).symm⟩
    | succ s => cases hv
  cases hm with
  | @connected s v hsock hphase =>
    obtain ⟨rfl, rfl⟩ := hone hsock
    refine .inl ⟨?_, ?_⟩
    · rw [hsockets]
      exact congrArg some hphase
    · unfold Opened
      rw [settle_sockets, hsockets]
      rfl
  | @connectFailed s v hsock hphase =>
    obtain ⟨rfl, rfl⟩ := hone hsock
    have hsettle : ∀ k : Link, k.settle v.owner .caught = k := fun k => by
      rw [howner]
      rfl
    rw [hsettle]
    refine .inr ⟨⟨hconnected, hloops, { v with phase := .failed }, ?_, howner, hreader, nofun⟩, ?_⟩
    · show k.sockets.set 0 _ = _
      rw [hsockets]
      rfl
    · show (k.sockets.set 0 _).head?.map Sock.phase = _
      rw [hsockets]
      rfl
  | @readFailed s v hsock hreading =>
    obtain ⟨rfl, rfl⟩ := hone hsock
    cases hreader.symm.trans hreading
  | loopWake hloop | loopRetry hloop =>
    rw [hloops] at hloop
    cases hloop

theorem Unopened.frame {s : Nat} {sock : Sock} (h : k.Unopened)
    (hsock : k.sockets[s]? = some sock) : sock.reader ≠ .reading := by
  obtain ⟨-, -, v, hsockets, -, hreader, -⟩ := h
  have hmem := mem_of_getElem? hsock
  rw [hsockets, mem_singleton] at hmem
  rw [hmem, hreader]
  exact nofun

theorem fresh_kept : Kept fun k => k.Unopened ∨ k.Opened where
  event h hm := by
    rcases h with h | h
    · rcases h.event hm with ⟨-, ho⟩ | hf
      · exact .inr ho
      · exact .inl hf.1
    · exact .inr (opened_kept.event h hm)
  frame h hsock hreader := by
    rcases h with h | h
    · exact absurd hreader (h.frame hsock)
    · exact .inr (opened_kept.frame h hsock hreader)

theorem failed_kept : Kept Failed where
  event h hm := by
    rcases h.1.event hm with ⟨hphase, -⟩ | hf
    · cases hphase.symm.trans h.2
    · exact hf
  frame h hsock hreader := absurd hreader (h.1.frame hsock)

end Link

/-! ## The client -/

variable {J : Js}

namespace RoutingClient

/-- An operation is connecting worker `w`. -/
def Connects (r : RoutingClient J) (w : Nat) : Prop := ∃ op ∈ r.operations, op.pc = .connecting w

/-- No two workers of the same address are being connected. -/
def Exclusive (r : RoutingClient J) : Prop :=
  ∀ w w' worker worker', r.Connects w → r.Connects w' → r.workers[w]? = some worker →
    r.workers[w']? = some worker' → worker.addr = worker'.addr → w = w'

/-- Who has the workers, before `close`. -/
structure Owned (r : RoutingClient J) : Prop where
  fresh : ∀ worker ∈ r.workers, worker.client.link.Unopened ∨ worker.client.link.Opened
  stored : ∀ addr w, r.workerClients.lookup addr = some w →
    ∃ worker, r.workers[w]? = some worker ∧ worker.addr = addr
  connecting : ∀ w, r.Connects w → ∃ worker, r.workers[w]? = some worker ∧
    (r.workerClients.lookup worker.addr = none ∨ r.workerClients.lookup worker.addr = some w)
  owned : ∀ w worker, r.workers[w]? = some worker →
    r.workerClients.lookup worker.addr = some w ∨ r.Connects w ∨ worker.client.link.Failed

section
variable {r : RoutingClient J} {i w : Nat} {op : Operation J} {pc : OperationPc J}

theorem connects_append : Connects { r with operations := r.operations ++ [op] } w ↔
    r.Connects w ∨ op.pc = .connecting w := by
  constructor
  · rintro ⟨v, hv, hpc⟩
    rcases mem_concat_cases hv with hv | rfl
    · exact .inl ⟨v, hv, hpc⟩
    · exact .inr hpc
  · rintro (⟨v, hv, hpc⟩ | hpc)
    · exact ⟨v, mem_append_left _ hv, hpc⟩
    · exact ⟨op, mem_append_right _ (mem_singleton_self _), hpc⟩

theorem connects_of_set (hop : r.operations[i]? = some op)
    (h : Connects { r with operations := r.operations.set i { op with pc } } w) :
    r.Connects w ∨ pc = .connecting w := by
  obtain ⟨v, hv, hpc⟩ := h
  rcases mem_set_cases hop hv with rfl | hv
  · exact .inr hpc
  · exact .inl ⟨v, hv, hpc⟩

theorem connects_set (hop : r.operations[i]? = some op)
    (h : pc = .connecting w ∨ r.Connects w ∧ op.pc ≠ .connecting w) :
    Connects { r with operations := r.operations.set i { op with pc } } w := by
  rcases h with hpc | ⟨⟨v, hv, hpc⟩, hne⟩
  · exact ⟨_, mem_of_getElem? (set_of_some hop), hpc⟩
  · refine exists_mem_set hop hv ?_ hpc
    rintro rfl
    exact absurd hpc hne

end

namespace Owned

variable {r r' : RoutingClient J} {op : Operation J} {worker : Worker J}

section
variable (h : r.Owned)
include h

/-- The operations change, but the same workers are being connected. -/
theorem operations {ops : List (Operation J)}
    (hops : ∀ w, Connects { r with operations := ops } w ↔ r.Connects w) :
    Owned { r with operations := ops } where
  fresh := h.fresh
  stored := h.stored
  connecting w hw := h.connecting w ((hops w).1 hw)
  owned w worker hw := (h.owned w worker hw).imp id (.imp (hops w).2 id)

theorem setPc {i : Nat} {pc : OperationPc J} (hop : r.operations[i]? = some op)
    (hold : ∀ w, op.pc ≠ .connecting w) (hnew : ∀ w, pc ≠ .connecting w) :
    Owned { r with operations := r.operations.set i { op with pc } } :=
  h.operations fun w => ⟨fun hw => (connects_of_set hop hw).resolve_right (hnew w),
    fun hw => connects_set hop (.inr ⟨hw, hold w⟩)⟩

theorem setWorker {w : Nat} {client : Client J} (hw : r.workers[w]? = some worker)
    (hkeep : ∀ P, Link.Kept P → P worker.client.link → P client.link) :
    Owned { r with workers := r.workers.set w { worker with client } } := by
  -- the address of each worker stays
  have haddr : ∀ (v : Nat) (u : Worker J), r.workers[v]? = some u → ∃ u' : Worker J,
      (r.workers.set w { worker with client })[v]? = some u' ∧ u'.addr = u.addr := by
    intro v u hu
    refine exists_set hw hu ?_ rfl
    rintro rfl
    rfl
  refine ⟨forall_set hw h.fresh ?_, fun addr v hv => ?_, fun v hv => ?_, fun v u hu => ?_⟩
  · exact hkeep _ Link.fresh_kept (h.fresh worker (mem_of_getElem? hw))
  · obtain ⟨u, hu, ha⟩ := h.stored addr v hv
    obtain ⟨u', hu', ha'⟩ := haddr v u hu
    exact ⟨u', hu', ha'.trans ha⟩
  · obtain ⟨u, hu, hlookup⟩ := h.connecting v hv
    obtain ⟨u', hu', ha'⟩ := haddr v u hu
    exact ⟨u', hu', ha' ▸ hlookup⟩
  · rcases set_cases hw hu with ⟨rfl, rfl⟩ | ⟨-, hu⟩
    · exact (h.owned _ worker hw).imp id (.imp id (hkeep _ Link.failed_kept))
    · exact h.owned v u hu

theorem spawn {addr : String} {client : Client J} {ops : List (Operation J)}
    (hnone : r.workerClients.lookup addr = none) (hclient : client.link.Unopened)
    (hops : ∀ w, Connects { r with operations := ops } w ↔ r.Connects w ∨ w = r.workers.length) :
    Owned { r with
      workers := r.workers ++ [{ addr, client, closed := false }], operations := ops } := by
  refine ⟨forall_concat h.fresh (.inl hclient), fun a v hv => ?_, fun v hv => ?_,
    fun v u hu => ?_⟩
  · obtain ⟨u, hu, ha⟩ := h.stored a v hv
    exact ⟨u, concat_of_some hu, ha⟩
  · rcases (hops v).1 hv with hv | rfl
    · obtain ⟨u, hu, hlookup⟩ := h.connecting v hv
      exact ⟨u, concat_of_some hu, hlookup⟩
    · exact ⟨_, getElem?_concat_length, .inl hnone⟩
  · rcases concat_cases hu with hu | ⟨rfl, rfl⟩
    · exact (h.owned v u hu).imp id (.imp (fun hv => (hops v).2 (.inl hv)) id)
    · exact .inr (.inl ((hops _).2 (.inr rfl)))

/-- The second part of `_resolveWorker`, for an operation that was not connecting a worker. -/
theorem findWorker (addr : String) (ops : OperationPc J → List (Operation J))
    (hops : ∀ pc w, Connects { r with operations := ops pc } w ↔
      r.Connects w ∨ pc = .connecting w) :
    Owned { (r.findWorker addr).1 with operations := ops (r.findWorker addr).2 } := by
  unfold RoutingClient.findWorker
  split
  · exact h.operations fun w => (hops _ w).trans (or_iff_left nofun)
  · rename_i hnone
    refine h.spawn hnone (Link.unopened_connect _ addr) fun w => (hops _ w).trans ?_
    exact or_congr_right ⟨fun he => (OperationPc.connecting.inj he).symm, fun he => he ▸ rfl⟩

theorem store (hexcl : r.Exclusive) {i w : Nat} (hop : r.operations[i]? = some op)
    (hpc : op.pc = .connecting w) (hw : r.workers[w]? = some worker) :
    Owned { r with
      workerClients := r.workerClients.insert worker.addr w
      operations := r.operations.set i { op with pc := .ready (some w) } } := by
  have hconn : r.Connects w := ⟨op, mem_of_getElem? hop, hpc⟩
  refine ⟨h.fresh, fun a v hv => ?_, fun v hv => ?_, fun v u hu => ?_⟩
  · by_cases ha : a = worker.addr
    · subst ha
      rw [AList.lookup_insert] at hv
      obtain rfl := some.inj hv
      exact ⟨worker, hw, rfl⟩
    · rw [AList.lookup_insert_ne ha] at hv
      exact h.stored a v hv
  · have hv' : r.Connects v := (connects_of_set hop hv).resolve_right nofun
    obtain ⟨u, hu, hlookup⟩ := h.connecting v hv'
    refine ⟨u, hu, ?_⟩
    by_cases ha : u.addr = worker.addr
    · obtain rfl := hexcl v w u worker hv' hconn hu hw ha
      exact .inr (ha ▸ AList.lookup_insert _)
    · rw [AList.lookup_insert_ne ha]
      exact hlookup
  · by_cases hvw : v = w
    · subst hvw
      obtain rfl := mem_unique hw hu
      exact .inl (AList.lookup_insert _)
    · rcases h.owned v u hu with hlookup | hv | hfailed
      · have ha : u.addr ≠ worker.addr := by
          intro ha
          rw [ha] at hlookup
          obtain ⟨worker', hw', hl⟩ := h.connecting w hconn
          obtain rfl := mem_unique hw hw'
          rcases hl with hl | hl
          · cases hlookup.symm.trans hl
          · exact hvw (mem_unique hlookup hl)
        exact .inl ((AList.lookup_insert_ne ha).trans hlookup)
      · have hne : op.pc ≠ .connecting v := fun he =>
          hvw (OperationPc.connecting.inj (he.symm.trans hpc))
        exact .inr (.inl (connects_set hop (.inr ⟨hv, hne⟩)))
      · exact .inr (.inr hfailed)

theorem fail {i w : Nat} {failure : Failure J} (hop : r.operations[i]? = some op)
    (hpc : op.pc = .connecting w) (hw : r.workers[w]? = some worker)
    (hphase : worker.client.link.sockets.head?.map Sock.phase = some .failed) :
    Owned { r with operations := r.operations.set i { op with pc := .failed failure } } := by
  refine ⟨h.fresh, h.stored, fun v hv => ?_, fun v u hu => ?_⟩
  · exact h.connecting v ((connects_of_set hop hv).resolve_right nofun)
  · by_cases hvw : v = w
    · subst hvw
      obtain rfl := mem_unique hw hu
      have hunopened := (h.fresh worker (mem_of_getElem? hw)).resolve_right fun ho =>
        nomatch hphase.symm.trans ho
      exact .inr (.inr ⟨hunopened, hphase⟩)
    · refine (h.owned v u hu).imp id (.imp (fun hv => ?_) id)
      exact connects_set hop (.inr ⟨hv, fun he =>
        hvw (OperationPc.connecting.inj (he.symm.trans hpc))⟩)

/-- A call of the client or of a worker does not touch the connections. -/
theorem invoke {worker : Option Nat} {method : Method} {func : String} {args : List J.Val}
    {x : RoutingClient J × Except (Failure J) Nat}
    (hx : r.invoke worker method func args = some x) :
    x.1.Owned ∧ x.1.operations = r.operations := by
  unfold RoutingClient.invoke at hx
  split at hx
  · cases hx
    exact ⟨{ h with }, rfl⟩
  · split at hx
    · cases hx
    · rename_i worker hw
      cases hx
      have hlink : (worker.client.invoke method func args).1.link = worker.client.link :=
        Client.invoke_same.1
      exact ⟨h.setWorker hw fun P _ hp => hlink.symm ▸ hp, rfl⟩

theorem discovered {i : Nat} (result : Settled J) (hop : r.operations[i]? = some op)
    (hpc : ∀ w, op.pc ≠ .connecting w) :
    Owned { (r.discovered op.func result).1 with
      operations := r.operations.set i { op with pc := (r.discovered op.func result).2 } } := by
  unfold RoutingClient.discovered
  split
  · exact h.setPc hop hpc nofun
  · split
    · exact h.setPc hop hpc nofun
    · rename_i addr _ _
      have hcache : Owned { r with routeCache := r.routeCache.insert op.func addr } :=
        { h with }
      exact hcache.findWorker addr (fun pc => r.operations.set i { op with pc }) fun pc w =>
        ⟨connects_of_set (r := r) hop, fun hw =>
          connects_set (r := r) hop (hw.symm.imp id fun hw => ⟨hw, hpc w⟩)⟩

end

theorem findWorker_operations {addr : String} :
    (r.findWorker addr).1.operations = r.operations := by
  unfold RoutingClient.findWorker
  split <;> rfl

theorem resolveWorker_operations {func : String} :
    (r.resolveWorker func).1.operations = r.operations := by
  unfold RoutingClient.resolveWorker
  split
  · rfl
  · split
    · split
      · rfl
      · exact findWorker_operations
    · rfl

theorem discovered_operations (r : RoutingClient J) (func : String) (result : Settled J) :
    (r.discovered func result).1.operations = r.operations := by
  unfold RoutingClient.discovered
  split
  · rfl
  · split
    · rfl
    · exact findWorker_operations

theorem operation (h : r.Owned) (hexcl : r.Exclusive) {i : Nat}
    {x : RoutingClient J × OperationPc J} (hop : r.operations[i]? = some op)
    (hx : r.operationStep op = some x) :
    Owned { x.1 with operations := x.1.operations.set i { op with pc := x.2 } } := by
  have hinvoke : ∀ (pc : OperationPc J) {worker method func args}
      {y : RoutingClient J × Except (Failure J) Nat}, (∀ w, op.pc ≠ .connecting w) →
      (∀ w, pc ≠ .connecting w) → r.invoke worker method func args = some y →
      Owned { y.1 with operations := y.1.operations.set i { op with pc } } := by
    intro pc worker method func args y hold hnew hy
    obtain ⟨howned, hsame⟩ := h.invoke hy
    exact howned.setPc (hsame ▸ hop) hold hnew
  unfold operationStep at hx
  split at hx
  · rename_i hpc
    have hold : ∀ w, op.pc ≠ .connecting w := fun w he => nomatch hpc.symm.trans he
    split at hx <;> cases hx
    · exact hinvoke (.discovering _) hold nofun ‹_›
    · exact hinvoke (.failed _) hold nofun ‹_›
  · rename_i id hpc
    obtain ⟨result, -, rfl⟩ := map_eq_some_iff.1 hx
    have hd := h.discovered result hop fun w he => nomatch hpc.symm.trans he
    rwa [← discovered_operations r op.func result] at hd
  · rename_i w hpc
    unfold workerConnected at hx
    split at hx
    · cases hx
    · split at hx <;> cases hx
      · exact h.store hexcl hop hpc ‹_›
      · exact h.fail hop hpc ‹_› ‹_›
  · rename_i worker hpc
    have hold : ∀ w, op.pc ≠ .connecting w := fun w he => nomatch hpc.symm.trans he
    split at hx <;> cases hx
    · exact hinvoke (.running _ _) hold nofun ‹_›
    · exact hinvoke (.failed _) hold nofun ‹_›
  · cases hx
  · cases hx

theorem start (h : r.Owned) (method : Method) (func : String) (args : List J.Val) :
    (r.start method func args).Owned := by
  have hops : ∀ pc w,
    Connects { r with operations := r.operations ++ [⟨method, func, args, pc⟩] } w ↔
      r.Connects w ∨ pc = .connecting w := fun pc w => connects_append
  have happend : ∀ pc, (∀ w, pc ≠ .connecting w) →
      Owned { r with operations := r.operations ++ [⟨method, func, args, pc⟩] } := fun pc hpc =>
    h.operations fun w => (hops pc w).trans (or_iff_left (hpc w))
  show Owned { (r.resolveWorker func).1 with
    operations := (r.resolveWorker func).1.operations ++
      [{ method, func, args, pc := (r.resolveWorker func).2 }] }
  rw [resolveWorker_operations]
  unfold RoutingClient.resolveWorker
  split
  · exact happend (.ready none) nofun
  · split
    · split
      · exact happend .asking nofun
      · exact h.findWorker _ (fun pc => r.operations ++ [⟨method, func, args, pc⟩]) hops
    · exact happend .asking nofun

/-- **A step other than `close`.** -/
theorem step {l : Label J} (h : r.Owned) (hexcl : r.Exclusive) (hl : l ≠ .close)
    (hs : step r l = some r') : r'.Owned := by
  have hsame : ∀ client isRegistry, Owned { r with client, isRegistry } := fun _ _ =>
    { h with }
  cases l with
  | connect addr | connectRegistry addr =>
    cases hs
    exact hsame _ _
  | routed s =>
    rw [RoutingClient.step] at hs
    split at hs
    · split at hs <;> cases hs
      exact hsame _ _
    · cases hs
  | start method func args =>
    cases hs
    exact h.start method func args
  | operation i =>
    obtain ⟨op, hop, hs⟩ := bind_eq_some_iff.1 hs
    obtain ⟨x, hx, hs⟩ := bind_eq_some_iff.1 hs
    cases hs
    exact h.operation hexcl hop hx
  | client e =>
    obtain ⟨client, he, hs⟩ := bind_eq_some_iff.1 hs
    cases hs
    exact hsame _ _
  | worker w e =>
    obtain ⟨worker, hw, hs⟩ := bind_eq_some_iff.1 hs
    obtain ⟨client, he, hs⟩ := bind_eq_some_iff.1 hs
    cases hs
    exact h.setWorker hw fun P hP hp => Client.event_link hP hp he
  | close => exact absurd rfl hl

theorem of_connected (h : r.Owned) {w : Nat} (hw : r.workers[w]? = some worker)
    (hc : worker.client.link.connected = true) :
    r.workerClients.lookup worker.addr = some w ∨ r.Connects w := by
  rcases h.owned w worker hw with hl | hn | hf
  · exact .inl hl
  · exact .inr hn
  · cases hc.symm.trans hf.1.1

theorem unique (h : r.Owned) (hexcl : r.Exclusive) {w w' : Nat} {worker' : Worker J}
    (hw : r.workers[w]? = some worker) (hw' : r.workers[w']? = some worker')
    (ha : worker.addr = worker'.addr) (hc : worker.client.link.connected = true)
    (hc' : worker'.client.link.connected = true) : w = w' := by
  -- one that is being connected while another one is kept
  have hmixed : ∀ {v v' : Nat} {u u' : Worker J}, r.workers[v]? = some u → u.addr = u'.addr →
      r.Connects v → r.workerClients.lookup u'.addr = some v' → v = v' := by
    intro v v' u u' hu hadr hv hlookup
    obtain ⟨u₁, hu₁, hl⟩ := h.connecting v hv
    obtain rfl := mem_unique hu hu₁
    rw [hadr, hlookup] at hl
    exact (some.inj (hl.resolve_left nofun)).symm
  rcases h.of_connected hw hc with hl | hn <;> rcases h.of_connected hw' hc' with hl' | hn'
  · exact some.inj (hl.symm.trans (ha ▸ hl'))
  · exact (hmixed hw' ha.symm hn' hl).symm
  · exact hmixed hw ha hn hl'
  · exact hexcl w w' worker worker' hn hn' hw hw' ha

theorem close (h : r.Owned) (hnone : ∀ w, ¬ r.Connects w) :
    ∀ worker ∈ r.close.workers, worker.client.link.Opened → worker.closed = true := by
  intro worker hworker hopened
  obtain ⟨w, hw⟩ := mem_iff_getElem?.1 hworker
  simp only [RoutingClient.close, getElem?_mapIdx] at hw
  obtain ⟨u, hu, rfl⟩ := map_eq_some_iff.1 hw
  split at hopened
  · rw [if_pos ‹_›]
    rfl
  · rename_i hl
    rcases h.owned w u hu with hl' | hn | hf
    · exact absurd hl' hl
    · exact absurd hn (hnone w)
    · exact absurd hopened hf.1.not_opened

end Owned

theorem init_not_connects (reconnect : Bool) (timeout w : Nat) :
    ¬ (init reconnect timeout : RoutingClient J).Connects w := by
  rintro ⟨op, hop, -⟩
  cases hop

theorem init_owned (reconnect : Bool) (timeout : Nat) :
    (init reconnect timeout : RoutingClient J).Owned where
  fresh _ hw := nomatch hw
  stored _ _ hw := nomatch hw
  connecting w hw := absurd hw (init_not_connects reconnect timeout w)
  owned _ _ hw := nomatch hw

/-- A step other than `close`, after which no two workers of one address are being connected. -/
def Orderly (r : RoutingClient J) (l : Label J) : Prop :=
  l ≠ .close ∧ ∀ r', step r l = some r' → r'.Exclusive

/-- **A client has all its workers**, if no two operations connect workers of one address at the
same time: one worker client of each address is connected, and `close`, called while no worker is
being connected, closes all that have ever connected. -/
theorem workers_owned {reconnect : Bool} {timeout : Nat} {ls : List (Label J)} {r : RoutingClient J}
    (hok : Along step Orderly (.init reconnect timeout) ls)
    (hrun : run step (.init reconnect timeout) ls = some r) :
    (∀ (w w' : Nat) (worker worker' : Worker J), r.workers[w]? = some worker →
      r.workers[w']? = some worker' → worker.addr = worker'.addr →
      worker.client.link.connected = true → worker'.client.link.connected = true → w = w') ∧
    ((∀ w, ¬ r.Connects w) →
      ∀ worker ∈ r.close.workers, worker.client.link.Opened → worker.closed = true) := by
  have hexcl : (init reconnect timeout : RoutingClient J).Exclusive :=
    fun w _ _ _ hw => absurd hw (init_not_connects reconnect timeout w)
  have hstep : ∀ (r : RoutingClient J) l r', r.Owned ∧ r.Exclusive → Orderly r l →
      step r l = some r' → r'.Owned ∧ r'.Exclusive := fun r l r' h hl hs =>
    ⟨h.1.step h.2 hl.1 hs, hl.2 r' hs⟩
  obtain ⟨howned, hexclusive⟩ := run_invariant hstep
    ⟨init_owned reconnect timeout, hexcl⟩ hok hrun
  exact ⟨fun w w' worker worker' => howned.unique hexclusive, howned.close⟩

def connecting (op : Operation J) : Bool :=
  match op.pc with
  | .connecting _ => true
  | _ => false

theorem mem_connecting {r : RoutingClient J} {w : Nat} {op : Operation J} (hop : op ∈ r.operations)
    (hpc : op.pc = .connecting w) : op ∈ r.operations.filter connecting :=
  mem_filter.2 ⟨hop, by rw [connecting, hpc]⟩

theorem exclusive_of_one {r : RoutingClient J} (h : (r.operations.filter connecting).length ≤ 1) :
    r.Exclusive := by
  rintro w w' - - ⟨op, hop, hpc⟩ ⟨op', hop', hpc'⟩ - - -
  obtain rfl : op = op' := by
    obtain ⟨i, hi⟩ := mem_iff_getElem?.1 (mem_connecting hop hpc)
    obtain ⟨j, hj⟩ := mem_iff_getElem?.1 (mem_connecting hop' hpc')
    have hi' := lt_of_some hi
    have hj' := lt_of_some hj
    obtain rfl : i = j := by omega
    exact mem_unique hi hj
  exact OperationPc.connecting.inj (hpc.symm.trans hpc')

theorem not_connects_of_none {r : RoutingClient J} (h : r.operations.filter connecting = [])
    (w : Nat) :
    ¬ r.Connects w := by
  rintro ⟨op, hop, hpc⟩
  exact not_mem_nil (h ▸ mem_connecting hop hpc)

def answer (id : Nat) (addr : String) : Label plain :=
  .client (.frame 0 { id, type := "response", result := Datum.list [addr] })

/-- Two calls, one of which asks for its worker while that of the other one is connected. -/
def inTurn : List (Label plain) :=
  [.connectRegistry "r", .client (.link (.connected 0)), .routed 0, .start .call "f" [],
    .start .call "g" [], .operation 0, answer 1 "w", .operation 0, .operation 1,
    .worker 0 (.link (.connected 0)), .operation 0, answer 2 "v", .operation 1,
    .worker 1 (.link (.connected 0)), .operation 1]

theorem workers_owned_two : ∃ r : RoutingClient plain,
    run step (.init false 30000) inTurn = some r ∧ r.workers.length = 2 ∧
      ∀ worker ∈ r.close.workers, worker.client.link.Opened → worker.closed = true := by
  have hok : Along step Orderly (.init false 30000) inTurn := by
    unfold inTurn
    repeat refine Along.cons ⟨nofun, fun r' hs => exclusive_of_one (by cases hs; decide)⟩ rfl ?_
    exact trivial
  obtain ⟨r, hrun, hlength, hnone⟩ : ∃ r, run step (.init false 30000) inTurn = some r ∧
      r.workers.length = 2 ∧ r.operations.filter connecting = [] := ⟨_, rfl, rfl, rfl⟩
  exact ⟨r, hrun, hlength, (workers_owned hok hrun).2 (not_connects_of_none hnone)⟩

def twoCalls : List (Label plain) :=
  [.connectRegistry "r", .client (.link (.connected 0)), .routed 0, .start .call "f" [],
    .start .call "f" [], .operation 0, .operation 1, answer 1 "w", answer 2 "w", .operation 0,
    .operation 1, .worker 0 (.link (.connected 0)), .worker 1 (.link (.connected 0)),
    .operation 0, .operation 1]

/-- Both calls make a worker client, and `close` leaves one connected. -/
theorem workers_leak : ∃ r : RoutingClient plain,
    run step (.init false 30000) twoCalls = some r ∧
      r.workers.map (fun worker => (worker.addr, worker.client.link.connected)) =
        [("w", true), ("w", true)] ∧
      (∀ w, ¬ r.Connects w) ∧
      r.close.workers.map (fun worker => (worker.client.link.connected, worker.closed)) =
        [(true, false), (false, true)] := by
  obtain ⟨r, hrun, hnone, hworkers, hclosed⟩ : ∃ r, run step (.init false 30000) twoCalls = some r ∧
      r.operations.filter connecting = [] ∧
      r.workers.map (fun worker => (worker.addr, worker.client.link.connected)) =
        [("w", true), ("w", true)] ∧
      r.close.workers.map (fun worker => (worker.client.link.connected, worker.closed)) =
        [(true, false), (false, true)] := ⟨_, rfl, rfl, rfl, rfl⟩
  exact ⟨r, hrun, hworkers, not_connects_of_none hnone, hclosed⟩

end RoutingClient

end Callwire.Ts
