import Callwire.Py.Proof.Calls
import Callwire.Py.Routing

/-!
# `batch` keeps the order of the calls

A `batch` that has returned has for each of its calls, in their order, the result of the first
message with the id of that call's request (`Client.batch_replied`), and it can always be brought to
its end by its own moves when its replies are there (`Client.batch_sends`, `Client.batch_returns`).

A routed batch groups its calls by worker, runs a `batch` for each group and puts the results back
in their places. `RoutedBatch.Sound` carries this through: the groups hold the resolved calls, each
once (`Lib.members_addTo`), the results of a group that was run are in the places of its calls, and
two groups have different workers, so that two calls never share a reply.
-/

namespace Callwire.Py

open Lib List Option RoutedBatch Router

variable {P : Python}

/-- The values are those of the calls, one by one: call `i` has the home `home i`, which is that of
no other call, and `Reply` says what came from there. -/
def Ordered {κ : Type} (Reply : κ → Call P → P.Val → Prop) (calls : List (Call P))
    (results : List P.Val) : Prop :=
  results.length = calls.length ∧ ∃ home : Nat → κ,
    (∀ i j, i < calls.length → j < calls.length → home i = home j → i = j) ∧
    ∀ i call v, calls[i]? = some call → results[i]? = some v → Reply (home i) call v

/-- The results that are still to be collected. -/
def Op.missing (op : Op P) : Nat := op.calls.length - op.results.length

namespace Client

variable {imports : List CodecName} {reconnect : Bool} {c c' : Client P} {i : Nat} {op : Op P}

/-- The request for `call` with the id of queue `q` was written, and `v` is the result of the first
message with that id for which there was a queue. -/
def Replied (c : Client P) (q : Nat) (call : Call P) (v : P.Val) : Prop :=
  ∃ s payload m, Kind.request (q + 1) call .batch = .ok payload ∧ (s, payload) ∈ c.wire ∧
    c.handled.find? (fun m => m.id = q + 1) = some m ∧ m.result = v

/-! ## A direct batch -/

/-- The first message in a queue is the first that was handled for it. -/
theorem find_handled (h : c.post.Sound) {q : Nat} {slot : Slot P} {m : WireMessage P}
    (hslot : c.slots[q]? = some slot) (hput : slot.queue.put[0]? = some (.msg m)) :
    c.handled.find? (fun m => m.id = q + 1) = some m := by
  have hmsgs : slot.msgs.head? = some m := by
    cases hp : slot.queue.put with
    | nil =>
      rw [hp] at hput
      cases hput
    | cons item rest =>
      rw [hp] at hput
      obtain rfl : item = .msg m := some.inj hput
      rw [Slot.msgs, hp]
      rfl
  have hreplies : slot.msgs ++ c.reader.inHand q = c.handled.filter fun m => m.id = q + 1 :=
    h.replies q slot hslot
  rw [← head?_filter, ← hreplies, head?_append, hmsgs]
  rfl

/-- A `batch` that has returned has the result of the reply to each of its calls. -/
theorem batch_replied (hsound : c.post.Sound) (hop : op.Sound c.slots c.wire i)
    (hkind : op.kind = .batch) (hpc : op.pc = .finished .returned) :
    op.results.length = op.calls.length ∧ op.qs.length = op.calls.length ∧
      ∀ (j : Nat) call v, op.calls[j]? = some call → op.results[j]? = some v →
        ∃ q, op.qs[j]? = some q ∧ c.Replied q call v := by
  have hcollects : op.kind.collects = true := by
    rw [hkind]
    rfl
  have hphase := hop.phase
  rw [Op.Phase, hpc] at hphase
  obtain ⟨⟨hpayloads, hqs⟩, hresults⟩ := hphase
  refine ⟨hresults hcollects, hqs, fun j call v hcall hv => ?_⟩
  obtain ⟨q, slot, m, hq, hslot, hm, hv⟩ := hop.collected hcollects j v hv
  have hj : j < op.payloads.length := hpayloads.symm ▸ (lt_of_some hcall)
  obtain ⟨q', call', hq', hcall', hrequest⟩ :=
    hop.payload j _ (getElem?_eq_getElem hj)
  obtain rfl : q = q' := mem_unique hq hq'
  obtain rfl : call = call' := mem_unique hcall hcall'
  have hsent : j < op.sent := by
    rw [Op.sent, hpc]
    exact hj
  obtain ⟨s, hs⟩ := hop.written j _ hsent (getElem?_eq_getElem hj)
  rw [hkind] at hrequest
  exact ⟨q, hq, s, _, m, hrequest, hs, find_handled hsound hslot hm, hv⟩

/-- **A direct batch that has returned is in order.** -/
theorem replies_inOrder (hsound : c.post.Sound) (hop : op.Sound c.slots c.wire i)
    (hkind : op.kind = .batch) (hpc : op.pc = .finished .returned) :
    Ordered c.Replied op.calls op.results := by
  obtain ⟨hresults, hqs, hreplied⟩ := batch_replied hsound hop hkind hpc
  refine ⟨hresults, fun j => op.qs[j]?.getD 0, fun j k hj hk h => ?_, fun j call v hcall hv => ?_⟩
  · dsimp only at h
    rw [getElem?_eq_getElem (hqs.symm ▸ hj), getElem?_eq_getElem (hqs.symm ▸ hk)] at h
    exact (Nodup.getElem_inj_iff hop.nodup).1 h
  · obtain ⟨q, hq, h⟩ := hreplied j call v hcall hv
    dsimp only
    rw [hq]
    exact h

/-! ### Progress -/

/-- Every queue from which the call has still to take has a reply that is no error. -/
def Answered (c : Client P) (op : Op P) : Prop :=
  op.pc = .waiting ∧ ∀ (j q : Nat), op.results.length ≤ j → op.qs[j]? = some q →
    ∃ slot m type, c.slots[q]? = some slot ∧ slot.queue.put[0]? = some (.msg m) ∧
      m.type = some type ∧ type ≠ "error"

/-- What the batch has collected, if it is `op` or has gone on from it. -/
structure Collecting (c : Client P) (i : Nat) : Prop where
  calls : c.CallsSound
  batch : ∃ op, c.ops[i]? = some op ∧ op.kind = .batch ∧
    (op.pc = .finished .returned ∨ c.Answered op)

/-- What `f` is of call `i`. -/
def measure (f : Op P → Nat) (i : Nat) (c : Client P) : Nat := (c.ops[i]?.map f).getD 0

theorem measure_eq (f : Op P → Nat) (hop : c.ops[i]? = some op) : c.measure f i = f op := by
  rw [measure, hop]
  rfl

theorem Answered.get (hcalls : c.CallsSound) (hop : c.ops[i]? = some op) (hkind : op.kind = .batch)
    (h : c.Answered op) :
    ∃ c', step imports reconnect c (.op i .get) = some c' ∧ c'.Collecting i ∧
      c'.measure Op.missing i < c.measure Op.missing i := by
  have hsound := hcalls i op hop
  have hlt := lt_of_some hop
  have hcollects : op.kind.collects = true := by
    rw [hkind]
    rfl
  obtain ⟨hpc, hreplies⟩ := h
  have hphase := hsound.phase
  rw [Op.Phase, hpc] at hphase
  obtain ⟨⟨-, hqs⟩, hless⟩ := hphase
  have hless := hless hcollects
  obtain ⟨q, hq⟩ : ∃ q, op.qs[op.results.length]? = some q :=
    ⟨_, getElem?_eq_getElem (hqs.symm ▸ hless)⟩
  have hrun : op.Running := fun o ho => by cases hpc.symm.trans ho
  obtain ⟨slot, m, type, hslot, hm, htype, hne⟩ := hreplies _ q (Nat.le_refl _) hq
  have hfresh := hsound.fresh hcollects hrun _ q slot (Nat.le_refl _) hq hslot
  obtain ⟨queue, hget⟩ := BoundedQueue.get?_of_getElem? (hfresh.symm ▸ hm)
  have hqueue : op.queue = some q := by
    rw [Op.queue, hkind]
    exact hq
  have hreceive : op.receive (.msg m) = op.collect m.result
      (if op.results.length + 1 < op.qs.length then .waiting else .finished .returned) := by
    rw [Op.receive, hkind]
    simp only [Op.collectReply, htype, if_neg hne]
  have hs : step imports reconnect c (.op i .get) =
      some ((c.setQueue q slot queue).setOp i (op.receive (.msg m))) := by
    simp only [step, hop, bind_some, opStep, hpc, hqueue, hslot, hget,
      bind_eq_bind]
  rw [hreceive] at hs
  refine ⟨_, hs, ⟨hcalls.step hs, _, getElem?_set_self hlt, hkind, ?_⟩, ?_⟩
  · by_cases hmore : op.results.length + 1 < op.qs.length
    · refine .inr ⟨if_pos hmore, fun j k hj hk => ?_⟩
      have hj' : op.results.length + 1 ≤ j := by
        have : (op.results ++ [m.result]).length ≤ j := hj
        rwa [length_append] at this
      obtain ⟨slot', m', type', hslot', h'⟩ := hreplies j k (Nat.le_of_succ_le hj') hk
      have hne : q ≠ k := by
        rintro rfl
        have := (getElem?_inj (lt_of_some hq) hsound.nodup).1 (hq.trans hk.symm)
        omega
      exact ⟨slot', m', type', (getElem?_set_ne hne).trans hslot', h'⟩
    · exact .inl (if_neg hmore)
  · rw [measure_eq _ hop, measure_eq _ (getElem?_set_self hlt)]
    show op.calls.length - (op.results ++ [m.result]).length < op.calls.length - op.results.length
    rw [length_append, length_singleton]
    omega

/-- **A batch whose replies are there can return**, by its own moves. -/
theorem batch_returns (hcalls : c.CallsSound) (hop : c.ops[i]? = some op)
    (hkind : op.kind = .batch) (h : c.Answered op) :
    Reaches (step imports reconnect) (fun l => l = .op i .get)
      (fun c' => ∃ op', c'.ops[i]? = some op' ∧ op'.pc = .finished .returned) c := by
  refine Reaches.of_progress (Collecting · i) (measure Op.missing i) (fun c hc => ?_)
    ⟨hcalls, op, hop, hkind, .inr h⟩
  obtain ⟨op', hop', hkind', hpc | h⟩ := hc.batch
  · exact .inl ⟨op', hop', hpc⟩
  · obtain ⟨c', hs, hc', hlt⟩ := h.get hc.calls hop' hkind'
    exact .inr (.step_one hs rfl ⟨hc', hlt⟩)

def Packable (calls : List (Call P)) : Prop :=
  ∀ call ∈ calls, ∀ v ∈ call.args.getD [], P.refuse v = none

theorem Packable.request {calls : List (Call P)} (h : Packable calls) {call : Call P}
    (hcall : call ∈ calls) (id : Nat) : ∃ payload, Kind.request id call .batch = .ok payload := by
  have hnone : (call.args.getD []).findSome? P.refuse = none :=
    findSome?_eq_none_iff.2 (h call hcall)
  rw [Kind.request, packRequest, packb, hnone]
  exact ⟨_, rfl⟩

/-- The requests of the batch can be made and written. -/
structure Sending (c : Client P) (i : Nat) : Prop where
  calls : c.CallsSound
  free : c.locked = false
  conn : ∃ s, c.conn = some s
  batch : ∃ op, c.ops[i]? = some op ∧ op.kind = .batch ∧ Packable op.calls ∧
    (op.pc = .registering ∨ op.pc = .packing ∨ (∃ k, op.pc = .writing k) ∨ op.pc = .waiting)

end Client

/-- How many moves a call is from its first `q.get`. -/
def Op.unsent (op : Op P) : Nat :=
  match op.pc with
  | .registering => 2 * (op.calls.length - op.payloads.length) + op.calls.length + 1
  | .packing => 2 * (op.calls.length - op.payloads.length) + op.calls.length
  | .writing k => op.calls.length - k
  | _ => 0

/-- The moves of a call up to its first `q.get`. -/
inductive OpLabel.Sends : OpLabel P → Prop
  | register : Sends .register
  | pack : Sends .pack
  | write : Sends (.write none)

namespace Client

variable {imports : List CodecName} {reconnect : Bool} {c c' : Client P} {i : Nat} {op : Op P}

theorem Sending.advance (himports : CodecName.packRequest ∈ imports) (h : c.Sending i) :
    (∃ op, c.ops[i]? = some op ∧ op.pc = .waiting) ∨
    ∃ l c', OpLabel.Sends l ∧ step imports reconnect c (.op i l) = some c' ∧ c'.Sending i ∧
      c'.measure Op.unsent i < c.measure Op.unsent i := by
  obtain ⟨op, hop, hkind, hpack, hpc⟩ := h.batch
  have hi := lt_of_some hop
  have hphase := (h.calls i op hop).phase
  rw [measure_eq _ hop]
  rcases hpc with hpc | hpc | ⟨k, hpc⟩ | hpc
  · right
    rw [Op.Phase, hpc] at hphase
    have hs : step imports reconnect c (.op i .register) = some
        { c with
          slots := c.slots ++ [⟨i, .new op.kind.maxsize⟩]
          pending := c.pending ++ [c.slots.length]
          ops := c.ops.set i { op with qs := op.qs ++ [c.slots.length], pc := .packing } } := by
      simp only [step, hop, bind_some, opStep, hpc, h.free, Bool.false_eq_true, if_false]
    refine ⟨.register, _, .register, hs,
      ⟨h.calls.step hs, h.free, h.conn, _, getElem?_set_self hi, hkind, hpack,
        .inr (.inl rfl)⟩, ?_⟩
    rw [measure_eq _ (getElem?_set_self hi), Op.unsent, Op.unsent, hpc]
    exact Nat.lt_succ_self _
  · right
    rw [Op.Phase, hpc] at hphase
    obtain ⟨hpay, hqs, -⟩ := hphase
    have hq : op.payloads.length < op.qs.length := hpay ▸ Nat.lt_succ_self _
    have hcall : op.payloads.length < op.calls.length := Nat.lt_of_lt_of_le hq hqs
    obtain ⟨payload, hpayload⟩ := hpack.request (getElem_mem hcall)
      (op.qs[op.payloads.length] + 1)
    have hs : step imports reconnect c (.op i .pack) = some (c.setOp i
        { op with
          payloads := op.payloads ++ [payload]
          pc := if op.qs.length < op.calls.length then .registering else .writing 0 }) := by
      simp only [step, hop, bind_some, opStep, hpc, getElem?_eq_getElem hq,
        getElem?_eq_getElem hcall, hkind, Kind.packer, bound, if_pos himports, hpayload]
    refine ⟨.pack, _, .pack, hs,
      ⟨h.calls.step hs, h.free, h.conn, _, getElem?_set_self hi, hkind, hpack, ?_⟩, ?_⟩
    · by_cases hmore : op.qs.length < op.calls.length
      · exact .inl (if_pos hmore)
      · exact .inr (.inr (.inl ⟨0, if_neg hmore⟩))
    · rw [measure_eq _ (getElem?_set_self hi), Op.unsent, Op.unsent, hpc]
      by_cases hmore : op.qs.length < op.calls.length
      · simp only [if_pos hmore, length_append, length_singleton]
        omega
      · simp only [if_neg hmore]
        omega
  · right
    rw [Op.Phase, hpc] at hphase
    obtain ⟨⟨hpay, -⟩, hk, -⟩ := hphase
    obtain ⟨s, hconn⟩ := h.conn
    have hk' : k < op.payloads.length := hpay.symm ▸ hk
    have hs : step imports reconnect c (.op i (.write none)) = some
        (setOp { c with wire := c.wire ++ [(s, op.payloads[k])] } i
          { op with pc := op.written k }) := by
      simp only [step, hop, bind_some, opStep, hpc, getElem?_eq_getElem hk', writeFrame,
        hconn]
    refine ⟨.write none, _, .write, hs,
      ⟨h.calls.step hs, h.free, ⟨s, hconn⟩, _, getElem?_set_self hi, hkind, hpack, ?_⟩, ?_⟩
    · by_cases hmore : k + 1 < op.payloads.length
      · exact .inr (.inr (.inl ⟨k + 1, if_pos hmore⟩))
      · refine .inr (.inr (.inr ((if_neg hmore).trans ?_)))
        rw [hkind]
    · rw [measure_eq _ (getElem?_set_self hi), Op.unsent, Op.unsent, hpc, Op.written, hkind]
      by_cases hmore : k + 1 < op.payloads.length
      · simp only [if_pos hmore]
        omega
      · simp only [if_neg hmore]
        omega
  · exact .inl ⟨op, hop, hpc⟩

/-- **A batch can write its requests**, by its own moves, on a client with a connection. -/
theorem batch_sends (himports : CodecName.packRequest ∈ imports) (h : c.Sending i) :
    Reaches (step imports reconnect) (fun l => ∃ l', OpLabel.Sends l' ∧ l = .op i l')
      (fun c' => ∃ op', c'.ops[i]? = some op' ∧ op'.pc = .waiting) c := by
  refine Reaches.of_progress (Sending · i) (measure Op.unsent i) (fun c hc => ?_) h
  rcases hc.advance himports with hw | ⟨l, c', hl, hs, hc', hlt⟩
  · exact .inl hw
  · exact .inr (.step_one hs ⟨l, hl, rfl⟩ ⟨hc', hlt⟩)

end Client

/-! ## A routed batch -/

/-- The first `n` calls are grouped by worker, each once. -/
structure RoutedBatch.Grouped (workers : List (Client P)) (n : Nat) (b : RoutedBatch P) : Prop where
  le : n ≤ b.calls.length
  indices : ((members b.workerCalls).map Prod.fst).Perm (List.range n)
  calls : ∀ x ∈ members b.workerCalls, b.calls[x.1]? = some x.2
  keys : (b.workerCalls.map Prod.fst).Nodup
  known : ∀ g ∈ b.workerCalls, g.1 < workers.length
  count : b.workerCalls.length ≤ n

/-- `op` is the call of `worker.batch` for group `k`, with worker `w`. -/
structure RoutedBatch.Nests (workers : List (Client P)) (b : RoutedBatch P) (k w : Nat)
    (items : List (Nat × Call P)) (c : Client P) (op : Op P) : Prop where
  group : b.workerCalls[k]? = some (w, items)
  worker : workers[w]? = some c
  nested : ∃ o, b.nested[k]? = some o ∧ c.ops[o]? = some op
  kind : op.kind = .batch
  calls : op.calls = items.map Prod.snd

/-- Group `k` was run, and its results are in their places. -/
def RoutedBatch.Ran (workers : List (Client P)) (b : RoutedBatch P) (k : Nat) : Prop :=
  ∃ w items c op, b.Nests workers k w items c op ∧ op.pc = .finished .returned ∧
    ∀ (p idx : Nat) call, items[p]? = some (idx, call) → b.results[idx]? = op.results[p]?

/-- What holds of a batch at each point. -/
def RoutedBatch.Phase (workers : List (Client P)) (resolutions : Nat) (b : RoutedBatch P) : Prop :=
  b.results.length = b.calls.length ∧
  match b.pc with
  | .resolving idx res =>
    idx < b.calls.length ∧ res < resolutions ∧ b.Grouped workers idx ∧ b.nested = []
  | .calling k =>
    b.Grouped workers b.calls.length ∧ k ≤ b.workerCalls.length ∧ b.nested.length = k ∧
      ∀ j < k, b.Ran workers j
  | .waiting k =>
    b.Grouped workers b.calls.length ∧ k < b.workerCalls.length ∧ b.nested.length = k + 1 ∧
      (∀ j < k, b.Ran workers j) ∧ ∃ w items c op, b.Nests workers k w items c op
  | .returned =>
    b.Grouped workers b.calls.length ∧ ∀ j < b.workerCalls.length, b.Ran workers j
  | .raised _ => True

/-! ### Workers go on -/

/-- The workers may have gone on, and there may be more. -/
def Later (workers workers' : List (Client P)) : Prop :=
  ∀ (w : Nat) c, workers[w]? = some c → ∃ c', workers'[w]? = some c' ∧
    ∀ (o : Nat) op, c.ops[o]? = some op → ∃ op', c'.ops[o]? = some op' ∧ op'.kind = op.kind ∧
      op'.calls = op.calls ∧ (op.pc = .finished .returned → op' = op)

theorem Later.refl (workers : List (Client P)) : Later workers workers :=
  fun _ c hc => ⟨c, hc, fun _ op hop => ⟨op, hop, rfl, rfl, fun _ => rfl⟩⟩

theorem later_concat (workers : List (Client P)) (c : Client P) : Later workers (workers ++ [c]) :=
  fun _ c hc => ⟨c, concat_of_some hc, fun _ op hop => ⟨op, hop, rfl, rfl, fun _ => rfl⟩⟩

theorem later_set {imports : List CodecName} {reconnect : Bool} {workers : List (Client P)}
    {w : Nat} {c c' : Client P} {l : Label P} (hc : workers[w]? = some c)
    (hs : c.step imports reconnect l = some c') : Later workers (workers.set w c') := by
  intro k d hd
  refine exists_set hc hd ?_ fun _ op hop => ⟨op, hop, rfl, rfl, fun _ => rfl⟩
  rintro rfl o op hop
  obtain ⟨op', hop', hkind, hcalls, -⟩ := Client.step_op hs hop
  refine ⟨op', hop', hkind, hcalls, fun hpc => ?_⟩
  exact mem_unique hop' (Client.step_finished hs hop fun hrun => hrun _ hpc)

theorem Later.length_le {workers workers' : List (Client P)} (h : Later workers workers') :
    workers.length ≤ workers'.length := by
  by_contra hlt
  obtain ⟨c, hc⟩ : ∃ c, workers[workers'.length]? = some c :=
    ⟨_, getElem?_eq_getElem (Nat.lt_of_not_le hlt)⟩
  obtain ⟨c', hc', -⟩ := h _ c hc
  exact absurd (lt_of_some hc') (Nat.lt_irrefl _)

namespace RoutedBatch

variable {workers workers' : List (Client P)} {b : RoutedBatch P} {k w n n' : Nat}

theorem Grouped.mono (h : b.Grouped workers n) (hw : Later workers workers') :
    b.Grouped workers' n :=
  { h with known := fun g hg => Nat.lt_of_lt_of_le (h.known g hg) hw.length_le }

theorem Nests.mono {items : List (Nat × Call P)} {c : Client P} {op : Op P}
    (h : b.Nests workers k w items c op) (hw : Later workers workers') :
    ∃ c' op', b.Nests workers' k w items c' op' ∧ (op.pc = .finished .returned → op' = op) := by
  obtain ⟨o, ho, hop⟩ := h.nested
  obtain ⟨c', hc', hlater⟩ := hw w c h.worker
  obtain ⟨op', hop', hkind, hcalls, hsame⟩ := hlater o op hop
  exact ⟨c', op',
    ⟨h.group, hc', ⟨o, ho, hop'⟩, hkind.trans h.kind, hcalls.trans h.calls⟩, hsame⟩

theorem Ran.mono (h : b.Ran workers k) (hw : Later workers workers') : b.Ran workers' k := by
  obtain ⟨w, items, c, op, hn, hpc, hplaces⟩ := h
  obtain ⟨c', op', hn', hsame⟩ := hn.mono hw
  obtain rfl := hsame hpc
  exact ⟨w, items, c', op', hn', hpc, hplaces⟩

/-- **The moves of the others** keep what holds of a batch. -/
theorem Phase.mono (h : b.Phase workers n) (hw : Later workers workers') (hn : n ≤ n') :
    b.Phase workers' n' := by
  refine ⟨h.1, ?_⟩
  have hphase := h.2
  cases hpc : b.pc with
  | resolving idx res =>
    rw [hpc] at hphase
    obtain ⟨hidx, hres, hg, hnested⟩ := hphase
    exact ⟨hidx, Nat.lt_of_lt_of_le hres hn, hg.mono hw, hnested⟩
  | calling k =>
    rw [hpc] at hphase
    obtain ⟨hg, hk, hlen, hran⟩ := hphase
    exact ⟨hg.mono hw, hk, hlen, fun j hj => (hran j hj).mono hw⟩
  | waiting k =>
    rw [hpc] at hphase
    obtain ⟨hg, hk, hlen, hran, w, items, c, op, hn⟩ := hphase
    obtain ⟨c', op', hn', -⟩ := hn.mono hw
    exact ⟨hg.mono hw, hk, hlen, fun j hj => (hran j hj).mono hw, w, items, c', op', hn'⟩
  | returned =>
    rw [hpc] at hphase
    obtain ⟨hg, hran⟩ := hphase
    exact ⟨hg.mono hw, fun j hj => (hran j hj).mono hw⟩
  | raised e => exact trivial

/-! ### The moves of a batch -/

theorem Grouped.nodup (h : b.Grouped workers n) :
    ((members b.workerCalls).map Prod.fst).Nodup :=
  h.indices.nodup_iff.2 nodup_range

theorem Grouped.add (h : b.Grouped workers n) {call : Call P} (hcall : b.calls[n]? = some call)
    (hw : w < workers.length) :
    Grouped workers (n + 1) { b with workerCalls := addTo w (n, call) b.workerCalls } := by
  have hperm := members_addTo w (n, call) b.workerCalls
  refine ⟨lt_of_some hcall, ?_, fun x hx => ?_,
    nodup_keys_addTo w (n, call) h.keys, fun g hg => ?_, ?_⟩
  · rw [range_succ]
    refine (hperm.map Prod.fst).trans ?_
    rw [map_append]
    exact h.indices.append_right _
  · rcases mem_append.1 (hperm.mem_iff.1 hx) with hx | hx
    · exact h.calls x hx
    · rw [mem_singleton.1 hx]
      exact hcall
  · rcases mem_keys_addTo w (n, call) (mem_map_of_mem hg) with hkey | hkey
    · exact hkey ▸ hw
    · obtain ⟨g', hg', hkey⟩ := mem_map.1 hkey
      exact hkey ▸ h.known g' hg'
  · exact Nat.le_trans (length_addTo_le ..) (Nat.succ_le_succ h.count)

section
variable {items : List (Nat × Call P)} {c : Client P} {op : Op P} {vs : List P.Val} {pc : RoutedPc}

theorem Nests.ran (hn : b.Nests workers k w items c op) (hg : b.Grouped workers n)
    (hlen : b.results.length = b.calls.length) (hpc : op.pc = .finished .returned)
    (hresults : op.results.length = op.calls.length) :
    Ran workers
      { b with results := scatter b.results ((items.map Prod.fst).zip op.results)
               pc := pc } k := by
  have hlen' : op.results.length = items.length := by
    rw [hresults, hn.calls, length_map]
  refine ⟨w, items, c, op, { hn with }, hpc,
    fun p idx call hp => ?_⟩
  have hlt : p < op.results.length := hlen' ▸ (lt_of_some hp)
  have hv : op.results[p]? = some op.results[p] := getElem?_eq_getElem hlt
  have hidx : (items.map Prod.fst)[p]? = some idx := by
    rw [getElem?_map, hp]
    rfl
  have hzip : ((items.map Prod.fst).zip op.results)[p]? = some (idx, op.results[p]) :=
    getElem?_zip_eq_some.2 ⟨hidx, hv⟩
  have hmem : (idx, call) ∈ members b.workerCalls :=
    mem_flatMap.2 ⟨_, mem_of_getElem? hn.group, mem_of_getElem? hp⟩
  rw [hv]
  refine scatter_of_mem ?_ (mem_of_getElem? hzip) ?_
  · rw [map_fst_zip (by rw [length_map, hlen'])]
    exact nodup_group hg.nodup hn.group
  · rw [hlen]
    exact lt_of_some (hg.calls _ hmem)

theorem Ran.keep {j : Nat} (h : b.Ran workers j) (hn : b.Nests workers k w items c op)
    (hg : b.Grouped workers n) (hjk : j ≠ k) :
    Ran workers { b with results := scatter b.results ((items.map Prod.fst).zip vs)
                         pc := pc } j := by
  obtain ⟨w', items', c', op', hn', hpc, hplaces⟩ := h
  refine ⟨w', items', c', op', { hn' with }, hpc,
    fun p idx call hp => ?_⟩
  refine (scatter_of_notMem fun hmem => hjk ?_).trans (hplaces p idx call hp)
  have hidx : idx ∈ items.map Prod.fst := by
    obtain ⟨x, hx, rfl⟩ := mem_map.1 hmem
    exact (of_mem_zip hx).1
  exact group_unique hg.nodup hn'.group hn.group
    (mem_map_of_mem (mem_of_getElem? hp)) hidx

theorem Ran.setPc {j : Nat} (h : b.Ran workers j) : Ran workers { b with pc := pc } j := by
  obtain ⟨w', items', c', op', hn, hpc, hplaces⟩ := h
  exact ⟨w', items', c', op', { hn with }, hpc, hplaces⟩

theorem Ran.nest {j o : Nat} (h : b.Ran workers j) :
    Ran workers { b with nested := b.nested ++ [o], pc := pc } j := by
  obtain ⟨w', items', c', op', hn, hpc, hplaces⟩ := h
  obtain ⟨o', ho', hop'⟩ := hn.nested
  exact ⟨w', items', c', op', { hn with nested := ⟨o', concat_of_some ho', hop'⟩ }, hpc, hplaces⟩

end

end RoutedBatch

/-! ### Runs -/

def ResolvePc.Known (workers : Nat) : ResolvePc → Prop
  | .storing _ w | .resolved (some w) => w < workers
  | _ => True

theorem ResolvePc.Known.mono {pc : ResolvePc} {n n' : Nat} (h : pc.Known n) (hn : n ≤ n') :
    pc.Known n' := by
  unfold Known at h ⊢
  split
  · exact Nat.lt_of_lt_of_le h hn
  · exact Nat.lt_of_lt_of_le h hn
  · exact trivial

namespace Router

structure Sound (r : Router P) : Prop where
  workers : ∀ c ∈ r.workers, c.post.Sound ∧ c.CallsSound
  kept : ∀ addr w, r.workerClients.lookup addr = some w → w < r.workers.length
  resolutions : ∀ res ∈ r.resolutions, res.pc.Known r.workers.length
  batches : ∀ b ∈ r.batches, b.Phase r.workers r.resolutions.length

section
variable {imports : List CodecName} {reconnect : Bool} {r r' : Router P} {b b' : RoutedBatch P}

theorem sound_init : (init : Router P).Sound where
  workers _ h := nomatch h
  kept _ _ h := nomatch (AList.lookup_empty _).symm.trans h
  resolutions _ h := nomatch h
  batches _ h := nomatch h

section
variable (h : r.Sound)
include h

theorem Sound.later {workers : List (Client P)} (hlater : Later r.workers workers)
    (hworkers : ∀ c ∈ workers, c.post.Sound ∧ c.CallsSound) :
    Sound { r with workers := workers } where
  workers := hworkers
  kept addr w hw := Nat.lt_of_lt_of_le (h.kept addr w hw) hlater.length_le
  resolutions res hres := (h.resolutions res hres).mono hlater.length_le
  batches b hb := (h.batches b hb).mono hlater (Nat.le_refl _)

theorem Sound.resolve (func : String) :
    Sound { r with resolutions := r.resolutions ++ [.start func] } := by
  refine ⟨h.workers, h.kept, forall_concat h.resolutions ?_,
    fun b hb => (h.batches b hb).mono (.refl _) ?_⟩
  · unfold Resolution.start
    dsimp only
    split <;> exact trivial
  · rw [length_append]
    exact Nat.le_add_right ..

theorem Sound.setWorker {w : Nat} {c c' : Client P} {l : Label P} (hc : r.workers[w]? = some c)
    (hs : c.step imports reconnect l = some c') :
    Sound { r with workers := r.workers.set w c' } := by
  obtain ⟨hsound, hcalls⟩ := h.workers c (mem_of_getElem? hc)
  refine h.later (later_set hc hs) (forall_set hc h.workers ?_)
  obtain ⟨e, hm, -⟩ := Client.step_post hs
  exact ⟨hsound.step hm, hcalls.step hs⟩

theorem resolveStep_sound {res : Resolution} {l : ResolveLabel} {pc : ResolvePc}
    (hres : res ∈ r.resolutions) (hs : r.resolveStep res l = some (r', pc)) :
    r'.Sound ∧ pc.Known r'.workers.length ∧ r'.resolutions = r.resolutions ∧
      r'.batches = r.batches := by
  have hknown := h.resolutions res hres
  unfold resolveStep at hs
  split at hs
  · split at hs
    · cases hs
      refine ⟨h, ?_, rfl, rfl⟩
      split <;> exact trivial
    · cases hs
      exact ⟨h, trivial, rfl, rfl⟩
  · cases hs
    exact ⟨h, trivial, rfl, rfl⟩
  · cases hs
    exact ⟨h, trivial, rfl, rfl⟩
  · cases hs
    exact ⟨{ h with }, trivial, rfl, rfl⟩
  · cases hs
    refine ⟨h, ?_, rfl, rfl⟩
    split <;> exact trivial
  · cases hs
    exact ⟨h, trivial, rfl, rfl⟩
  · cases hs
    refine ⟨h.later (later_concat r.workers .init)
      (forall_concat h.workers ⟨Post.sound_init, Client.callsSound_init⟩), ?_, rfl, rfl⟩
    show r.workers.length < (r.workers ++ [Client.init]).length
    rw [length_append]
    exact Nat.lt_succ_self _
  · rename_i addr w hpc
    cases hs
    refine ⟨{ h with kept := fun addr' w' hw' => ?_ }, trivial, rfl, rfl⟩
    rw [hpc] at hknown
    by_cases haddr : addr' = addr
    · subst haddr
      rw [AList.lookup_insert] at hw'
      obtain rfl := some.inj hw'
      exact hknown
    · rw [AList.lookup_insert_ne haddr] at hw'
      exact h.kept addr' w' hw'
  · split at hs
    · rename_i hw
      cases hs
      exact ⟨h, h.kept _ _ hw, rfl, rfl⟩
    · cases hs
      exact ⟨h, trivial, rfl, rfl⟩
  · cases hs

theorem resolveNext_sound {n : Nat} (hg : b.Grouped r.workers n)
    (hlen : b.results.length = b.calls.length) (hnested : b.nested = []) :
    (r.resolveNext b n).1.Sound ∧
      (r.resolveNext b n).2.Phase (r.resolveNext b n).1.workers
        (r.resolveNext b n).1.resolutions.length ∧
      (r.resolveNext b n).1.batches = r.batches := by
  unfold resolveNext
  split
  · rename_i call hcall
    refine ⟨h.resolve call.func, ⟨hlen, lt_of_some hcall, ?_, { hg with }, hnested⟩, rfl⟩
    show r.resolutions.length < (r.resolutions ++ [Resolution.start call.func]).length
    rw [length_append]
    exact Nat.lt_succ_self _
  · rename_i hcall
    have hn : n = b.calls.length := Nat.le_antisymm hg.le (List.getElem?_eq_none_iff.1 hcall)
    subst hn
    exact ⟨h, ⟨hlen, { hg with }, Nat.zero_le _,
      congrArg List.length hnested, fun j hj => absurd hj (Nat.not_lt_zero j)⟩, rfl⟩

/-- **A move of a batch** keeps what holds of it. -/
theorem batchStep_sound (hb : b ∈ r.batches)
    (hs : r.batchStep imports reconnect b = some (r', b')) :
    r'.Sound ∧ b'.Phase r'.workers r'.resolutions.length ∧ r'.batches = r.batches := by
  obtain ⟨hlen, hphase⟩ := h.batches b hb
  unfold batchStep at hs
  split at hs
  · -- a resolution has ended
    rename_i idx res hpc
    rw [hpc] at hphase
    obtain ⟨hidx, -, hg, hnested⟩ := hphase
    obtain ⟨x, hx, hs⟩ := bind_eq_some_iff.1 hs
    have hknown := h.resolutions x (mem_of_getElem? hx)
    split at hs
    · rename_i w hw
      rw [hw] at hknown
      obtain ⟨call, hcall, hs⟩ := bind_eq_some_iff.1 hs
      have hnext := resolveNext_sound h (hg.add hcall hknown) hlen hnested
      rw [some.inj hs] at hnext
      exact hnext
    · cases hs
      exact ⟨h, ⟨hlen, trivial⟩, rfl⟩
    · cases hs
      exact ⟨h, ⟨hlen, trivial⟩, rfl⟩
    · cases hs
  · rename_i k hpc
    rw [hpc] at hphase
    obtain ⟨hg, hk, hnested, hran⟩ := hphase
    split at hs
    · rename_i hnone
      cases hs
      obtain rfl : k = b.workerCalls.length :=
        Nat.le_antisymm hk (List.getElem?_eq_none_iff.1 hnone)
      exact ⟨h, ⟨hlen, { hg with }, fun j hj => (hran j hj).setPc⟩, rfl⟩
    · rename_i w items hgroup
      obtain ⟨c, hc, hs⟩ := bind_eq_some_iff.1 hs
      split at hs
      · rename_i c' hstep
        cases hs
        have hlater := later_set hc hstep
        have hw := lt_of_some hc
        refine ⟨h.setWorker hc hstep, ⟨hlen, ?_, ?_⟩, rfl⟩
        · exact { hg.mono hlater with }
        · refine ⟨lt_of_some hgroup, ?_,
            fun j hj => ((hran j hj).mono hlater).nest, w, items, c', .start .batch _,
            hgroup, getElem?_set_self hw, ⟨c.ops.length, ?_, ?_⟩, rfl, rfl⟩
          · rw [length_append, hnested]
            rfl
          · rw [← hnested]
            exact getElem?_concat_length
          · unfold Client.step at hstep
            dsimp only at hstep
            split at hstep
            · cases hstep
              exact getElem?_concat_length
            · cases hstep
      · cases hs
        exact ⟨h, ⟨hlen, trivial⟩, rfl⟩
  · rename_i k hpc
    rw [hpc] at hphase
    obtain ⟨hg, hk, hnested, hran, w, items, c, op, hn⟩ := hphase
    obtain ⟨o, ho, hop⟩ := hn.nested
    simp only [hn.group, hn.worker, ho, hop, bind_eq_bind, bind_some] at hs
    split at hs
    · rename_i hreturned
      cases hs
      obtain ⟨hsound, hcalls⟩ := h.workers c (mem_of_getElem? hn.worker)
      obtain ⟨hresults, -⟩ := Client.batch_replied hsound (hcalls o op hop) hn.kind hreturned
      refine ⟨h, ⟨(length_scatter ..).trans hlen, { hg with }, hk, hnested, fun j hj => ?_⟩,
        rfl⟩
      rcases Nat.lt_or_eq_of_le (Nat.le_of_lt_succ hj) with hj | rfl
      · exact (hran j hj).keep hn hg (Nat.ne_of_lt hj)
      · exact hn.ran hg hlen hreturned hresults
    · cases hs
      exact ⟨h, ⟨hlen, trivial⟩, rfl⟩
    · cases hs
  · cases hs
  · cases hs

theorem Sound.setBatches {batches : List (RoutedBatch P)}
    (hb : ∀ b ∈ batches, b.Phase r.workers r.resolutions.length) :
    Sound { r with batches := batches } :=
  { h with batches := hb }

theorem startBatch_sound (calls : List (Call P)) : (r.startBatch calls).Sound := by
  have hg : Grouped r.workers 0
      { calls, workerCalls := [], nested := [], results := .replicate calls.length P.None,
        pc := .calling 0 } :=
    ⟨Nat.zero_le _, List.Perm.refl _, nofun, nodup_nil,
      nofun, Nat.le_refl 0⟩
  obtain ⟨hr, hb, -⟩ := resolveNext_sound h hg length_replicate rfl
  exact hr.setBatches (forall_concat hr.batches hb)

theorem Sound.step {l : RouterLabel P} (hs : r.step imports reconnect l = some r') : r'.Sound := by
  cases l with
  | resolve func =>
    cases hs
    exact h.resolve func
  | resolution i l =>
    obtain ⟨res, hres, hs⟩ := bind_eq_some_iff.1 hs
    obtain ⟨⟨r₁, pc⟩, hstep, hs⟩ := bind_eq_some_iff.1 hs
    cases hs
    obtain ⟨hr, hpc, hsame, -⟩ := resolveStep_sound h (mem_of_getElem? hres) hstep
    refine ⟨hr.workers, hr.kept, fun x hx => ?_, fun b hb => (hr.batches b hb).mono (.refl _) ?_⟩
    · rcases mem_set_cases (hsame ▸ hres) hx with rfl | hx
      · exact hpc
      · exact hr.resolutions x hx
    · exact Nat.le_of_eq length_set.symm
  | worker w l =>
    obtain ⟨c, hc, hs⟩ := bind_eq_some_iff.1 hs
    obtain ⟨c', hstep, hs⟩ := bind_eq_some_iff.1 hs
    cases hs
    exact h.setWorker hc hstep
  | clear =>
    cases hs
    exact { h with kept := fun _ _ hw => nomatch (AList.lookup_empty _).symm.trans hw }
  | batch calls =>
    cases hs
    exact startBatch_sound h calls
  | go i =>
    obtain ⟨b, hb, hs⟩ := bind_eq_some_iff.1 hs
    obtain ⟨⟨r₁, b'⟩, hstep, hs⟩ := bind_eq_some_iff.1 hs
    cases hs
    obtain ⟨hr, hb', -⟩ := batchStep_sound h (mem_of_getElem? hb) hstep
    refine hr.setBatches fun x hx => ?_
    rcases mem_or_eq_of_mem_set hx with hx | rfl
    · exact hr.batches x hx
    · exact hb'

end

theorem sound {ls : List (RouterLabel P)} (h : run (step imports reconnect) .init ls = some r) :
    r.Sound :=
  run_kept (fun _ _ _ hr => hr.step) sound_init h

/-! ### The order of a routed batch -/

def Replied (r : Router P) (home : Nat × Nat) (call : Call P) (v : P.Val) : Prop :=
  ∃ c, r.workers[home.1]? = some c ∧ c.Replied home.2 call v

/-- Call `i` of the batch was sent by worker `home.1` with the id of queue `home.2`. -/
def SentAt (r : Router P) (b : RoutedBatch P) (i : Nat) (home : Nat × Nat) : Prop :=
  ∃ (k : Nat) (items : List (Nat × Call P)) (c : Client P) (op : Op P) (p : Nat) (call : Call P),
    b.Nests r.workers k home.1 items c op ∧ items[p]? = some (i, call) ∧
      op.qs[p]? = some home.2

/-- Two calls are sent by different workers, or with different ids. -/
theorem SentAt.inj (h : r.Sound) (hkeys : (b.workerCalls.map Prod.fst).Nodup) {i j : Nat}
    {home : Nat × Nat} (hi : r.SentAt b i home) (hj : r.SentAt b j home) : i = j := by
  obtain ⟨k, items, c, op, p, call, hn, hp, hq⟩ := hi
  obtain ⟨k', items', c', op', p', call', hn', hp', hq'⟩ := hj
  have hkey : ∀ {k : Nat} {items}, b.workerCalls[k]? = some (home.1, items) →
      (b.workerCalls.map Prod.fst)[k]? = some home.1 := by
    intro k items hg
    rw [getElem?_map, hg]
    rfl
  obtain rfl : k = k' := (getElem?_inj (lt_of_some (hkey hn.group)) hkeys).1
    ((hkey hn.group).trans (hkey hn'.group).symm)
  obtain rfl : items = items' :=
    congrArg Prod.snd (mem_unique hn.group hn'.group)
  obtain rfl : c = c' := mem_unique hn.worker hn'.worker
  obtain ⟨o, ho, hop⟩ := hn.nested
  obtain ⟨o', ho', hop'⟩ := hn'.nested
  obtain rfl : o = o' := mem_unique ho ho'
  obtain rfl : op = op' := mem_unique hop hop'
  have hnodup := ((h.workers c (mem_of_getElem? hn.worker)).2 o op hop).nodup
  obtain rfl : p = p' := (getElem?_inj (lt_of_some hq) hnodup).1 (hq.trans hq'.symm)
  exact congrArg Prod.fst (mem_unique hp hp')

theorem exists_sentAt (h : r.Sound) (hb : b ∈ r.batches) (hpc : b.pc = .returned) {i : Nat}
    {call : Call P} (hcall : b.calls[i]? = some call) :
    ∃ home, r.SentAt b i home ∧ ∀ v, b.results[i]? = some v → r.Replied home call v := by
  have hphase := (h.batches b hb).2
  rw [hpc] at hphase
  obtain ⟨hg, hran⟩ := hphase
  have hi : i ∈ (members b.workerCalls).map Prod.fst :=
    hg.indices.mem_iff.2 (mem_range.2 (lt_of_some hcall))
  obtain ⟨⟨i, call'⟩, hmem, rfl⟩ := mem_map.1 hi
  obtain rfl : call = call' := some.inj (hcall.symm.trans (hg.calls _ hmem))
  obtain ⟨g, hgmem, hx⟩ := mem_flatMap.1 hmem
  obtain ⟨k, hk⟩ := mem_iff_getElem?.1 hgmem
  obtain ⟨p, hp⟩ := mem_iff_getElem?.1 hx
  obtain ⟨w, items, c, op, hn, hreturned, hplaces⟩ := hran k (lt_of_some hk)
  obtain rfl : g = (w, items) := mem_unique hk hn.group
  obtain ⟨o, ho, hop⟩ := hn.nested
  obtain ⟨hsound, hcalls⟩ := h.workers c (mem_of_getElem? hn.worker)
  obtain ⟨hresults, -, hreplied⟩ :=
    Client.batch_replied hsound (hcalls o op hop) hn.kind hreturned
  have hcall' : op.calls[p]? = some call := by
    rw [hn.calls, getElem?_map, hp]
    rfl
  have hlt : p < op.results.length := hresults.symm ▸ (lt_of_some hcall')
  have hv := getElem?_eq_getElem hlt
  obtain ⟨q, hq, hrep⟩ := hreplied p call _ hcall' hv
  refine ⟨(w, q), ⟨k, items, c, op, p, call, hn, hp, hq⟩, fun v hv' => ⟨c, hn.worker, ?_⟩⟩
  obtain rfl : op.results[p] = v :=
    some.inj ((hv.symm.trans (hplaces p i call hp).symm).trans hv')
  exact hrep

/-- **A routed batch that has returned is in order.** -/
theorem routed_inOrder (h : r.Sound) (hb : b ∈ r.batches) (hpc : b.pc = .returned) :
    Ordered r.Replied b.calls b.results := by
  obtain ⟨hlen, hphase⟩ := h.batches b hb
  rw [hpc] at hphase
  have hhome : ∀ i, ∃ home, ∀ call, b.calls[i]? = some call →
      r.SentAt b i home ∧ ∀ v, b.results[i]? = some v → r.Replied home call v := by
    intro i
    cases hcall : b.calls[i]? with
    | none => exact ⟨(0, 0), nofun⟩
    | some call =>
      obtain ⟨home, hhome⟩ := exists_sentAt h hb hpc hcall
      refine ⟨home, fun call' hcall' => ?_⟩
      obtain rfl : call = call' := some.inj hcall'
      exact hhome
  choose home hhome using hhome
  refine ⟨hlen, home, fun i j hi hj hij => ?_, fun i call v hcall hv =>
    (hhome i call hcall).2 v hv⟩
  have hsi := (hhome i _ (getElem?_eq_getElem hi)).1
  have hsj := (hhome j _ (getElem?_eq_getElem hj)).1
  exact SentAt.inj h hphase.1.keys hsi (hij ▸ hsj)

/-! ### Progress of a routed batch -/

/-- What the batch waits for has come, and it is no failure. -/
def Ready (r : Router P) (b : RoutedBatch P) : Prop :=
  match b.pc with
  | .resolving _ res => ∃ x w, r.resolutions[res]? = some x ∧ x.pc = .resolved (some w)
  | .calling k => ∀ w items c, b.workerCalls[k]? = some (w, items) → r.workers[w]? = some c →
      c.connected = true
  | .waiting k => ∃ w items c op, b.Nests r.workers k w items c op ∧ op.pc = .finished .returned
  | .returned | .raised _ => False

end

end Router

/-- How many moves a batch is from its end, at most. -/
def RoutedBatch.rank (b : RoutedBatch P) : Nat :=
  match b.pc with
  | .resolving idx _ => b.calls.length - idx + 2 * b.calls.length + 1
  | .calling k => 2 * (b.workerCalls.length - k) + 1
  | .waiting k => 2 * (b.workerCalls.length - k)
  | .returned | .raised _ => 0

namespace Router

section
variable {imports : List CodecName} {reconnect : Bool} {r r' : Router P} {b b' : RoutedBatch P}

theorem resolveNext_batches (r : Router P) (b : RoutedBatch P) (n : Nat) :
    (r.resolveNext b n).1.batches = r.batches := by
  unfold resolveNext
  split <;> rfl

theorem resolveNext_rank {n : Nat} (hg : b.Grouped r.workers n) :
    (∀ e, (r.resolveNext b n).2.pc ≠ .raised e) ∧
      (r.resolveNext b n).2.rank ≤ b.calls.length - n + 2 * b.calls.length + 1 := by
  unfold resolveNext
  split
  · exact ⟨nofun, Nat.le_refl _⟩
  · refine ⟨nofun, ?_⟩
    have hcount := Nat.le_trans hg.count hg.le
    show 2 * (b.workerCalls.length - 0) + 1 ≤ _
    omega

/-- **A batch goes on** when what it waits for has come, does not fail, and is nearer to its end. -/
theorem batch_goes (h : r.Sound) {i : Nat} (hb : r.batches[i]? = some b) (hready : r.Ready b) :
    ∃ r' b', r.step imports reconnect (.go i) = some r' ∧ r'.batches[i]? = some b' ∧
      (∀ e, b'.pc ≠ .raised e) ∧ b'.rank < b.rank := by
  suffices hs : ∃ r₁ b', r.batchStep imports reconnect b = some (r₁, b') ∧
      r₁.batches = r.batches ∧ (∀ e, b'.pc ≠ .raised e) ∧ b'.rank < b.rank by
    obtain ⟨r₁, b', hs, hbatches, hpc, hrank⟩ := hs
    refine ⟨{ r₁ with batches := r₁.batches.set i b' }, b', ?_, ?_, hpc, hrank⟩
    · rw [step, hb]
      simp only [bind_eq_bind, bind_some, hs]
    · exact getElem?_set_self (hbatches.symm ▸ (lt_of_some hb))
  have hmem := mem_of_getElem? hb
  have hphase := (h.batches b hmem).2
  cases hpc : b.pc with
  | resolving idx res =>
    simp only [Ready, hpc] at hready
    obtain ⟨x, w, hx, hw⟩ := hready
    rw [hpc] at hphase
    obtain ⟨hidx, -, hg, -⟩ := hphase
    have hcall := getElem?_eq_getElem hidx
    have hknown := h.resolutions x (mem_of_getElem? hx)
    rw [hw] at hknown
    obtain ⟨hnot, hrank⟩ := resolveNext_rank (hg.add hcall hknown)
    have hs : r.batchStep imports reconnect b = some (r.resolveNext
        { b with workerCalls := addTo w (idx, b.calls[idx]) b.workerCalls } (idx + 1)) := by
      simp only [batchStep, hpc, hx, hw, hcall, bind_eq_bind, bind_some]
    refine ⟨_, _, hs, resolveNext_batches .., hnot, Nat.lt_of_le_of_lt hrank ?_⟩
    · rw [rank, hpc]
      dsimp only
      omega
  | calling k =>
    simp only [Ready, hpc] at hready
    rw [hpc] at hphase
    obtain ⟨hg, hk, -⟩ := hphase
    cases hgroup : b.workerCalls[k]? with
    | none =>
      refine ⟨r, { b with pc := .returned }, ?_, rfl, by simp, ?_⟩
      · simp only [batchStep, hpc, hgroup]
      · rw [rank, rank, hpc]
        exact Nat.succ_pos _
    | some g =>
      obtain ⟨w, items⟩ := g
      have hw := hg.known _ (mem_of_getElem? hgroup)
      obtain ⟨c, hc⟩ : ∃ c, r.workers[w]? = some c := ⟨_, getElem?_eq_getElem hw⟩
      have hconn := hready w items c hgroup hc
      obtain ⟨c', hs⟩ : ∃ c', c.step imports reconnect (.batch (items.map Prod.snd)) = some c' := by
        rw [Client.step, if_pos hconn]
        exact ⟨_, rfl⟩
      have hnests : r.batchStep imports reconnect b = some
          ({ r with workers := r.workers.set w c' },
            { b with nested := b.nested ++ [c.ops.length], pc := .waiting k }) := by
        simp only [batchStep, hpc, hgroup, hc, hs, bind_eq_bind, bind_some]
      refine ⟨_, _, hnests, rfl, by simp, ?_⟩
      rw [rank, rank, hpc]
      exact Nat.lt_succ_self _
  | waiting k =>
    simp only [Ready, hpc] at hready
    obtain ⟨w, items, c, op, hn, hreturned⟩ := hready
    obtain ⟨o, ho, hop⟩ := hn.nested
    have hs : r.batchStep imports reconnect b = some (r,
        { b with
          results := scatter b.results ((items.map Prod.fst).zip op.results)
          pc := .calling (k + 1) }) := by
      simp only [batchStep, hpc, hn.group, hn.worker, ho, hop, hreturned, bind_eq_bind,
        bind_some]
    refine ⟨_, _, hs, rfl, by simp, ?_⟩
    have hlt := lt_of_some hn.group
    rw [rank, rank, hpc]
    dsimp only
    omega
  | returned | raised =>
    simp only [Ready, hpc] at hready

theorem step_batch (h : r.Sound) {i : Nat} {l : RouterLabel P} (hb : r.batches[i]? = some b)
    (hl : l ≠ .go i) (hs : r.step imports reconnect l = some r') : r'.batches[i]? = some b := by
  cases l with
  | resolve | clear =>
    cases hs
    exact hb
  | resolution =>
    obtain ⟨res, hres, hs⟩ := bind_eq_some_iff.1 hs
    obtain ⟨⟨r₁, pc⟩, hstep, hs⟩ := bind_eq_some_iff.1 hs
    cases hs
    obtain ⟨-, -, -, hbatches⟩ := resolveStep_sound h (mem_of_getElem? hres) hstep
    exact hbatches.symm ▸ hb
  | worker =>
    obtain ⟨c, -, hs⟩ := bind_eq_some_iff.1 hs
    obtain ⟨c', -, hs⟩ := bind_eq_some_iff.1 hs
    cases hs
    exact hb
  | batch =>
    cases hs
    refine concat_of_some ?_
    exact (congrArg (·[i]?) (resolveNext_batches ..)).trans hb
  | go j =>
    obtain ⟨b₁, hb₁, hs⟩ := bind_eq_some_iff.1 hs
    obtain ⟨⟨r₁, b'⟩, hstep, hs⟩ := bind_eq_some_iff.1 hs
    cases hs
    have hne : j ≠ i := fun h => hl (h ▸ rfl)
    obtain ⟨-, -, hbatches⟩ := batchStep_sound h (mem_of_getElem? hb₁) hstep
    rw [hbatches, getElem?_set_ne hne]
    exact hb

end

end Router

/-- **`batch` keeps the order of the calls**, direct or routed: when it has returned, its results
are those of the replies to its calls, one by one. A direct batch can write its requests while there
is a connection, and return once its replies are there; a routed one goes on, without failing, when
what it waits for has come and has not failed, and no one else moves it. -/
theorem batch_keeps_order (imports : List CodecName) (reconnect : Bool) :
    (∀ ls (c : Client P), run (Client.step imports reconnect) .init ls = some c →
      ∀ (i : Nat) op, c.ops[i]? = some op → op.kind = .batch →
        (op.pc = .finished .returned → Ordered c.Replied op.calls op.results) ∧
        (CodecName.packRequest ∈ imports → c.locked = false → (∃ s, c.conn = some s) →
          Client.Packable op.calls →
          op.pc = .registering ∨ op.pc = .packing ∨ (∃ k, op.pc = .writing k) →
          Reaches (Client.step imports reconnect) (fun l => ∃ l', OpLabel.Sends l' ∧ l = .op i l')
            (fun c' => ∃ op', c'.ops[i]? = some op' ∧ op'.pc = .waiting) c) ∧
        (c.Answered op →
          Reaches (Client.step imports reconnect) (fun l => l = .op i .get)
            (fun c' => ∃ op', c'.ops[i]? = some op' ∧ op'.pc = .finished .returned) c)) ∧
    ∀ ls (r : Router P), run (step imports reconnect) .init ls = some r →
      ∀ (i : Nat) b, r.batches[i]? = some b →
        (b.pc = .returned → Ordered r.Replied b.calls b.results) ∧
        (r.Ready b → ∃ r' b', r.step imports reconnect (.go i) = some r' ∧
          r'.batches[i]? = some b' ∧ (∀ e, b'.pc ≠ .raised e) ∧ b'.rank < b.rank) ∧
        ∀ l r', l ≠ .go i → r.step imports reconnect l = some r' → r'.batches[i]? = some b := by
  refine ⟨fun ls c hrun i op hop hkind => ?_, fun ls r hrun i b hb => ?_⟩
  · have hcalls := Client.callsSound hrun
    refine ⟨Client.replies_inOrder (Client.sound hrun) (hcalls i op hop) hkind,
      fun himports hfree hconn hpack hpc => ?_, Client.batch_returns hcalls hop hkind⟩
    refine Client.batch_sends himports ⟨hcalls, hfree, hconn, op, hop, hkind, hpack, ?_⟩
    exact hpc.imp_right (Or.imp_right .inl)
  · have hsound := sound hrun
    exact ⟨routed_inOrder hsound (mem_of_getElem? hb), batch_goes hsound hb,
      fun l r' hl hs => step_batch hsound hb hl hs⟩

namespace Router

/-- The reply that worker `w` reads. -/
def replyLabels (w id : Nat) (v : Int) : List (RouterLabel plain) :=
  [.worker w (.reader .go),
    .worker w (.reader (.read (.msg { id, type := some "response", result := some v }))),
    .worker w (.reader .go)]

def connectLabels (res : Nat) (addr : String) : List (RouterLabel plain) :=
  [.resolution res .go, .resolution res (.answer (.ok [addr])), .resolution res .go,
    .resolution res (.dial none), .resolution res .go, .resolution res .go, .go 0]

/-- Three calls, the second to another worker than the others, which answers in the other order. -/
def twoWorkers : List (RouterLabel plain) :=
  .batch [⟨"f", none⟩, ⟨"g", none⟩, ⟨"f", none⟩] :: connectLabels 0 "a:1" ++
    connectLabels 1 "b:1" ++
    [.resolution 2 .go, .resolution 2 .go, .resolution 2 .go, .go 0, .go 0] ++
    [.worker 0 (.op 0 .register), .worker 0 (.op 0 .pack), .worker 0 (.op 0 .register),
      .worker 0 (.op 0 .pack), .worker 0 (.op 0 (.write none)),
      .worker 0 (.op 0 (.write none))] ++
    replyLabels 0 2 20 ++ replyLabels 0 1 10 ++
    [.worker 0 (.op 0 .get), .worker 0 (.op 0 .get), .go 0, .go 0] ++
    [.worker 1 (.op 0 .register), .worker 1 (.op 0 .pack), .worker 1 (.op 0 (.write none))] ++
    replyLabels 1 1 30 ++ [.worker 1 (.op 0 .get), .go 0, .go 0]

theorem batch_keeps_order_two : ∃ (r : Router plain) (b : RoutedBatch plain),
    run (step clientImports false) .init twoWorkers = some r ∧ r.batches[0]? = some b ∧
    b.results = [some 10, some 30, some 20] ∧ Ordered r.Replied b.calls b.results :=
  ⟨_, _, rfl, rfl, rfl, ((batch_keeps_order clientImports false).2 twoWorkers _ rfl 0 _ rfl).1 rfl⟩

end Router

end Callwire.Py
