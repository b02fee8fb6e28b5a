import Callwire.Py.Proof.Delivery

/-!
# The calls of the Python client

`Op.Sound` is what holds of a call at every point: its queues are its own, its payloads are the
requests for its ids, those that it has written are on the wire, and what a `call` or a `batch` has
collected are the results of the messages that came first into its queues. The steps of the other
threads do not touch any of this (`Op.Sound.mono`).
-/

namespace Callwire.Py

open Lib List Option

variable {P : Python}

/-! ## What other threads do to a queue -/

/-- Something may have been put into the queue. -/
structure Slot.Grows (slot slot' : Slot P) : Prop where
  owner : slot'.owner = slot.owner
  capacity : slot'.queue.capacity = slot.queue.capacity
  taken : slot'.queue.taken = slot.queue.taken
  put : slot.queue.put <+: slot'.queue.put

theorem Slot.Grows.refl (slot : Slot P) : slot.Grows slot := ⟨rfl, rfl, rfl, prefix_refl _⟩

theorem Slot.grows_push (slot : Slot P) (item : Item P) : slot.Grows (slot.push item) :=
  ⟨rfl, rfl, rfl, prefix_append ..⟩

/-- The queues of the call `i` are as they were, but for what was put into them. -/
def Kept (i : Nat) (slots slots' : List (Slot P)) : Prop :=
  ∀ (q : Nat) (slot : Slot P), slots[q]? = some slot → slot.owner = i →
    ∃ slot', slots'[q]? = some slot' ∧ slot.Grows slot'

theorem Kept.refl (i : Nat) (slots : List (Slot P)) : Kept i slots slots :=
  fun _ slot h _ => ⟨slot, h, .refl slot⟩

theorem kept_set {i q : Nat} {slots : List (Slot P)} {slot slot' : Slot P}
    (hslot : slots[q]? = some slot) (h : slot.owner = i → slot.Grows slot') :
    Kept i slots (slots.set q slot') := by
  intro k s hk hs
  refine exists_set hslot hk ?_ (.refl s)
  rintro rfl
  exact h hs

theorem Post.Moves.kept {p p' : Post P} {e : PostEvent P} (h : p.Moves e p') {i : Nat}
    (htake : ∀ q, e = .take q → ∀ slot, p.slots[q]? = some slot → slot.owner ≠ i) :
    Kept i p.slots p'.slots := by
  cases h with
  | register hfree => exact fun q slot hq _ => ⟨slot, concat_of_some hq, .refl slot⟩
  | take hslot hget => exact kept_set hslot fun hi => absurd hi (htake _ rfl _ hslot)
  | deliver hreader hslot | drainPut hreader hslot | closePut hclose hslot =>
    exact kept_set hslot fun _ => Slot.grows_push ..
  | _ => exact Kept.refl i p.slots

/-! ## The invariant of a call -/

/-- `call` and `batch`, which take one item from each of their queues. -/
def Kind.collects : Kind → Bool
  | .call | .batch => true
  | .callStream | .exportStream | .bidiStream => false

namespace Op

def Running (op : Op P) : Prop := ∀ o, op.pc ≠ .finished o

def Complete (op : Op P) : Prop :=
  op.payloads.length = op.calls.length ∧ op.qs.length = op.calls.length

def Phase (op : Op P) : Prop :=
  match op.pc with
  | .registering =>
    op.payloads.length = op.qs.length ∧ op.qs.length < op.calls.length ∧ op.results = []
  | .packing =>
    op.payloads.length + 1 = op.qs.length ∧ op.qs.length ≤ op.calls.length ∧ op.results = []
  | .writing k => op.Complete ∧ k < op.calls.length ∧ op.results = []
  | .waiting | .timedOut | .opened =>
    op.Complete ∧ (op.kind.collects = true → op.results.length < op.calls.length)
  | .finished .returned =>
    op.Complete ∧ (op.kind.collects = true → op.results.length = op.calls.length)
  | .finished _ => True

def sent (op : Op P) : Nat :=
  match op.pc with
  | .registering | .packing => 0
  | .writing k => k
  | .waiting | .timedOut | .opened | .finished .returned => op.payloads.length
  | .finished _ => 0

structure Sound (slots : List (Slot P)) (wire : List (Nat × WireMessage P)) (i : Nat) (op : Op P) :
    Prop where
  owns : ∀ q ∈ op.qs, ∃ slot, slots[q]? = some slot ∧ slot.owner = i ∧
    slot.queue.capacity = op.kind.maxsize
  nodup : op.qs.Nodup
  single : op.kind ≠ .batch → op.calls.length = 1
  phase : op.Phase
  payload : ∀ (j : Nat) payload, op.payloads[j]? = some payload →
    ∃ q call, op.qs[j]? = some q ∧ op.calls[j]? = some call ∧
      op.kind.request (q + 1) call = .ok payload
  written : ∀ (j : Nat) payload, j < op.sent → op.payloads[j]? = some payload →
    ∃ s, (s, payload) ∈ wire
  collected : op.kind.collects = true → ∀ (j : Nat) v, op.results[j]? = some v →
    ∃ (q : Nat) (slot : Slot P) (m : WireMessage P), op.qs[j]? = some q ∧ slots[q]? = some slot ∧
      slot.queue.put[0]? = some (.msg m) ∧ m.result = v
  fresh : op.kind.collects = true → op.Running → ∀ (j q : Nat) slot, op.results.length ≤ j →
    op.qs[j]? = some q → slots[q]? = some slot → slot.queue.taken = 0

namespace Sound

variable {slots slots' : List (Slot P)} {wire wire' : List (Nat × WireMessage P)} {i : Nat}
variable {op op' : Op P}

section
variable (h : op.Sound slots wire i)
include h

/-- **The steps of the other threads.** -/
theorem mono (hslots : Kept i slots slots') (hwire : wire ⊆ wire') :
    op.Sound slots' wire' i where
  owns q hq := by
    obtain ⟨slot, hslot, howner, hcap⟩ := h.owns q hq
    obtain ⟨slot', hslot', hg⟩ := hslots q slot hslot howner
    exact ⟨slot', hslot', hg.owner.trans howner, hg.capacity.trans hcap⟩
  nodup := h.nodup
  single := h.single
  phase := h.phase
  payload := h.payload
  written j payload hj hpayload := by
    obtain ⟨s, hs⟩ := h.written j payload hj hpayload
    exact ⟨s, hwire hs⟩
  collected hkind j v hv := by
    obtain ⟨q, slot, m, hq, hslot, hm, hv⟩ := h.collected hkind j v hv
    obtain ⟨slot₁, hslot₁, howner, -⟩ := h.owns q (mem_of_getElem? hq)
    obtain rfl : slot = slot₁ := mem_unique hslot hslot₁
    obtain ⟨slot', hslot', hg⟩ := hslots q slot hslot howner
    refine ⟨q, slot', m, hq, hslot', ?_, hv⟩
    obtain ⟨rest, hrest⟩ := hg.put
    rw [← hrest, getElem?_append_left (lt_of_some hm), hm]
  fresh hkind hrun j q slot' hj hq hslot' := by
    obtain ⟨slot, hslot, howner, -⟩ := h.owns q (mem_of_getElem? hq)
    obtain ⟨slot₁, hslot₁, hg⟩ := hslots q slot hslot howner
    obtain rfl : slot' = slot₁ := mem_unique hslot' hslot₁
    exact hg.taken.trans (h.fresh hkind hrun j q slot hj hq hslot)

/-- The call goes on with the queues and payloads that it has, and collects nothing. -/
theorem advance (hkind : op'.kind = op.kind) (hcalls : op'.calls = op.calls)
    (hqs : op'.qs = op.qs) (hpayloads : op'.payloads = op.payloads)
    (hresults : op.kind.collects = true → op'.results = op.results) (hphase : op'.Phase)
    (hsent : op'.sent ≤ op.sent) (hrun : op'.Running → op.Running) : op'.Sound slots wire i where
  owns := by
    rw [hqs, hkind]
    exact h.owns
  nodup := hqs ▸ h.nodup
  single := by
    rw [hkind, hcalls]
    exact h.single
  phase := hphase
  payload := by
    rw [hpayloads, hqs, hcalls, hkind]
    exact h.payload
  written j payload hj := by
    rw [hpayloads]
    exact h.written j payload (Nat.lt_of_lt_of_le hj hsent)
  collected hc := by
    rw [hkind] at hc
    rw [hresults hc, hqs]
    exact h.collected hc
  fresh hc hr := by
    rw [hkind] at hc
    rw [hresults hc, hqs]
    exact h.fresh hc (hrun hr)

theorem finish_raised (e : Exn) : (op.finish (.raised e)).Sound slots wire i :=
  h.advance rfl rfl rfl rfl (fun _ => rfl) trivial (Nat.zero_le _) fun hr => absurd rfl (hr _)

theorem finish_abandoned : (op.finish .abandoned).Sound slots wire i :=
  h.advance rfl rfl rfl rfl (fun _ => rfl) trivial (Nat.zero_le _) fun hr => absurd rfl (hr _)

end

theorem start {kind : Kind} {calls : List (Call P)} (h : kind ≠ .batch → calls.length = 1) :
    (Op.start kind calls).Sound slots wire i where
  owns _ hq := nomatch hq
  nodup := nodup_nil
  single := h
  phase := by
    unfold Phase Op.start
    by_cases hc : calls.length = 0
    · simp [hc, Complete]
    · simp [hc, Nat.pos_of_ne_zero hc]
  payload _ _ hj := nomatch hj
  written _ _ _ hj := nomatch hj
  collected _ _ _ hj := nomatch hj
  fresh _ _ _ _ _ _ hj := nomatch hj

theorem register (h : op.Sound slots wire i) (hpc : op.pc = .registering) :
    Op.Sound (slots ++ [⟨i, .new op.kind.maxsize⟩]) wire i
      { op with qs := op.qs ++ [slots.length], pc := .packing } := by
  have hphase := h.phase
  rw [Phase, hpc] at hphase
  obtain ⟨hpay, hqs, hres⟩ := hphase
  have hnew : slots.length ∉ op.qs := by
    intro hq
    obtain ⟨slot, hslot, -⟩ := h.owns _ hq
    rw [getElem?_eq_none (Nat.le_refl _)] at hslot
    cases hslot
  refine ⟨fun q hq => ?_, ?_, h.single, ?_, fun j payload hj => ?_, fun j _ hj => ?_,
    fun _ j v hv => ?_, fun hkind _ j q slot hj hq hslot => ?_⟩
  · rcases mem_concat_cases hq with hq | rfl
    · obtain ⟨slot, hslot, hrest⟩ := h.owns q hq
      exact ⟨slot, concat_of_some hslot, hrest⟩
    · exact ⟨_, getElem?_concat_length, rfl, rfl⟩
  · exact nodup_append.2 ⟨h.nodup, nodup_singleton _, fun a ha b hb hab =>
      hnew (mem_singleton.1 hb ▸ hab ▸ ha)⟩
  · exact ⟨by simp [hpay], by rw [length_append]; exact hqs, hres⟩
  · obtain ⟨q, call, hq, hcall, hreq⟩ := h.payload j payload hj
    exact ⟨q, call, concat_of_some hq, hcall, hreq⟩
  · exact absurd hj (Nat.not_lt_zero _)
  · change op.results[j]? = some v at hv
    rw [hres] at hv
    cases hv
  · have hrun : op.Running := fun o ho => nomatch hpc.symm.trans ho
    rcases concat_cases hslot with hslot | ⟨-, rfl⟩
    · rcases concat_cases hq with hq | ⟨-, rfl⟩
      · exact h.fresh hkind hrun j q slot hj hq hslot
      · rw [getElem?_eq_none (Nat.le_refl _)] at hslot
        cases hslot
    · rfl

theorem packed (h : op.Sound slots wire i) (hpc : op.pc = .packing) {call : Call P} {q : Nat}
    {payload : WireMessage P} (hcall : op.calls[op.payloads.length]? = some call)
    (hq : op.qs[op.payloads.length]? = some q)
    (hpack : op.kind.request (q + 1) call = .ok payload) :
    Op.Sound slots wire i
      { op with
        payloads := op.payloads ++ [payload]
        pc := if op.qs.length < op.calls.length then .registering else .writing 0 } := by
  have hphase := h.phase
  rw [Phase, hpc] at hphase
  obtain ⟨hpay, hqs, hres⟩ := hphase
  have hrun : op.Running := fun o ho => nomatch hpc.symm.trans ho
  refine { h with
    phase := ?_, payload := fun j p hj => ?_, written := fun j p hj => ?_
    fresh := fun hkind _ => h.fresh hkind hrun }
  · unfold Phase
    by_cases hlt : op.qs.length < op.calls.length
    · simp only [if_pos hlt]
      exact ⟨by simp [hpay], hlt, hres⟩
    · have heq : op.qs.length = op.calls.length := by omega
      simp only [if_neg hlt]
      exact ⟨⟨by simp [hpay, heq], heq⟩, by omega, hres⟩
  · rcases concat_cases hj with hj | ⟨rfl, rfl⟩
    · exact h.payload j p hj
    · exact ⟨q, call, hq, hcall, hpack⟩
  · unfold sent at hj
    by_cases hlt : op.qs.length < op.calls.length <;> simp [hlt] at hj

theorem write (h : op.Sound slots wire i) {k s : Nat} (hpc : op.pc = .writing k)
    {payload : WireMessage P} (hpayload : op.payloads[k]? = some payload) :
    Op.Sound slots (wire ++ [(s, payload)]) i { op with pc := op.written k } := by
  have hphase := h.phase
  rw [Phase, hpc] at hphase
  obtain ⟨⟨hpay, hqs⟩, hk, hres⟩ := hphase
  have hrun : op.Running := fun o ho => nomatch hpc.symm.trans ho
  have hpos : op.kind.collects = true → op.results.length < op.calls.length := by
    intro _
    rw [hres]
    exact Nat.zero_lt_of_lt hk
  have hsent : Op.sent { op with pc := op.written k } = k + 1 := by
    unfold sent Op.written
    by_cases hlt : k + 1 < op.payloads.length
    · simp only [if_pos hlt]
    · simp only [if_neg hlt]
      cases op.kind <;> simp only <;> omega
  refine { h with
    phase := ?_, written := fun j p hj hp => ?_, fresh := fun hkind _ => h.fresh hkind hrun }
  · unfold Phase Op.written
    by_cases hlt : k + 1 < op.payloads.length
    · simp only [if_pos hlt]
      exact ⟨⟨hpay, hqs⟩, hpay ▸ hlt, hres⟩
    · simp only [if_neg hlt]
      cases hkind : op.kind <;> exact ⟨⟨hpay, hqs⟩, hkind ▸ hpos⟩
  · rcases Nat.lt_or_eq_of_le (Nat.le_of_lt_succ (hsent ▸ hj)) with hj | rfl
    · obtain ⟨s', hs'⟩ := h.written j p (by rw [sent, hpc]; exact hj) hp
      exact ⟨s', mem_append_left _ hs'⟩
    · obtain rfl : payload = p := mem_unique hpayload hp
      exact ⟨s, mem_append_right _ (mem_singleton.2 rfl)⟩

/-! ### An item is taken -/

section
variable {q : Nat} {slot : Slot P} {item : Item P} {queue : BoundedQueue (Item P)}

theorem queue_mem (hq : op.queue = some q) : q ∈ op.qs := by
  unfold Op.queue at hq
  split at hq <;> exact mem_of_getElem? hq

theorem qs_eq (h : op.Sound slots wire i) (hkind : op.kind ≠ .batch)
    (hpc : op.pc = .opened ∨ op.pc = .waiting) (hq : q ∈ op.qs) : op.qs = [q] := by
  have hlen : op.qs.length = 1 := by
    have hphase := h.phase
    rw [Op.Phase] at hphase
    rcases hpc with hpc | hpc <;> rw [hpc] at hphase <;> exact hphase.1.2.trans (h.single hkind)
  obtain ⟨x, hx⟩ := length_eq_one_iff.1 hlen
  rw [hx] at hq ⊢
  rw [mem_singleton.1 hq]

/-- What taking an item leaves alone, when the call does not go on to collect. -/
theorem take (h : op.Sound slots wire i) (hslot : slots[q]? = some slot)
    (hget : slot.queue.get? = some (item, queue)) (hkind : op.kind.collects = true → ¬ op.Running) :
    op.Sound (slots.set q { slot with queue }) wire i := by
  obtain ⟨-, hcap, hput, -⟩ := BoundedQueue.get?_eq_some hget
  -- owner, capacity and what was put are the same for every queue
  have hkeep : ∀ (k : Nat) (s : Slot P), slots[k]? = some s →
    ∃ s', (slots.set q { slot with queue })[k]? = some s' ∧
      Slot.owner s' = s.owner ∧ s'.queue.capacity = s.queue.capacity ∧
      s'.queue.put = s.queue.put := by
    intro k s hk
    refine exists_set hslot hk ?_ ⟨rfl, rfl, rfl⟩
    rintro rfl
    exact ⟨rfl, hcap, hput⟩
  refine ⟨fun k hk => ?_, h.nodup, h.single, h.phase, h.payload, h.written, fun hc j v hv => ?_,
    fun hc hr => absurd hr (hkind hc)⟩
  · obtain ⟨s, hs, howner, hcap⟩ := h.owns k hk
    obtain ⟨s', hs', ho, hc, -⟩ := hkeep k s hs
    exact ⟨s', hs', ho.trans howner, hc.trans hcap⟩
  · obtain ⟨k, s, m, hk, hs, hm, hv⟩ := h.collected hc j v hv
    obtain ⟨s', hs', -, -, hp⟩ := hkeep k s hs
    exact ⟨k, s', m, hk, hs', hp ▸ hm, hv⟩

/-- A `call` or a `batch` collects the message that came first into its next queue. -/
theorem collect (h : op.Sound slots wire i) (hpc : op.pc = .waiting)
    (hkind : op.kind.collects = true) (hq : op.qs[op.results.length]? = some q)
    (hslot : slots[q]? = some slot) {m : WireMessage P}
    (hget : slot.queue.get? = some (.msg m, queue)) :
    Op.Sound (slots.set q { slot with queue }) wire i
      (op.collect m.result
        (if op.results.length + 1 < op.qs.length then .waiting else .finished .returned)) := by
  have hphase := h.phase
  rw [Phase, hpc] at hphase
  obtain ⟨⟨hpay, hqs⟩, hlt⟩ := hphase
  have hlt := hlt hkind
  have hrun : op.Running := fun o ho => nomatch hpc.symm.trans ho
  obtain ⟨hitem, -, hput, -⟩ := BoundedQueue.get?_eq_some hget
  rw [h.fresh hkind hrun _ q slot (Nat.le_refl _) hq hslot] at hitem
  -- as if the call had raised, for what does not concern the results
  have hbase := (h.finish_raised ⟨"", ""⟩).take hslot hget fun _ hr => hr _ rfl
  have hset : (slots.set q { slot with queue })[q]? = some { slot with queue } :=
    set_of_some hslot
  refine ⟨hbase.owns, h.nodup, h.single, ?_, h.payload, fun j p _ hp => ?_, fun _ j v hv => ?_,
    fun _ _ j k s hj hk hs => ?_⟩
  · unfold Phase Op.collect
    by_cases hmore : op.results.length + 1 < op.qs.length
    · simp only [if_pos hmore]
      exact ⟨⟨hpay, hqs⟩, fun _ => by simp; omega⟩
    · simp only [if_neg hmore]
      exact ⟨⟨hpay, hqs⟩, fun _ => by simp; omega⟩
  · refine h.written j p ?_ hp
    rw [sent, hpc]
    exact lt_of_some hp
  · rcases concat_cases hv with hv | ⟨rfl, rfl⟩
    · exact hbase.collected hkind j v hv
    · exact ⟨q, _, m, hq, hset, hput.symm ▸ hitem, rfl⟩
  · have hj' : op.results.length + 1 ≤ j := by
      rw [← length_singleton (a := m.result), ← length_append]
      exact hj
    have hne : q ≠ k := by
      rintro rfl
      have := (getElem?_inj (lt_of_some hq) h.nodup).1 (hq.trans hk.symm)
      omega
    rw [getElem?_set_ne hne] at hs
    exact h.fresh hkind hrun j k s (by omega) hk hs

/-- **A call takes an item from its queue.** -/
theorem receive (h : op.Sound slots wire i) (hpc : op.pc = .waiting) (hq : op.queue = some q)
    (hslot : slots[q]? = some slot) (hget : slot.queue.get? = some (item, queue)) :
    (op.receive item).Sound (slots.set q { slot with queue }) wire i := by
  have hphase := h.phase
  rw [Phase, hpc] at hphase
  have hrun : op.Running := fun o ho => by cases hpc.symm.trans ho
  have hraise : ∀ e, (op.finish (.raised e)).Sound (slots.set q { slot with queue }) wire i :=
    fun e => (h.finish_raised e).take hslot hget fun _ hr => hr _ rfl
  -- the streams, which do not collect
  have hstream : op.kind.collects = false → ∀ op' : Op P, op'.kind = op.kind →
      op'.calls = op.calls → op'.qs = op.qs → op'.payloads = op.payloads →
      op'.pc = .opened ∨ op'.pc = .finished .returned →
      op'.Sound (slots.set q { slot with queue }) wire i := by
    intro hk op' hkind hcalls hqs hpayloads hpc'
    have hc : op'.Complete := by
      rw [Complete, hpayloads, hcalls, hqs]
      exact hphase.1
    have hno : ¬ op'.kind.collects = true := by
      rw [hkind, hk]
      simp
    refine (h.advance hkind hcalls hqs hpayloads (fun hc => ?_) ?_ ?_ fun _ => hrun).take hslot hget
      fun hc => absurd hc hno
    · rw [hk] at hc
      cases hc
    · rcases hpc' with hpc' | hpc' <;> rw [Phase, hpc'] <;> exact ⟨hc, fun hk => absurd hk hno⟩
    · rcases hpc' with hpc' | hpc' <;> rw [sent, sent, hpc', hpc, hpayloads]
  unfold Op.receive
  split
  · exact hraise _
  · rename_i m
    unfold Op.queue at hq
    cases hkind : op.kind with
    | call | batch =>
      rw [hkind] at hq
      simp only [Op.collectReply]
      split
      · exact hraise _
      · split
        · exact hraise _
        · exact h.collect hpc (by rw [hkind]; rfl) hq hslot hget
    | callStream | bidiStream =>
      have hc : op.kind.collects = false := by rw [hkind]; rfl
      simp only [Op.nextChunk]
      split
      · exact hstream hc _ rfl rfl rfl rfl (.inl rfl)
      · split
        · exact hraise _
        · exact hstream hc _ rfl rfl rfl rfl (.inr rfl)
    | exportStream =>
      have hc : op.kind.collects = false := by rw [hkind]; rfl
      simp only [Op.recvResponse]
      split
      · exact hraise _
      · exact hstream hc _ rfl rfl rfl rfl (.inr rfl)

end

end Sound

end Op

/-! ## Runs -/

namespace Client

variable {imports : List CodecName} {reconnect : Bool} {c c' : Client P} {l : Label P} {i : Nat}
  {op : Op P}

theorem receive_same (op : Op P) (item : Item P) :
    (op.receive item).kind = op.kind ∧ (op.receive item).calls = op.calls ∧
      (op.receive item).qs = op.qs ∧ (op.receive item).payloads = op.payloads ∧
      (op.receive item).sends = op.sends ∧ (op.receive item).ends = op.ends := by
  unfold Op.receive Op.collectReply Op.nextChunk Op.recvResponse
  repeat' split
  all_goals exact ⟨rfl, rfl, rfl, rfl, rfl, rfl⟩

theorem OpMoves.ops {l : OpLabel P} (h : OpMoves imports c i op l c') :
    ∃ op', c'.ops = c.ops.set i op' ∧ op'.kind = op.kind ∧ op'.calls = op.calls ∧
      op.qs <+: op'.qs ∧ c.wire ⊆ c'.wire := by
  have hwrite : ∀ {fail payload} {op' failed : Op P}, op'.kind = op.kind → op'.calls = op.calls →
      op'.qs = op.qs → failed.kind = op.kind → failed.calls = op.calls → failed.qs = op.qs →
      ∃ op₁, (c.streamWrite i fail payload op' failed).ops = c.ops.set i op₁ ∧
        op₁.kind = op.kind ∧ op₁.calls = op.calls ∧ op.qs <+: op₁.qs ∧
        c.wire ⊆ (c.streamWrite i fail payload op' failed).wire := by
    intro fail payload op' failed hk hc hq hk' hc' hq'
    rcases streamWrite_cases c i fail payload op' failed with ⟨s, m, -, -, hw⟩ | ⟨-, hw⟩ <;> rw [hw]
    · exact ⟨_, rfl, hk, hc, hq ▸ prefix_refl _, subset_append_left ..⟩
    · exact ⟨_, rfl, hk', hc', hq' ▸ prefix_refl _, Subset.refl _⟩
  cases h with
  | register => exact ⟨_, rfl, rfl, rfl, prefix_append .., Subset.refl _⟩
  | written => exact ⟨_, rfl, rfl, rfl, prefix_refl _, subset_append_left ..⟩
  | send | closeSend | closeAndRecv => exact hwrite rfl rfl rfl rfl rfl rfl
  | get =>
    rename_i item _ _ _ _ _
    obtain ⟨hk, hc, hq, -⟩ := receive_same op item
    exact ⟨_, rfl, hk, hc, hq ▸ prefix_refl _, Subset.refl _⟩
  | _ => exact ⟨_, rfl, rfl, rfl, prefix_refl _, Subset.refl _⟩

/-- What a step does to the calls. -/
inductive OpsMoves (imports : List CodecName) (c : Client P) : Label P → Client P → Prop
  | same {l : Label P} {c' : Client P} (hl : ∀ i l', l ≠ .op i l') (hops : c'.ops = c.ops)
      (hwire : c'.wire = c.wire) : OpsMoves imports c l c'
  | start {l : Label P} {kind : Kind} {calls : List (Call P)} (hl : ∀ i l', l ≠ .op i l')
      (hconn : c.connected = true) (hkind : kind ≠ .batch → calls.length = 1) :
      OpsMoves imports c l { c with ops := c.ops ++ [.start kind calls] }
  | op {i : Nat} {op : Op P} {l : OpLabel P} {c' : Client P} (hop : c.ops[i]? = some op)
      (h : OpMoves imports c i op l c') : OpsMoves imports c (.op i l) c'

theorem step_ops (h : step imports reconnect c l = some c') : OpsMoves imports c l c' := by
  cases l with
  | start kind call =>
    rw [step] at h
    split at h
    · rename_i hc
      cases h
      exact .start (by simp) hc.1 fun _ => rfl
    · cases h
  | batch calls =>
    rw [step] at h
    split at h
    · rename_i hc
      cases h
      exact .start (by simp) hc fun hk => absurd rfl hk
    · cases h
  | op i l =>
    obtain ⟨op, hop, h⟩ := bind_eq_some_iff.1 h
    exact .op hop (opStep_moves h)
  | reader l =>
    obtain ⟨-, -, -, hops, hwire⟩ := readerStep_post h
    exact .same (by simp) hops hwire
  | close =>
    cases h
    exact .same (by simp) rfl rfl
  | closer i =>
    obtain ⟨pc, hpc, h⟩ := bind_eq_some_iff.1 h
    obtain ⟨-, -, -, hops, hwire, -⟩ := closeStep_post hpc h
    exact .same (by simp) hops hwire

def CallsSound (c : Client P) : Prop :=
  ∀ (i : Nat) op, c.ops[i]? = some op → op.Sound c.slots c.wire i

theorem OpMoves.sound {l : OpLabel P} (h : OpMoves imports c i op l c')
    (hop : op.Sound c.slots c.wire i) (hi : i < c.ops.length) {op' : Op P}
    (hop' : c'.ops[i]? = some op') : op'.Sound c'.slots c'.wire i := by
  have hself : ∀ {op₁ : Op P}, (c.ops.set i op₁)[i]? = some op' → op₁ = op' :=
    fun h => some.inj ((getElem?_set_self hi).symm.trans h)
  have hphase := hop.phase
  have hopened : op.pc = .opened → ∀ {op₁ : Op P}, op₁.kind = op.kind → op₁.calls = op.calls →
      op₁.qs = op.qs → op₁.payloads = op.payloads → op₁.results = op.results →
      op₁.pc = .opened ∨ op₁.pc = .waiting → op₁.Sound c.slots c.wire i := by
    intro hpc op₁ hkind hcalls hqs hpayloads hresults hpc'
    rw [Op.Phase, hpc] at hphase
    refine hop.advance hkind hcalls hqs hpayloads (fun _ => hresults) ?_ ?_ fun _ o ho =>
      nomatch hpc.symm.trans ho
    · rcases hpc' with hpc' | hpc' <;>
        rw [Op.Phase, hpc', Op.Complete, hkind, hcalls, hqs, hpayloads, hresults] <;> exact hphase
    · rcases hpc' with hpc' | hpc' <;> rw [Op.sent, Op.sent, hpc', hpc, hpayloads]
  have hwrite : op.pc = .opened → ∀ {fail payload} {op₁ failed : Op P},
      op₁.Sound c.slots c.wire i → failed.Sound c.slots c.wire i →
      (c.streamWrite i fail payload op₁ failed).ops[i]? = some op' →
      op'.Sound (c.streamWrite i fail payload op₁ failed).slots
        (c.streamWrite i fail payload op₁ failed).wire i := by
    intro hpc fail payload op₁ failed hop₁ hfailed hop'
    rcases streamWrite_cases c i fail payload op₁ failed with ⟨s, m, -, -, hw⟩ | ⟨-, hw⟩ <;>
      rw [hw] at hop' ⊢
    · obtain rfl := hself hop'
      exact hop₁.mono (.refl _ _) (subset_append_left ..)
    · obtain rfl := hself hop'
      exact hfailed
  cases h with
  | register hpc =>
    obtain rfl := hself hop'
    exact hop.register hpc
  | packed hpc hcall hq hpack =>
    obtain rfl := hself hop'
    refine hop.packed hpc hcall hq ?_
    unfold bound at hpack
    split at hpack
    · exact hpack
    · cases hpack
  | packFailed | writeFailed =>
    obtain rfl := hself hop'
    exact hop.finish_raised _
  | written hpc hpayload =>
    obtain rfl := hself hop'
    exact hop.write hpc hpayload
  | get hpc hq hslot hget =>
    obtain rfl := hself hop'
    exact hop.receive hpc hq hslot hget
  | timeout hpc hpc' =>
    obtain rfl := hself hop'
    rw [Op.Phase, hpc] at hphase
    refine hop.advance rfl rfl rfl rfl (fun _ => rfl) ?_ ?_ fun _ o ho => nomatch hpc.symm.trans ho
    all_goals
      by_cases hk : op.kind = .bidiStream
      · rw [if_pos hk] at hpc'
        subst hpc'
        first | exact hphase | exact Nat.le_of_eq (by rw [Op.sent, Op.sent, hpc])
      · rw [if_neg hk] at hpc'
        subst hpc'
        first | exact hphase | exact Nat.le_of_eq (by rw [Op.sent, Op.sent, hpc])
  | pop =>
    obtain rfl := hself hop'
    exact hop.finish_raised _
  | resume hpc | recv hpc =>
    obtain rfl := hself hop'
    exact hopened hpc rfl rfl rfl rfl rfl (.inr rfl)
  | send hpc | closeSend hpc =>
    exact hwrite hpc (hopened hpc rfl rfl rfl rfl rfl (.inl hpc))
      (hopened hpc rfl rfl rfl rfl rfl (.inl hpc)) hop'
  | closeAndRecv hpc =>
    exact hwrite hpc (hopened hpc rfl rfl rfl rfl rfl (.inr rfl))
      (hopened hpc rfl rfl rfl rfl rfl (.inl hpc)) hop'
  | abandon =>
    obtain rfl := hself hop'
    exact hop.finish_abandoned

theorem CallsSound.kept (h : c.CallsSound) (hs : step imports reconnect c l = some c')
    (hl : ∀ l', l ≠ .op i l') : Kept i c.slots c'.slots := by
  obtain ⟨e, hm, hcause⟩ := step_post hs
  refine hm.kept fun q he slot hslot howner => ?_
  subst he
  obtain ⟨k, op, rfl, hop, hq⟩ := hcause
  obtain ⟨slot', hslot', howner', -⟩ := (h k op hop).owns q (Op.Sound.queue_mem hq)
  obtain rfl : slot = slot' := mem_unique hslot hslot'
  obtain rfl : k = i := howner'.symm.trans howner
  exact hl _ rfl

/-- No queue belongs to two calls. -/
theorem CallsSound.owner {j q : Nat} {op' : Op P} (h : c.CallsSound) (hop : c.ops[i]? = some op)
    (hop' : c.ops[j]? = some op') (hq : q ∈ op.qs) (hq' : q ∈ op'.qs) : i = j := by
  obtain ⟨slot, hslot, howner, -⟩ := (h i op hop).owns q hq
  obtain ⟨slot', hslot', howner', -⟩ := (h j op' hop').owns q hq'
  obtain rfl : slot = slot' := mem_unique hslot hslot'
  exact howner.symm.trans howner'

/-- Where a call comes from: another thread moved, the call is new, or it moved. -/
theorem step_call {op' : Op P} (hs : step imports reconnect c l = some c')
    (hop' : c'.ops[i]? = some op') :
    (c.ops[i]? = some op' ∧ (∀ l', l ≠ .op i l') ∧ c.wire ⊆ c'.wire) ∨
    (∃ kind calls, op' = .start kind calls ∧ (kind ≠ .batch → calls.length = 1)) ∨
    ∃ op l', l = .op i l' ∧ c.ops[i]? = some op ∧ op'.kind = op.kind ∧
      OpMoves imports c i op l' c' := by
  cases step_ops hs with
  | same hl hops hwire => exact .inl ⟨hops ▸ hop', hl i, hwire ▸ Subset.refl _⟩
  | start hl hconn hkind =>
    rcases concat_cases hop' with hop | ⟨-, rfl⟩
    · exact .inl ⟨hop, hl i, Subset.refl _⟩
    · exact .inr (.inl ⟨_, _, rfl, hkind⟩)
  | op hop hmove =>
    obtain ⟨op₁, hops, hkind, -, -, hwire⟩ := hmove.ops
    rw [hops] at hop'
    rcases set_cases hop hop' with ⟨rfl, rfl⟩ | ⟨hne, hop'⟩
    · exact .inr (.inr ⟨_, _, rfl, hop, hkind, hmove⟩)
    · refine .inl ⟨hop', fun l' hl => hne ?_, hwire⟩
      cases hl
      rfl

theorem CallsSound.step (h : c.CallsSound) (hs : step imports reconnect c l = some c') :
    c'.CallsSound := by
  intro j op' hj
  rcases step_call hs hj with ⟨hj, hl, hwire⟩ | ⟨kind, calls, rfl, hkind⟩ |
    ⟨op, l', -, hop, -, hmove⟩
  · exact (h j op' hj).mono (h.kept hs hl) hwire
  · exact .start hkind
  · exact hmove.sound (h j op hop) (lt_of_some hop) hj

theorem callsSound_init : (init : Client P).CallsSound := nofun

/-- **Every call is in order in every run.** -/
theorem callsSound {ls : List (Label P)}
      (h : run (Client.step imports reconnect) .init ls = some c) :
    c.CallsSound :=
  run_kept (fun _ _ _ => CallsSound.step) callsSound_init h

theorem step_own (hs : step imports reconnect c l = some c') (hop : c.ops[i]? = some op) :
    c'.ops[i]? = some op ∨ ∃ l' op', OpMoves imports c i op l' c' ∧ c'.ops[i]? = some op' ∧
      op'.kind = op.kind ∧ op'.calls = op.calls ∧ op.qs <+: op'.qs := by
  cases step_ops hs with
  | same hl hops => exact .inl (hops ▸ hop)
  | start => exact .inl (concat_of_some hop)
  | op hk hmove =>
    rename_i k op₁ l
    obtain ⟨op₂, hops, hkind, hcalls, hqs, -⟩ := hmove.ops
    rw [hops]
    by_cases hki : k = i
    · subst hki
      obtain rfl : op₁ = op := mem_unique hk hop
      exact .inr ⟨l, op₂, hmove, set_of_some hop, hkind, hcalls, hqs⟩
    · exact .inl ((getElem?_set_ne hki).trans hop)

theorem step_op (hs : step imports reconnect c l = some c') (hop : c.ops[i]? = some op) :
    ∃ op', c'.ops[i]? = some op' ∧ op'.kind = op.kind ∧ op'.calls = op.calls ∧
      op.qs <+: op'.qs := by
  rcases step_own hs hop with h | ⟨l', op', -, h⟩
  · exact ⟨op, h, rfl, rfl, prefix_refl _⟩
  · exact ⟨op', h⟩

theorem OpMoves.running {l : OpLabel P} (h : OpMoves imports c i op l c') : op.Running := by
  intro o ho
  cases h with
  | register hpc | packed hpc | packFailed hpc | written hpc | writeFailed hpc | get hpc
  | timeout hpc | pop hpc | resume hpc | recv hpc | send hpc | closeSend hpc | closeAndRecv hpc
  | abandon hpc => cases hpc.symm.trans ho

theorem step_finished (hs : step imports reconnect c l = some c') (hop : c.ops[i]? = some op)
    (hend : ¬ op.Running) : c'.ops[i]? = some op := by
  rcases step_own hs hop with h | ⟨l', op', hmove, -⟩
  · exact h
  · exact absurd hmove.running hend

theorem step_slot (hs : step imports reconnect c l = some c') {q : Nat} {slot : Slot P}
    (hslot : c.slots[q]? = some slot) :
    ∃ slot', c'.slots[q]? = some slot' ∧ slot'.owner = slot.owner := by
  obtain ⟨e, hm, -⟩ := step_post hs
  have hset : ∀ {k : Nat} {s s' : Slot P}, c.slots[k]? = some s → s'.owner = s.owner →
      ∃ slot', (c.slots.set k s')[q]? = some slot' ∧ slot'.owner = slot.owner := by
    intro k s s' hk howner
    exact exists_set hk hslot (fun he => he ▸ howner) rfl
  generalize hp : c'.post = p' at hm
  have hslots : c'.slots = p'.slots := congrArg Post.slots hp
  rw [hslots]
  cases hm with
  | register => exact ⟨slot, concat_of_some hslot, rfl⟩
  | take hk | deliver _ hk | drainPut _ hk | closePut _ hk => exact hset hk rfl
  | _ => exact ⟨slot, hslot, rfl⟩

/-- Every queue belongs to the call that made it. -/
def Owned (c : Client P) : Prop :=
  ∀ (q : Nat) slot, c.slots[q]? = some slot → ∃ op, c.ops[slot.owner]? = some op ∧ q ∈ op.qs

theorem Owned.step (h : c.Owned) (hs : step imports reconnect c l = some c') : c'.Owned := by
  intro q slot' hslot'
  rcases Nat.lt_or_ge q c.slots.length with hlt | hge
  · have hslot : c.slots[q]? = some c.slots[q] := getElem?_eq_getElem hlt
    obtain ⟨slot₁, hslot₁, howner⟩ := step_slot hs hslot
    obtain rfl : slot' = slot₁ := mem_unique hslot' hslot₁
    obtain ⟨op, hop, hq⟩ := h q _ hslot
    obtain ⟨op', hop', -, -, hqs⟩ := step_op hs hop
    exact ⟨op', howner ▸ hop', hqs.subset hq⟩
  · -- the queue is new
    obtain ⟨e, hm, hcause⟩ := step_post hs
    have hlt : q < c'.slots.length := lt_of_some hslot'
    obtain ⟨i, kind, rfl⟩ := hm.registers (Nat.lt_of_le_of_lt hge hlt)
    obtain ⟨rfl, -⟩ := hcause
    cases step_ops hs with
    | same hl | start hl => exact absurd rfl (hl _ _)
    | op hop hmove =>
      rename_i op
      cases hmove
      rcases concat_cases hslot' with hslot | ⟨rfl, rfl⟩
      · rw [getElem?_eq_none hge] at hslot
        cases hslot
      · exact ⟨_, set_of_some hop,
          mem_append_right _ (mem_singleton.2 rfl)⟩

theorem owned_init : (init : Client P).Owned := nofun

end Client

end Callwire.Py
