import Callwire.Java.Proof.Consumer
import Callwire.Lib.AssocUpdate

/-!
# The streams that the Java client receives

`Client.chunksFor c call` are the results of the chunks received for a call, up to the terminator.
If no queue is full when a message arrives and no `poll` times out, the iterator of `callStream` and
`recv` of a `BidiStream` are iterators over these (`streams_lossless`): the queue was given the
messages up to the terminator (`Fed`). The read thread drops a message for a full queue, so a
consumer that is 256 messages behind misses chunks and does not notice (`chunk_dropped`). The
iterator of `callStream` ends in the same way on failures (`failures_end`).
-/

namespace Callwire.Java

open Lib List Along

variable {V : Type}

namespace Client

/-- The messages that were received for a call. -/
def fed (c : Client V) (call : Call V) : List (Msg V) :=
  (c.received.drop call.since).filter (·.id = call.id)

/-- The results of the chunks, up to the terminator. -/
def chunksFor (c : Client V) (call : Call V) : List (Option V) :=
  ((c.fed call).takeWhile (!Msg.isFinal ·)).map Msg.result

def Terminated (c : Client V) (call : Call V) : Prop := ∃ m ∈ c.fed call, m.isFinal

/-- The id of call `k`: `++nextId`, which wraps. -/
def callId (k : Nat) : BitVec 64 := .ofNat 64 (k + 1)

/-- A message for a stream is one of a stream and finds room, no `poll` for one gives up, and there
are fewer calls than ids. -/
def Ordinary (c : Client V) : ClientLabel V → Prop
  | .start _ _ _ => c.calls.length + 1 < 2 ^ 64
  | .offer => ∀ k m call, c.reader = .offering k m → c.calls[k]? = some call → call.Streaming →
    ¬ call.queue.Full ∧ m.OfStream
  | .call k (.poll how) => ∀ call, c.calls[k]? = some call → call.Streaming → how = .message
  | _ => True

/-! ## What was received and what the queues hold -/

section Fed

variable {c c' : Client V} {k : Nat} {call call' : Call V} {m : Msg V}

theorem callId_inj {j n : Nat} (h : callId j = callId k) (hj : j < n) (hk : k < n)
    (hn : n < 2 ^ 64) : j = k := by
  have h := congrArg BitVec.toNat h
  rw [callId, callId, BitVec.toNat_ofNat, BitVec.toNat_ofNat, Nat.mod_eq_of_lt (by omega),
    Nat.mod_eq_of_lt (by omega)] at h
  omega

theorem fed_kept (hr : c'.received = c.received) (hk : Call.Kept call call') :
    c'.fed call' = c.fed call := by
  rw [fed, fed, hr, hk.since, hk.id]

theorem fed_concat (hr : c'.received = c.received ++ [m]) (hs : call.since ≤ c.received.length) :
    c'.fed call = c.fed call ++ if m.id = call.id then [m] else [] := by
  rw [fed, fed, hr, drop_append_of_le_length hs, filter_append, filter_singleton]
  simp only [Bool.cond_decide]

/-- The queue of a stream was given what was received up to the terminator, and is listed until
then. -/
structure Fed (c : Client V) (k : Nat) (call : Call V) : Prop where
  put : call.queue.put = upTo Msg.isFinal (c.fed call)
  listed : c.pending.lookup call.id = some k ↔ Unfinished Msg.isFinal (c.fed call)

theorem Fed.congr (h : Fed c k call) (hfed : c'.fed call' = c.fed call)
    (hq : call'.queue.put = call.queue.put)
    (hl : c'.pending.lookup call'.id = some k ↔ c.pending.lookup call.id = some k) :
    Fed c' k call' :=
  ⟨by rw [hq, hfed, h.put], by rw [hl, hfed, h.listed]⟩

theorem Fed.late (h : Fed c k call) (hfin : ¬ Unfinished Msg.isFinal (c.fed call))
    (hfed : c'.fed call = c.fed call ++ [m]) (hp : c'.pending = c.pending) : Fed c' k call := by
  constructor
  · rw [hfed, upTo_concat_of_finished hfin, h.put]
  · rw [hp, h.listed, hfed]
    exact ⟨fun hu => absurd hu hfin, fun hu => (unfinished_concat.1 hu).1⟩

end Fed

/-- The invariant of the streams. The id of a call says which one it is. -/
structure Delivers (c : Client V) : Prop where
  bound : c.calls.length < 2 ^ 64
  nextId : c.nextId = .ofNat 64 c.calls.length
  ids : ∀ (k : Nat) call, c.calls[k]? = some call → call.id = callId k
  pending : ∀ id k, c.pending.lookup id = some k → id = callId k ∧ k < c.calls.length
  since : ∀ (k : Nat) (call : Call V), c.calls[k]? = some call → call.since ≤ c.received.length
  sound : ∀ (k : Nat) (call : Call V), c.calls[k]? = some call → call.Sound
  fed : ∀ (k : Nat) (call : Call V), c.calls[k]? = some call → call.Streaming →
    call.pc ≠ .finished → Fed c k call
  offering : ∀ k m, c.reader = .offering k m → m.id = callId k ∧ k < c.calls.length ∧
    ∀ call, c.calls[k]? = some call → call.Streaming → call.pc ≠ .finished →
      Unfinished Msg.isFinal (c.fed call)

section Delivers

variable {c c' : Client V}

theorem delivers_init : Delivers (init : Client V) where
  bound := Nat.two_pow_pos 64
  nextId := rfl
  ids _ _ h := nomatch h
  pending _ _ h := nomatch h
  since _ _ h := nomatch h
  sound _ _ h := nomatch h
  fed _ _ h := nomatch h
  offering _ _ h := nomatch h

namespace Delivers

theorem next_id (hi : Delivers c) : c.nextId + 1 = callId c.calls.length := by
  rw [hi.nextId, callId, BitVec.ofNat_add]
  rfl

theorem start (hi : Delivers c) (kind : CallKind) (func : String) (args : List (Option V))
    (hb : c.calls.length + 1 < 2 ^ 64) : Delivers (c.start kind func args) := by
  have hlen : (c.start kind func args).calls.length = c.calls.length + 1 := by
    rw [Client.start, length_append]
    rfl
  have hother : ∀ id, id ≠ c.nextId + 1 →
      (c.start kind func args).pending.lookup id = c.pending.lookup id := by
    intro id hid
    exact AList.lookup_insert_ne hid
  have hnew : (c.start kind func args).fed
      (.start kind (c.nextId + 1) func args c.received.length) = [] := by
    have hdrop := drop_length (l := c.received)
    rw [Client.fed, Client.start, Call.start, hdrop]
    rfl
  constructor
  case bound => rwa [hlen]
  case nextId =>
    rw [hlen]
    exact hi.next_id
  case ids =>
    intro k call hget
    rcases concat_cases hget with hget | ⟨rfl, rfl⟩
    · exact hi.ids k call hget
    · exact hi.next_id
  case pending =>
    intro id k hl
    rw [hlen]
    by_cases hid : id = c.nextId + 1
    · subst hid
      have hins : (c.start kind func args).pending.lookup (c.nextId + 1) = some c.calls.length :=
        AList.lookup_insert _
      obtain rfl : c.calls.length = k := Option.mem_unique hins hl
      exact ⟨hi.next_id, Nat.lt_succ_self _⟩
    · rw [hother id hid] at hl
      obtain ⟨hid, hlt⟩ := hi.pending id k hl
      exact ⟨hid, Nat.lt_succ_of_lt hlt⟩
  case since =>
    intro k call hget
    rcases concat_cases hget with hget | ⟨rfl, rfl⟩
    · exact hi.since k call hget
    · exact Nat.le_refl _
  case sound =>
    intro k call hget
    rcases concat_cases hget with hget | ⟨rfl, rfl⟩
    · exact hi.sound k call hget
    · exact Call.sound_start _ _ _ _ _
  case fed =>
    intro k call hget hs hpc
    rcases concat_cases hget with hget | ⟨rfl, rfl⟩
    · refine (hi.fed k call hget hs hpc).congr rfl rfl ?_
      rw [hother]
      have hlt := lt_of_some hget
      rw [hi.ids k call hget, hi.next_id]
      intro he
      exact hlt.ne (callId_inj he (Nat.lt_succ_of_lt hlt) (Nat.lt_succ_self _) hb)
    · refine ⟨by rw [hnew]; rfl, ?_⟩
      rw [hnew]
      exact ⟨fun _ => unfinished_nil, fun _ => AList.lookup_insert _⟩
  case offering =>
    intro k m hr
    obtain ⟨hid, hlt, hu⟩ := hi.offering k m hr
    refine ⟨hid, hlen ▸ Nat.lt_succ_of_lt hlt, fun call hget hs hpc => ?_⟩
    rcases concat_cases hget with hget | ⟨rfl, rfl⟩
    · exact hu call hget hs hpc
    · rw [hnew]
      exact unfinished_nil

variable {k : Nat}

theorem call (hi : Delivers c) {call call' : Call V} (hget : c.calls[k]? = some call)
    (h : CallMove c c' k call call') : Delivers c' := by
  have hlen : c'.calls.length = c.calls.length := by
    rw [h.calls, length_set]
  have hsub : ∀ id j, c'.pending.lookup id = some j → c.pending.lookup id = some j := by
    intro id j hl
    rcases h.pending with hp | ⟨hp, -⟩
    · rwa [hp] at hl
    · rw [hp] at hl
      exact (lookup_of_erase hl).2
  have hfed : ∀ {a b : Call V}, Call.Kept a b → c'.fed b = c.fed a := fed_kept h.received
  have hget' : ∀ {j : Nat} {b : Call V}, c'.calls[j]? = some b →
      k = j ∧ b = call' ∨ k ≠ j ∧ c.calls[j]? = some b := by
    intro j b hb
    rw [h.calls] at hb
    exact set_cases hget hb
  have hstreams : call'.Streaming → call.Streaming := by
    intro hs
    unfold Call.Streaming at hs
    rwa [h.kept.kind] at hs
  constructor
  case bound => rw [hlen]; exact hi.bound
  case nextId => rw [h.nextId, hlen, hi.nextId]
  case ids =>
    intro j b hb
    rcases hget' hb with ⟨rfl, rfl⟩ | ⟨-, hb⟩
    · rw [h.kept.id]
      exact hi.ids k call hget
    · exact hi.ids j b hb
  case pending =>
    intro id j hl
    rw [hlen]
    exact hi.pending id j (hsub id j hl)
  case since =>
    intro j b hb
    rw [h.received]
    rcases hget' hb with ⟨rfl, rfl⟩ | ⟨-, hb⟩
    · rw [h.kept.since]
      exact hi.since k call hget
    · exact hi.since j b hb
  case sound =>
    intro j b hb
    rcases hget' hb with ⟨rfl, rfl⟩ | ⟨-, hb⟩
    · exact h.sound
    · exact hi.sound j b hb
  case fed =>
    intro j b hb hs hpc
    rcases hget' hb with ⟨rfl, rfl⟩ | ⟨hne, hb⟩
    · have hf := hi.fed k call hget (hstreams hs) (h.alive hpc)
      refine hf.congr (hfed h.kept) h.kept.put ?_
      rw [h.kept.id]
      refine ⟨hsub _ _, fun hl => ?_⟩
      rcases h.pending with hp | ⟨hp, hfin⟩
      · rwa [hp]
      · -- only a terminator takes the id of a stream away
        have hfin := (hfin (hstreams hs)).resolve_left hpc
        rw [hf.put, unfinished_upTo] at hfin
        exact absurd (hf.listed.1 hl) hfin
    · refine (hi.fed j b hb hs hpc).congr (hfed ⟨rfl, rfl, rfl, rfl⟩) rfl ⟨hsub _ _, fun hl => ?_⟩
      rcases h.pending with hp | ⟨hp, -⟩
      · rwa [hp]
      · rw [hp, AList.lookup_erase_ne]
        · exact hl
        · rw [hi.ids j b hb, hi.ids k call hget]
          exact fun he => hne (callId_inj he (lt_of_some hb) (lt_of_some hget) hi.bound).symm
  case offering =>
    intro j m hr
    rw [h.reader] at hr
    obtain ⟨hid, hlt, hu⟩ := hi.offering j m hr
    refine ⟨hid, hlen ▸ hlt, fun b hb hs hpc => ?_⟩
    rcases hget' hb with ⟨rfl, rfl⟩ | ⟨-, hb⟩
    · rw [hfed h.kept]
      exact hu call hget (hstreams hs) (h.alive hpc)
    · rw [hfed ⟨rfl, rfl, rfl, rfl⟩]
      exact hu b hb hs hpc

variable {m : Msg V}

theorem ignore (hi : Delivers c) (hm : c.pending.lookup m.id = none) :
    Delivers { c with received := c.received ++ [m], reader := .top } := by
  constructor
  case bound => exact hi.bound
  case nextId => exact hi.nextId
  case ids => exact hi.ids
  case pending => exact hi.pending
  case since =>
    intro k call hget
    rw [length_append]
    exact Nat.le_add_right_of_le (hi.since k call hget)
  case sound => exact hi.sound
  case fed =>
    intro k call hget hs hpc
    have hf := hi.fed k call hget hs hpc
    have hfed : Client.fed { c with received := c.received ++ [m], reader := .top } call = _ :=
      fed_concat rfl (hi.since k call hget)
    split at hfed
    · rename_i hid
      refine hf.late (fun hu => ?_) hfed rfl
      have hl := hf.listed.2 hu
      rw [← hid, hm] at hl
      cases hl
    · rw [append_nil] at hfed
      exact hf.congr hfed rfl Iff.rfl
  case offering => exact fun _ _ h => nomatch h

theorem find (hi : Delivers c) (hk : c.pending.lookup m.id = some k) :
    Delivers { c with reader := .offering k m } := by
  refine { hi with fed := fun j call hget hs hpc => ?_, offering := ?_ }
  · exact (hi.fed j call hget hs hpc).congr rfl rfl Iff.rfl
  · intro k' m' hr
    cases hr
    obtain ⟨hid, hlt⟩ := hi.pending _ _ hk
    refine ⟨hid, hlt, fun call hget hs hpc => ?_⟩
    have hlisted := (hi.fed k call hget hs hpc).listed
    rw [hi.ids k call hget, ← hid] at hlisted
    exact hlisted.1 hk

theorem turn (hi : Delivers c) {connected socketOpen : Bool} {reader : ReaderPc V}
    (hr : ∀ k m, reader = .offering k m → c.reader = .offering k m) :
    Delivers { c with connected, socketOpen, reader } := by
  refine { hi with fed := fun j call hget hs hpc => ?_, offering := ?_ }
  · exact (hi.fed j call hget hs hpc).congr rfl rfl Iff.rfl
  · exact fun k m h => hi.offering k m (hr k m h)

/-- What `offer` does, with the queue of call `k` full or not. -/
structure Offered (c c' : Client V) (k : Nat) (m : Msg V) : Prop where
  received : c'.received = c.received ++ [m]
  reader : c'.reader = .top
  nextId : c'.nextId = c.nextId
  pending : c'.pending = if m.isFinal then c.pending.erase m.id else c.pending
  calls : c'.calls = c.calls ∧ (∀ call, c.calls[k]? = some call → call.queue.Full) ∨
    ∃ call, c.calls[k]? = some call ∧
      c'.calls = c.calls.set k { call with queue := call.queue.push m }

theorem offered_offer (c : Client V) (k : Nat) (m : Msg V) : Offered c (c.offer k m) k m := by
  unfold Client.offer
  cases hget : c.calls[k]? with
  | none =>
    simp only [hget]
    cases hc : m.isChunk
    all_goals
      exact ⟨rfl, rfl, rfl, by rw [Msg.isFinal, hc]; rfl,
        .inl ⟨rfl, fun _ h => nomatch hget.symm.trans h⟩⟩
  | some call =>
    by_cases hfull : call.queue.Full
    · simp only [hget, BoundedQueue.put?, if_pos hfull]
      have hfull' : ∀ call', c.calls[k]? = some call' → call'.queue.Full := by
        intro call' hget'
        obtain rfl : call = call' := Option.mem_unique hget hget'
        exact hfull
      cases hc : m.isChunk
      all_goals exact ⟨rfl, rfl, rfl, by rw [Msg.isFinal, hc]; rfl, .inl ⟨rfl, hfull'⟩⟩
    · simp only [hget, BoundedQueue.put?, if_neg hfull]
      cases hc : m.isChunk
      all_goals exact ⟨rfl, rfl, rfl, by rw [Msg.isFinal, hc]; rfl, .inr ⟨call, hget, rfl⟩⟩

/-- A call after `offer`: it is another one, or the message is in its queue. -/
theorem Offered.cases (h : Offered c c' k m) (hr : c.reader = .offering k m)
    (hok : c.Ordinary .offer) {j : Nat} {call' : Call V} (hget : c'.calls[j]? = some call') :
    c.calls[j]? = some call' ∧ (call'.Streaming → k ≠ j) ∨
      k = j ∧ ∃ call, c.calls[k]? = some call ∧
        call' = { call with queue := call.queue.push m } := by
  rcases h.calls with ⟨hsame, hfull⟩ | ⟨call, hget', hset⟩
  · rw [hsame] at hget
    refine .inl ⟨hget, fun hs hj => ?_⟩
    subst hj
    exact (hok k m call' hr hget hs).1 (hfull call' hget)
  · rw [hset] at hget
    rcases set_cases hget' hget with ⟨hj, rfl⟩ | ⟨hj, hget⟩
    · exact .inr ⟨hj, call, hget', rfl⟩
    · exact .inl ⟨hget, fun _ => hj⟩

theorem offer (hi : Delivers c) (hr : c.reader = .offering k m) (hok : c.Ordinary .offer)
    (h : Offered c c' k m) : Delivers c' := by
  obtain ⟨hid, hlt, hu⟩ := hi.offering k m hr
  have hlen : c'.calls.length = c.calls.length := by
    rcases h.calls with ⟨hsame, -⟩ | ⟨call, -, hset⟩
    · rw [hsame]
    · rw [hset, length_set]
  have hsub : ∀ id j, c'.pending.lookup id = some j → c.pending.lookup id = some j := by
    intro id j hl
    rw [h.pending] at hl
    split at hl
    · exact (lookup_of_erase hl).2
    · exact hl
  constructor
  case bound => rw [hlen]; exact hi.bound
  case nextId => rw [h.nextId, hi.nextId, hlen]
  case ids =>
    intro j b hb
    rcases h.cases hr hok hb with ⟨hb, -⟩ | ⟨rfl, call, hget, rfl⟩
    · exact hi.ids j b hb
    · exact hi.ids k call hget
  case pending =>
    intro id j hl
    rw [hlen]
    exact hi.pending id j (hsub id j hl)
  case since =>
    intro j b hb
    rw [h.received, length_append]
    rcases h.cases hr hok hb with ⟨hb, -⟩ | ⟨rfl, call, hget, rfl⟩
    · exact Nat.le_add_right_of_le (hi.since j b hb)
    · exact Nat.le_add_right_of_le (hi.since k call hget)
  case sound =>
    intro j b hb
    rcases h.cases hr hok hb with ⟨hb, -⟩ | ⟨rfl, call, hget, rfl⟩
    · exact hi.sound j b hb
    · refine (hi.sound k call hget).push fun hs hpc => ?_
      rw [(hi.fed k call hget hs hpc).put, unfinished_upTo]
      exact ⟨(hok k m call hr hget hs).2, hu call hget hs hpc⟩
  case fed =>
    intro j b hb hs hpc
    rcases h.cases hr hok hb with ⟨hb, hne⟩ | ⟨rfl, call, hget, rfl⟩
    · -- the other streams have other ids
      have hne' : m.id ≠ b.id := by
        rw [hi.ids j b hb, hid]
        exact fun he => hne hs (callId_inj he hlt (lt_of_some hb) hi.bound)
      have hfed := fed_concat h.received (hi.since j b hb)
      rw [if_neg hne', append_nil] at hfed
      refine (hi.fed j b hb hs hpc).congr hfed rfl ⟨hsub _ _, fun hl => ?_⟩
      rw [h.pending]
      split
      · rw [AList.lookup_erase_ne hne'.symm]
        exact hl
      · exact hl
    · have hf := hi.fed k call hget hs hpc
      have hu := hu call hget hs hpc
      have hsame : m.id = call.id := by rw [hi.ids k call hget, hid]
      have hfed : c'.fed { call with queue := call.queue.push m } = c.fed call ++ [m] := by
        have hfed := fed_concat h.received (hi.since k call hget)
        rwa [if_pos hsame] at hfed
      constructor
      · rw [hfed, upTo_concat_of_unfinished hu, ← hu.upTo_eq, ← hf.put]
        rfl
      · rw [hfed, unfinished_concat, h.pending]
        show AList.lookup call.id _ = _ ↔ _
        rw [← hsame]
        cases hfin : m.isFinal with
        | true =>
          rw [if_pos rfl, AList.lookup_erase]
          exact ⟨fun hl => (nomatch hl), fun hl => (nomatch hl.2)⟩
        | false =>
          rw [if_neg Bool.false_ne_true, hsame]
          exact ⟨fun hl => ⟨hu, rfl⟩, fun _ => hf.listed.2 hu⟩
  case offering =>
    intro j m' hr'
    rw [h.reader] at hr'
    cases hr'

theorem reader (hi : Delivers c) {l : ClientLabel V} (hok : c.Ordinary l)
    (h : c.readerStep l = some c') : Delivers c' := by
  unfold readerStep at h
  split at h
  · cases h
    refine hi.turn fun k m hr => ?_
    split at hr <;> cases hr
  · split at h
    · rename_i hk
      cases h
      exact hi.find hk
    · rename_i hk
      cases h
      exact hi.ignore hk
  · cases h
    exact hi.turn fun _ _ hr => nomatch hr
  · cases h
    exact hi.turn fun _ _ hr => nomatch hr
  · rename_i hr
    cases h
    exact hi.offer hr hok (offered_offer ..)
  · cases h

theorem step (hi : Delivers c) {l : ClientLabel V} (hok : c.Ordinary l)
    (h : c.step l = some c') : Delivers c' := by
  cases l with
  | start kind func args =>
    cases h
    exact hi.start kind func args hok
  | call k l =>
    obtain ⟨call, hget, h⟩ := Option.bind_eq_some_iff.1 h
    obtain ⟨call', hmove⟩ := moved_callStep hget (hi.sound k call hget) (fun how hl hs => by
      subst hl
      exact hok call hget hs) h
    exact hi.call hget hmove
  | close =>
    cases h
    exact hi.turn fun _ _ hr => hr
  | _ => exact hi.reader hok h

end Delivers

theorem terminated_iff {call : Call V} :
    c.Terminated call ↔ ¬ Unfinished Msg.isFinal (c.fed call) :=
  not_unfinished.symm

theorem step_poll {k : Nat} {call : Call V} (hget : c.calls[k]? = some call) {m : Msg V}
    {queue : BoundedQueue (Msg V)} (hq : call.queue.get? = some (m, queue))
    (hpc : (∃ result, call.pc = .advancing result) ∨ call.pc = .receiving) :
    ∃ c', c.step (.call k (.poll .message)) = some c' := by
  rw [step, hget, Option.bind_some, callStep, hq, Option.bind_some]
  unfold pollMessage
  rcases hpc with ⟨result, hpc⟩ | hpc
  · simp only [hpc]
    split <;> exact ⟨_, rfl⟩
  · simp only [hpc]
    split_ifs <;> exact ⟨_, rfl⟩

/-- **No chunk of a stream is lost.** As long as no queue is full when a message for it arrives and
no `poll` gives up, every answer of the iterator of `callStream`, and of `recv`, is the right one
for the chunks received up to the terminator, and the end is reported after all of these. Once the
terminator was received, `next` and `recv` do not wait. -/
theorem streams_lossless {ls : List (ClientLabel V)} (hrun : run step init ls = some c)
    (hok : Along step Ordinary init ls) {k : Nat} {call : Call V}
    (hget : c.calls[k]? = some call) (hs : call.Streaming) :
    call.given <+: c.chunksFor call ∧
    Answers (c.chunksFor call) (c.Terminated call) 0 call.answers ∧
    (.stop ∈ call.answers → call.given = c.chunksFor call ∧ c.Terminated call) ∧
    (c.Terminated call → (∃ result, call.pc = .advancing result) ∨
        call.pc = .receiving ∧ .stop ∉ call.answers →
      ∃ c', c.step (.call k (.poll .message)) = some c') := by
  have hi : Delivers c := run_invariant (fun _ _ _ hi => hi.step) delivers_init hok hrun
  have hanswers : Answers (c.chunksFor call) (c.Terminated call) 0 call.answers := by
    rcases hi.sound k call hget hs with ⟨-, hnone⟩ | ⟨hpc, hst, -⟩
    · rw [hnone]
      exact trivial
    · have hans := hst.answers
      have hf := hi.fed k call hget hs hpc
      rw [Call.chunks, hf.put, takeWhile_upTo, unfinished_upTo, ← terminated_iff] at hans
      exact hans
  refine ⟨hanswers.values_prefix, hanswers, hanswers.values_of_stop, fun hterm hpc => ?_⟩
  have hlive : call.pc ≠ .finished := by
    rcases hpc with ⟨result, hpc⟩ | ⟨hpc, -⟩
    · exact hpc ▸ (by simp)
    · exact hpc ▸ (by simp)
  have hfin : ¬ Unfinished Msg.isFinal call.queue.put := by
    rw [(hi.fed k call hget hs hlive).put, unfinished_upTo]
    exact terminated_iff.1 hterm
  obtain ⟨m, queue, hq⟩ := ((hi.sound k call hget).stage hs hlive).polls hfin hpc hs
  exact step_poll hget hq (hpc.imp_right And.left)

/-- A stream of two chunks, both of which the iterator gives before its end. -/
def twoChunks : List (ClientLabel Nat) :=
  [.start .callStream "f" [], .call 0 (.write none), .go,
    .read (.msg (encodeStreamChunk 1 (some 5))), .offer, .call 0 (.poll .message), .go,
    .read (.msg (encodeStreamChunk 1 (some 6))), .offer, .go,
    .read (.msg (encodeStreamEnd 1)), .offer, .call 0 .next, .call 0 (.poll .message),
    .call 0 .next, .call 0 (.poll .message), .call 0 .hasNext]

theorem ordinary_twoChunks : Along step Ordinary init twoChunks := by
  have hroom : ∀ q : BoundedQueue (Msg Nat), q.put.length < q.capacity → ¬ q.Full := by
    intro q hq hfull
    rw [BoundedQueue.Full, BoundedQueue.items, length_drop] at hfull
    omega
  have hpoll : ∀ (c : Client Nat) k, c.Ordinary (.call k (.poll .message)) :=
    fun _ _ _ _ _ => rfl
  have hoffer : ∀ (c : Client Nat) (m : Msg Nat) (call : Call Nat), c.reader = .offering 0 m →
      c.calls[0]? = some call → call.queue.put.length < call.queue.capacity → m.OfStream →
      c.Ordinary .offer := by
    intro c m call hr hget hq hm k m' call' hr' hget' _
    obtain ⟨rfl, rfl⟩ := ReaderPc.offering.inj (hr.symm.trans hr')
    obtain rfl := Option.mem_unique hget hget'
    exact ⟨hroom _ hq, hm⟩
  refine cons (show (0 : Nat) + 1 < 2 ^ 64 by decide) rfl (cons trivial rfl (cons trivial rfl ?_))
  refine cons trivial rfl (cons (hoffer _ _ _ rfl rfl (by decide) (.inl rfl)) rfl ?_)
  refine cons (hpoll _ _) rfl (cons trivial rfl (cons trivial rfl ?_))
  refine cons (hoffer _ _ _ rfl rfl (by decide) (.inl rfl)) rfl (cons trivial rfl ?_)
  refine cons trivial rfl (cons (hoffer _ _ _ rfl rfl (by decide) (.inr (.inl rfl))) rfl ?_)
  refine cons trivial rfl (cons (hpoll _ _) rfl (cons trivial rfl ?_))
  exact cons (hpoll _ _) rfl (cons trivial rfl trivial)

theorem streams_lossless_two :
    ∃ (c : Client Nat) (call : Call Nat), c.calls[0]? = some call ∧ call.Streaming ∧
      c.chunksFor call = [some 5, some 6] ∧ .stop ∈ call.answers ∧
      call.given = c.chunksFor call := by
  have hstop : ∀ call : Call Nat, call.log = [.next (some 5), .next (some 6), .hasNext false] →
      .stop ∈ call.answers := by
    intro call hlog
    rw [Call.answers, hlog]
    exact mem_of_getElem? (i := 2) rfl
  have h := @streams_lossless Nat _ twoChunks rfl ordinary_twoChunks 0 _ rfl (.inl rfl)
  exact ⟨_, _, rfl, .inl rfl, rfl, hstop _ rfl, (h.2.2.1 (hstop _ rfl)).1⟩

/-- **The iterator of `callStream` ends after a `stream_end`**, if no `error` with its id comes, no
`poll` gives up and no message finds its queue full. -/
theorem iterator_ended {ls : List (ClientLabel V)} (hrun : run step init ls = some c)
    (hok : Along step Ordinary init ls) {k : Nat} {call : Call V}
    (hget : c.calls[k]? = some call) (hk : call.kind = .callStream)
    (herror : ∀ m ∈ c.received, m.id = call.id → m.type ≠ some "error")
    (hend : .hasNext false ∈ call.log) :
    ∃ m ∈ c.received, m.id = call.id ∧ m.type = some "stream_end" := by
  have hi : Delivers c := run_invariant (fun _ _ _ hi => hi.step) delivers_init hok hrun
  have hstop : .stop ∈ call.answers := mem_filterMap.2 ⟨_, hend, rfl⟩
  rcases hi.sound k call hget (.inl hk) with ⟨-, hnone⟩ | ⟨hpc, hst, -⟩
  · rw [hnone] at hstop
    cases hstop
  · obtain ⟨m, hput, hf⟩ := not_unfinished.1 (hst.answers.values_of_stop hstop).2
    have hfed := hput
    rw [(hi.fed k call hget (.inl hk) hpc).put] at hfed
    obtain ⟨hmem, hid⟩ := mem_filter.1 (mem_of_upTo hfed)
    have hmem := mem_of_mem_drop hmem
    have hid := of_decide_eq_true hid
    exact ⟨m, hmem, hid, ((hst.ofStream m hput).final hf).resolve_right (herror m hmem hid)⟩

theorem iterator_ended_two : ∃ (c : Client Nat) (call : Call Nat),
    run step init twoChunks = some c ∧ c.calls[0]? = some call ∧ .hasNext false ∈ call.log ∧
      ∃ m ∈ c.received, m.id = call.id ∧ m.type = some "stream_end" := by
  obtain ⟨c, call, hrun, hget, hkind, hlog, hrec⟩ : ∃ c call, run step init twoChunks = some c ∧
      c.calls[0]? = some call ∧ call.kind = .callStream ∧
      call.log = [.next (some 5), .next (some 6), .hasNext false] ∧
      c.received = [encodeStreamChunk 1 (some 5), encodeStreamChunk 1 (some 6),
        encodeStreamEnd 1] :=
    ⟨_, _, rfl, rfl, rfl, rfl, rfl⟩
  have hend : .hasNext false ∈ call.log := by simp [hlog]
  refine ⟨c, call, hrun, hget, hend,
    iterator_ended hrun ordinary_twoChunks hget hkind (fun m hm _ => ?_) hend⟩
  rw [hrec] at hm
  rcases mem_cons.1 hm with rfl | hm
  · decide
  · rcases mem_pair.1 hm with rfl | rfl <;> decide

/-- **Failures look like the end**: an `error` for the call, and a connection that is lost, after
which `poll` gives up. `hasNext` answers false, and nothing is thrown. -/
theorem failures_end :
    (∃ (c : Client Nat) (call : Call Nat), run step init
        [.start .callStream "f" [], .call 0 (.write none), .go,
          .read (.msg (encodeError 1 "E" "e")), .offer, .call 0 (.poll .message),
          .call 0 .hasNext] = some c ∧
      c.calls[0]? = some call ∧ call.log = [.hasNext false] ∧
      c.received = [encodeError 1 "E" "e"]) ∧
    ∃ (c : Client Nat) (call : Call Nat), run step init
        [.start .callStream "f" [], .call 0 (.write none), .go, .readFails,
          .call 0 (.poll .timeout), .call 0 .hasNext] = some c ∧
      c.calls[0]? = some call ∧ call.log = [.hasNext false] ∧ c.received = [] :=
  ⟨⟨_, _, rfl, rfl, rfl, rfl⟩, _, _, rfl, rfl, rfl, rfl⟩

/-! ## A consumer that lags behind -/

section Lagging

/-- No `poll` that gives up. -/
def Patient (l : ClientLabel V) : Prop := ∀ k how, l = .call k (.poll how) → how = .message

def chunkAt (i : Nat) : Msg Nat := encodeStreamChunk 1 (some i)

def reads (n : Nat) : List (ClientLabel Nat) :=
  (List.range n).flatMap fun i => [.go, .read (.msg (chunkAt i)), .offer]

/-- 257 chunks are read before the first `poll`, and the terminator after it. -/
def laggingLabels : List (ClientLabel Nat) :=
  [.start .callStream "f" [], .call 0 (.write none)] ++ reads 257 ++
    [.call 0 (.poll .message), .go, .read (.msg (encodeStreamEnd 1)), .offer] ++
    (List.range 256).flatMap (fun _ => [.call 0 .next, .call 0 (.poll .message)]) ++
    [.call 0 .hasNext]

theorem patient_laggingLabels : ∀ l ∈ laggingLabels, Patient l := by
  intro l hl k how h
  subst h
  have hl : k = 0 ∧ how = .message ∨ (∃ x, x < 256) ∧ k = 0 ∧ how = .message := by
    simpa [laggingLabels, reads] using hl
  rcases hl with ⟨-, hhow⟩ | ⟨-, -, hhow⟩ <;> exact hhow

/-- **Chunks are dropped.** A consumer of `callStream` that is 256 messages behind when a chunk is
read is never given it: it gets to the end of the stream, with no `poll` that gave up, one chunk
short. -/
theorem chunk_dropped :
    ∃ (ls : List (ClientLabel Nat)) (c : Client Nat) (call : Call Nat),
      run step init ls = some c ∧ (∀ l ∈ ls, Patient l) ∧ c.calls[0]? = some call ∧
      .stop ∈ call.answers ∧ call.given = (List.range 256).map some ∧
      c.chunksFor call = (List.range 257).map some := by
  have h : (run step init laggingLabels).any (fun c => (c.calls[0]?).any fun call =>
      decide (call.answers.getLast? = some .stop) &&
        decide (call.given = (List.range 256).map some) &&
        decide (c.chunksFor call = (List.range 257).map some)) = true := by
    decide +kernel
  obtain ⟨c, hrun, h⟩ := (Option.any_eq_true ..).1 h
  obtain ⟨call, hget, h⟩ := (Option.any_eq_true ..).1 h
  simp only [Bool.and_eq_true, decide_eq_true_eq] at h
  obtain ⟨⟨hlast, hgiven⟩, hchunks⟩ := h
  exact ⟨laggingLabels, c, call, hrun, patient_laggingLabels, hget, mem_of_getLast? hlast, hgiven,
    hchunks⟩

end Lagging

end Delivers

end Client

end Callwire.Java
