import Callwire.Py.Proof.Calls

/-!
# The reader thread of the Python client and full queues

The reader blocks in `q.put` while a queue is full, and with it every call of the client. A call
that has returned does not empty its queue, but its entry stays in `_pending` after a
`stream_chunk`: three chunks for a `call` block the reader for good (`reader_stuck`). This does not
happen if chunks come only for the calls that read a stream, and these return only with what they
take from their queue (`Patient`, `reader_not_stuck`): then a queue whose call has returned was
given its final item, and at most one message comes after that.
-/

namespace Callwire.Py

open Lib List Option BoundedQueue Along

variable {P : Python}

/-- `call_stream` and `BidiStream`, which read a stream. -/
def Kind.streams : Kind → Bool
  | .callStream | .bidiStream => true
  | .call | .batch | .exportStream => false

/-! ## What a stream has taken -/

/-- A call that reads a stream has taken chunks only, and then the final item. -/
structure Slot.Read (slot : Slot P) (op : Op P) : Prop where
  running : op.Running → ∀ item ∈ slot.queue.put.take slot.queue.taken, item.final = false
  ended : ¬ op.Running → slot.finals ≠ 0 ∧ slot.queue.items.length + 1 ≤ slot.ending.length

namespace Slot.Read

variable {slot slot' : Slot P} {op op' : Op P}

theorem grows (h : slot.Read op) (hg : slot.Grows slot') : slot'.Read op := by
  obtain ⟨rest, hrest⟩ := hg.put
  refine ⟨fun hr => ?_, fun hr => ?_⟩
  · rw [hg.taken, ← hrest, take_append_of_le_length slot.queue.taken_le]
    exact h.running hr
  · obtain ⟨hfinals, hlen⟩ := h.ended hr
    have hending : slot'.ending = slot.ending ++ rest := by
      rw [Slot.ending, ← hrest, dropWhile_append, if_neg]
      · rfl
      · rw [List.isEmpty_iff]
        exact fun he => hfinals (Slot.ending_eq_nil.1 he)
    have hitems : slot'.queue.items = slot.queue.items ++ rest := by
      rw [items, hg.taken, ← hrest, drop_append_of_le_length slot.queue.taken_le]
      rfl
    refine ⟨fun hz => ?_, ?_⟩
    · rw [Slot.finals, ← hrest, filter_append, length_append] at hz
      exact hfinals (Nat.eq_zero_of_add_eq_zero_right hz)
    · rw [hending, hitems, length_append, length_append]
      omega

/-- An item is taken: a chunk, or the final item with which the call returns. -/
theorem take {item : Item P} {queue : BoundedQueue (Item P)} (h : slot.Read op) (hrun : op.Running)
    (hget : slot.queue.get? = some (item, queue)) (hchunk : item.final = false → op'.Running)
    (hfinal : item.final = true → ¬ op'.Running) : Slot.Read { slot with queue } op' := by
  obtain ⟨hitem, -, hput, htaken⟩ := get?_eq_some hget
  obtain ⟨hlt, rfl⟩ := List.getElem?_eq_some_iff.1 hitem
  have hpre := h.running hrun
  refine ⟨fun hr => ?_, fun hr => ?_⟩
  · have hf : slot.queue.put[slot.queue.taken].final = false := by
      cases hf : slot.queue.put[slot.queue.taken].final with
      | false => rfl
      | true => exact absurd hr (hfinal hf)
    rw [hput, htaken, take_succ_eq_append_getElem hlt]
    exact forall_concat hpre hf
  · have hf : slot.queue.put[slot.queue.taken].final = true := by
      cases hf : slot.queue.put[slot.queue.taken].final with
      | false => exact absurd (hchunk hf) hr
      | true => rfl
    have hsplit : slot.queue.put = slot.queue.put.take slot.queue.taken ++
        slot.queue.put[slot.queue.taken] :: slot.queue.put.drop (slot.queue.taken + 1) := by
      rw [getElem_cons_drop, take_append_drop]
    have hending : Slot.ending { slot with queue } =
        slot.queue.put[slot.queue.taken] :: slot.queue.put.drop (slot.queue.taken + 1) := by
      rw [Slot.ending, hput]
      nth_rewrite 1 [hsplit]
      rw [dropWhile_append_of_pos (fun item hmem => by rw [hpre item hmem]; rfl),
        dropWhile_cons_of_neg (by rw [hf]; simp)]
    refine ⟨fun hz => ?_, ?_⟩
    · rw [Slot.ending_eq_nil.2 hz] at hending
      cases hending
    · rw [hending, length_cons, items, hput, htaken]

end Slot.Read

namespace Client

variable {imports : List CodecName} {reconnect : Bool} {c c' : Client P} {l : Label P}

def Streaming (c : Client P) (q : Nat) : Prop :=
  ∃ slot op, c.slots[q]? = some slot ∧ c.ops[slot.owner]? = some op ∧ op.kind.streams = true

/-- The reader waits for room in a queue whose call has returned. -/
def Stuck (c : Client P) : Prop :=
  ∃ (q : Nat) (slot : Slot P) (op : Op P),
    ((∃ m, c.reader = .putting q m) ∨ ∃ rest, c.reader = .draining (q :: rest)) ∧
    c.slots[q]? = some slot ∧ slot.queue.Full ∧ c.ops[slot.owner]? = some op ∧ ¬ op.Running

/-- A `stream_chunk` comes for a call that reads a stream only, and such a call returns only with an
item from its queue. -/
def Patient (imports : List CodecName) (reconnect : Bool) (c : Client P) (l : Label P) : Prop :=
  (∀ m, l = .reader (.read (.msg m)) → m.Chunk → ∀ q, c.lookup m.id = some q → c.Streaming q) ∧
    ∀ i l', l = .op i l' → l' ≠ .get → ∀ op, c.ops[i]? = some op → op.kind.streams = true →
      ∀ c' op', step imports reconnect c l = some c' → c'.ops[i]? = some op' → op'.Running

theorem Streaming.step {q : Nat} (h : c.Streaming q) (hs : step imports reconnect c l = some c') :
    c'.Streaming q := by
  obtain ⟨slot, op, hslot, hop, hkind⟩ := h
  obtain ⟨slot', hslot', howner⟩ := step_slot hs hslot
  obtain ⟨op', hop', hkind', -⟩ := step_op hs hop
  exact ⟨slot', op', hslot', howner ▸ hop', hkind' ▸ hkind⟩

/-! ## Chunks -/

/-- A chunk that the reader holds or has put is for a stream. -/
structure ChunksStream (c : Client P) : Prop where
  held : ∀ q m, c.reader = .putting q m → m.Chunk → c.Streaming q
  put : ∀ (q : Nat) slot m, c.slots[q]? = some slot → .msg m ∈ slot.queue.put → m.Chunk →
    c.Streaming q

theorem ChunksStream.step (h : c.ChunksStream) (hok : Patient imports reconnect c l)
    (hs : step imports reconnect c l = some c') : c'.ChunksStream := by
  obtain ⟨e, hm, hcause⟩ := step_post hs
  -- the messages in the hand of the reader and in the queues come from there
  have hheld : ∀ {q m}, c.reader = .putting q m → m.Chunk → c'.Streaming q :=
    fun hr hm => (h.held _ _ hr hm).step hs
  have hput : ∀ {q : Nat} {slot m}, c.slots[q]? = some slot → .msg m ∈ slot.queue.put → m.Chunk →
      c'.Streaming q := fun hq hmem hm => (h.put _ _ _ hq hmem hm).step hs
  suffices hpost : (∀ q m, c'.post.reader = .putting q m → m.Chunk → c'.Streaming q) ∧
      ∀ (q : Nat) slot m, c'.post.slots[q]? = some slot → .msg m ∈ slot.queue.put → m.Chunk →
        c'.Streaming q from ⟨hpost.1, hpost.2⟩
  have hdone : ∀ {k : Nat} {slot : Slot P}, c.slots[k]? = some slot →
      ∀ (q : Nat) s m, (c.slots.set k (slot.push .done))[q]? = some s → .msg m ∈ s.queue.put →
        m.Chunk → c'.Streaming q := by
    intro k slot hslot q s m hq hmem hm
    rcases set_cases hslot hq with ⟨rfl, rfl⟩ | ⟨-, hq⟩
    · rcases mem_concat_cases hmem with hmem | hmem
      · exact hput hslot hmem hm
      · cases hmem
    · exact hput hq hmem hm
  generalize c'.post = p' at hm
  cases hm with
  | same | close | closeNext | pop | closeClear => exact ⟨fun _ _ => hheld, fun _ _ _ => hput⟩
  | @reader r hidle hidle' =>
    refine ⟨fun q m hr => ?_, fun _ _ _ => hput⟩
    obtain rfl : r = .putting q m := hr
    exact hidle'.elim
  | register =>
    refine ⟨fun _ _ => hheld, fun q slot m hq hmem => ?_⟩
    rcases concat_cases hq with hq | ⟨-, rfl⟩
    · exact hput hq hmem
    · cases hmem
  | take hslot hget =>
    obtain ⟨-, -, heq, -⟩ := get?_eq_some hget
    refine ⟨fun _ _ => hheld, fun q slot m hq hmem => ?_⟩
    rcases set_cases hslot hq with ⟨rfl, rfl⟩ | ⟨-, hq⟩
    · exact hput hslot (heq ▸ hmem)
    · exact hput hq hmem
  | @dispatch q m hidle hid hq =>
    refine ⟨fun q' m' hr hc => ?_, fun _ _ _ => hput⟩
    cases hr
    refine (hok.1 m hcause hc q ?_).step hs
    rw [hid]
    exact if_pos hq
  | @deliver q m slot hreader hslot =>
    refine ⟨nofun, fun k s m' hk hmem hm' => ?_⟩
    rcases set_cases hslot hk with ⟨rfl, rfl⟩ | ⟨-, hk⟩
    · rcases mem_concat_cases hmem with hmem | hmem
      · exact hput hslot hmem hm'
      · cases hmem
        exact hheld hreader hm'
    · exact hput hk hmem hm'
  | drainStart | drainEnd => exact ⟨nofun, fun _ _ _ => hput⟩
  | drainPut hreader hslot => exact ⟨nofun, hdone hslot⟩
  | closePut hclose hslot => exact ⟨fun _ _ => hheld, hdone hslot⟩

/-! ## Streams -/

/-- Every call that reads a stream has taken what `Slot.Read` says. -/
def StreamsRead (c : Client P) : Prop :=
  ∀ (i q : Nat) op slot, c.ops[i]? = some op → op.kind.streams = true → q ∈ op.qs →
    c.slots[q]? = some slot → slot.Read op

/-- A call that reads a stream goes on after a chunk and ends with any other item. -/
theorem receive_running {op : Op P} {item : Item P} (hkind : op.kind.streams = true) :
    (item.final = false → (op.receive item).Running) ∧
      (item.final = true → ¬ (op.receive item).Running) := by
  have hended : ∀ o, ¬ (op.finish o).Running := fun o hr => hr o rfl
  unfold Op.receive
  split
  · exact ⟨nofun, fun _ => hended _⟩
  · rename_i m
    have hnext : ((Item.msg m).final = false → (op.nextChunk m).Running) ∧
        ((Item.msg m).final = true → ¬ (op.nextChunk m).Running) := by
      unfold Op.nextChunk
      by_cases hm : m.type = some "stream_chunk"
      · rw [if_pos hm, Item.final_msg, decide_eq_true (show m.Chunk from hm)]
        exact ⟨nofun, nofun⟩
      · rw [if_neg hm, Item.final_msg, decide_eq_false (show ¬ m.Chunk from hm)]
        refine ⟨nofun, fun _ => ?_⟩
        split <;> exact hended _
    cases hk : op.kind with
    | callStream | bidiStream => exact hnext
    | call | batch | exportStream =>
      rw [hk] at hkind
      cases hkind

theorem OpMoves.read {i : Nat} {op : Op P} {l : OpLabel P} (h : OpMoves imports c i op l c')
    (hop : c.ops[i]? = some op) (hsound : op.Sound c.slots c.wire i)
    (hkind : op.kind.streams = true)
    (hread : ∀ (q : Nat) slot, q ∈ op.qs → c.slots[q]? = some slot → slot.Read op)
    (hok : l ≠ .get → ∀ op', c'.ops[i]? = some op' → op'.Running) {q : Nat} {op' : Op P}
    {slot' : Slot P} (hop' : c'.ops[i]? = some op') (hq : q ∈ op'.qs)
    (hslot' : c'.slots[q]? = some slot') : slot'.Read op' := by
  have hrun := h.running
  have hself : ∀ {op₁ : Op P}, (c.ops.set i op₁)[i]? = some op' → op₁ = op' := fun h =>
    some.inj ((set_of_some hop).symm.trans h)
  have hbatch : op.kind ≠ .batch := by
    intro hb
    rw [hb] at hkind
    cases hkind
  -- the call goes on, with the same queue
  have hgo : l ≠ .get → q ∈ op.qs → c.slots[q]? = some slot' → slot'.Read op' := by
    intro hl hq hslot
    exact ⟨fun _ => (hread q slot' hq hslot).running hrun, fun hn => absurd (hok hl op' hop') hn⟩
  have hwrite : l ≠ .get → ∀ {fail payload} {op₁ failed : Op P},
      c' = c.streamWrite i fail payload op₁ failed → op₁.qs = op.qs → failed.qs = op.qs →
      slot'.Read op' := by
    rintro hl fail payload op₁ failed rfl hqs hqs'
    have hslots : (c.streamWrite i fail payload op₁ failed).slots = c.slots :=
      congrArg Post.slots streamWrite_post
    refine hgo hl ?_ (hslots ▸ hslot')
    rcases streamWrite_cases c i fail payload op₁ failed with ⟨s, m, -, -, hw⟩ | ⟨-, hw⟩ <;>
      rw [hw] at hop' <;> obtain rfl := hself hop'
    · exact hqs ▸ hq
    · exact hqs' ▸ hq
  cases h with
  | register =>
    obtain rfl := hself hop'
    rcases concat_cases hslot' with hslot | ⟨-, rfl⟩
    · refine hgo (by simp) ?_ hslot
      rcases mem_concat_cases hq with hq | rfl
      · exact hq
      · rw [getElem?_eq_none (Nat.le_refl _)] at hslot
        cases hslot
    · exact ⟨nofun, fun hn => absurd (hok (by simp) _ hop') hn⟩
  | get hpc hq₁ hslot hget =>
    obtain rfl := hself hop'
    rename_i q₁ slot item queue
    have hqs : q ∈ op.qs := (receive_same op item).2.2.1 ▸ hq
    obtain rfl : q = q₁ := by
      rw [hsound.qs_eq hbatch (.inr hpc) (Op.Sound.queue_mem hq₁)] at hqs
      exact mem_singleton.1 hqs
    rcases set_cases hslot hslot' with ⟨-, rfl⟩ | ⟨hne, -⟩
    · exact (hread _ slot hqs hslot).take hrun hget (receive_running hkind).1
        (receive_running hkind).2
    · exact absurd rfl hne
  | send | closeSend | closeAndRecv => exact hwrite (by simp) rfl rfl rfl
  | _ =>
    obtain rfl := hself hop'
    exact hgo (by simp) hq hslot'

theorem StreamsRead.step (h : c.StreamsRead) (hcalls : c.CallsSound)
    (hok : Patient imports reconnect c l) (hs : step imports reconnect c l = some c') :
    c'.StreamsRead := by
  intro i q op' slot' hop' hkind hq hslot'
  rcases step_call hs hop' with ⟨hop, hl, -⟩ | ⟨kind, calls, rfl, -⟩ |
    ⟨op, l', rfl, hop, hkind₁, hmove⟩
  · -- another thread moved: the queue is the same, or something was put into it
    obtain ⟨slot, hslot, howner, -⟩ := (hcalls i op' hop).owns q hq
    obtain ⟨slot₁, hslot₁, hg⟩ := hcalls.kept hs hl q slot hslot howner
    obtain rfl : slot' = slot₁ := mem_unique hslot' hslot₁
    exact (h i q op' slot hop hkind hq hslot).grows hg
  · cases hq
  · have hkind' : op.kind.streams = true := hkind₁ ▸ hkind
    refine hmove.read hop (hcalls i op hop) hkind' (fun q slot hq hslot =>
      h i q op slot hop hkind' hq hslot) (fun hl op' hop' => ?_) hop' hq hslot'
    exact hok.2 i l' rfl hl op hop hkind' c' op' hs hop'

/-! ## Runs -/

structure Served (c : Client P) : Prop where
  sound : c.post.Sound
  calls : c.CallsSound
  owned : c.Owned
  chunks : c.ChunksStream
  read : c.StreamsRead

theorem Served.step (h : c.Served) (hok : Patient imports reconnect c l)
    (hs : step imports reconnect c l = some c') : c'.Served where
  sound := by
    obtain ⟨e, hm, -⟩ := step_post hs
    exact h.sound.step hm
  calls := h.calls.step hs
  owned := h.owned.step hs
  chunks := h.chunks.step hok hs
  read := h.read.step h.calls hok hs

theorem served_init : (init : Client P).Served where
  sound := Post.sound_init
  calls := callsSound_init
  owned := owned_init
  chunks := ⟨nofun, nofun⟩
  read _ _ _ _ h := nomatch h

theorem Kind.maxsize_pos (kind : Kind) : 0 < kind.maxsize := by
  cases kind <;> decide

theorem Served.not_stuck (h : c.Served) : ¬ c.Stuck := by
  rintro ⟨q, slot, op, hreader, hslot, hfull, hop, hend⟩
  obtain ⟨op₁, hop₁, hq⟩ := h.owned q slot hslot
  obtain rfl : op = op₁ := mem_unique hop hop₁
  obtain ⟨slot₁, hslot₁, -, hcap⟩ := (h.calls _ op hop).owns q hq
  obtain rfl : slot = slot₁ := mem_unique hslot hslot₁
  have hroom : slot.queue.items ≠ [] := by
    intro hnil
    rw [Full, hnil, hcap] at hfull
    exact absurd (Kind.maxsize_pos op.kind) (Nat.not_lt_of_le hfull)
  -- a queue that is owed its final item and not that of a stream is empty
  have hempty : op.kind.streams = false → q ∈ c.post.owed → False := by
    intro hkind howed
    have hzero := h.sound.finals_eq_zero howed hslot
    refine hroom (drop_eq_nil_of_le ?_)
    rw [Slot.finals, length_eq_zero_iff, filter_eq_nil_iff] at hzero
    have hnil : slot.queue.put = [] := by
      refine eq_nil_iff_forall_not_mem.2 fun item hmem => hzero item hmem ?_
      cases item with
      | done => rfl
      | msg m =>
        rw [Item.final_msg, decide_eq_false]
        · rfl
        · intro hm
          obtain ⟨slot₂, op₂, hslot₂, hop₂, hkind₂⟩ := h.chunks.put q slot m hslot hmem hm
          obtain rfl : slot = slot₂ := mem_unique hslot hslot₂
          obtain rfl : op = op₂ := mem_unique hop hop₂
          rw [hkind] at hkind₂
          cases hkind₂
    rw [hnil]
    exact Nat.zero_le _
  cases hkind : op.kind.streams with
  | true =>
    obtain ⟨hfinals, hlen⟩ := (h.read _ q op slot hop hkind hq hslot).ended hend
    rcases hreader with ⟨m, hr⟩ | ⟨rest, hr⟩
    · have hlate := h.sound.late q slot hslot hfinals
      have hhand : c.post.reader.inHand q = [m] := by
        rw [show c.post.reader = .putting q m from hr]
        exact if_pos rfl
      rw [hhand, length_singleton] at hlate
      exact hroom (eq_nil_of_length_eq_zero (by omega))
    · exact hfinals (h.sound.finals_eq_zero (Post.mem_owed_of_draining hr) hslot)
  | false =>
    rcases hreader with ⟨m, hr⟩ | ⟨rest, hr⟩
    · refine hempty hkind (Post.mem_owed_of_putting hr fun hm => ?_)
      obtain ⟨slot₂, op₂, hslot₂, hop₂, hkind₂⟩ := h.chunks.held q m hr hm
      obtain rfl : slot = slot₂ := mem_unique hslot hslot₂
      obtain rfl : op = op₂ := mem_unique hop hop₂
      rw [hkind] at hkind₂
      cases hkind₂
    · exact hempty hkind (Post.mem_owed_of_draining hr)

/-- **The reader is not stuck for good** if chunks come for streams only, and the calls that read a
stream read it to its end. -/
theorem reader_not_stuck {ls : List (Label P)} {c : Client P}
    (hrun : run (step imports reconnect) .init ls = some c)
    (hok : Along (step imports reconnect) (Patient imports reconnect) .init ls) : ¬ c.Stuck := by
  have hstep : ∀ (c : Client P) l c', c.Served → Patient imports reconnect c l →
      Client.step imports reconnect c l = some c' → c'.Served :=
    fun _ _ _ hc hok hs => hc.step hok hs
  exact (run_invariant hstep served_init hok hrun).not_stuck

def message? : Label P → Option (WireMessage P)
  | .reader (.read (.msg m)) => some m
  | _ => none

def mover? : Label P → Option Nat
  | .op _ .get => none
  | .op i _ => some i
  | _ => none

theorem patient_of (hs : step imports reconnect c l = some c')
    (hmsg : message? l = none ∨ ∃ m, message? l = some m ∧
      (¬ m.Chunk ∨ ∃ q, c.lookup m.id = some q ∧ c.Streaming q))
    (hop : mover? l = none ∨ ∃ i op', mover? l = some i ∧ c'.ops[i]? = some op' ∧ op'.Running) :
    Patient imports reconnect c l := by
  refine ⟨fun m hl hm q hq => ?_, fun i l' hl hget op _ _ c₁ op₁ hs₁ hop₁ => ?_⟩
  · subst hl
    obtain ⟨m', hm', h⟩ := hmsg.resolve_left nofun
    cases hm'
    rcases h with h | ⟨q', hq', h⟩
    · exact absurd hm h
    · obtain rfl : q' = q := mem_unique hq' hq
      exact h
  · subst hl
    have hi : mover? (.op i l' : Label P) = some i := by
      cases l' <;> first | rfl | exact absurd rfl hget
    rw [hi] at hop
    obtain ⟨i', op', hi', hop', hr⟩ := hop.resolve_left nofun
    cases hi'
    obtain rfl : c' = c₁ := mem_unique hs hs₁
    obtain rfl : op' = op₁ := mem_unique hop' hop₁
    exact hr

def chunkOne : WireMessage plain := { id := 1, type := some "stream_chunk", result := some 7 }

/-- A `call_stream` reads a chunk and the end. -/
def streamLabels : List (Label plain) :=
  [.start .callStream ⟨"f", none⟩, .op 0 .register, .op 0 .pack, .op 0 (.write none), .reader .go,
    .reader (.read (.msg chunkOne)), .reader .go, .op 0 .get, .op 0 .resume, .reader .go,
    .reader (.read (.msg (packStreamEnd 1))), .reader .go, .op 0 .get]

theorem reader_not_stuck_stream : ∃ c : Client plain,
    run (step clientImports false) .init streamLabels = some c ∧
    (∃ op, c.ops[0]? = some op ∧ op.pc = .finished .returned) ∧ ¬ c.Stuck := by
  have hok : Along (step clientImports false) (Patient clientImports false) .init streamLabels := by
    refine cons (patient_of rfl (.inl rfl) (.inl rfl)) rfl ?_
    iterate 3
      refine cons (patient_of rfl (.inl rfl) (.inr ⟨0, _, rfl, rfl, nofun⟩)) rfl ?_
    refine cons (patient_of rfl (.inl rfl) (.inl rfl)) rfl ?_
    refine cons (patient_of rfl (.inr ⟨_, rfl, .inr ⟨0, rfl, _, _, rfl, rfl, rfl⟩⟩)
      (.inl rfl)) rfl ?_
    iterate 2 refine cons (patient_of rfl (.inl rfl) (.inl rfl)) rfl ?_
    refine cons (patient_of rfl (.inl rfl) (.inr ⟨0, _, rfl, rfl, nofun⟩)) rfl ?_
    refine cons (patient_of rfl (.inl rfl) (.inl rfl)) rfl ?_
    refine cons (patient_of rfl (.inr ⟨_, rfl, .inl nofun⟩) (.inl rfl)) rfl ?_
    iterate 2 refine cons (patient_of rfl (.inl rfl) (.inl rfl)) rfl ?_
    exact trivial
  exact ⟨_, rfl, ⟨_, rfl, rfl⟩, reader_not_stuck rfl hok⟩

/-- Three chunks for a `call`, which returns with the first. -/
def stuckLabels : List (Label plain) :=
  [.start .call ⟨"f", none⟩, .op 0 .register, .op 0 .pack, .op 0 (.write none), .reader .go,
    .reader (.read (.msg chunkOne)), .reader .go, .op 0 .get, .reader .go,
    .reader (.read (.msg chunkOne)), .reader .go, .reader .go, .reader (.read (.msg chunkOne))]

/-- **Three chunks for a `call` block the reader for good.** -/
theorem reader_stuck : ∃ c : Client plain,
    run (step clientImports false) .init stuckLabels = some c ∧ c.Stuck :=
  ⟨_, rfl, 0, _, _, .inl ⟨_, rfl⟩, rfl, Nat.le_refl 1, rfl, fun h => h _ rfl⟩

/-- **A queue is given what the reader has handled for its id**, in order, with one final item at
most and one item at most after that. -/
theorem queues_faithful {imports : List CodecName} {reconnect : Bool} {ls : List (Label P)}
    {c : Client P} (h : run (step imports reconnect) .init ls = some c) {q : Nat} {slot : Slot P}
    (hq : c.slots[q]? = some slot) :
    (slot.msgs ++ c.reader.inHand q = c.handled.filter fun m => m.id = q + 1) ∧
      slot.finals ≤ 1 ∧ slot.ending.length ≤ 2 := by
  have hs := sound h
  refine ⟨hs.replies q slot hq, ?_, ?_⟩
  · rw [← paidIn_of_some hq]
    exact hs.once.le_one q
  · by_cases hf : slot.finals = 0
    · simp [Slot.ending_eq_nil.2 hf]
    · have := hs.late q slot hq hf
      omega

theorem queues_faithful_stuck : ∃ (c : Client plain) (slot : Slot plain),
    run (step clientImports false) .init stuckLabels = some c ∧ c.slots[0]? = some slot ∧
    slot.msgs ++ c.reader.inHand 0 = c.handled.filter fun m => m.id = 1 :=
  ⟨_, _, rfl, rfl, (@queues_faithful _ clientImports false stuckLabels _ rfl 0 _ rfl).1⟩

end Client

end Callwire.Py
