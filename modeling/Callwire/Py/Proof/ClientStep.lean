import Callwire.Lib.ArrayUpdate
import Callwire.Py.Client

/-!
# The steps of the Python client

`Post` is the part of the client through which messages reach the calls: the queues, `_pending`, and
the threads that put something into a queue. `Post.Moves` says what a step does to it
(`step_post`), `OpMoves` what a move of a call does to the call.
-/

namespace Callwire.Py

open Lib Option

variable {P : Python}

/-! ## The queues and the threads that put -/

/-- The reader holds neither a message nor the lock. -/
def ReaderPc.Idle : ReaderPc P → Prop
  | .putting _ _ | .draining _ => False
  | _ => True

/-- The queues that a `close` has still to put `DONE` into. -/
def ClosePc.rest : ClosePc → List Nat
  | .putting rest => rest
  | _ => []

structure Post (P : Python) where
  slots : List (Slot P)
  pending : List Nat
  reader : ReaderPc P
  closes : List ClosePc
  handled : List (WireMessage P)

def Client.post (c : Client P) : Post P where
  slots := c.slots
  pending := c.pending
  reader := c.reader
  closes := c.closes
  handled := c.handled

/-- What a step does to the queues. -/
inductive PostEvent (P : Python) where
  | quiet
  | register (i : Nat) (kind : Kind)
  | take (q : Nat)
  | pop (q : Nat)
  | dispatch (q : Nat) (m : WireMessage P)
  | deliver
  | drainStart
  | drainPut
  | drainEnd
  | closeClear
  | closePut

namespace Post

/-- A put that does not block. -/
def push (p : Post P) (q : Nat) (slot : Slot P) (item : Item P) : Post P :=
  { p with slots := p.slots.set q { slot with queue := slot.queue.push item } }

inductive Moves (p : Post P) : PostEvent P → Post P → Prop
  | same : Moves p .quiet p
  | reader {r : ReaderPc P} (hidle : p.reader.Idle) (hidle' : r.Idle) :
      Moves p .quiet { p with reader := r }
  | close : Moves p .quiet { p with closes := p.closes ++ [.clearing] }
  | closeNext {i : Nat} {pc pc' : ClosePc} (hpc : p.closes[i]? = some pc)
      (hrest : pc'.rest = pc.rest) (hcleared : pc ≠ .clearing) (hne : pc' ≠ .clearing) :
      Moves p .quiet { p with closes := p.closes.set i pc' }
  | register {i : Nat} {kind : Kind} (hfree : ∀ rest, p.reader ≠ .draining rest) :
      Moves p (.register i kind)
        { p with
          slots := p.slots ++ [⟨i, .new kind.maxsize⟩]
          pending := p.pending ++ [p.slots.length] }
  | take {q : Nat} {slot : Slot P} {item : Item P} {queue : BoundedQueue (Item P)}
      (hslot : p.slots[q]? = some slot) (hget : slot.queue.get? = some (item, queue)) :
      Moves p (.take q) { p with slots := p.slots.set q { slot with queue } }
  | pop {q : Nat} (hfree : ∀ rest, p.reader ≠ .draining rest) :
      Moves p (.pop q) { p with pending := p.pending.erase q }
  | dispatch {q : Nat} {m : WireMessage P} (hidle : p.reader.Idle) (hid : m.id = q + 1)
      (hq : q ∈ p.pending) :
      Moves p (.dispatch q m)
        { p with
          pending := if m.type = some "stream_chunk" then p.pending else p.pending.erase q
          handled := p.handled ++ [m]
          reader := .putting q m }
  | deliver {q : Nat} {m : WireMessage P} {slot : Slot P} (hreader : p.reader = .putting q m)
      (hslot : p.slots[q]? = some slot) :
      Moves p .deliver { p.push q slot (.msg m) with reader := .top }
  | drainStart (hidle : p.reader.Idle) :
      Moves p .drainStart { p with reader := .draining p.pending }
  | drainPut {q : Nat} {rest : List Nat} {slot : Slot P}
      (hreader : p.reader = .draining (q :: rest)) (hslot : p.slots[q]? = some slot) :
      Moves p .drainPut { p.push q slot .done with reader := .draining rest }
  | drainEnd (hreader : p.reader = .draining []) :
      Moves p .drainEnd { p with pending := [], reader := .reconnecting }
  | closeClear {i : Nat} (hfree : ∀ rest, p.reader ≠ .draining rest)
      (hclose : p.closes[i]? = some .clearing) :
      Moves p .closeClear
        { p with pending := [], closes := p.closes.set i (.putting p.pending) }
  | closePut {i q : Nat} {rest : List Nat} {slot : Slot P}
      (hclose : p.closes[i]? = some (.putting (q :: rest))) (hslot : p.slots[q]? = some slot) :
      Moves p .closePut
        { p.push q slot .done with closes := p.closes.set i (.putting rest) }

end Post

/-! ## Moves of a call -/

namespace Client

theorem not_locked {c : Client P} (h : ¬ c.locked = true) : ∀ rest, c.reader ≠ .draining rest := by
  intro rest hr
  rw [locked, hr] at h
  exact h rfl

theorem put_eq_some {c c' : Client P} {q : Nat} {item : Item P} (h : c.put q item = some c') :
    ∃ slot, c.slots[q]? = some slot ∧ c' = c.setQueue q slot (slot.queue.push item) := by
  simp only [put, bind_eq_bind, bind_eq_some_iff] at h
  obtain ⟨slot, hslot, queue, hqueue, hc⟩ := h
  rw [(BoundedQueue.put?_eq_some hqueue).2] at hc
  exact ⟨slot, hslot, (some.inj hc).symm⟩

theorem writeFrame_eq_ok {c c' : Client P} {fail : Option Exn} {payload : WireMessage P}
    (h : c.writeFrame fail payload = .ok c') :
    ∃ s, c.conn = some s ∧ c' = { c with wire := c.wire ++ [(s, payload)] } := by
  unfold writeFrame at h
  split at h
  · cases h
  · cases h
  · rename_i s hconn
    cases h
    exact ⟨s, hconn, rfl⟩

/-- What a move of the call `i` does: to the call, to the queues and to the wire. -/
inductive OpMoves (imports : List CodecName) (c : Client P) (i : Nat) (op : Op P) :
    OpLabel P → Client P → Prop
  | register (hpc : op.pc = .registering) (hfree : ∀ rest, c.reader ≠ .draining rest) :
      OpMoves imports c i op .register
        { c with
          slots := c.slots ++ [⟨i, .new op.kind.maxsize⟩]
          pending := c.pending ++ [c.slots.length]
          ops := c.ops.set i { op with qs := op.qs ++ [c.slots.length], pc := .packing } }
  | packed {call : Call P} {q : Nat} {payload : WireMessage P} (hpc : op.pc = .packing)
      (hcall : op.calls[op.payloads.length]? = some call)
      (hq : op.qs[op.payloads.length]? = some q)
      (hpack : bound imports op.kind.packer (op.kind.request (q + 1) call) = .ok payload) :
      OpMoves imports c i op .pack
        (c.setOp i
          { op with
            payloads := op.payloads ++ [payload]
            pc := if op.qs.length < op.calls.length then .registering else .writing 0 })
  | packFailed {e : Exn} (hpc : op.pc = .packing) :
      OpMoves imports c i op .pack (c.setOp i (op.finish (.raised e)))
  | written {k s : Nat} {payload : WireMessage P} {fail : Option Exn} (hpc : op.pc = .writing k)
      (hpayload : op.payloads[k]? = some payload) (hconn : c.conn = some s) :
      OpMoves imports c i op (.write fail)
        (setOp { c with wire := c.wire ++ [(s, payload)] } i { op with pc := op.written k })
  | writeFailed {k : Nat} {e : Exn} {fail : Option Exn} (hpc : op.pc = .writing k)
      (hfail : fail ≠ none ∨ c.conn = none) :
      OpMoves imports c i op (.write fail) (c.setOp i (op.finish (.raised e)))
  | get {q : Nat} {slot : Slot P} {item : Item P} {queue : BoundedQueue (Item P)}
      (hpc : op.pc = .waiting) (hq : op.queue = some q) (hslot : c.slots[q]? = some slot)
      (hget : slot.queue.get? = some (item, queue)) :
      OpMoves imports c i op .get ((c.setQueue q slot queue).setOp i (op.receive item))
  | timeout {pc : OpPc} (hpc : op.pc = .waiting)
      (hpc' : pc = if op.kind = .bidiStream then .opened else .timedOut) :
      OpMoves imports c i op .timeout (c.setOp i { op with pc := pc })
  | pop {q : Nat} (hpc : op.pc = .timedOut) (hq : op.queue = some q)
      (hfree : ∀ rest, c.reader ≠ .draining rest) :
      OpMoves imports c i op .pop
        (setOp { c with pending := c.pending.erase q } i
          (op.finish (.raised ⟨"TimeoutError", op.kind.timeoutText⟩)))
  | resume (hpc : op.pc = .opened) (hkind : op.kind = .callStream) :
      OpMoves imports c i op .resume (c.setOp i { op with pc := .waiting })
  | recv (hpc : op.pc = .opened) (hkind : op.kind = .bidiStream) :
      OpMoves imports c i op .recv (c.setOp i { op with pc := .waiting })
  | send {q : Nat} {v : P.Val} {fail : Option Exn} (hpc : op.pc = .opened)
      (hq : op.queue = some q)
      (hkind : op.kind = .exportStream ∨ op.kind = .bidiStream ∧ op.ends = 0) :
      OpMoves imports c i op (.send v fail)
        (c.streamWrite i fail (bound imports .packStreamChunk (packStreamChunk (q + 1) v))
          { op with sends := op.sends ++ [v] } { op with sends := op.sends ++ [v] })
  | closeSend {q : Nat} {fail : Option Exn} (hpc : op.pc = .opened) (hq : op.queue = some q)
      (hkind : op.kind = .bidiStream) :
      OpMoves imports c i op (.closeSend fail)
        (c.streamWrite i fail (bound imports .packStreamEnd (.ok (packStreamEnd (q + 1))))
          { op with ends := op.ends + 1 } { op with ends := op.ends + 1 })
  | closeAndRecv {q : Nat} {fail : Option Exn} (hpc : op.pc = .opened) (hq : op.queue = some q)
      (hkind : op.kind = .exportStream) :
      OpMoves imports c i op (.closeAndRecv fail)
        (c.streamWrite i fail (bound imports .packStreamClose (.ok (packStreamClose (q + 1))))
          { op with ends := op.ends + 1, pc := .waiting } { op with ends := op.ends + 1 })
  | abandon (hpc : op.pc = .opened) :
      OpMoves imports c i op .abandon (c.setOp i (op.finish .abandoned))

section
variable {imports : List CodecName} {reconnect : Bool} {c c' : Client P} {i : Nat}

theorem opStep_moves {op : Op P} {l : OpLabel P} (h : c.opStep imports i op l = some c') :
    OpMoves imports c i op l c' := by
  unfold opStep at h
  split at h
  · rename_i hpc
    split at h
    · cases h
    · cases h
      exact .register hpc (not_locked ‹_›)
  · rename_i hpc
    split at h
    · rename_i call q hcall hq
      split at h
      · cases h
        exact .packed hpc hcall hq ‹_›
      · cases h
        exact .packFailed hpc
    · cases h
  · rename_i k fail hpc
    split at h
    · rename_i payload hpayload
      split at h
      · rename_i c₁ hwrite
        cases h
        obtain ⟨s, hconn, rfl⟩ := writeFrame_eq_ok hwrite
        exact .written hpc hpayload hconn
      · rename_i e hwrite
        cases h
        refine .writeFailed hpc ?_
        unfold writeFrame at hwrite
        split at hwrite
        · exact .inr ‹_›
        · exact .inl (some_ne_none _)
        · cases hwrite
    · cases h
  · rename_i hpc
    simp only [bind_eq_bind, bind_eq_some_iff] at h
    obtain ⟨q, hq, slot, hslot, ⟨item, queue⟩, hget, hc⟩ := h
    cases hc
    exact .get hpc hq hslot hget
  · rename_i hpc
    simp only [bind_eq_bind, bind_eq_some_iff] at h
    obtain ⟨q, hq, slot, hslot, hc⟩ := h
    split at hc
    · cases hc
      exact .timeout hpc rfl
    · cases hc
  · rename_i hpc
    simp only [bind_eq_bind, bind_eq_some_iff] at h
    obtain ⟨q, hq, hc⟩ := h
    split at hc
    · cases hc
    · cases hc
      exact .pop hpc hq (not_locked ‹_›)
  · rename_i hpc
    split at h
    · cases h
      exact .resume hpc ‹_›
    · cases h
  · rename_i hpc
    split at h
    · cases h
      exact .recv hpc ‹_›
    · cases h
  · rename_i v fail hpc
    simp only [bind_eq_bind, bind_eq_some_iff] at h
    obtain ⟨q, hq, hc⟩ := h
    split at hc
    · cases hc
      exact .send hpc hq ‹_›
    · cases hc
  · rename_i fail hpc
    simp only [bind_eq_bind, bind_eq_some_iff] at h
    obtain ⟨q, hq, hc⟩ := h
    split at hc
    · cases hc
      exact .closeSend hpc hq ‹_›
    · cases hc
  · rename_i fail hpc
    simp only [bind_eq_bind, bind_eq_some_iff] at h
    obtain ⟨q, hq, hc⟩ := h
    split at hc
    · cases hc
      exact .closeAndRecv hpc hq ‹_›
    · cases hc
  · rename_i hpc
    cases h
    exact .abandon hpc
  · cases h

/-- A write of a stream: what it leaves alone, and the call after it. -/
theorem streamWrite_cases (c : Client P) (i : Nat) (fail : Option Exn)
    (payload : Except Exn (WireMessage P)) (op failed : Op P) :
    (∃ s m, c.conn = some s ∧ payload = .ok m ∧
      c.streamWrite i fail payload op failed =
        setOp { c with wire := c.wire ++ [(s, m)] } i op) ∨
    (fail ≠ none ∨ c.conn = none ∨ ∃ e, payload = .error e) ∧
      c.streamWrite i fail payload op failed = c.setOp i failed := by
  unfold streamWrite
  cases payload with
  | error e => exact .inr ⟨.inr (.inr ⟨e, rfl⟩), rfl⟩
  | ok m =>
    rw [Except.bind]
    unfold writeFrame
    split
    · rename_i c₁ h
      split at h
      · cases h
      · cases h
      · rename_i s hconn
        cases h
        exact .inl ⟨s, m, hconn, rfl, rfl⟩
    · rename_i e h
      split at h
      · exact .inr ⟨.inr (.inl ‹_›), rfl⟩
      · exact .inr ⟨.inl (some_ne_none _), rfl⟩
      · cases h

/-! ## Steps -/

/-- The label of a step that does `e` to the queues. -/
def Causes (c : Client P) (l : Label P) : PostEvent P → Prop
  | .register i kind => l = .op i .register ∧ ∃ op, c.ops[i]? = some op ∧ op.kind = kind
  | .take q => ∃ i op, l = .op i .get ∧ c.ops[i]? = some op ∧ op.queue = some q
  | .pop q => ∃ i op, l = .op i .pop ∧ c.ops[i]? = some op ∧ op.queue = some q
  | .dispatch _ m => l = .reader (.read (.msg m))
  | _ => True

theorem streamWrite_post {fail : Option Exn} {payload : Except Exn (WireMessage P)}
    {op failed : Op P} : (c.streamWrite i fail payload op failed).post = c.post := by
  rcases streamWrite_cases c i fail payload op failed with ⟨s, m, -, -, h⟩ | ⟨-, h⟩ <;>
    rw [h] <;> rfl

theorem OpMoves.post {op : Op P} {l : OpLabel P} (hop : c.ops[i]? = some op)
    (h : OpMoves imports c i op l c') : ∃ e, c.post.Moves e c'.post ∧ Causes c (.op i l) e := by
  cases h with
  | register hpc hfree => exact ⟨_, .register hfree, rfl, op, hop, rfl⟩
  | get hpc hq hslot hget => exact ⟨_, .take hslot hget, i, op, rfl, hop, hq⟩
  | pop hpc hq hfree => exact ⟨_, .pop hfree, i, op, rfl, hop, hq⟩
  | send | closeSend | closeAndRecv =>
    rw [streamWrite_post]
    exact ⟨_, .same, trivial⟩
  | _ => exact ⟨_, .same, trivial⟩

theorem dispatch_post {m : WireMessage P} (hidle : c.reader.Idle) :
    ∃ e, c.post.Moves e (c.dispatch m).post ∧ Causes c (.reader (.read (.msg m))) e ∧
      (c.dispatch m).ops = c.ops ∧ (c.dispatch m).wire = c.wire := by
  unfold dispatch
  split
  · exact ⟨_, .reader hidle trivial, trivial, rfl, rfl⟩
  · rename_i q hlookup
    unfold lookup at hlookup
    split at hlookup
    · cases hlookup
    · rename_i q' hid
      split at hlookup
      · rename_i hq
        cases hlookup
        exact ⟨_, .dispatch hidle hid hq, rfl, rfl, rfl⟩
      · cases hlookup

theorem closeConn_eq (c : Client P) : ∃ conn dead, c.closeConn = { c with conn, dead } := by
  unfold closeConn
  split <;> exact ⟨_, _, rfl⟩

theorem readerStep_post {l : ReaderLabel P} (h : c.readerStep reconnect l = some c') :
    ∃ e, c.post.Moves e c'.post ∧ Causes c (.reader l) e ∧ c'.ops = c.ops ∧ c'.wire = c.wire := by
  have hreader : ∀ {r r' : ReaderPc P}, c.reader = r → r.Idle → r'.Idle →
      c.post.Moves .quiet { c.post with reader := r' } :=
    fun hr hidle hidle' => .reader (show c.reader.Idle from hr ▸ hidle) hidle'
  unfold readerStep at h
  split at h
  · rename_i hr
    cases h
    refine ⟨_, hreader hr trivial ?_, trivial, rfl, rfl⟩
    split <;> exact trivial
  · rename_i s payload hr
    split at h
    · cases h
    · split at h <;> cases h
      · exact ⟨_, hreader hr trivial trivial, trivial, rfl, rfl⟩
      · exact ⟨_, hreader hr trivial trivial, trivial, rfl, rfl⟩
      · exact dispatch_post (hr ▸ trivial)
  · rename_i conn hr
    cases h
    refine ⟨_, hreader hr trivial ?_, trivial, rfl, rfl⟩
    split <;> exact trivial
  · rename_i q m hr
    obtain ⟨c₁, hput, rfl⟩ := map_eq_some_iff.1 h
    obtain ⟨slot, hslot, rfl⟩ := put_eq_some hput
    exact ⟨_, .deliver hr hslot, trivial, rfl, rfl⟩
  · rename_i hr
    cases h
    exact ⟨_, .drainStart (show c.reader.Idle from hr ▸ trivial), trivial, rfl, rfl⟩
  · rename_i q rest hr
    obtain ⟨c₁, hput, rfl⟩ := map_eq_some_iff.1 h
    obtain ⟨slot, hslot, rfl⟩ := put_eq_some hput
    exact ⟨_, .drainPut hr hslot, trivial, rfl, rfl⟩
  · rename_i hr
    cases h
    exact ⟨_, .drainEnd hr, trivial, rfl, rfl⟩
  · rename_i hr
    cases h
    refine ⟨_, hreader hr trivial ?_, trivial, rfl, rfl⟩
    split <;> exact trivial
  · rename_i ok hr
    split at h <;> cases h <;> exact ⟨_, hreader hr trivial trivial, trivial, rfl, rfl⟩
  · rename_i s hr
    split at h <;> cases h <;> exact ⟨_, hreader hr trivial trivial, trivial, rfl, rfl⟩
  · rename_i s hr
    cases h
    exact ⟨_, hreader hr trivial trivial, trivial, rfl, rfl⟩
  · rename_i hr
    cases h
    exact ⟨_, hreader hr trivial trivial, trivial, rfl, rfl⟩
  · rename_i hr
    cases h
    obtain ⟨conn, dead, hconn⟩ := closeConn_eq c
    rw [hconn]
    exact ⟨_, hreader hr trivial trivial, trivial, rfl, rfl⟩
  · cases h

theorem closeStep_post {pc : ClosePc} (hpc : c.closes[i]? = some pc)
    (h : c.closeStep i pc = some c') : ∃ e, c.post.Moves e c'.post ∧ Causes c (.closer i) e ∧
      c'.ops = c.ops ∧ c'.wire = c.wire ∧ c'.reader = c.reader := by
  unfold closeStep at h
  split at h
  · split at h
    · cases h
    · cases h
      exact ⟨_, .closeClear (not_locked ‹_›) hpc, trivial, rfl, rfl, rfl⟩
  · obtain ⟨c₁, hput, rfl⟩ := map_eq_some_iff.1 h
    obtain ⟨slot, hslot, rfl⟩ := put_eq_some hput
    exact ⟨_, .closePut hpc hslot, trivial, rfl, rfl, rfl⟩
  · cases h
    exact ⟨_, .closeNext hpc rfl nofun nofun, trivial, rfl, rfl, rfl⟩
  · split at h
    · cases h
    · cases h
      obtain ⟨conn, dead, hconn⟩ := closeConn_eq c
      rw [hconn]
      exact ⟨_, .closeNext hpc rfl nofun nofun, trivial, rfl, rfl, rfl⟩
  · cases h
    exact ⟨_, .closeNext hpc rfl nofun nofun, trivial, rfl, rfl, rfl⟩
  · cases h

/-- **What a step does to the queues.** -/
theorem step_post {l : Label P} (h : step imports reconnect c l = some c') :
    ∃ e, c.post.Moves e c'.post ∧ Causes c l e := by
  cases l with
  | start kind call | batch calls =>
    rw [step] at h
    split at h
    · cases h
      exact ⟨_, .same, trivial⟩
    · cases h
  | op i l =>
    obtain ⟨op, hop, h⟩ := bind_eq_some_iff.1 h
    exact (opStep_moves h).post hop
  | reader l =>
    obtain ⟨e, hm, hcause, -⟩ := readerStep_post h
    exact ⟨e, hm, hcause⟩
  | close =>
    cases h
    exact ⟨_, .close, trivial⟩
  | closer i =>
    obtain ⟨pc, hpc, h⟩ := bind_eq_some_iff.1 h
    obtain ⟨e, hm, hcause, -⟩ := closeStep_post hpc h
    exact ⟨e, hm, hcause⟩

end

end Client

end Callwire.Py
