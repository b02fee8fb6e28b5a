import Callwire.Go.Proof.ClientStep
import Callwire.Go.Proof.Library

/-!
# The order of a sent stream on the wire

A `ClientStream` or `BidiStream` hands its chunks to a sender goroutine through a channel, and
`CloseAndRecv` and `CloseSend` write the terminator themselves. What the wire has of a stream and
what its channel and its sender still hold make up the request and the chunks in the order of `Send`
(`Call.Ordered`). A terminator that is written while something is still held overtakes it
(`stream_overtaken`); if none is, the frames are the request, the chunks and the terminator
(`stream_inOrder`).
-/

namespace Callwire.Go

open Lib List

def framesOf (wire : List Written) (id : BitVec 64) : List WireMessage :=
  (wire.map (·.frame)).filter (·.id = id)

theorem framesOf_append {wire wire' : List Written} {frames : List WireMessage}
    (h : wire'.map (·.frame) = wire.map (·.frame) ++ frames) (id : BitVec 64) :
    framesOf wire' id = framesOf wire id ++ frames.filter (·.id = id) := by
  rw [framesOf, h, filter_append, framesOf]

/-- The client is connected, and the connection takes what is written to it. -/
structure View.Live (v : View) : Prop where
  conn : ∃ conn, v.conn = some conn
  closed : v.closed = false
  dead : v.dead = []

theorem View.Live.usable {v : View} (h : v.Live) : v.usable = v.conn := by
  rw [View.usable, h.closed]
  rfl

theorem View.Live.write {v : View} (h : v.Live) (conn : Nat) (frame : WireMessage) :
    v.write conn frame true = (true, .write conn frame) := by
  rw [View.write, h.dead]
  exact if_pos ⟨rfl, not_mem_nil⟩

def CallLabel.AcceptsWrites : CallLabel → Prop
  | .write ok | .terminate ok | .writeChunk ok => ok = true
  | _ => True

/-! ## One stream -/

section
variable (m : Msgpack)

namespace Call

def chunks (c : Call) : List WireMessage :=
  c.sent.map fun v => c.kind.chunk m c.id (c.kind.enqueue m v)

def stream (c : Call) : List WireMessage :=
  c.payload :: c.chunks m ++ [c.kind.terminator c.id]

/-- The chunks that the sender and its channel hold. -/
def held (c : Call) : List WireMessage :=
  (match c.sender with
    | .writing item => [c.kind.chunk m c.id item]
    | _ => []) ++ c.queue.map (c.kind.chunk m c.id)

def Early (c : Call) : Prop :=
  match c.pc with
  | .allocated | .registered | .writing _ => True
  | _ => False

/-- What the wire has of the stream, by the stage of the call. -/
inductive Ordered (c : Call) : List WireMessage → Prop
  | opening (hpc : c.Early) (hs : c.sender = .unspawned) (hsent : c.sent = [])
      (hq : c.queue = []) (hc : c.closed = false) (ht : c.terminating = false) : Ordered c []
  | streaming {frames : List WireMessage} (hpc : ¬ c.Early) (hs : c.sender ≠ .unspawned)
      (hc : c.closed = c.terminating) (hf : frames ++ c.held m = c.payload :: c.chunks m) :
      Ordered c frames
  | terminated (hpc : ¬ c.Early) (hs : c.sender ≠ .unspawned) (hc : c.closed = true)
      (ht : c.terminating = false) (ho : c.kind = .exportStream → c.pc ≠ .opened)
      (hh : c.held m = []) : Ordered c (c.stream m)

/-- **In order and complete**: the frames are the beginning of the stream, and all of it once the
terminator is written. -/
def InOrder (c : Call) (frames : List WireMessage) : Prop :=
  frames <+: c.stream m ∧
    (c.closed = true → c.terminating = false → frames = c.stream m)

variable {m} {c c' : Call} {frames : List WireMessage}

section
variable {e : Effect} (h : c.Ordered m frames)
include h

theorem Ordered.inOrder : c.InOrder m frames := by
  cases h with
  | opening _ _ _ _ hc _ => exact ⟨ nil_prefix, fun h => by cases hc.symm.trans h⟩
  | streaming _ _ hc hf =>
    refine ⟨?_, fun h ht => nomatch ((hc.symm.trans h).symm.trans ht)⟩
    unfold stream
    rw [← hf, append_assoc]
    exact prefix_append _ _
  | terminated => exact ⟨prefix_rfl, fun _ _ => rfl⟩

/-- The frames of a call that is not `Early`, after a change of its receiving side. -/
theorem Ordered.receiving (hpc : ¬ c.Early) (hpc' : ¬ c'.Early)
    (hc : c' = { c with
      pc := c'.pc, taken := c'.taken, serverEnd := c'.serverEnd, results := c'.results
      resultsTaken := c'.resultsTaken, errc := c'.errc })
    (ho : c'.pc = .opened → c.pc = .opened) : c'.Ordered m frames := by
  rw [hc] at hpc' ⊢
  cases h with
  | opening he => exact absurd he hpc
  | streaming _ hs hct hf => exact .streaming hpc' hs hct hf
  | terminated _ hs hcl ht hop hh =>
    exact .terminated hpc' hs hcl ht (fun hk hpo => hop hk (ho hpo)) hh

theorem Ordered.early (hpc : c.Early) (hpc' : c'.Early) (hc : c' = { c with pc := c'.pc }) :
    c'.Ordered m frames := by
  rw [hc] at hpc' ⊢
  cases h with
  | opening _ hs hsent hq hcl ht => exact .opening hpc' hs hsent hq hcl ht
  | streaming hn | terminated hn => exact absurd hpc hn

/-- What the call has been sent, its stamps and its results do not matter. -/
theorem Ordered.stamped (got : List Delivery) (since : Nat) (late : Bool) (resultsTaken : Nat) :
    { c with got, since, late, resultsTaken }.Ordered m frames := by
  cases h with
  | opening hpc hs hsent hq hc ht => exact .opening hpc hs hsent hq hc ht
  | streaming hpc hs hc hf => exact .streaming hpc hs hc hf
  | terminated hpc hs hc ht ho hh => exact .terminated hpc hs hc ht ho hh

theorem Ordered.quiet (he : e.frames = []) : c.Ordered m (frames ++ e.frames) := by
  rw [he, append_nil]
  exact h

theorem Ordered.handOver (hpc : c.Early) : c.handOver.Ordered m (frames ++ [c.payload]) := by
  cases h with
  | opening _ _ hsent hq hc ht =>
    refine .streaming not_false nofun (hc.trans ht.symm) ?_
    simp [held, chunks, Call.handOver, hsent, hq]
  | streaming hn | terminated hn => exact absurd hpc hn

theorem Ordered.send (w : Value) (hpc : c.pc = .opened) (hc : c.closed = false) :
    { c with queue := c.queue ++ [c.kind.enqueue m w], sent := c.sent ++ [w] }.Ordered
      m frames := by
  cases h with
  | opening he => simp [Early, hpc] at he
  | streaming hn hsp hct hf =>
    refine .streaming hn hsp hct ?_
    have : (c.payload :: c.chunks m) ++ [c.kind.chunk m c.id (c.kind.enqueue m w)] =
        frames ++ (c.held m ++ [c.kind.chunk m c.id (c.kind.enqueue m w)]) := by
      rw [← hf, append_assoc]
    simpa [held, chunks] using this.symm
  | terminated _ _ hcl => cases hc.symm.trans hcl

theorem Ordered.closeSend (hpc : c.pc = .opened)
    (hk : c.kind = .exportStream ∧ c.terminating = false ∨
      c.kind = .importBidi ∧ c.closed = false) :
    { c with closed := true, terminating := true }.Ordered m frames := by
  cases h with
  | opening he => simp [Early, hpc] at he
  | streaming hn hsp _ hf => exact .streaming hn hsp rfl hf
  | terminated _ _ hc _ ho =>
    obtain ⟨hk, -⟩ | ⟨-, hc'⟩ := hk
    · exact absurd hpc (ho hk)
    · cases hc'.symm.trans hc

theorem Ordered.terminate (ht : c.terminating = true) (hflush : c.held m = []) {pc : CallPc}
    (hpc : pc = c.pc ∨ pc = .waiting) (ho : c.kind = .exportStream → pc ≠ .opened) :
    { c with terminating := false, pc }.Ordered m (frames ++ [c.kind.terminator c.id]) := by
  cases h with
  | opening _ _ _ _ _ ht' => cases ht'.symm.trans ht
  | streaming hn hsp hc hf =>
    have hframes : frames ++ [c.kind.terminator c.id] = c.stream m := by
      rw [stream, ← hf, hflush, append_nil]
    have hn' : ¬ { c with terminating := false, pc }.Early := by
      obtain rfl | rfl := hpc
      · exact hn
      · exact not_false
    rw [hframes]
    exact .terminated hn' hsp (hc.trans ht) rfl ho hflush
  | terminated _ _ _ ht' => cases ht'.symm.trans ht

/-- The sender moves, and what it and its channel hold stays the same. -/
theorem Ordered.take (hsp : c.sender = .receiving) (hsp' : c'.sender ≠ .unspawned)
    (hheld : c'.held m = c.held m) (hc' : c' = { c with sender := c'.sender, queue := c'.queue }) :
    c'.Ordered m frames := by
  rw [hc'] at hheld ⊢
  cases h with
  | opening _ hs => cases hs.symm.trans hsp
  | streaming hn _ hc hf => exact .streaming hn hsp' hc (hheld ▸ hf)
  | terminated hn _ hc ht ho hh => exact .terminated hn hsp' hc ht ho (hheld.trans hh)

theorem Ordered.writeChunk {item : Value} (hsp : c.sender = .writing item) :
    { c with sender := .receiving }.Ordered m (frames ++ [c.kind.chunk m c.id item]) := by
  have hheld : c.held m =
      c.kind.chunk m c.id item :: { c with sender := .receiving }.held m := by
    simp [held, hsp]
  cases h with
  | opening _ hs => cases hs.symm.trans hsp
  | streaming hn _ hc hf =>
    refine .streaming hn nofun hc ?_
    rw [append_assoc, singleton_append, ← hheld]
    exact hf
  | terminated _ _ _ _ _ hh => cases hheld.symm.trans hh

/-- **A move of a stream keeps its frames in order**, if the terminator waits for the chunks. -/
theorem Ordered.move {v : View} {l : CallLabel} (hk : c.kind.sends = true)
    (hv : v.Live) (hok : l.AcceptsWrites) (hflush : ∀ ok, l = .terminate ok → c.held m = [])
    (hmove : CallMove m v c l c' e) : c'.Ordered m (frames ++ e.frames) := by
  have hkind : ∀ {kind : Kind}, c.kind = kind → kind.sends = true := fun h => h ▸ hk
  cases hmove with
  | register hpc => exact .quiet (h.early (by simp [Early, hpc]) trivial rfl) rfl
  | encodeFailed _ hk' | disconnected _ hk' => cases hk.symm.trans hk'
  | prepared hpc => exact .quiet (h.early (by simp [Early, hpc]) trivial rfl) rfl
  | unrequested _ _ hu =>
    obtain ⟨conn, hconn⟩ := hv.conn
    cases (hv.usable.trans hconn).symm.trans hu
  | requested _ hk' | writeFailed _ hk' => cases hk.symm.trans hk'
  | handedOver hpc =>
    obtain rfl : _ = true := hok
    rw [hv.write]
    exact h.handOver (by simp [Early, hpc])
  | reply _ _ hpc | expired _ hpc =>
    exact .quiet (h.receiving (by simp [Early, hpc]) not_false rfl nofun) rfl
  | item _ hk' | undecoded _ hk' | ended _ hk' | skipped _ hk' | expiredStream hk' =>
    cases hkind hk'
  | recv _ _ hpc | recvEnd _ _ hpc | recvEndTwice _ _ hpc =>
    have hn : ¬ c.Early := by simp [Early, hpc]
    exact .quiet (h.receiving hn hn rfl fun h => h) rfl
  | deliver hpc | cleanup hpc | abandon hpc =>
    exact .quiet (h.receiving (by simp [Early, hpc]) not_false rfl nofun) rfl
  | takeResult => exact .quiet (h.stamped _ _ _ _) rfl
  | send hpc _ hc => exact .quiet (h.send _ hpc hc) rfl
  | closeSend hpc hk' => exact .quiet (h.closeSend hpc hk') rfl
  | closeTwice | closeAgain => exact .quiet h rfl
  | terminateNil _ hconn | chunkNil _ hconn =>
    obtain ⟨conn, hconn'⟩ := hv.conn
    cases hconn'.symm.trans hconn
  | terminated ht _ hk' =>
    obtain rfl : _ = true := hok
    rw [hv.write]
    exact h.terminate ht (hflush _ rfl) (.inl rfl) fun hk => absurd hk hk'
  | terminatedExport ht =>
    exact h.terminate ht (hflush _ rfl) (.inr rfl) fun _ => nofun
  | terminateFailed _ _ _ hfail =>
    obtain rfl : _ = true := hok
    rw [hv.dead] at hfail
    exact nomatch hfail
  | take hs hq | takeEnd hs hq => exact .quiet (h.take hs nofun (by simp [held, hs, hq]) rfl) rfl
  | chunk hs =>
    obtain rfl : _ = true := hok
    rw [hv.write]
    exact h.writeChunk hs

end

theorem request_id (kind : Kind) (id : BitVec 64) (func : String) (args : List Value) :
    (kind.request id func args).id = id := by
  cases kind <;> rfl

theorem Writes.id_eq {frame : WireMessage} (h : c.Writes m frame) (hp : c.payload.id = c.id) :
    frame.id = c.id := by
  cases h with
  | payload => exact hp
  | chunk item => unfold Kind.chunk; split <;> rfl
  | terminator => unfold Kind.terminator; split <;> rfl

theorem held_eq_nil (hq : c.queue = []) (hs : ∀ item, c.sender ≠ .writing item) :
    c.held m = [] := by
  unfold held
  rw [hq]
  split
  · exact absurd ‹_› (hs _)
  · rfl

end Call

end

/-! ## The client -/

/-- The client is not closed, and the connection takes what is written. -/
def AcceptsWrites : Label → Prop
  | .close => False
  | .call _ l => l.AcceptsWrites
  | _ => True

/-- A terminator is written when the sender and its channel hold nothing. -/
def Flushed (c : Client) : Label → Prop
  | .call i (.terminate _) => ∀ call, c.calls[i]? = some call →
      call.queue = [] ∧ ∀ item, call.sender ≠ .writing item
  | _ => True

/-- Every sent stream is in order. -/
structure Sending (m : Msgpack) (c : Client) : Prop where
  live : c.view.Live
  idle : c.toClose = []
  next : c.nextID = BitVec.ofNat 64 c.calls.length
  ids : ∀ i call, c.calls[i]? = some call → call.id = BitVec.ofNat 64 (i + 1)
  payload : ∀ call ∈ c.calls, call.payload.id = call.id
  wire : ∀ w ∈ c.wire, ∃ call ∈ c.calls, w.frame.id = call.id
  ordered : ∀ call ∈ c.calls, call.kind.sends = true → call.Ordered m (framesOf c.wire call.id)

namespace Sending
variable {m : Msgpack} {c c' : Client}

theorem eq_of_ofNat {i j : Nat} (hi : i < 2 ^ 64) (hj : j < 2 ^ 64)
    (h : BitVec.ofNat 64 i = BitVec.ofNat 64 j) : i = j := by
  have := congrArg BitVec.toNat h
  rwa [BitVec.toNat_ofNat, BitVec.toNat_ofNat, Nat.mod_eq_of_lt hi, Nat.mod_eq_of_lt hj] at this

theorem init : Sending m .init where
  live := ⟨⟨0, rfl⟩, rfl, rfl⟩
  idle := rfl
  next := rfl
  ids := fun _ _ h => nomatch h
  payload := fun _ h => nomatch h
  wire := fun _ h => nomatch h
  ordered := fun _ h => nomatch h

section
variable (h : Sending m c)
include h

theorem id_inj (hn : c.calls.length < 2 ^ 64) {i j : Nat} {a b : Call} (ha : c.calls[i]? = some a)
    (hb : c.calls[j]? = some b) (hid : a.id = b.id) : i = j := by
  obtain ⟨hi, -⟩ := List.getElem?_eq_some_iff.1 ha
  obtain ⟨hj, -⟩ := List.getElem?_eq_some_iff.1 hb
  rw [h.ids i a ha, h.ids j b hb] at hid
  have := eq_of_ofNat (by omega) (by omega) hid
  omega

theorem start (hn : c.calls.length + 1 < 2 ^ 64) (kind : Kind) (func : String) (args : List Value) :
    Sending m (c.startCall kind func args) := by
  have hnew : c.nextID + 1 = BitVec.ofNat 64 (c.calls.length + 1) := by
    rw [h.next, BitVec.ofNat_add]
    rfl
  -- no call so far has the new id
  have hfresh : ∀ call ∈ c.calls, call.id ≠ c.nextID + 1 := by
    intro call hcall he
    obtain ⟨i, hi⟩ := mem_iff_getElem?.1 hcall
    obtain ⟨hlt, -⟩ := List.getElem?_eq_some_iff.1 hi
    rw [h.ids i call hi, hnew] at he
    have := eq_of_ofNat (by omega) hn he
    omega
  have hmem : ∀ call ∈ (c.startCall kind func args).calls, call ∈ c.calls ∨
      call = .start kind (c.nextID + 1) (kind.request (c.nextID + 1) func args) := by
    intro call hcall
    exact (mem_append.1 hcall).imp_right mem_singleton.1
  refine ⟨h.live, h.idle, ?_, ?_, ?_, ?_, ?_⟩
  · show c.nextID + 1 = _
    rw [hnew, Client.startCall, length_append]
    rfl
  · intro i call hi
    rcases concat_cases hi with hi | ⟨rfl, rfl⟩
    · exact h.ids i call hi
    · exact hnew
  · intro call hcall
    rcases hmem call hcall with hold | rfl
    · exact h.payload call hold
    · exact Call.request_id kind _ func args
  · intro w hw
    obtain ⟨call, hcall, hid⟩ := h.wire w hw
    exact ⟨call, mem_append_left _ hcall, hid⟩
  · intro call hcall hk
    rcases hmem call hcall with hold | rfl
    · exact h.ordered call hold hk
    · have hnone : framesOf c.wire (c.nextID + 1) = [] := by
        refine filter_eq_nil_iff.2 fun f hf => ?_
        obtain ⟨w, hw, rfl⟩ := mem_map.1 hf
        obtain ⟨call, hcall, hid⟩ := h.wire w hw
        rw [hid, decide_eq_true_eq]
        exact hfresh call hcall
      show Call.Ordered m _ (framesOf c.wire (c.nextID + 1))
      rw [hnone]
      exact .opening trivial rfl rfl rfl rfl rfl

theorem moved (hn : c.calls.length < 2 ^ 64) {i : Nat} {call call' : Call}
    {frames : List WireMessage} (hcall : c.calls[i]? = some call)
    (hcalls : c'.calls = c.calls.set i call')
    (hwire : c'.wire.map (·.frame) = c.wire.map (·.frame) ++ frames)
    (hkind : call'.kind = call.kind) (hid : call'.id = call.id)
    (hpayload : call'.payload = call.payload) (hframes : ∀ f ∈ frames, f.id = call.id)
    (hord : call.kind.sends = true → ∀ fs, call.Ordered m fs → call'.Ordered m (fs ++ frames))
    (hlive : c'.view.Live) (hidle : c'.toClose = []) (hnext : c'.nextID = c.nextID) :
    Sending m c' := by
  have hmem : call ∈ c.calls := mem_of_getElem? hcall
  have hget : ∀ {j a}, c'.calls[j]? = some a → i = j ∧ a = call' ∨ i ≠ j ∧ c.calls[j]? = some a :=
    fun hj => set_cases hcall (hcalls ▸ hj)
  have hids : c'.calls.map Call.id = c.calls.map Call.id := by
    rw [hcalls, map_set_of_eq Call.id hcall hid]
  refine ⟨hlive, hidle, ?_, ?_, ?_, ?_, ?_⟩
  · rw [hnext, hcalls, length_set]
    exact h.next
  · intro j a hj
    obtain ⟨rfl, rfl⟩ | ⟨-, hj⟩ := hget hj
    · rw [hid]
      exact h.ids _ call hcall
    · exact h.ids j a hj
  · intro a ha
    obtain ⟨j, hj⟩ := mem_iff_getElem?.1 ha
    obtain ⟨rfl, rfl⟩ | ⟨-, hj⟩ := hget hj
    · rw [hid, hpayload]
      exact h.payload call hmem
    · exact h.payload a (mem_of_getElem? hj)
  · intro w hw
    have hset : ∀ a ∈ c.calls, ∃ b ∈ c'.calls, b.id = a.id := by
      intro a ha
      have hmem : a.id ∈ c'.calls.map Call.id := hids ▸ mem_map_of_mem ha
      exact mem_map.1 hmem
    have hf : w.frame ∈ c.wire.map (·.frame) ++ frames := hwire ▸ mem_map_of_mem hw
    rcases mem_append.1 hf with hold | hnew
    · obtain ⟨w', hw', he⟩ := mem_map.1 hold
      obtain ⟨a, ha, hida⟩ := h.wire w' hw'
      obtain ⟨b, hb, hidb⟩ := hset a ha
      exact ⟨b, hb, by rw [← he, hida, hidb]⟩
    · obtain ⟨b, hb, hidb⟩ := hset call hmem
      exact ⟨b, hb, by rw [hframes _ hnew, hidb]⟩
  · intro a ha hk
    obtain ⟨j, hj⟩ := mem_iff_getElem?.1 ha
    rw [framesOf_append hwire]
    obtain ⟨rfl, rfl⟩ | ⟨hij, hj⟩ := hget hj
    · rw [hkind] at hk
      rw [hid, filter_eq_self.2 fun f hf => decide_eq_true (hframes f hf)]
      exact hord hk _ (h.ordered call hmem hk)
    · -- another call's frames have another id
      have hnone : frames.filter (·.id = a.id) = [] := by
        refine filter_eq_nil_iff.2 fun f hf he => hij ?_
        rw [decide_eq_true_eq, hframes f hf] at he
        exact h.id_inj hn hcall hj he
      rw [hnone, append_nil]
      exact h.ordered a (mem_of_getElem? hj) hk

theorem silent (hn : c.calls.length < 2 ^ 64) {i : Nat} {call call' : Call}
    (hcall : c.calls[i]? = some call) (hcalls : c'.calls = c.calls.set i call')
    (hwire : c'.wire = c.wire) (hkind : call'.kind = call.kind) (hid : call'.id = call.id)
    (hpayload : call'.payload = call.payload)
    (hord : call.kind.sends = true → ∀ fs, call.Ordered m fs → call'.Ordered m fs)
    (hlive : c'.view.Live) (hidle : c'.toClose = []) (hnext : c'.nextID = c.nextID) :
    Sending m c' := by
  have hframes : c'.wire.map (·.frame) = c.wire.map (·.frame) ++ [] := by
    rw [hwire, append_nil]
  refine h.moved hn hcall hcalls hframes hkind hid hpayload (fun _ hf => nomatch hf) ?_ hlive hidle
    hnext
  intro hk fs hf
  rw [append_nil]
  exact hord hk fs hf

theorem called (hn : c.calls.length < 2 ^ 64) {i : Nat} {l : CallLabel} {call call' : Call}
    {e : Effect} (hok : l.AcceptsWrites) (hflush : Flushed c (.call i l))
    (hcall : c.calls[i]? = some call) (hm : CallMove m c.view call l call' e)
    (hcalls : c'.calls = c.calls.set i call')
    (hwire : c'.wire.map (·.frame) = c.wire.map (·.frame) ++ e.frames) (hview : c'.view = c.view)
    (hidle : c'.toClose = c.toClose) (hnext : c'.nextID = c.nextID) : Sending m c' := by
  have hfix := hm.fixed
  have hids : ∀ f ∈ e.frames, f.id = call.id := fun f hf =>
    (hm.writes f hf).id_eq (h.payload call (mem_of_getElem? hcall))
  refine h.moved hn hcall hcalls hwire (congrArg Fixed.kind hfix) (congrArg Fixed.id hfix)
    (congrArg Fixed.payload hfix) hids ?_ (hview ▸ h.live) (hidle.trans h.idle) hnext
  intro hk fs hord
  refine hord.move hk h.live hok ?_ hm
  rintro ok rfl
  obtain ⟨hq, hsp⟩ := hflush call hcall
  exact Call.held_eq_nil hq hsp

theorem step {reconnect : Bool} {l : Label} (hn : c'.calls.length < 2 ^ 64)
    (hok : AcceptsWrites l ∧ Flushed c l) (hstep : step m reconnect c l = some c') :
    Sending m c' := by
  obtain ⟨hacc, hflush⟩ := hok
  have hset : ∀ {i : Nat} {call : Call}, c'.calls = c.calls.set i call →
      c.calls.length < 2 ^ 64 := by
    intro i call he
    rwa [he, length_set] at hn
  cases step_move hstep with
  | start =>
    refine h.start ?_ _ _ _
    simpa [Client.startCall] using hn
  | quiet hcall hm =>
    exact h.called (hset rfl) hacc hflush hcall hm rfl (append_nil _).symm rfl rfl rfl
  | @register i call hcall hpc hlock =>
    refine h.silent (hset rfl) hcall rfl rfl rfl rfl rfl (fun _ fs hord => ?_) h.live h.idle rfl
    have hearly : { call with pc := .registered }.Ordered m fs :=
      hord.early (by simp [Call.Early, hpc]) trivial rfl
    exact hearly.stamped _ _ _ _
  | unregister hcall hpc hlock =>
    refine h.silent (hset rfl) hcall rfl rfl rfl rfl rfl (fun _ fs hord => ?_) h.live h.idle rfl
    exact hord.receiving (by simp [Call.Early, hpc]) not_false rfl nofun
  | write hcall hm =>
    exact h.called (hset rfl) hacc hflush hcall hm rfl map_append rfl rfl rfl
  | crash hcall hm =>
    exact h.called (hset rfl) hacc hflush hcall hm rfl (append_nil _).symm rfl rfl rfl
  | close => cases hacc
  | closeConn ht => cases h.idle.symm.trans ht
  | sent hloop hcall hroom | drainSent hloop hcall hroom =>
    refine h.silent (hset rfl) hcall rfl rfl rfl rfl rfl (fun _ fs hord => ?_) h.live h.idle rfl
    exact hord.stamped _ _ _ _
  | discard hloop hc => cases h.live.closed.symm.trans hc
  | install hloop hc => exact { h with live := ⟨⟨_, rfl⟩, hc, h.live.dead⟩ }
  | _ => exact { h with }

end

end Sending

/-! ## Order on the wire -/

section
variable {m : Msgpack} {reconnect : Bool}

theorem calls_length {c c' : Client} {l : Label} (hstep : step m reconnect c l = some c') :
    c.calls.length ≤ c'.calls.length := by
  cases step_move hstep with
  | start => simp [Client.startCall]
  | quiet | register | unregister | write | crash | sent | drainSent =>
    exact (length_set ..).ge
  | _ => exact Nat.le_refl _

/-- **While the connection takes what is written, the frames of a sent stream are in order**: the
request, the chunks as they were sent, and the terminator, if the terminator is written when the
sender has written them all. -/
theorem stream_inOrder {ls : List Label} {c : Client} {call : Call}
    (hok : Along (step m reconnect) (fun c l => AcceptsWrites l ∧ Flushed c l) .init ls)
    (hrun : run (step m reconnect) .init ls = some c) (hn : c.calls.length < 2 ^ 64)
    (hcall : call ∈ c.calls) (hk : call.kind.sends = true) :
    call.InOrder m (framesOf c.wire call.id) := by
  have hinv : ∀ s l s', (s.calls.length < 2 ^ 64 → Sending m s) → AcceptsWrites l ∧ Flushed s l →
      step m reconnect s l = some s' → s'.calls.length < 2 ^ 64 → Sending m s' := by
    intro s l s' hi hp hs hn'
    exact (hi (Nat.lt_of_le_of_lt (calls_length hs) hn')).step hn' hp hs
  have h : Sending m c := run_invariant hinv (fun _ => .init) hok hrun hn
  exact (h.ordered call hcall hk).inOrder

end

def sendLabels (kind : Kind) : List Label :=
  [.start kind "f" [], .call 0 .register, .call 0 (.prepare true), .call 0 (.write true),
    .call 0 (.send .nil)]

/-- `CloseAndRecv` or `CloseSend`, and then the sender. -/
def overtakeLabels (kind : Kind) : List Label :=
  sendLabels kind ++ [.call 0 .closeSend, .call 0 (.terminate true), .call 0 .take,
    .call 0 (.writeChunk true)]

/-- The sender, and then `CloseAndRecv` or `CloseSend`. -/
def flushLabels (kind : Kind) : List Label :=
  sendLabels kind ++ [.call 0 .take, .call 0 (.writeChunk true), .call 0 .closeSend]

/-- **The terminator overtakes the chunk that is still in the channel**, of a `ClientStream` and of
a `BidiStream`. -/
theorem stream_overtaken :
    (∃ c call, run (step msgpack false) .init (overtakeLabels .exportStream) = some c ∧
      c.calls = [call] ∧ framesOf c.wire call.id =
        [request 1 "f" [], streamClose 1, streamChunk 1 (.bin (msgpack.marshal .nil))] ∧
      ¬ call.InOrder msgpack (framesOf c.wire call.id)) ∧
    (∃ c call, run (step msgpack false) .init (overtakeLabels .importBidi) = some c ∧
      c.calls = [call] ∧ framesOf c.wire call.id =
        [bidiRequest 1 "f" [], streamEnd 1, streamChunk 1 (.bin (msgpack.marshal .nil))] ∧
      ¬ call.InOrder msgpack (framesOf c.wire call.id)) := by
  -- the second frame is the terminator, and should be the chunk
  let second : List WireMessage → Option String := fun frames => frames[1]?.map WireMessage.type
  constructor
  · refine ⟨_, _, rfl, rfl, rfl, fun h => ?_⟩
    have h : some "stream_close" = some "stream_chunk" := congrArg second (h.2 rfl rfl)
    exact absurd h (by decide)
  · refine ⟨_, _, rfl, rfl, rfl, fun h => ?_⟩
    have h : some "stream_end" = some "stream_chunk" := congrArg second (h.2 rfl rfl)
    exact absurd h (by decide)

theorem stream_inOrder_flushed : ∃ c call,
    run (step msgpack false) .init (flushLabels .exportStream ++ [.call 0 (.terminate true)]) =
      some c ∧
    c.calls = [call] ∧ call.InOrder msgpack (framesOf c.wire call.id) ∧
    framesOf c.wire call.id =
      [request 1 "f" [], streamChunk 1 (.bin (msgpack.marshal .nil)), streamClose 1] := by
  have hok : Along (step msgpack false) (fun c l => AcceptsWrites l ∧ Flushed c l) .init
      (flushLabels .exportStream ++ [.call 0 (.terminate true)]) := by
    refine .append (.of_labels ?_ _) rfl (.cons ⟨rfl, ?_⟩ rfl trivial)
    · simp [flushLabels, sendLabels, AcceptsWrites, CallLabel.AcceptsWrites, Flushed]
    · intro call hcall
      cases hcall
      exact ⟨rfl, fun _ => nofun⟩
  refine ⟨_, _, rfl, rfl, ?_, rfl⟩
  exact stream_inOrder hok rfl (by decide) (mem_singleton_self _) rfl

end Callwire.Go
