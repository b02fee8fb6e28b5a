import Callwire.Go.Proof.ClientStep

/-!
# The client as one of its calls sees it

What the client does to one call is that call's own moves, and few others: it is registered or loses
its entry in the map, a frame for it is taken off the connection, and a message is put into its
channel. `CallEvent` lists these, and `Linked.event` says that there are no others. A property of
every call is therefore kept by the client if every event keeps it (`Each.step`).
-/

namespace Callwire.Go

open Lib List Client

/-! ## Events -/

/-- The frames handled so far, whether the map leads to the call, the message that the read loop is
sending to it, and the call. -/
structure CallView where
  handled : List WireMessage
  registered : Bool
  inFlight : Option Delivery
  call : Call

/-- The read loop is not sending what a frame has brought. -/
def LoopPc.Idle : LoopPc → Prop
  | .sending _ _ => False
  | _ => True

namespace Client

def registered (c : Client) (i : Nat) (call : Call) : Bool := c.pending.lookup call.id = some i

def inFlight (c : Client) (i : Nat) : Option Delivery :=
  match c.loop with
  | .sending j d => if j = i then some d else none
  | _ => none

def callView (c : Client) (i : Nat) (call : Call) : CallView where
  handled := c.handled
  registered := c.registered i call
  inFlight := c.inFlight i
  call := call

variable {c : Client}

theorem inFlight_eq {i : Nat} {d : Delivery} (h : c.loop = .sending i d) :
    c.inFlight i = some d := by
  rw [inFlight, h]
  exact if_pos rfl

theorem inFlight_none {i : Nat} (h : ∀ d, c.loop ≠ .sending i d) : c.inFlight i = none := by
  unfold inFlight
  split
  · rename_i j d hloop
    refine if_neg fun hj => h d ?_
    rw [hloop, hj]
  · rfl

theorem inFlight_of_loop {pc : LoopPc} (hloop : c.loop = pc) (hpc : pc.Idle) (i : Nat) :
    c.inFlight i = none := by
  rw [inFlight, hloop]
  cases pc with
  | sending => cases hpc
  | _ => rfl

theorem registered_true {i : Nat} {call : Call} (h : c.registered i call = true) :
    c.pending.lookup call.id = some i := of_decide_eq_true h

end Client

/-- What happens to call `i`. -/
inductive CallEvent (m : Msgpack) (v : View) (i : Nat) (a : CallView) : Label → CallView → Prop
  /-- others move, and may take the entry away -/
  | still {l : Label} {r : Bool} (hr : r = true → a.registered = true) :
      CallEvent m v i a l { a with registered := r }
  /-- a frame that is not for the call -/
  | frame {msg : WireMessage} (hid : a.registered = true → msg.id ≠ a.call.id) :
      CallEvent m v i a (.loop (.frame msg)) { a with handled := a.handled ++ [msg] }
  | register {late : Bool} (hpc : a.call.pc = .allocated) :
      CallEvent m v i a (.call i .register)
        { a with
          registered := true
          call := { a.call with pc := .registered, since := a.handled.length, late } }
  | move {l : CallLabel} {call' : Call} {e : Effect} {r : Bool} (hl : l ≠ .register)
      (hm : CallMove m v a.call l call' e) (hr : r = true → a.registered = true) :
      CallEvent m v i a (.call i l) { a with registered := r, call := call' }
  | chunk {msg : WireMessage} (hr : a.registered = true) (hf : a.inFlight = none)
      (hid : msg.id = a.call.id) (ht : msg.type = "stream_chunk") :
      CallEvent m v i a (.loop (.frame msg))
        { a with
          handled := a.handled ++ [msg]
          inFlight := some ⟨msg, some a.handled.length⟩ }
  | final {msg : WireMessage} (hr : a.registered = true) (hf : a.inFlight = none)
      (hid : msg.id = a.call.id) (ht : msg.type ≠ "stream_chunk") :
      CallEvent m v i a (.loop (.frame msg))
        { a with
          handled := a.handled ++ [msg]
          registered := false
          inFlight := some ⟨msg, some a.handled.length⟩ }
  | sent {d : Delivery} (hf : a.inFlight = some d) :
      CallEvent m v i a (.loop .send)
        { a with inFlight := none, call := { a.call with got := a.call.got ++ [d] } }
  | drained (hr : a.registered = true) (hf : a.inFlight = none) :
      CallEvent m v i a (.loop .send)
        { a with
          registered := false
          call := { a.call with got := a.call.got ++ [⟨connectionLost a.call.id, none⟩] } }

/-- A call that is not registered does not become so by itself. -/
theorem unregistered {r r' : Bool} (hr : r' = true → r = true) (h : r = false) : r' = false :=
  Bool.eq_false_iff.2 fun h' => by cases h.symm.trans (hr h')

/-! ## The client makes no others -/

section
variable {m : Msgpack} {reconnect : Bool} {c c' : Client} {l : Label}

theorem Move.kept (h : Move m reconnect c l c') {i : Nat} {call : Call}
    (hcall : c.calls[i]? = some call) :
    ∃ call', c'.calls[i]? = some call' ∧ call'.kind = call.kind ∧ call'.id = call.id ∧
      call'.payload = call.payload := by
  have hset : ∀ {j : Nat} {b b' : Call}, c.calls[j]? = some b → b'.kind = b.kind → b'.id = b.id →
      b'.payload = b.payload → ∃ call', (c.calls.set j b')[i]? = some call' ∧
        call'.kind = call.kind ∧ call'.id = call.id ∧ call'.payload = call.payload := by
    intro j b b' hb hkind hid hpayload
    refine exists_set hb hcall ?_ ⟨rfl, rfl, rfl⟩
    rintro rfl
    exact ⟨hkind, hid, hpayload⟩
  cases h with
  | start =>
    have hi := lt_of_some hcall
    exact ⟨call, (getElem?_append_left hi).trans hcall, rfl, rfl, rfl⟩
  | quiet hb hm | write hb hm | crash hb hm =>
    exact hset hb (congrArg Fixed.kind hm.fixed) (congrArg Fixed.id hm.fixed)
      (congrArg Fixed.payload hm.fixed)
  | register hb | unregister hb | sent _ hb | drainSent _ hb => exact hset hb rfl rfl rfl
  | _ => exact ⟨call, hcall, rfl, rfl, rfl⟩

structure Linked (c : Client) : Prop where
  pending : ∀ id i, c.pending.lookup id = some i → ∃ call, c.calls[i]? = some call ∧ call.id = id
  drain : ∀ id i, c.loop = .drainSend id i → c.pending.lookup id = some i
  target : ∀ i d, c.loop = .sending i d → ∃ call, c.calls[i]? = some call

namespace Linked

theorem init : Linked .init where
  pending := fun _ _ h => nomatch h
  drain := fun _ _ h => nomatch h
  target := fun _ _ h => nomatch h

theorem not_drainSend (hlock : c.locked = false) (id : BitVec 64) (j : Nat) :
    c.loop ≠ .drainSend id j := by
  intro h
  rw [locked, h] at hlock
  cases hlock

section
variable (h : Linked c) (hmove : Move m reconnect c l c')
include h hmove

theorem update
    (hpending : ∀ id i, c'.pending.lookup id = some i →
      c.pending.lookup id = some i ∨ ∃ call, c.calls[i]? = some call ∧ call.id = id)
    (hdrain : ∀ id i, c'.loop = .drainSend id i → c'.pending.lookup id = some i)
    (htarget : ∀ i d, c'.loop = .sending i d →
      c.loop = .sending i d ∨ ∃ call, c.calls[i]? = some call) : Linked c' := by
  refine ⟨fun id i hl => ?_, hdrain, fun i d hloop => ?_⟩
  · have hold : ∃ call, c.calls[i]? = some call ∧ call.id = id :=
      (hpending id i hl).elim (h.pending id i) fun hnew => hnew
    obtain ⟨call, hcall, hid⟩ := hold
    obtain ⟨call', hcall', -, hid', -⟩ := hmove.kept hcall
    exact ⟨call', hcall', hid'.trans hid⟩
  · have hold : ∃ call, c.calls[i]? = some call :=
      (htarget i d hloop).elim (h.target i d) fun hnew => hnew
    obtain ⟨call, hcall⟩ := hold
    obtain ⟨call', hcall', -⟩ := hmove.kept hcall
    exact ⟨call', hcall'⟩

theorem idle (hpending : c'.pending = c.pending) (hpc : c'.loop.Idle)
    (hdrain : ∀ id i, c'.loop ≠ .drainSend id i) : Linked c' := by
  refine h.update hmove (fun _ _ hl => .inl (hpending ▸ hl))
    (fun id i hd => absurd hd (hdrain id i))
    fun i d hs => ?_
  rw [hs] at hpc
  cases hpc

theorem step : Linked c' := by
  have hmove' := hmove
  cases hmove with
  | start | quiet | write | crash | close | closeConn =>
    exact h.update hmove' (fun _ _ hl => .inl hl) h.drain (fun _ _ hl => .inl hl)
  | @register i call hcall hpc hlock =>
    refine h.update hmove' (fun id j hl => ?_) (fun id j hd => absurd hd (not_drainSend hlock id j))
      (fun _ _ hl => .inl hl)
    rcases lookup_insert_cases hl with ⟨rfl, rfl⟩ | ⟨-, hl⟩
    · exact .inr ⟨call, hcall, rfl⟩
    · exact .inl hl
  | unregister hcall hpc hlock =>
    exact h.update hmove' (fun _ _ hl => .inl (lookup_of_erase hl).2)
      (fun id j hd => absurd hd (not_drainSend hlock id j)) (fun _ _ hl => .inl hl)
  | chunk hloop hd hl =>
    refine h.update hmove' (fun _ _ hl => .inl hl) nofun fun i d hs => .inr ?_
    cases hs
    obtain ⟨call, hcall, -⟩ := h.pending _ _ hl
    exact ⟨call, hcall⟩
  | final hloop hd hl =>
    refine h.update hmove' (fun _ _ hl => .inl (lookup_of_erase hl).2) nofun fun i d hs => .inr ?_
    cases hs
    obtain ⟨call, hcall, -⟩ := h.pending _ _ hl
    exact ⟨call, hcall⟩
  | drainSent => exact h.update hmove' (fun _ _ hl => .inl (lookup_of_erase hl).2) nofun nofun
  | drain hloop hl =>
    refine h.update hmove' (fun _ _ hl => .inl hl) (fun id i hd => ?_) nofun
    cases hd
    exact hl
  | _ => exact h.idle hmove' rfl trivial nofun

end

theorem still {i : Nat} {call : Call} (hhandled : c'.handled = c.handled)
    (hinFlight : c'.inFlight i = c.inFlight i)
    (hpending : c'.pending.lookup call.id = some i → c.pending.lookup call.id = some i) :
    CallEvent m c.view i (c.callView i call) l (c'.callView i call) := by
  unfold callView
  rw [hhandled, hinFlight]
  exact .still fun hr => decide_eq_true (hpending (of_decide_eq_true hr))

theorem called {i j : Nat} {cl : CallLabel} {b b' call' : Call} {e : Effect}
    (hb : c.calls[j]? = some b) (hm : CallMove m c.view b cl b' e) (hl : cl ≠ .register)
    (hcall' : (c.calls.set j b')[i]? = some call') (hhandled : c'.handled = c.handled)
    (hloop : c'.loop = c.loop)
    (hpending : ∀ id, c'.pending.lookup id = some i → c.pending.lookup id = some i) :
    ∃ call, c.calls[i]? = some call ∧
      CallEvent m c.view i (c.callView i call) (.call j cl) (c'.callView i call') := by
  have hinFlight : c'.inFlight i = c.inFlight i := by rw [inFlight, hloop, inFlight]
  rcases set_cases hb hcall' with ⟨rfl, rfl⟩ | ⟨-, hcall⟩
  · refine ⟨b, hb, ?_⟩
    unfold callView
    rw [hhandled, hinFlight]
    have hid : call'.id = b.id := congrArg Fixed.id hm.fixed
    refine .move hl hm fun hr => decide_eq_true (hpending _ ?_)
    rw [← hid]
    exact of_decide_eq_true hr
  · exact ⟨call', hcall, still hhandled hinFlight (hpending _)⟩

/-- A frame that is not for call `i`. -/
theorem otherFrame {i conn : Nat} {msg : WireMessage} {call : Call} (hloop : c.loop = .reading conn)
    (hl : c.pending.lookup msg.id ≠ some i) (hhandled : c'.handled = c.handled ++ [msg])
    (hloop' : ∀ d, c'.loop ≠ .sending i d)
    (hpending : c'.pending = c.pending ∨ c'.pending = c.pending.erase msg.id) :
    CallEvent m c.view i (c.callView i call) (.loop (.frame msg)) (c'.callView i call) := by
  have hreg : c'.registered i call = c.registered i call := by
    unfold registered
    rcases hpending with hp | hp <;> rw [hp]
    by_cases hid : call.id = msg.id
    · rw [hid, decide_eq_false hl, decide_eq_false fun he => (lookup_of_erase he).1 rfl]
    · rw [AList.lookup_erase_ne hid]
  unfold callView
  rw [hhandled, inFlight_none hloop', hreg, ← inFlight_of_loop hloop trivial i]
  refine .frame fun hr hid => hl ?_
  rw [hid]
  exact of_decide_eq_true hr

/-- **What the client does to call `i` is an event of that call**, unless the call is new. -/
theorem event (h : Linked c) (hmove : Move m reconnect c l c') {i : Nat} {call' : Call}
    (hcall' : c'.calls[i]? = some call') :
    (i = c.calls.length ∧ ∃ kind id payload,
      c'.callView i call' = ⟨c.handled, false, none, .start kind id payload⟩) ∨
    ∃ call, c.calls[i]? = some call ∧
      CallEvent m c.view i (c.callView i call) l (c'.callView i call') := by
  -- the read loop moves on and neither was nor is at a send
  have hidle : ∀ {pc : LoopPc}, c.loop = pc → pc.Idle → c'.calls = c.calls →
      c'.handled = c.handled → c'.pending = c.pending → c'.loop.Idle →
      ∃ call, c.calls[i]? = some call ∧
        CallEvent m c.view i (c.callView i call) l (c'.callView i call') := by
    intro pc hloop hpc hcalls hhandled hpending hpc'
    rw [hcalls] at hcall'
    refine ⟨call', hcall', still hhandled ?_ fun hl => hpending ▸ hl⟩
    rw [inFlight_of_loop hloop hpc, inFlight_of_loop rfl hpc']
  cases hmove with
  | @start kind func args =>
    rcases concat_cases hcall' with hcall | ⟨rfl, rfl⟩
    · exact .inr ⟨call', hcall, still rfl rfl fun hl => hl⟩
    · have hnone : ∀ call, c.calls[c.calls.length]? ≠ some call := by
        intro call hcall
        cases (getElem?_eq_none (Nat.le_refl _)).symm.trans hcall
      have hreg : c.registered c.calls.length
          (.start kind (c.nextID + 1) (kind.request (c.nextID + 1) func args)) = false := by
        refine decide_eq_false fun hl => ?_
        obtain ⟨call, hcall, -⟩ := h.pending _ _ hl
        exact hnone call hcall
      have hfl : c.inFlight c.calls.length = none := by
        refine inFlight_none fun d hd => ?_
        obtain ⟨call, hcall⟩ := h.target _ d hd
        exact hnone call hcall
      refine .inl ⟨rfl, kind, c.nextID + 1, kind.request (c.nextID + 1) func args, ?_⟩
      rw [← hreg, ← hfl]
      rfl
  | quiet hb hm | write hb hm | crash hb hm =>
    exact .inr (called hb hm (by rintro rfl; cases hm) hcall' rfl rfl fun _ hl => hl)
  | @register j b hb hpc hlock =>
    rcases set_cases hb hcall' with ⟨rfl, rfl⟩ | ⟨hji, hcall⟩
    · have hreg : registered { c with pending := c.pending.insert b.id j } j b = true :=
        decide_eq_true (AList.lookup_insert _)
      refine .inr ⟨b, hb, ?_⟩
      show CallEvent m c.view j (c.callView j b) _
        ⟨c.handled, registered { c with pending := c.pending.insert b.id j } j b,
          c.inFlight j, _⟩
      rw [hreg]
      exact .register hpc
    · refine .inr ⟨call', hcall, still rfl rfl fun hl => ?_⟩
      rcases lookup_insert_cases hl with ⟨-, rfl⟩ | ⟨-, hl⟩
      · exact absurd rfl hji
      · exact hl
  | unregister hb hpc =>
    exact .inr (called hb (.cleanup hpc) nofun hcall' rfl rfl fun _ hl => (lookup_of_erase hl).2)
  | close | closeConn => exact .inr ⟨call', hcall', still rfl rfl fun hl => hl⟩
  | leave hloop | read hloop | badFrame hloop | readError hloop | drain hloop | drainEnd hloop
  | giveUp hloop | redial hloop | dialFailed hloop | dialled hloop | discard hloop
  | install hloop => exact .inr (hidle hloop trivial rfl rfl rfl trivial)
  | @ignored conn msg hloop hd hl =>
    exact .inr ⟨call', hcall', otherFrame hloop (by rw [hl]; exact nofun) rfl nofun (.inl rfl)⟩
  | @chunk conn j msg hloop hd hl ht =>
    by_cases hij : i = j
    · subst hij
      obtain ⟨call, hcall, hid⟩ := h.pending _ _ hl
      obtain rfl : call = call' := Option.mem_unique hcall hcall'
      refine .inr ⟨call, hcall, ?_⟩
      show CallEvent m c.view i (c.callView i call) _
        ⟨_, c.registered i call, if i = i then some ⟨msg, some c.handled.length⟩ else none, call⟩
      rw [if_pos rfl]
      exact .chunk (decide_eq_true (hid ▸ hl)) (inFlight_of_loop hloop trivial i) hid.symm ht
    · refine .inr ⟨call', hcall', otherFrame hloop ?_ rfl (fun d he => ?_) (.inl rfl)⟩
      · rw [hl]
        exact fun he => hij (Option.some.inj he).symm
      · exact hij (LoopPc.sending.inj he).1.symm
  | @final conn j msg hloop hd hl ht =>
    by_cases hij : i = j
    · subst hij
      obtain ⟨call, hcall, hid⟩ := h.pending _ _ hl
      obtain rfl : call = call' := Option.mem_unique hcall hcall'
      have hgone : registered { c with pending := c.pending.erase msg.id } i call = false :=
        decide_eq_false fun hl' => (lookup_of_erase hl').1 hid
      refine .inr ⟨call, hcall, ?_⟩
      show CallEvent m c.view i (c.callView i call) _
        ⟨_, registered { c with pending := c.pending.erase msg.id } i call,
          if i = i then some ⟨msg, some c.handled.length⟩ else none, call⟩
      rw [if_pos rfl, hgone]
      exact .final (decide_eq_true (hid ▸ hl)) (inFlight_of_loop hloop trivial i) hid.symm ht
    · refine .inr ⟨call', hcall', otherFrame hloop ?_ rfl (fun d he => ?_) (.inr rfl)⟩
      · rw [hl]
        exact fun he => hij (Option.some.inj he).symm
      · exact hij (LoopPc.sending.inj he).1.symm
  | @sent j d b hloop hb =>
    rcases set_cases hb hcall' with ⟨rfl, rfl⟩ | ⟨hji, hcall⟩
    · exact .inr ⟨b, hb, .sent (inFlight_eq hloop)⟩
    · refine .inr ⟨call', hcall, still rfl ?_ fun hl => hl⟩
      exact (inFlight_none fun d' he => hji (LoopPc.sending.inj (hloop.symm.trans he)).1).symm
  | @drainSent id j b hloop hb =>
    rcases set_cases hb hcall' with ⟨rfl, rfl⟩ | ⟨hji, hcall⟩
    · obtain ⟨call, hcall, hid⟩ := h.pending _ _ (h.drain id j hloop)
      obtain rfl : b = call := Option.mem_unique hb hcall
      subst hid
      have hgone : registered { c with pending := c.pending.erase b.id } j b = false :=
        decide_eq_false fun hl => (lookup_of_erase hl).1 rfl
      refine .inr ⟨b, hb, ?_⟩
      have hnone : c.inFlight j = none := inFlight_of_loop hloop trivial j
      show CallEvent m c.view j (c.callView j b) _
        ⟨c.handled, registered { c with pending := c.pending.erase b.id } j b, none, _⟩
      rw [hgone, ← hnone]
      exact .drained (decide_eq_true (h.drain b.id j hloop)) hnone
    · refine .inr ⟨call', hcall, still rfl ?_ fun hl => (lookup_of_erase hl).2⟩
      exact (inFlight_of_loop hloop trivial i).symm

end Linked

/-! ## A property of every call -/

structure Each (P : CallView → Prop) (c : Client) : Prop where
  linked : Linked c
  each : ∀ (i : Nat) (call : Call), c.calls[i]? = some call → P (c.callView i call)

theorem Each.init {P : CallView → Prop} : Each P .init := ⟨.init, fun _ _ h => nomatch h⟩

/-- **A property of every call is kept** if a new call has it and every event keeps it. -/
theorem Each.step {P : CallView → Prop} (h : Each P c)
    (hstart : ∀ handled kind id payload, P ⟨handled, false, none, .start kind id payload⟩)
    (hevent : ∀ i call a', c.calls[i]? = some call →
      CallEvent m c.view i (c.callView i call) l a' → P (c.callView i call) → P a')
    (hstep : step m reconnect c l = some c') : Each P c' := by
  have hmove := step_move hstep
  refine ⟨h.linked.step hmove, fun i call' hcall' => ?_⟩
  obtain ⟨-, kind, id, payload, hview⟩ | ⟨call, hcall, he⟩ := h.linked.event hmove hcall'
  · rw [hview]
    exact hstart _ _ _ _
  · exact hevent i call _ hcall he (h.each i call hcall)

end

end Callwire.Go
