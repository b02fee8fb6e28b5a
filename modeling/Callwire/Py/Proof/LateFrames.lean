import Callwire.Lib.ArrayUpdate
import Callwire.Lib.AssocUpdate
import Callwire.Py.Server

/-!
# Late stream frames in the Python server

A stream frame whose call is not in `streams` any more falls through to `_dispatch`, which raises
outside of its `try`, and the connection is closed (`late_frame_closes`); it is closed as well if
the call leaves `streams` between the test and the index. While the call is still in `streams`, the
frame goes into a queue: if the call has ended, nobody reads it there. `Sim c c'` relates a
connection with one that was spared such frames: the two differ in the queues of ended calls, and in
a frame that the read loop has in its hands.
-/

namespace Callwire.Py

open Lib List ServerConn Option BoundedQueue

variable {P : Python}

def WireMessage.Ends (m : WireMessage P) : Prop :=
  m.type = some "stream_close" ∨ m.type = some "stream_end"

/-- The thread has written its reply. -/
def StreamCall.Ended (call : StreamCall P) : Prop := call.pc = .popping ∨ call.pc = .done

/-- `call'` is `call` with less in its queue, if it has ended. -/
structure Spare (call call' : StreamCall P) : Prop where
  same : call' = { call with queue := call'.queue }
  queue : call'.queue = call.queue ∨ call.Ended ∧ call'.queue.capacity = call.queue.capacity ∧
    call'.queue.items.length ≤ call.queue.items.length

theorem Spare.refl (call : StreamCall P) : Spare call call := ⟨rfl, .inl rfl⟩

theorem Spare.eq {call call' : StreamCall P} (h : Spare call call') (hend : ¬ call.Ended) :
    call' = call := by
  have hqueue := h.queue.resolve_right fun he => hend he.1
  rw [h.same, hqueue]

/-- The call that the read loop runs itself. -/
def HandlerPc.serves : HandlerPc P → Option Nat
  | .refusing id _ | .calling id | .generating id => some id
  | _ => none

/-- The stream frame that the read loop has in its hands. -/
def HandlerPc.held : HandlerPc P → Option (WireMessage P)
  | .indexing m | .putting _ m => some m
  | _ => none

theorem packResponse_id {id : Nat} {v : P.Val} {m : WireMessage P} (h : packResponse id v = .ok m) :
    m.id = id := by
  unfold packResponse packb at h
  split at h <;> cases h
  rfl

theorem packStreamChunk_id {id : Nat} {v : P.Val} {m : WireMessage P}
    (h : packStreamChunk id v = .ok m) : m.id = id := by
  unfold packStreamChunk packb at h
  split at h <;> cases h
  rfl

theorem bind_packResponse_id {id : Nat} {outcome : Except Exn P.Val} {m : WireMessage P}
    (h : outcome.bind (packResponse id) = .ok m) : m.id = id := by
  cases outcome with
  | error => cases h
  | ok v => exact packResponse_id h

namespace ServerConn

variable {registry : String → Option (Fn P)} {c c' c₁ : ServerConn P}

/-- A stream frame that is read finds its call in `streams`; at the index it is still there, with
room in its queue if it has ended. -/
def Kept (c : ServerConn P) : ServerLabel P → Prop
  | .read (.msg m) => m.StreamFrame → ∃ (k : Nat) (call : StreamCall P),
    c.streams.lookup m.id = some k ∧ c.calls[k]? = some call
  | .index => ∀ m, c.reader = .indexing m → ∃ (k : Nat) (call : StreamCall P),
    c.streams.lookup m.id = some k ∧ c.calls[k]? = some call ∧ (call.Ended → ¬ call.queue.Full)
  | _ => True

/-- A stream frame that is read finds a call that has not ended. -/
def Timely (c : ServerConn P) (l : ServerLabel P) : Prop :=
  ∀ m, l = .read (.msg m) → m.StreamFrame → ∃ (k : Nat) (call : StreamCall P),
    c.streams.lookup m.id = some k ∧ c.calls[k]? = some call ∧ ¬ call.Ended

/-- The labels of the stream frames: they are read, and put into a queue. -/
def carries : ServerLabel P → Bool
  | .read (.msg m) => m.StreamFrame
  | .index | .put => true
  | _ => false

/-- The read loop has a frame for a call that has ended, and there is room for it once the queue is
known. -/
inductive Holds (c : ServerConn P) : Prop where
  | indexing {m : WireMessage P} (hr : c.reader = .indexing m)
      (hend : ∀ k, c.streams.lookup m.id = some k → ∃ call, c.calls[k]? = some call ∧ call.Ended)
  | putting {k : Nat} {m : WireMessage P} {call : StreamCall P} (hr : c.reader = .putting k m)
      (hcall : c.calls[k]? = some call) (hend : call.Ended) (hroom : ¬ call.queue.Full)

theorem Holds.held (h : c.Holds) : c.reader.held ≠ none := by
  cases h with
  | indexing hr | putting hr =>
    rw [hr]
    nofun

/-- The connection with other calls and at another point of the read loop. -/
def graft (c : ServerConn P) (calls : List (StreamCall P)) (reader : HandlerPc P) : ServerConn P :=
  { c with calls, reader }

/-- `c'` was spared frames for calls that had ended. -/
structure Sim (c c' : ServerConn P) : Prop where
  rest : c' = c.graft c'.calls c'.reader
  length : c'.calls.length = c.calls.length
  calls : ∀ (k : Nat) call, c.calls[k]? = some call →
    ∃ call', c'.calls[k]? = some call' ∧ Spare call call'
  reader : c'.reader = c.reader ∨ c'.reader = .reading ∧ c.Holds

theorem Sim.refl (c : ServerConn P) : Sim c c :=
  ⟨rfl, rfl, fun _ call h => ⟨call, h, .refl call⟩, .inl rfl⟩

/-! ## The moves of the read loop -/

section
variable (calls : List (StreamCall P)) (r : HandlerPc P)

theorem write_graft (fail : Option Exn) (payload : Except Exn (WireMessage P)) :
    (c.graft calls r).write fail payload =
      (c.write fail payload).map fun c₁ => c₁.graft calls r := by
  cases payload with
  | error => rfl
  | ok m =>
    by_cases hopen : c.isOpen = true
    · cases fail <;> simp only [write, graft, hopen, if_true] <;> rfl
    · simp only [write, graft, hopen]
      rfl

theorem tryWrite_graft (id : Nat) (fail fail' : Option Exn)
    (payload : Except Exn (WireMessage P)) :
    (c.graft calls r).tryWrite id fail fail' payload =
      (c.tryWrite id fail fail' payload).map fun c₁ => c₁.graft calls r := by
  unfold tryWrite
  rw [write_graft]
  cases c.write fail payload with
  | ok => rfl
  | error => exact write_graft ..

theorem proceed_graft (pc : HandlerPc P) (res : Except Exn (ServerConn P)) :
    (c.graft calls r).proceed pc (res.map fun c₁ => c₁.graft calls r) =
      (c.proceed pc res).graft calls (c.proceed pc res).reader := by
  cases res <;> rfl

theorem dispatch_graft (m : WireMessage P) :
    (c.graft calls r).dispatch registry m =
      (c.dispatch registry m).graft calls (c.dispatch registry m).reader := by
  unfold dispatch
  repeat' split
  all_goals rfl

theorem write_wire {fail : Option Exn} {payload : Except Exn (WireMessage P)}
    (h : c.write fail payload = .ok c₁) :
    ∃ m, payload = .ok m ∧ c₁ = { c with wire := c.wire ++ [m] } := by
  unfold write at h
  repeat' split at h
  all_goals cases h
  exact ⟨_, rfl, rfl⟩

theorem tryWrite_wire {id : Nat} {fail fail' : Option Exn} {payload : Except Exn (WireMessage P)}
    (hid : ∀ m, payload = .ok m → m.id = id) (h : c.tryWrite id fail fail' payload = .ok c₁) :
    ∃ m, m.id = id ∧ c₁ = { c with wire := c.wire ++ [m] } := by
  unfold tryWrite at h
  split at h
  · rename_i hw
    cases h
    obtain ⟨m, hm, rfl⟩ := write_wire hw
    exact ⟨m, hid m hm, rfl⟩
  · obtain ⟨m, hm, rfl⟩ := write_wire h
    cases hm
    exact ⟨_, rfl, rfl⟩

theorem dispatch_calls (m : WireMessage P) : (c.dispatch registry m).calls = c.calls := by
  unfold dispatch
  repeat' split
  all_goals rfl

end

/-- The labels with which the read loop neither takes a message nor puts one into a queue. -/
def settles : ServerLabel P → Bool
  | .read (.msg _) | .index | .put | .stream _ _ => false
  | _ => true

variable {l : ServerLabel P} {k : Nat} {call : StreamCall P} {m : WireMessage P}

/-- Such a move does not look at the calls. -/
theorem readerStep_graft (hl : settles l = true) (calls : List (StreamCall P)) :
    (c.graft calls c.reader).readerStep registry l =
      (c.readerStep registry l).map fun c₁ => c₁.graft calls c₁.reader := by
  have hself : (c.graft calls c.reader).reader = c.reader := rfl
  unfold readerStep
  rw [hself]
  split
  · cases hl
  · rfl
  · rfl
  · rfl
  · cases hl
  · cases hl
  · rw [sendNotFound, write_graft, proceed_graft]
    rfl
  · rw [tryWrite_graft, proceed_graft]
    rfl
  · rw [write_graft]
    cases hw : c.write _ _ with
    | ok c₂ =>
      obtain ⟨m, -, rfl⟩ := write_wire hw
      rfl
    | error e =>
      dsimp only [Except.map]
      rw [genFails, tryWrite_graft, proceed_graft]
      rfl
  · rw [tryWrite_graft, proceed_graft]
    rfl
  · rw [genFails, tryWrite_graft, proceed_graft]
    rfl
  · rfl
  · rfl

/-- What such a move does. -/
structure Settled (c c₁ : ServerConn P) : Prop where
  calls : c₁.calls = c.calls
  streams : c₁.streams = c.streams
  held : c₁.reader.held = none
  asked : c₁.asked = c.asked
  serves : ∀ id, c₁.reader.serves = some id → c.reader.serves = some id
  wire : c₁.wire = c.wire ∨ ∃ m, c.reader.serves = some m.id ∧ c₁.wire = c.wire ++ [m]

theorem proceed_settled {id : Nat} {res : Except Exn (ServerConn P)}
    (hid : c.reader.serves = some id)
    (hres : ∀ c₁, res = .ok c₁ → ∃ m, m.id = id ∧ c₁ = { c with wire := c.wire ++ [m] }) :
    Settled c (c.proceed .reading res) := by
  cases res with
  | ok c₁ =>
    obtain ⟨m, rfl, rfl⟩ := hres c₁ rfl
    exact ⟨rfl, rfl, rfl, rfl, nofun, .inr ⟨m, hid, rfl⟩⟩
  | error => exact ⟨rfl, rfl, rfl, rfl, nofun, .inl rfl⟩

theorem readerStep_settles (hl : settles l = true) (h : c.readerStep registry l = some c₁) :
    Settled c c₁ := by
  have hown : ∀ {payload : WireMessage P} m, Except.ok (ε := Exn) payload = .ok m →
      m.id = payload.id := fun m hm => Except.ok.inj hm ▸ rfl
  unfold readerStep at h
  split at h
  · cases hl
  iterate 3
    · cases h
      exact ⟨rfl, rfl, rfl, rfl, nofun, .inl rfl⟩
  · cases hl
  · cases hl
  · rename_i hr
    cases h
    refine proceed_settled (by rw [hr]; rfl) fun c₁ hw => ?_
    obtain ⟨m, hm, rfl⟩ := write_wire hw
    cases hm
    exact ⟨_, rfl, rfl⟩
  · rename_i hr
    cases h
    exact proceed_settled (by rw [hr]; rfl) fun c₁ hw =>
      tryWrite_wire (fun m => bind_packResponse_id) hw
  · rename_i hr
    split at h
    · rename_i hw
      cases h
      obtain ⟨m, hm, rfl⟩ := write_wire hw
      refine ⟨rfl, rfl, ?_, rfl, fun _ h => h, .inr ⟨m, ?_, rfl⟩⟩
      · rw [hr]
        rfl
      · rw [hr, packStreamChunk_id hm]
        rfl
    · cases h
      exact proceed_settled (by rw [hr]; rfl) fun c₁ hw => tryWrite_wire hown hw
  · rename_i hr
    cases h
    exact proceed_settled (by rw [hr]; rfl) fun c₁ hw => tryWrite_wire hown hw
  · rename_i hr
    cases h
    exact proceed_settled (by rw [hr]; rfl) fun c₁ hw => tryWrite_wire hown hw
  · cases h
    exact ⟨rfl, rfl, rfl, rfl, nofun, .inl rfl⟩
  · cases h

theorem readerStep_msg (h : c.readerStep registry (.read (.msg m)) = some c₁) :
    c.reader = .reading ∧ c₁ = c.handle registry m := by
  unfold readerStep at h
  cases hr : c.reader with
  | reading =>
    rw [hr] at h
    exact ⟨rfl, (some.inj h).symm⟩
  | _ =>
    rw [hr] at h
    cases h

theorem readerStep_held (hr : c.reader.held ≠ none) (h : c.readerStep registry l = some c₁) :
    l = .index ∨ l = .put := by
  unfold readerStep at h
  cases hpc : c.reader with
  | indexing m =>
    rw [hpc] at h
    cases l with
    | index => exact .inl rfl
    | _ => cases h
  | putting k m =>
    rw [hpc] at h
    cases l with
    | put => exact .inr rfl
    | _ => cases h
  | _ =>
    rw [hpc] at hr
    exact absurd rfl hr

/-! ## The moves of the threads -/

/-- What a thread's move does to its call and to `streams`: it finds the end of the input only in
its queue, unless it has waited for 30 s. -/
structure Turns (c c₁ : ServerConn P) (l : StreamLabel P) (call call₁ : StreamCall P) : Prop where
  streams : ∀ id j, c₁.streams.lookup id = some j → c.streams.lookup id = some j
  id : call₁.id = call.id
  put : call₁.queue.put = call.queue.put
  exhausted : l ≠ .timeout → call₁.exhausted = true →
    call.exhausted = true ∨ ∃ m ∈ call.queue.put, m.Ends

theorem take_turns {l : StreamLabel P} {m : WireMessage P} {queue : BoundedQueue (WireMessage P)}
    {calls : List (StreamCall P)} (hget : call.queue.get? = some (m, queue)) :
    Turns c { c with calls } l call (call.take m queue) := by
  obtain ⟨hm, -, hput, -⟩ := get?_eq_some hget
  unfold StreamCall.take
  split
  · exact ⟨fun _ _ h => h, rfl, hput, fun _ => .inl⟩
  · split
    · exact ⟨fun _ _ h => h, rfl, hput, fun _ _ => .inr ⟨m, mem_of_getElem? hm, ‹_›⟩⟩
    · exact ⟨fun _ _ h => h, rfl, hput, fun _ => .inl⟩

/-- A move of a thread does not look at the other calls, nor at the read loop. -/
theorem streamStep_local {l : StreamLabel P} (h : c.streamStep registry k call l = some c₁) :
    ∃ call₁, c₁.calls = c.calls.set k call₁ ∧ c₁.reader = c.reader ∧ Turns c c₁ l call call₁ ∧
      (call.Ended → call₁.Ended ∧ call₁.queue = call.queue) ∧
      ∀ calls r, (c.graft calls r).streamStep registry k call l =
        some (c₁.graft (calls.set k call₁) r) := by
  have hrun : ∀ {pc} {Q : Prop}, call.pc = pc → pc ≠ .popping → pc ≠ .done → call.Ended → Q := by
    rintro pc Q rfl hp hd (h | h)
    · exact absurd h hp
    · exact absurd h hd
  have hquiet : ∀ {l : StreamLabel P} {call₁ : StreamCall P} {wire calls}, call₁.id = call.id →
      call₁.queue = call.queue → call₁.exhausted = call.exhausted →
      Turns c { c with wire, calls } l call call₁ :=
    fun hid hq he => ⟨fun _ _ h => h, hid, congrArg _ hq, fun _ h => .inl (he ▸ h)⟩
  simp only [streamStep] at h ⊢
  split at h
  · rename_i hpc
    split at h <;> cases h
    all_goals
      exact ⟨_, rfl, rfl, hquiet rfl rfl rfl, hrun hpc nofun nofun, fun calls r => rfl⟩
  · rename_i hpc
    split at h
    · rename_i hw
      cases h
      obtain ⟨m, -, rfl⟩ := write_wire hw
      refine ⟨_, rfl, rfl, hquiet rfl rfl rfl, hrun hpc nofun nofun, fun calls r => ?_⟩
      simp only [sendNotFound, write_graft] at hw ⊢
      rw [hw]
      rfl
    · rename_i hw
      cases h
      refine ⟨_, rfl, rfl, hquiet rfl rfl rfl, hrun hpc nofun nofun, fun calls r => ?_⟩
      simp only [sendNotFound, write_graft] at hw ⊢
      rw [hw]
      rfl
  · rename_i hpc
    split at h
    · rename_i hit
      obtain ⟨⟨m, queue⟩, hget, rfl⟩ := map_eq_some_iff.1 h
      refine ⟨_, rfl, rfl, take_turns hget, hrun hpc nofun nofun, fun calls r => ?_⟩
      rw [hget, if_pos hit]
      rfl
    · cases h
  · rename_i hpc
    split at h
    · rename_i hit
      cases h
      exact ⟨_, rfl, rfl, ⟨fun _ _ h => h, rfl, rfl, fun hl => absurd rfl hl⟩,
        hrun hpc nofun nofun, fun calls r => if_pos hit⟩
    · cases h
  · rename_i hpc
    split at h <;> cases h
    all_goals
      exact ⟨_, rfl, rfl, hquiet rfl rfl rfl, hrun hpc nofun nofun, fun calls r => rfl⟩
  · rename_i hpc
    split at h
    · rename_i hw
      cases h
      obtain ⟨m, -, rfl⟩ := tryWrite_wire (fun m => bind_packResponse_id) hw
      refine ⟨_, rfl, rfl, hquiet rfl rfl rfl, hrun hpc nofun nofun, fun calls r => ?_⟩
      rw [tryWrite_graft, hw]
      rfl
    · rename_i hw
      cases h
      refine ⟨_, rfl, rfl, hquiet rfl rfl rfl, hrun hpc nofun nofun, fun calls r => ?_⟩
      rw [tryWrite_graft, hw]
      rfl
  · cases h
    exact ⟨_, rfl, rfl, ⟨fun _ _ h => (lookup_of_erase h).2, rfl, rfl, fun _ => .inl⟩,
      fun _ => ⟨.inr rfl, rfl⟩, fun calls r => rfl⟩
  · cases h

theorem streamStep_ended {l : StreamLabel P} (hend : call.Ended)
    (h : c.streamStep registry k call l = some c₁) :
    call.pc = .popping ∧ l = .go ∧
      c₁ = { c with
        streams := c.streams.erase call.id
        calls := c.calls.set k { call with pc := .done } } := by
  unfold streamStep at h
  rcases hend with hpc | hpc
  · rw [hpc] at h
    cases l with
    | go =>
      cases h
      exact ⟨hpc, rfl, rfl⟩
    | next | timeout | result | reply => cases h
  · rw [hpc] at h
    cases h

theorem streamStep_popping (hpc : call.pc = .popping) :
    c.streamStep registry k call .go = some
      { c with
        streams := c.streams.erase call.id
        calls := c.calls.set k { call with pc := .done } } := by
  simp only [streamStep, hpc]

/-! ## Simulation -/

theorem spare_set {calls calls' : List (StreamCall P)} {call₁ call₁' : StreamCall P}
    (h : ∀ (k : Nat) call, calls[k]? = some call → ∃ call', calls'[k]? = some call' ∧
      Spare call call')
    (hk : k < calls'.length) (hspare : Spare call₁ call₁') (j : Nat) (call : StreamCall P)
    (hj : (calls.set k call₁)[j]? = some call) :
    ∃ call', (calls'.set k call₁')[j]? = some call' ∧ Spare call call' := by
  by_cases hkj : k = j
  · subst hkj
    have hlt : k < calls.length := by
      have := lt_of_some hj
      rwa [length_set] at this
    rw [getElem?_set_self hlt] at hj
    obtain rfl := some.inj hj
    exact ⟨call₁', getElem?_set_self hk, hspare⟩
  · rw [getElem?_set_ne hkj] at hj
    obtain ⟨call', hcall', hs⟩ := h j call hj
    exact ⟨call', (getElem?_set_ne hkj).trans hcall', hs⟩

/-- A frame that the read loop holds is for a call that has ended, and that stays so. -/
theorem Holds.stream {call₁ : StreamCall P} (h : c.Holds) (hcall : c.calls[k]? = some call)
    (hcalls : c₁.calls = c.calls.set k call₁) (hreader : c₁.reader = c.reader)
    (hstreams : ∀ id j, c₁.streams.lookup id = some j → c.streams.lookup id = some j)
    (hended : call.Ended → call₁.Ended ∧ call₁.queue = call.queue) : c₁.Holds := by
  have hstay : ∀ {j : Nat} {callj : StreamCall P}, c.calls[j]? = some callj → callj.Ended →
      ∃ callj', c₁.calls[j]? = some callj' ∧ callj'.Ended ∧ callj'.queue = callj.queue := by
    intro j callj hj hend
    by_cases hkj : k = j
    · subst hkj
      obtain rfl : call = callj := mem_unique hcall hj
      obtain ⟨hend', hqueue⟩ := hended hend
      refine ⟨call₁, ?_, hend', hqueue⟩
      rw [hcalls]
      exact set_of_some hcall
    · refine ⟨callj, ?_, hend, rfl⟩
      rw [hcalls, getElem?_set_ne hkj]
      exact hj
  cases h with
  | indexing hr hend =>
    refine .indexing (hreader.trans hr) fun j hj => ?_
    obtain ⟨callj, hcallj, he⟩ := hend j (hstreams _ j hj)
    obtain ⟨callj', hj', he', -⟩ := hstay hcallj he
    exact ⟨callj', hj', he'⟩
  | putting hr hj hend hroom =>
    obtain ⟨callj', hj', he', hqueue⟩ := hstay hj hend
    exact .putting (hreader.trans hr) hj' he' (hqueue ▸ hroom)

theorem Sim.stream {l : StreamLabel P} (h : Sim c c')
    (hs : c.step registry (.stream k l) = some c₁) :
    ∃ c₁', c'.step registry (.stream k l) = some c₁' ∧ Sim c₁ c₁' := by
  obtain ⟨call, hcall, hs⟩ := bind_eq_some_iff.1 hs
  obtain ⟨call', hcall', hspare⟩ := h.calls k call hcall
  have hk : k < c'.calls.length := lt_of_some hcall'
  obtain ⟨call₁, hcalls, hreader, hturns, hended, hlocal⟩ := streamStep_local hs
  have hholds : c'.reader = c.reader ∨ c'.reader = .reading ∧ c.Holds →
      c'.reader = c₁.reader ∨ c'.reader = .reading ∧ c₁.Holds := by
    rintro (hr | ⟨hr, hheld⟩)
    · exact .inl (hr.trans hreader.symm)
    · exact .inr ⟨hr, hheld.stream hcall hcalls hreader hturns.streams hended⟩
  by_cases hend : call.Ended
  · obtain ⟨hpc, rfl, rfl⟩ := streamStep_ended hend hs
    have hpc' : call'.pc = .popping := by
      rw [hspare.same]
      exact hpc
    have hid : call'.id = call.id := by
      rw [hspare.same]
    have hs' : c'.step registry (.stream k .go) = some (graft
        { c with
          streams := c.streams.erase call.id
          calls := c.calls.set k { call with pc := .done } }
        (c'.calls.set k { call' with pc := .done }) c'.reader) := by
      rw [step, hcall', ← hid]
      refine (streamStep_popping hpc').trans ?_
      conv_lhs => rw [h.rest]
      rfl
    refine ⟨_, hs', rfl, ?_, fun j callj hj => ?_, hholds h.reader⟩
    · exact length_set.trans (h.length.trans length_set.symm)
    · refine spare_set h.calls hk ⟨?_, ?_⟩ j callj hj
      · rw [hspare.same]
      · exact hspare.queue.imp_right fun hq => ⟨.inr rfl, hq.2⟩
  · obtain rfl := hspare.eq hend
    refine ⟨c₁.graft (c'.calls.set k call₁) c'.reader, ?_, ?_⟩
    · rw [step, hcall', h.rest]
      exact hlocal ..
    · refine ⟨rfl, ?_, fun j callj hj => ?_, hholds h.reader⟩
      · rw [hcalls, length_set]
        exact length_set.trans h.length
      · rw [hcalls] at hj
        exact spare_set h.calls hk (.refl _) j callj hj

theorem Sim.reader_eq (h : Sim c c') (hr : c.reader.held = none) :
    c' = c.graft c'.calls c.reader := by
  rcases h.reader with heq | ⟨-, hheld⟩
  · conv_lhs => rw [h.rest, heq]
  · exact absurd hr hheld.held

theorem Sim.settle (h : Sim c c') (hl : settles l = true) (hs : c.readerStep registry l = some c₁) :
    ∃ c₁', c'.readerStep registry l = some c₁' ∧ Sim c₁ c₁' := by
  have hcalls := (readerStep_settles hl hs).calls
  have hne : c.reader.held = none := by
    by_contra hne
    rcases readerStep_held hne hs with rfl | rfl <;> cases hl
  refine ⟨c₁.graft c'.calls c₁.reader, ?_, rfl, ?_, ?_, .inl rfl⟩
  · rw [h.reader_eq hne, readerStep_graft hl, hs]
    rfl
  · exact h.length.trans (congrArg List.length hcalls.symm)
  · rw [hcalls]
    exact h.calls

theorem handle_held (hm : m.StreamFrame) (hk : c.streams.lookup m.id = some k) :
    c.handle registry m = { c with reader := .indexing m } :=
  if_pos ⟨hm, AList.lookup_isSome.1 (by rw [hk]; rfl)⟩

theorem Sim.read (h : Sim c c') (hkept : Kept c (.read (.msg m)))
    (hs : c.readerStep registry (.read (.msg m)) = some c₁) :
    (∃ c₁', c'.readerStep registry (.read (.msg m)) = some c₁' ∧ Timely c' (.read (.msg m)) ∧
      Sim c₁ c₁') ∨ m.StreamFrame ∧ Sim c₁ c' := by
  obtain ⟨hreader, hc₁⟩ := readerStep_msg hs
  have hc' := h.reader_eq (by rw [hreader]; rfl)
  have hs' : ∀ calls, (c.graft calls c.reader).readerStep registry (.read (.msg m)) =
      some ((c.graft calls c.reader).handle registry m) := by
    intro calls
    have hr : (c.graft calls c.reader).reader = .reading := hreader
    simp only [readerStep, hr]
  subst hc₁
  by_cases hm : m.StreamFrame
  · obtain ⟨k, call, hk, hcall⟩ := hkept hm
    rw [handle_held hm hk]
    by_cases hend : call.Ended
    · refine .inr ⟨hm, h.rest, h.length, h.calls, .inr ⟨?_, .indexing rfl fun j hj => ?_⟩⟩
      · rw [hc']
        exact hreader
      · obtain rfl := mem_unique hk hj
        exact ⟨call, hcall, hend⟩
    · obtain ⟨call', hcall', hspare⟩ := h.calls k call hcall
      obtain rfl := hspare.eq hend
      refine .inl ⟨{ c' with reader := .indexing m }, ?_, fun m' hm' _ => ?_, ?_⟩
      · rw [hc', hs']
        exact congrArg some (handle_held hm hk)
      · cases hm'
        refine ⟨k, call', ?_, hcall', hend⟩
        rw [hc']
        exact hk
      · refine ⟨?_, h.length, h.calls, .inl rfl⟩
        conv_lhs => rw [hc']
        rfl
  · refine .inl ⟨c'.handle registry m, ?_, fun m' hm' hf => ?_, ?_⟩
    · rw [hc']
      exact hs' _
    · cases hm'
      exact absurd hf hm
    · by_cases hstart :
        m.type = some "request" ∧ ((m.func.bind registry).any (·.takesStream)) = true
      · have hstart' : ∀ c : ServerConn P, c.handle registry m = c.startStream m := by
          intro c
          rw [handle, if_neg fun hin => hm hin.1]
          exact if_pos hstart
        rw [hstart', hstart', hc']
        refine ⟨?_, ?_, fun j callj hj => ?_, .inl rfl⟩
        · rw [startStream, startStream, graft]
          simp only [h.length]
          rfl
        · simp only [startStream, graft, length_append, h.length]
        · rcases concat_cases hj with hj | ⟨rfl, rfl⟩
          · obtain ⟨call', hcall', hspare⟩ := h.calls j callj hj
            exact ⟨call', concat_of_some hcall', hspare⟩
          · refine ⟨_, ?_, .refl _⟩
            rw [← h.length]
            exact getElem?_concat_length
      · have hdispatch : ∀ c : ServerConn P, c.handle registry m = c.dispatch registry m := by
          intro c
          rw [handle, if_neg fun hin => hm hin.1]
          exact if_neg hstart
        rw [hdispatch, hdispatch, hc', dispatch_graft]
        refine ⟨rfl, ?_, ?_, .inl rfl⟩
        · exact h.length.trans (congrArg List.length (dispatch_calls m).symm)
        · rw [dispatch_calls]
          exact h.calls

theorem readerStep_index (hs : c.readerStep registry .index = some c₁) :
    ∃ m, c.reader = .indexing m ∧
      (∀ k, c.streams.lookup m.id = some k → c₁ = { c with reader := .putting k m }) ∧
      (c.streams.lookup m.id = none →
        c₁ = { c with reader := .leaving ⟨"KeyError", toString m.id⟩ }) := by
  unfold readerStep at hs
  cases hr : c.reader with
  | indexing m =>
    rw [hr] at hs
    refine ⟨m, rfl, fun k hk => ?_, fun hk => ?_⟩
    all_goals
      simp only [hk] at hs
      exact (some.inj hs).symm
  | _ =>
    rw [hr] at hs
    cases hs

theorem Sim.index (h : Sim c c') (hkept : Kept c .index)
    (hs : c.readerStep registry .index = some c₁) :
    (∃ c₁', c'.readerStep registry .index = some c₁' ∧ Sim c₁ c₁') ∨ Sim c₁ c' := by
  obtain ⟨m, hr, hfound, -⟩ := readerStep_index hs
  obtain ⟨k, call, hk, hcall, hroom⟩ := hkept m hr
  obtain rfl := hfound k hk
  rcases h.reader with heq | ⟨hr', hheld⟩
  · refine .inl ⟨{ c' with reader := .putting k m }, ?_, ?_, h.length, h.calls, .inl rfl⟩
    · have hk' : c'.streams.lookup m.id = some k := by
        rw [h.rest]
        exact hk
      simp only [readerStep, heq.trans hr, hk']
    · conv_lhs => rw [h.rest]
      rfl
  · refine .inr ⟨h.rest, h.length, h.calls, .inr ⟨hr', ?_⟩⟩
    cases hheld with
    | indexing hr₁ hend =>
      cases hr.symm.trans hr₁
      obtain ⟨call', hcall', hended⟩ := hend k hk
      cases hcall.symm.trans hcall'
      exact .putting rfl hcall hended (hroom hended)
    | putting hr₁ => cases hr.symm.trans hr₁

theorem readerStep_put (hs : c.readerStep registry .put = some c₁) :
    ∃ (k : Nat) (m : WireMessage P) (call : StreamCall P), c.reader = .putting k m ∧
      c.calls[k]? = some call ∧ ¬ call.queue.Full ∧
      c₁ = { c with
        calls := c.calls.set k { call with queue := call.queue.push m }, reader := .reading } := by
  unfold readerStep at hs
  cases hr : c.reader with
  | putting k m =>
    rw [hr] at hs
    obtain ⟨call, hcall, hs⟩ := bind_eq_some_iff.1 hs
    obtain ⟨queue, hput, hs⟩ := bind_eq_some_iff.1 hs
    cases hs
    obtain ⟨hfull, rfl⟩ := put?_eq_some hput
    exact ⟨k, m, call, rfl, hcall, hfull, rfl⟩
  | _ =>
    rw [hr] at hs
    cases hs

theorem Sim.put (h : Sim c c') (hs : c.readerStep registry .put = some c₁) :
    (∃ c₁', c'.readerStep registry .put = some c₁' ∧ Sim c₁ c₁') ∨ Sim c₁ c' := by
  obtain ⟨k, m, call, hr, hcall, hfull, rfl⟩ := readerStep_put hs
  obtain ⟨call', hcall', hspare⟩ := h.calls k call hcall
  have hk := lt_of_some hcall'
  have hlen : (c.calls.set k { call with queue := call.queue.push m }).length =
      c.calls.length := length_set
  rcases h.reader with heq | ⟨hr', hheld⟩
  · left
    have hfull' : ¬ call'.queue.Full := by
      rcases hspare.queue with hq | ⟨-, hcap, hle⟩
      · rwa [hq]
      · rw [Full, hcap]
        exact fun hle' => hfull (Nat.le_trans hle' hle)
    have hput' : call'.queue.put? m = some (call'.queue.push m) := if_neg hfull'
    refine ⟨{ c' with
      calls := c'.calls.set k { call' with queue := call'.queue.push m }, reader := .reading },
      ?_, ?_, ?_, fun i calli hi => ?_, .inl rfl⟩
    · simp only [readerStep, heq.trans hr, hcall', hput', bind_eq_bind, bind_some]
    · conv_lhs => rw [h.rest]
      rfl
    · exact length_set.trans (h.length.trans hlen.symm)
    · refine spare_set h.calls hk ⟨?_, ?_⟩ i calli hi
      · rw [hspare.same]
      · rcases hspare.queue with hq | ⟨hend, hcap, hle⟩
        · exact .inl (congrArg (·.push m) hq)
        · refine .inr ⟨hend, hcap, ?_⟩
          dsimp only
          rw [length_items_push, length_items_push]
          exact Nat.succ_le_succ hle
  · right
    have hend : call.Ended := by
      cases hheld with
      | indexing hr₁ => cases hr.symm.trans hr₁
      | putting hr₁ hj hend =>
        cases hr.symm.trans hr₁
        cases hcall.symm.trans hj
        exact hend
    refine ⟨h.rest, h.length.trans hlen.symm, fun i calli hi => ?_, .inl hr'⟩
    by_cases hki : k = i
    · subst hki
      rw [set_of_some hcall] at hi
      obtain rfl := some.inj hi
      have hqueue : call'.queue.capacity = call.queue.capacity ∧
          call'.queue.items.length ≤ call.queue.items.length := by
        rcases hspare.queue with hq | ⟨-, hle⟩
        · rw [hq]
          exact ⟨rfl, Nat.le_refl _⟩
        · exact hle
      refine ⟨call', hcall', hspare.same, .inr ⟨hend, hqueue.1, ?_⟩⟩
      dsimp only
      rw [length_items_push]
      exact Nat.le_succ_of_le hqueue.2
    · rw [getElem?_set_ne hki] at hi
      exact h.calls i calli hi

/-- **A step with late frames** is one without, or none. -/
theorem Sim.step (h : Sim c c') (hkept : Kept c l) (hs : c.step registry l = some c₁) :
    (∃ c₁', c'.step registry l = some c₁' ∧ Timely c' l ∧ Sim c₁ c₁') ∨
      (carries l = true ∧ Sim c₁ c') := by
  have hsettle : ∀ {l : ServerLabel P}, settles l = true → c.readerStep registry l = some c₁ →
      ∃ c₁', c'.readerStep registry l = some c₁' ∧ Timely c' l ∧ Sim c₁ c₁' := by
    intro l hl hs
    obtain ⟨c₁', hs', h'⟩ := h.settle hl hs
    refine ⟨c₁', hs', fun m hm => ?_, h'⟩
    subst hm
    cases hl
  cases l with
  | stream k l =>
    obtain ⟨c₁', hs', h'⟩ := h.stream hs
    exact .inl ⟨c₁', hs', nofun, h'⟩
  | index =>
    rcases h.index hkept hs with ⟨c₁', hs', h'⟩ | h'
    · exact .inl ⟨c₁', hs', nofun, h'⟩
    · exact .inr ⟨rfl, h'⟩
  | put =>
    rcases h.put hs with ⟨c₁', hs', h'⟩ | h'
    · exact .inl ⟨c₁', hs', nofun, h'⟩
    · exact .inr ⟨rfl, h'⟩
  | read payload =>
    cases payload with
    | msg m =>
      rcases h.read hkept hs with h' | ⟨hm, h'⟩
      · exact .inl h'
      · exact .inr ⟨decide_eq_true hm, h'⟩
    | undecodable | malformed => exact .inl (hsettle rfl hs)
  | readFails | refuse | call | gen | close => exact .inl (hsettle rfl hs)

theorem step_put (hr : c.reader = .putting k m) (hcall : c.calls[k]? = some call)
    (hroom : ¬ call.queue.Full) :
    ∃ c₁, c.step registry .put = some c₁ ∧ c₁.reader = .reading := by
  have hput : call.queue.put? m = some (call.queue.push m) := if_neg hroom
  refine ⟨{ c with
    calls := c.calls.set k { call with queue := call.queue.push m }, reader := .reading }, ?_, rfl⟩
  simp only [step, readerStep, hr, hcall, hput, bind_eq_bind, bind_some]

/-- The read loop can go back to `read_frame`: it has at most a frame to put away. -/
def Returns (registry : String → Option (Fn P)) (c : ServerConn P) : Prop :=
  ∃ ls c₁, (ls = [.put] ∨ ls = [.index, .put]) ∧ run (step registry) c ls = some c₁ ∧
    c₁.reader = .reading

theorem Holds.returns (h : c.Holds) (hkept : Kept c .index) : Returns registry c := by
  cases h with
  | putting hr hcall _ hroom =>
    obtain ⟨c₁, hs, hr₁⟩ : ∃ c₁, c.step registry .put = some c₁ ∧ c₁.reader = .reading :=
      step_put hr hcall hroom
    exact ⟨[.put], c₁, .inl rfl, by rw [run, hs]; rfl, hr₁⟩
  | @indexing m hr hend =>
    obtain ⟨k, call, hk, hcall, hroom⟩ := hkept m hr
    obtain ⟨call', hcall', hended⟩ := hend k hk
    cases hcall.symm.trans hcall'
    have hs : c.step registry .index = some { c with reader := .putting k m } := by
      simp only [step, readerStep, hr, hk]
    obtain ⟨c₁, hs₁, hr₁⟩ :=
      step_put (c := { c with reader := .putting k m }) rfl hcall (hroom hended)
    refine ⟨[.index, .put], c₁, .inr rfl, ?_, hr₁⟩
    rw [run, hs, bind_some, run, hs₁]
    rfl

/-- **Late stream frames do no harm while their calls are in `streams`** and their queues have
room: the same frames are written, and the connection is as open, as without them; and the read loop
is at the same point, or can put the late frame that it holds away. -/
theorem late_frames_harmless {ls : List (ServerLabel P)}
    (hrun : run (step registry) .init ls = some c)
    (hkept : Along (step registry) Kept .init ls) :
    ∃ ls' c', ls'.Sublist ls ∧ ls'.filter (!carries ·) = ls.filter (!carries ·) ∧
      run (step registry) .init ls' = some c' ∧
      Along (step registry) Timely .init ls' ∧
      c'.wire = c.wire ∧ c'.isOpen = c.isOpen ∧
      (c'.reader = c.reader ∨
        c'.reader = .reading ∧ (Kept c .index → Returns registry c)) := by
  obtain ⟨ls', c', hsub, hfilter, hrun', htimely, hsim⟩ :=
    run_stutter Sim carries (fun _ _ _ _ h hok hs => h.step hok hs) ls _ c _
      (.refl .init) hkept hrun
  have hrest : ∃ calls r, c' = c.graft calls r := ⟨_, _, hsim.rest⟩
  obtain ⟨calls, r, rfl⟩ := hrest
  exact ⟨ls', _, hsub, hfilter, hrun', htimely, rfl, rfl,
    hsim.reader.imp_right fun h => ⟨h.1, h.2.returns⟩⟩

def oneStream (name : String) : Option (Fn plain) :=
  if name = "f" then some ⟨true, none⟩ else none

def request (id : Nat) : ServerLabel plain :=
  .read (.msg { id, type := some "request", func := some "f", args := some [] })

def chunk (id : Nat) (v : Int) : ServerLabel plain :=
  .read (.msg { id, type := some "stream_chunk", result := some v })

def answer (k : Nat) (v : Int) : List (ServerLabel plain) :=
  [.stream k .go, .stream k (.result (.ok (some v))), .stream k (.reply none none)]

/-- A call answers before its client has sent all, and is still in `streams`. -/
def earlyAnswer : List (ServerLabel plain) :=
  request 1 :: answer 0 7 ++ [chunk 1 5, .index, .put, .stream 0 .go]

theorem late_frames_harmless_put : ∃ c : ServerConn plain,
    run (step oneStream) .init earlyAnswer = some c ∧
    ∃ ls' c', ls'.Sublist earlyAnswer ∧
      ls'.filter (!carries ·) = earlyAnswer.filter (!carries ·) ∧
      run (step oneStream) .init ls' = some c' ∧
      Along (step oneStream) Timely .init ls' ∧
      c'.wire = c.wire ∧ c'.isOpen = c.isOpen ∧
      (c'.reader = c.reader ∨
        c'.reader = .reading ∧ (Kept c .index → Returns oneStream c)) := by
  have hkept : Along (step oneStream) Kept .init earlyAnswer := by
    refine Along.cons (fun hf => absurd hf (by decide)) rfl ?_
    iterate 3 refine Along.cons trivial rfl ?_
    refine Along.cons (fun _ => ⟨0, _, rfl, rfl⟩) rfl ?_
    refine Along.cons (fun m hm => ?_) rfl ?_
    · cases hm
      exact ⟨0, _, rfl, rfl, fun _ => by decide⟩
    iterate 2 refine Along.cons trivial rfl ?_
    exact trivial
  exact ⟨_, rfl, late_frames_harmless rfl hkept⟩

/-- The same, but the call has left `streams` when the chunk is read; another call is running. -/
def lateChunk : List (ServerLabel plain) :=
  [request 1, request 2] ++ answer 0 7 ++ [.stream 0 .go, chunk 1 5, .close] ++ answer 1 8

def noChunk : List (ServerLabel plain) :=
  [request 1, request 2] ++ answer 0 7 ++ [.stream 0 .go] ++ answer 1 8

/-- **A late chunk closes the connection**, and another call loses its reply. -/
theorem late_frame_closes : ∃ c c' : ServerConn plain,
    run (step oneStream) .init lateChunk = some c ∧
    c.reader = .closed ⟨"KeyError", "'func'"⟩ ∧ c.isOpen = false ∧
    c.wire = [{ id := 1, type := some "response", result := some 7 }] ∧
    run (step oneStream) .init noChunk = some c' ∧ c'.isOpen = true ∧
    c'.wire = [{ id := 1, type := some "response", result := some 7 },
      { id := 2, type := some "response", result := some 8 }] :=
  ⟨_, _, rfl, rfl, rfl, rfl, rfl, rfl, rfl⟩

end ServerConn

end Callwire.Py
