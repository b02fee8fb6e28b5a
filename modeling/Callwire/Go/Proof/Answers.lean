import Callwire.Lib.Writers
import Callwire.Go.Proof.ServerStep

/-!
# The frames that end a call of the Go server

A frame of type `response`, `error` or `stream_end` ends its call. A goroutine of the server writes
chunks and then at most one such frame, all with the id of its request, and gets the frames with
that id (`Routine.Orderly`, `Lawful`); but the read loop hands a frame that no call takes to
`dispatch`, which answers it as if it were a request (`call_endedTwice`). When every frame is a
request or belongs to a registered call, the wire holds what the goroutines have written
(`Answering`), and each call is ended at most once (`calls_endedAtMostOnce`).
-/

namespace Callwire.Go.Server

open Lib List Connection

variable {R : Reflect} {registry : Registry R}

def Terminal (m : WireMessage) : Prop :=
  m.type = "response" ∨ m.type = "error" ∨ m.type = "stream_end"

instance (m : WireMessage) : Decidable (Terminal m) := inferInstanceAs (Decidable (_ ∨ _ ∨ _))

theorem not_terminal_of_chunk {m : WireMessage} (h : m.type = "stream_chunk") : ¬ Terminal m := by
  simp [Terminal, h]

def EndedAtMostOnce (id : BitVec 64) (wire : List WireMessage) : Prop :=
  ((writtenBy WireMessage.id id wire).filter (Terminal ·)).length ≤ 1

instance (id : BitVec 64) (wire : List WireMessage) : Decidable (EndedAtMostOnce id wire) :=
  inferInstanceAs (Decidable (_ ≤ _))

/-! ## One routine -/

namespace Routine

/-- Chunks, and one other frame if the function has returned. -/
def Closes (r : Routine R) : Prop :=
  ∃ chunks last, r.out = chunks ++ last ∧ (∀ m ∈ chunks, m.type = "stream_chunk") ∧
    last.length ≤ 1 ∧ (last ≠ [] → r.Over)

/-- The routine writes frames of its own call. -/
structure Orderly (r : Routine R) : Prop where
  input : ∀ m ∈ r.chunksChan, IsStreamFrame m
  out : r.Closes
  frame : ∀ frame more, r.pc = .write frame more →
    frame.id = r.msg.id ∧ (more ≠ none → frame.type = "stream_chunk")

structure Moved (r : Routine R) (x : Routine R × Effect) : Prop where
  orderly : x.1.Orderly
  msg : x.1.msg = r.msg
  out : x.1.out = r.out ++ x.2.frames
  frames : ∀ m ∈ x.2.frames, m.id = r.msg.id

variable {r : Routine R}

theorem Moved.of_eq {r₀ : Routine R} {x : Routine R × Effect} (h : r₀.Moved x)
    (hmsg : r₀.msg = r.msg) (hout : r₀.out = r.out) : r.Moved x :=
  ⟨h.orderly, h.msg.trans hmsg, hout ▸ h.out, hmsg ▸ h.frames⟩

theorem Closes.chunks (h : r.Closes) (hover : ¬ r.Over) : ∀ m ∈ r.out, m.type = "stream_chunk" := by
  obtain ⟨chunks, last, hout, hchunks, -, hlast⟩ := h
  have hnil : last = [] := by
    by_contra hne
    exact hover (hlast hne)
  rw [hout, hnil, append_nil]
  exact hchunks

theorem closes_of_chunks (h : ∀ m ∈ r.out, m.type = "stream_chunk") : r.Closes :=
  ⟨r.out, [], (append_nil _).symm, h, Nat.zero_le 1, fun hne => absurd rfl hne⟩

theorem Closes.atMostOnce (h : r.Closes) : (r.out.filter (Terminal ·)).length ≤ 1 := by
  obtain ⟨chunks, last, hout, hchunks, hlen, -⟩ := h
  have hnil : chunks.filter (Terminal ·) = [] :=
    filter_eq_nil_iff.2 fun m hm ht => not_terminal_of_chunk (hchunks m hm) (of_decide_eq_true ht)
  rw [hout, filter_append, hnil, nil_append]
  exact (length_filter_le _ _).trans hlen

namespace Orderly

variable {x : Routine R × Effect}

section
variable (h : r.Orderly)
include h

theorem goes (hover : ¬ r.Over) (hx : r.Goes x) : r.Moved x := by
  have hchunks := h.out.chunks hover
  have hquiet : ∀ {r' : Routine R}, r'.msg = r.msg → r'.chunksChan = r.chunksChan →
      r'.out = r.out →
      (∀ frame more, r'.pc = .write frame more →
        frame.id = r.msg.id ∧ (more ≠ none → frame.type = "stream_chunk")) →
      r.Moved (r', .quiet) := by
    intro r' hmsg hin hout hframe
    refine ⟨⟨hin ▸ h.input, closes_of_chunks (hout ▸ hchunks), hmsg ▸ hframe⟩,
      hmsg, ?_, fun m hm => nomatch hm⟩
    rw [hout]
    exact (append_nil _).symm
  cases hx with
  | refuse hid | reply hid | recover _ hid =>
    refine hquiet rfl rfl rfl fun frame more he => ?_
    cases he
    exact ⟨hid, fun hne => absurd rfl hne⟩
  | @listen pc hpc =>
    refine hquiet rfl rfl rfl fun frame more he => ?_
    cases he
    exact hpc.elim
  | stream | call => exact hquiet rfl rfl rfl fun frame more he => nomatch he
  | crash => exact ⟨h, rfl, (append_nil _).symm, fun m hm => nomatch hm⟩

theorem aside (hx : r.Aside x) : r.Moved x := by
  have hframes : x.2.frames = [] := by
    cases he : x.2 with
    | wrote frame => exact absurd he (hx.quiet frame)
    | quiet | crash => rfl
  refine ⟨⟨hx.chunksChan ▸ h.input, ?_, ?_⟩, hx.msg, ?_, ?_⟩
  · obtain ⟨chunks, last, ho, hc, hl, hover⟩ := h.out
    refine ⟨chunks, last, hx.out.trans ho, hc, hl, fun hne => ?_⟩
    rw [Over, hx.pc]
    exact hover hne
  · rw [hx.pc, hx.msg]
    exact h.frame
  · rw [hframes, hx.out, append_nil]
  · rw [hframes]
    exact fun m hm => nomatch hm

theorem receive {msg : WireMessage} {rest : List WireMessage} (hc : r.chunksChan = msg :: rest) :
    { r with chunksChan := rest }.Orderly :=
  ⟨fun m hm => h.input m (hc ▸ mem_cons_of_mem _ hm), h.out, h.frame⟩

theorem streamItem (hover : ¬ r.Over) (dir : ChanDir) (item : Option R.Val) :
    r.Moved (r.streamItem dir item, .quiet) := by
  have hchunks := h.out.chunks hover
  have hwrite : ∀ frame more, frame.id = r.msg.id → (more ≠ none → frame.type = "stream_chunk") →
      r.Moved ({ r with pc := .write frame more }, .quiet) := by
    intro frame more hid htype
    refine ⟨⟨h.input, closes_of_chunks hchunks, ?_⟩, rfl, (append_nil _).symm,
      fun m hm => nomatch hm⟩
    intro frame' more' he
    cases he
    exact ⟨hid, htype⟩
  cases item with
  | none => exact hwrite _ _ rfl fun hne => absurd rfl hne
  | some v =>
    rw [Routine.streamItem]
    split
    · exact hwrite _ _ rfl fun _ => rfl
    · exact hwrite _ _ rfl fun hne => absurd rfl hne

/-- A frame is written: after a frame that ends the call the function has returned. -/
theorem wrote {frame : WireMessage} {more : Option ChanDir} (hpc : r.pc = .write frame more) :
    r.Moved ({ r with pc := afterWrite true more, out := r.out ++ [frame] }, .wrote frame) := by
  have hchunks := h.out.chunks (by simp [Over, Pc.Over, hpc])
  obtain ⟨hid, htype⟩ := h.frame frame more hpc
  have hframes : ∀ m ∈ (Effect.wrote frame).frames, m.id = r.msg.id := by
    exact forall_mem_singleton.2 hid
  cases more with
  | none =>
    refine ⟨⟨h.input, ?_, fun _ _ he => nomatch he⟩, rfl, rfl, hframes⟩
    exact ⟨r.out, [frame], rfl, hchunks, Nat.le_refl 1, fun _ => trivial⟩
  | some dir =>
    exact ⟨⟨h.input, closes_of_chunks (forall_concat hchunks (htype nofun)),
      fun _ _ he => nomatch he⟩, rfl, rfl, hframes⟩

theorem unwritten {frame : WireMessage} {more : Option ChanDir} (hpc : r.pc = .write frame more) :
    r.Moved ({ r with pc := afterWrite false more }, .quiet) := by
  have hchunks := h.out.chunks (by simp [Over, Pc.Over, hpc])
  refine ⟨⟨h.input, closes_of_chunks hchunks, ?_⟩, rfl, (append_nil _).symm,
    fun m hm => nomatch hm⟩
  intro frame' more' he
  cases more <;> cases he

/-- **A routine answers its own message, once.** -/
theorem step {l : RoutineLabel R} (hs : r.step registry l = some x) : r.Moved x := by
  have hover : ∀ {pc : Pc R}, r.pc = pc → ¬ pc.Over → ¬ r.Over := by
    intro pc hpc hnot
    rw [Over, hpc]
    exact hnot
  cases step_move hs with
  | startDispatch hpc => exact h.goes (hover hpc not_false) r.startDispatch_settles.goes
  | startClientOrUnary hpc => exact h.goes (hover hpc not_false) r.startClientOrUnary_goes
  | startBidi hpc =>
    rcases r.startBidi_goes with hx | ⟨elem, hx⟩
    · exact h.goes (hover hpc not_false) hx
    · have h₀ : { r with feeder := .receiving elem }.Orderly := { h with }
      exact (h₀.goes (hover hpc not_false) hx).of_eq rfl rfl
  | timeout hpc => exact h.goes (hover hpc not_false) (r.callClientOrUnary_settles ..).goes
  | first hpc hc =>
    exact ((h.receive hc).goes (hover hpc not_false) (detect_goes ..)).of_eq rfl rfl
  | @next fn chunks msg rest hpc hc =>
    have hmsg : IsStreamFrame msg := h.input msg (hc ▸ mem_cons_self)
    have hid : msg.type = "error" → msg.id = r.msg.id := fun he => by
      simp [IsStreamFrame, he] at hmsg
    exact ((h.receive hc).goes (hover hpc not_false) (collect_goes hpc hid)).of_eq rfl rfl
  | returned hpc =>
    exact h.goes (hover hpc not_false) (handleResults_settles (hpc ▸ trivial) ..).goes
  | panicked hpc | recvPanic hpc => exact h.goes (hover hpc not_false) r.panic_settles.goes
  | recv hpc => exact h.streamItem (hover hpc not_false) ..
  | wrote hpc => exact h.wrote hpc
  | unwritten hpc => exact h.unwritten hpc
  | feed _ hc =>
    exact ((h.receive hc).aside (feed_aside ..)).of_eq rfl rfl
  | feedEnd => exact h.aside r.closeInCh_aside
  | feedPanic | feedSend | take | takeEnd | closeInput =>
    exact h.aside ⟨rfl, rfl, rfl, rfl, rfl, nofun⟩
  | closeEnd hpc =>
    obtain ⟨chunks, last, ho, hc, hl, -⟩ := h.out
    exact ⟨⟨h.input, ⟨chunks, last, ho, hc, hl, fun _ => trivial⟩,
      fun _ _ he => nomatch he⟩, rfl, (append_nil _).symm, fun m hm => nomatch hm⟩

end

theorem spawn (msg : WireMessage) (kind : Kind) : (Routine.spawn msg kind : Routine R).Orderly :=
  ⟨forall_mem_nil _, closes_of_chunks (forall_mem_nil _), fun _ _ he => (nomatch he)⟩

theorem put {msg : WireMessage} (h : r.Orderly) (hmsg : IsStreamFrame msg) :
    { r with chunksChan := r.chunksChan ++ [msg] }.Orderly :=
  ⟨forall_concat h.input hmsg, h.out, h.frame⟩

theorem finish (h : r.Orderly) : { r with pc := .done }.Orderly := by
  obtain ⟨chunks, last, ho, hc, hl, -⟩ := h.out
  exact ⟨h.input, ⟨chunks, last, ho, hc, hl, fun _ => trivial⟩, fun _ _ he => (nomatch he)⟩

end Orderly

end Routine

/-! ## The connection -/

/-- Every routine writes frames of its own, and every frame goes to the routine of its id. -/
structure Lawful (c : Connection R) : Prop where
  routines : ∀ r ∈ c.routines, r.Orderly
  dispatching : ∀ r, c.loop = .dispatching r → r.Orderly
  sending : ∀ i msg, c.loop = .sending i msg → IsStreamFrame msg ∧
    ∃ r, c.routines[i]? = some r ∧ r.msg.id = msg.id
  streams : ∀ id i, c.streams.lookup id = some i → ∃ r, c.routines[i]? = some r ∧ r.msg.id = id

namespace Lawful

variable {c c' : Connection R} {msg : WireMessage}

theorem init (registry : Registry R) : Lawful (.init registry) :=
  ⟨forall_mem_nil _, fun _ he => (nomatch he), fun _ _ he => (nomatch he),
    fun _ _ he => (nomatch he)⟩

section
variable (h : Lawful c)
include h

theorem apply (e : Effect) : Lawful (c.apply e) := by
  cases e <;> exact { h with }

theorem set {i : Nat} {r r' : Routine R} (hr : c.routines[i]? = some r) (hr' : r'.Orderly)
    (hmsg : r'.msg = r.msg) (hroutines : c'.routines = c.routines.set i r')
    (hloop : c'.loop = c.loop)
    (hstreams : ∀ id j, c'.streams.lookup id = some j → c.streams.lookup id = some j) :
    Lawful c' := by
  -- every routine still has its id
  have hkeep : ∀ {j : Nat} {id : BitVec 64}, (∃ r₁, c.routines[j]? = some r₁ ∧ r₁.msg.id = id) →
      ∃ r₁, (c.routines.set i r')[j]? = some r₁ ∧ r₁.msg.id = id := by
    rintro j id ⟨r₁, hr₁, hid⟩
    refine exists_set hr hr₁ ?_ hid
    rintro rfl
    exact hmsg ▸ hid
  refine ⟨?_, hloop ▸ h.dispatching, fun j msg he => ?_, fun id j hl => ?_⟩
  · rw [hroutines]
    exact forall_set hr h.routines hr'
  · rw [hroutines]
    obtain ⟨hstream, hex⟩ := h.sending j msg (hloop ▸ he)
    exact ⟨hstream, hkeep hex⟩
  · rw [hroutines]
    exact hkeep (h.streams id j (hstreams id j hl))

theorem spawn (hloop : c.loop = .reading) : Lawful (c.spawn msg) := by
  have hnew : (c.spawn msg).routines =
    c.routines ++ [.spawn msg (if msg.stream then .bidi else .clientOrUnary)] := rfl
  refine ⟨fun r hr => ?_, fun r he => (nomatch hloop.symm.trans he),
    fun i m he => (nomatch hloop.symm.trans he), fun id i hl => ?_⟩
  · exact forall_concat h.routines (.spawn ..) r hr
  · rw [hnew]
    by_cases hid : id = msg.id
    · subst hid
      cases (AList.lookup_insert _).symm.trans hl
      exact ⟨_, getElem?_concat_length, rfl⟩
    · obtain ⟨r, hr, he⟩ := h.streams id i ((AList.lookup_insert_ne hid).symm.trans hl)
      exact ⟨r, getElem?_append_left (lt_of_some hr) ▸ hr, he⟩

theorem handleMessage (hloop : c.loop = .reading) : Lawful (c.handleMessage msg) := by
  unfold Connection.handleMessage
  split
  · exact h.spawn hloop
  · refine { h with dispatching := fun r he => ?_, sending := fun _ _ he => nomatch he }
    cases he
    exact .spawn ..

theorem handleFrame (hloop : c.loop = .reading) : Lawful (c.handleFrame msg) := by
  unfold Connection.handleFrame
  split
  · split
    · refine { h with dispatching := fun _ he => (nomatch he), sending := fun i m he => ?_ }
      cases he
      exact ⟨‹_›, h.streams _ _ ‹_›⟩
    · exact h.handleMessage hloop
  · exact h.handleMessage hloop

theorem step {l : Label R} (hs : Server.step c l = some c') : Lawful c' := by
  cases (step_move hs).2 with
  | register => exact { h with }
  | frame hloop => exact h.handleFrame hloop
  | disconnect | ignore =>
    exact { h with dispatching := fun _ he => (nomatch he), sending := fun _ _ he => nomatch he }
  | @send i msg r hloop hr =>
    have hput := (h.routines r (mem_of_getElem? hr)).put (h.sending i msg hloop).1
    have hset : Lawful { c with
        routines := c.routines.set i { r with chunksChan := r.chunksChan ++ [msg] } } :=
      h.set hr hput rfl rfl rfl fun _ _ hl => hl
    exact { hset with dispatching := fun _ he => (nomatch he), sending := fun _ _ he => nomatch he }
  | @dispatch r r' l e hloop hm =>
    refine apply (c := { c with loop := afterDispatch r' }) ?_ e
    refine { h with dispatching := fun r₁ he => ?_, sending := fun _ _ he => ?_ }
    · dsimp only [afterDispatch] at he
      split at he <;> cases he
      exact ((h.dispatching r hloop).step hm).orderly
    · dsimp only [afterDispatch] at he
      split at he <;> cases he
  | routine hr hm =>
    have hx := (h.routines _ (mem_of_getElem? hr)).step hm
    exact h.set hr hx.orderly hx.msg (by simp) (by simp) (by simp)
  | @cleanup i r hr =>
    have hr' := (h.routines r (mem_of_getElem? hr)).finish
    refine h.set hr hr' rfl rfl rfl fun id j hl => ?_
    by_cases hid : id = r.msg.id
    · subst hid
      cases (AList.lookup_erase _ _).symm.trans hl
    · exact (AList.lookup_erase_ne hid).symm.trans hl

end

end Lawful

def FreshRequest (c : Connection R) : Label R → Prop
  | .frame msg => msg.type = "request" → ∀ r ∈ c.routines, r.msg.id ≠ msg.id
  | _ => True

/-- A frame is a request, or belongs to a registered call. -/
def Expected (c : Connection R) : Label R → Prop
  | .frame msg =>
    msg.type = "request" ∨ IsStreamFrame msg ∧ (c.streams.lookup msg.id).isSome = true
  | _ => True

/-- Everything on the wire is from the goroutine of its call. -/
structure Answering (c : Connection R) : Prop where
  lawful : Lawful c
  dispatch : ∀ r, c.loop ≠ .dispatching r
  wire : Recorded WireMessage.id (fun r : Routine R => r.msg.id) Routine.out c.routines c.wire

namespace Answering

variable {c c' : Connection R}

theorem init (registry : Registry R) : Answering (.init registry) :=
  ⟨.init registry, fun _ he => (nomatch he), .nil⟩

theorem handleFrame {msg : WireMessage} (h : Answering c) (hloop : c.loop = .reading)
    (hfresh : FreshRequest c (.frame msg)) (hexp : Expected c (.frame msg)) :
    Answering (c.handleFrame msg) := by
  suffices hf : (∀ r, (c.handleFrame msg).loop ≠ .dispatching r) ∧
      Recorded WireMessage.id (fun r : Routine R => r.msg.id) Routine.out
        (c.handleFrame msg).routines (c.handleFrame msg).wire from
    ⟨h.lawful.handleFrame hloop, hf.1, hf.2⟩
  unfold Connection.handleFrame
  split
  · rename_i hstream
    split
    · exact ⟨fun _ he => (nomatch he), h.wire⟩
    · rename_i hl
      rcases hexp with hreq | ⟨-, hl'⟩
      · simp [IsStreamFrame, hreq] at hstream
      · rw [hl] at hl'
        cases hl'
  · rename_i hstream
    have hreq : msg.type = "request" := hexp.resolve_right fun he => hstream he.1
    rw [Connection.handleMessage, if_pos hreq]
    exact ⟨fun _ he => (nomatch hloop.symm.trans he), h.wire.spawn (hfresh hreq) rfl⟩

theorem step {l : Label R} (h : Answering c) (hok : FreshRequest c l ∧ Expected c l)
    (hs : Server.step c l = some c') : Answering c' := by
  have hlawful := h.lawful.step hs
  cases (step_move hs).2 with
  | register => exact ⟨hlawful, h.dispatch, h.wire⟩
  | frame hloop => exact h.handleFrame hloop hok.1 hok.2
  | disconnect | ignore => exact ⟨hlawful, fun _ he => (nomatch he), h.wire⟩
  | send _ hr => exact ⟨hlawful, fun _ he => (nomatch he), h.wire.quiet hr rfl rfl⟩
  | dispatch hloop => exact absurd hloop (h.dispatch _)
  | routine hr hm =>
    have hx := (h.lawful.routines _ (mem_of_getElem? hr)).step hm
    refine ⟨hlawful, by simpa using h.dispatch, ?_⟩
    rw [apply_routines, apply_wire]
    exact h.wire.write hr (congrArg WireMessage.id hx.msg) hx.out hx.frames
  | cleanup hr => exact ⟨hlawful, h.dispatch, h.wire.quiet hr rfl rfl⟩

end Answering

/-! ## At most one ending -/

theorem step_requested {c c' : Connection R} {l : Label R} (hs : step c l = some c')
    {r' : Routine R}
    (hr' : r' ∈ c'.routines) :
    (∃ r ∈ c.routines, r.msg = r'.msg) ∨ l = .frame r'.msg ∧ r'.msg.type = "request" := by
  have hset : ∀ {i : Nat} {r r₁ : Routine R}, c.routines[i]? = some r →
      r' ∈ c.routines.set i r₁ → r₁.msg = r.msg → ∃ r ∈ c.routines, r.msg = r'.msg := by
    intro i r r₁ hr hmem hmsg
    rcases mem_set_cases hr hmem with rfl | hmem
    · exact ⟨r, mem_of_getElem? hr, hmsg.symm⟩
    · exact ⟨r', hmem, rfl⟩
  cases (step_move hs).2 with
  | register | disconnect | ignore => exact .inl ⟨r', hr', rfl⟩
  | @frame msg hloop =>
    have hmsg : r' ∈ (c.handleMessage msg).routines → (∃ r ∈ c.routines, r.msg = r'.msg) ∨
        Label.frame (R := R) msg = .frame r'.msg ∧ r'.msg.type = "request" := by
      intro hr'
      unfold Connection.handleMessage at hr'
      split at hr'
      · rcases mem_concat_cases hr' with hr' | rfl
        · exact .inl ⟨r', hr', rfl⟩
        · exact .inr ⟨rfl, ‹_›⟩
      · exact .inl ⟨r', hr', rfl⟩
    unfold Connection.handleFrame at hr'
    split at hr'
    · split at hr'
      · exact .inl ⟨r', hr', rfl⟩
      · exact hmsg hr'
    · exact hmsg hr'
  | send _ hr => exact .inl (hset hr hr' rfl)
  | dispatch =>
    rw [apply_routines] at hr'
    exact .inl ⟨r', hr', rfl⟩
  | routine hr hm =>
    rw [apply_routines] at hr'
    exact .inl (hset hr hr' (Routine.step_same hm).1)
  | cleanup hr => exact .inl (hset hr hr' rfl)

theorem routine_requested : ∀ (ls : List (Label R)) (c₀ c : Connection R),
    run step c₀ ls = some c → ∀ r ∈ c.routines, (∃ r₀ ∈ c₀.routines, r₀.msg = r.msg) ∨
      .frame r.msg ∈ ls ∧ r.msg.type = "request"
  | [], c₀, c, hrun, r, hr => by
    cases hrun
    exact .inl ⟨r, hr, rfl⟩
  | l :: ls, c₀, c, hrun, r, hr => by
    obtain ⟨c₁, h₁, h₂⟩ := run_cons hrun
    rcases routine_requested ls c₁ c h₂ r hr with ⟨r₁, hr₁, hmsg⟩ | ⟨hmem, hreq⟩
    · rw [← hmsg]
      rcases step_requested h₁ hr₁ with hold | ⟨rfl, hreq⟩
      · exact .inl hold
      · exact .inr ⟨mem_cons_self, hreq⟩
    · exact .inr ⟨mem_cons_of_mem _ hmem, hreq⟩

/-- **With new request ids, and frames that are requests or belong to a registered call, every call
is ended at most once**, and nothing is written for an id that was never requested. -/
theorem calls_endedAtMostOnce {ls : List (Label R)} {c : Connection R}
    (hok : Along step (fun c l => FreshRequest c l ∧ Expected c l) (.init registry) ls)
    (hrun : run step (.init registry) ls = some c) :
    (∀ id, EndedAtMostOnce id c.wire) ∧
      ∀ m ∈ c.wire, ∃ msg, .frame msg ∈ ls ∧ msg.type = "request" ∧ msg.id = m.id := by
  have h : Answering c :=
    run_invariant (fun _ _ _ hi hp hs => hi.step hp hs) (.init registry) hok hrun
  refine ⟨fun id => h.wire.atMostOnce (fun r hr => (h.lawful.routines r hr).out.atMostOnce) id, ?_⟩
  intro m hm
  obtain ⟨r, hr, hid⟩ := h.wire.owned m hm
  rcases routine_requested ls _ c hrun r hr with ⟨r₀, hr₀, -⟩ | ⟨hmem, hreq⟩
  · cases hr₀
  · exact ⟨r.msg, hmem, hreq, hid⟩

def voidLabels : List (Label plain) :=
  [.frame (request 1 "f" []), .routine 0 .start, .routine 0 .timeout, .routine 0 (.returned []),
    .routine 0 (.write true), .routine 0 .closeEnd, .cleanup 0]

theorem calls_endedAtMostOnce_void : ∃ c, run step (.init voidRegistry) voidLabels = some c ∧
    c.wire = [response 1 .nil] ∧ EndedAtMostOnce 1 c.wire := by
  have hok : Along step (fun c l => FreshRequest c l ∧ Expected c l) (.init voidRegistry)
      voidLabels := by
    refine .cons ⟨fun _ => forall_mem_nil _, .inl rfl⟩ rfl (.of_labels ?_ _)
    simp [FreshRequest, Expected]
  exact ⟨_, rfl, rfl, (calls_endedAtMostOnce hok rfl).1 1⟩

def dispatchLabels (msg : WireMessage) : List (Label plain) :=
  [.frame msg, .dispatch .start, .dispatch (.write true)]

def lateWire : List WireMessage :=
  [response 1 .nil, errorMessage 1 "NotFoundError" "function '' not exported",
    errorMessage 7 "NotFoundError" "function '' not exported"]

/-- **A terminator that comes after its call has ended is answered**, and so is one for an id that
was never requested. -/
theorem call_endedTwice : ∃ c,
    Along step FreshRequest (.init voidRegistry)
      (voidLabels ++ dispatchLabels (streamClose 1) ++ dispatchLabels (streamEnd 7)) ∧
    run step (.init voidRegistry)
      (voidLabels ++ dispatchLabels (streamClose 1) ++ dispatchLabels (streamEnd 7)) = some c ∧
    c.wire = lateWire ∧ ¬ EndedAtMostOnce 1 c.wire := by
  refine ⟨_, ?_, rfl, rfl, by decide⟩
  refine .cons (fun _ => forall_mem_nil _) rfl (.of_labels ?_ _)
  simp [dispatchLabels, FreshRequest, streamClose, streamEnd]

end Callwire.Go.Server
