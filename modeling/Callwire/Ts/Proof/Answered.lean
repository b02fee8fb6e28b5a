import Callwire.Lib.Writers
import Callwire.Ts.Proof.ServerStep

/-!
# The replies of the TypeScript server

A frame of type `response`, `error` or `stream_end` ends a call. `_runHandler` writes the chunks
that its handler yields and then one such frame, also when the handler throws or `encode` refuses a
value (`Request.Sent`); but the text of what was thrown is computed and encoded in its `catch`
block, and if that throws, nothing is written (`request_unanswered`). If every value thrown has a
text that can be sent, then every request whose handler finishes is answered exactly once
(`requests_answeredOnce`).
-/

namespace Callwire.Ts

variable {J : Js}

/-- A thrown value with a text that can be sent. -/
def Js.Printable (J : Js) (err : J.Val) : Prop :=
  ∃ errMsg, J.text err = some errMsg ∧ J.refuse errMsg = none

def Terminal (m : WireMessage J) : Prop :=
  m.type = "response" ∨ m.type = "error" ∨ m.type = "stream_end"

def chunkFrame (id : Nat) (v : J.Val) : WireMessage J := { id, type := "stream_chunk", result := v }

/-- The chunks of those that were yielded that could be sent: all, or all but the last. -/
def Sendable (yielded sent : List J.Val) : Prop :=
  yielded = sent ∨ ∃ v, yielded = sent ++ [v] ∧ J.refuse v ≠ none

namespace Server

open Lib List

/-! ## One request -/

/-- What a request has sent, on a socket that is not destroyed. -/
def Pc.Sent (id : Nat) (yielded : List J.Val) (out : List (WireMessage J)) : Pc J → Prop
  | .start => yielded = [] ∧ out = []
  | .iterate => out = yielded.map (chunkFrame id)
  | .closing none => False
  | .closing (some err) => ∃ sent v, out = sent.map (chunkFrame id) ∧ yielded = sent ++ [v] ∧
      J.refuse v = some err ∧ J.Printable err
  | .done => ∃ sent m, out = sent.map (chunkFrame id) ++ [m] ∧ Sendable yielded sent ∧
      Terminal m ∧ m.id = id
  | .rejected => False

/-- Everything that is thrown can be sent. -/
def RequestLabel.Printable : RequestLabel J → Prop
  | .returned v | .yielded v => ∀ err, J.refuse v = some err → J.Printable err
  | .threw err | .closed (some err) => J.Printable err
  | _ => True

namespace Request

abbrev Sent (r : Request J) : Prop := r.pc.Sent r.id r.yielded r.out

/-- What a piece of a request does. -/
structure Moved (r : Request J) (x : Request J × List (WireMessage J)) : Prop where
  sent : x.1.Sent
  id : x.1.id = r.id
  out : x.1.out = r.out ++ x.2
  frames : ∀ m ∈ x.2, m.id = r.id

variable {r : Request J} {sent : List J.Val}

theorem write_done {msg : WireMessage J} (hout : r.out = sent.map (chunkFrame r.id))
    (hsent : Sendable r.yielded sent) (hmsg : Terminal msg) (hid : msg.id = r.id) :
    r.Moved (r.write false msg .done) := by
  refine ⟨⟨sent, msg, ?_, hsent, hmsg, hid⟩, rfl, rfl, ?_⟩
  · exact congrArg (· ++ [msg]) hout
  · exact forall_mem_singleton.2 hid

theorem catchError_moved {err : J.Val} (herr : J.Printable err)
    (hout : r.out = sent.map (chunkFrame r.id)) (hsent : Sendable r.yielded sent) :
    r.Moved (r.catchError false err) := by
  obtain ⟨errMsg, htext, hrefuse⟩ := herr
  simp only [catchError, htext, packError, encoding, hrefuse, Bool.false_eq_true, if_false]
  exact write_done hout hsent (.inr (.inl rfl)) rfl

theorem respond_moved {result : J.Val} (hok : ∀ err, J.refuse result = some err → J.Printable err)
    (hout : r.out = sent.map (chunkFrame r.id)) (hsent : Sendable r.yielded sent) :
    r.Moved (r.respond false result) := by
  unfold respond packResponse encoding
  cases hrefuse : J.refuse result with
  | none => exact write_done hout hsent (.inl rfl) rfl
  | some err => exact catchError_moved (hok err hrefuse) hout hsent

theorem chunk_moved {v : J.Val} (hok : ∀ err, J.refuse v = some err → J.Printable err)
    (hout : r.out = r.yielded.map (chunkFrame r.id)) :
    r.Moved ({ r with yielded := r.yielded ++ [v] }.chunk false v) := by
  unfold chunk packStreamChunk encoding
  cases hrefuse : J.refuse v with
  | none =>
    refine ⟨?_, rfl, rfl, forall_mem_singleton.2 rfl⟩
    show r.out ++ [chunkFrame r.id v] = (r.yielded ++ [v]).map (chunkFrame r.id)
    rw [hout, map_append]
    rfl
  | some err =>
    exact ⟨⟨r.yielded, v, hout, rfl, hrefuse, hok err hrefuse⟩, rfl, (append_nil _).symm,
      forall_mem_nil _⟩

theorem input_moved {input : Input J.Val} (h : r.Sent) : r.Moved ({ r with input }, []) :=
  ⟨h, rfl, (append_nil _).symm, forall_mem_nil _⟩

theorem Sent.chunks (h : r.Sent) (hpc : r.pc = .start ∨ r.pc = .iterate) :
    r.out = r.yielded.map (chunkFrame r.id) := by
  unfold Sent at h
  rcases hpc with hpc | hpc <;> rw [hpc] at h
  · obtain ⟨hyielded, hout⟩ := h
    rw [hyielded, hout]
    rfl
  · exact h

theorem iterate_moved (hpc : r.pc = .start) (h : r.Sent) :
    r.Moved ({ r with pc := .iterate }, []) :=
  ⟨h.chunks (.inl hpc), rfl, (append_nil _).symm, forall_mem_nil _⟩

/-- **A piece of a request, on a socket that is not destroyed.** -/
theorem Sent.moved {l : RequestLabel J} {x : Request J × List (WireMessage J)} (h : r.Sent)
    (hok : l.Printable) (hs : r.step false l = some x) : r.Moved x := by
  cases l with
  | returned result =>
    rw [step] at hs
    split at hs
    · rename_i hpc _
      split at hs <;> cases hs
      · exact iterate_moved hpc h
      · exact respond_moved hok (h.chunks (.inl hpc)) (.inl rfl)
    · rename_i hpc _
      cases hs
      exact respond_moved hok (h.chunks (.inl hpc)) (.inl rfl)
    · rename_i hpc _
      cases hs
      exact iterate_moved hpc h
    · cases hs
  | threw err =>
    rw [step] at hs
    split at hs <;> cases hs
    · rename_i hpc
      exact catchError_moved hok (h.chunks (.inl hpc)) (.inl rfl)
    · rename_i hpc
      exact catchError_moved hok (h.chunks (.inr hpc)) (.inl rfl)
  | yielded v =>
    rw [step] at hs
    split at hs <;> cases hs
    rename_i hpc
    exact chunk_moved hok (h.chunks (.inr hpc))
  | finished =>
    rw [step] at hs
    split at hs <;> cases hs
    rename_i hpc
    exact write_done (h.chunks (.inr hpc)) (.inl rfl) (.inr (.inr rfl)) rfl
  | closed failed =>
    unfold Sent at h
    simp only [step] at hs
    split at hs
    · rename_i hpc
      rw [hpc] at h
      obtain ⟨sent, v, hout, hyielded, hrefuse, herr⟩ := h
      cases hs
      exact catchError_moved herr hout (.inr ⟨v, hyielded, hrefuse ▸ (by simp)⟩)
    · rename_i hpc
      rw [hpc] at h
      exact h.elim
    · rename_i hpc
      rw [hpc] at h
      exact h.elim
    · cases hs
  | next =>
    rw [step] at hs
    split at hs <;> cases hs <;> exact input_moved h
  | resume =>
    rw [step] at hs
    split at hs <;> cases hs
    exact input_moved h

end Request

/-! ## The connection -/

def Label.Printable : Label J → Prop
  | .request _ l => l.Printable
  | _ => True

/-- What holds as long as the socket is not destroyed. -/
structure Answering (c : Connection J) : Prop where
  wire : Recorded WireMessage.id Request.id Request.out c.requests c.wire
  requests : ∀ r ∈ c.requests, r.Sent

namespace Connection

variable {c : Connection J} {msg : WireMessage J}

section
variable (h : Answering c)
include h

theorem modifyInput_answering {i : Nat} {f : Input J.Val → Input J.Val} :
    Answering (c.modifyInput i f) := by
  refine ⟨h.wire.congr (map_modify_of_eq _ _ _ _ fun r => rfl), fun r hr => ?_⟩
  rcases mem_modify_cases hr with hr | ⟨r', hr', rfl⟩
  · exact h.requests r hr
  · exact h.requests r' hr'

theorem handleStream_answering : Answering (c.handleStream msg) := by
  unfold handleStream
  split
  · exact h
  · rename_i i _
    split
    · exact modifyInput_answering h
    · have h' : Answering (c.modifyInput i Input.finish) := modifyInput_answering h
      exact ⟨h'.wire, h'.requests⟩

theorem spawn_answering (handler : Option Handler) (hnew : ∀ v ∈ c.requests, v.id ≠ msg.id)
    (streamInputs : AList fun _ : Nat => Nat) :
    Answering { c with
      requests := c.requests ++ [{ Request.run msg .fn with handler }], streamInputs } := by
  exact ⟨h.wire.spawn hnew rfl, forall_concat h.requests ⟨rfl, rfl⟩⟩

theorem move_answering {i : Nat} {r : Request J} {x : Request J × List (WireMessage J)}
    (hr : c.requests[i]? = some r) (hx : r.Moved x) :
    Answering { c with requests := c.requests.set i x.1, wire := c.wire ++ x.2 } := by
  exact ⟨h.wire.write hr hx.id hx.out hx.frames, forall_set hr h.requests hx.sent⟩

theorem handleRequest_answering (hup : c.destroyed = false)
    (hnew : ∀ v ∈ c.requests, v.id ≠ msg.id) : Answering (c.handleRequest msg) := by
  obtain ⟨frame, hframe, htype, hid⟩ := notFound_ok msg
  unfold handleRequest
  rw [hframe]
  split
  · -- the request starts, and answers at once
    have hspawn := spawn_answering h none hnew c.streamInputs
    have hlast := getElem?_concat_length (l := c.requests)
      (a := { Request.run msg .fn with handler := none })
    have hmoved : Request.Moved { Request.run msg .fn with handler := none }
        (Request.write false _ frame .done) :=
      Request.write_done (map_nil.symm : _ = [].map (chunkFrame msg.id)) (.inl rfl)
        (.inr (.inl htype)) hid
    have hmove := move_answering hspawn hlast hmoved
    rw [set_append_right _ _ (Nat.le_refl _), Nat.sub_self] at hmove
    rw [hup]
    exact ⟨hmove.wire, hmove.requests⟩
  · exact spawn_answering h (some .fn) hnew c.streamInputs
  · exact spawn_answering h (some _) hnew _

theorem handleFrame_answering (hup : c.destroyed = false)
    (hnew : msg.type = "request" → ∀ v ∈ c.requests, v.id ≠ msg.id) :
    Answering (c.handleFrame msg) := by
  unfold handleFrame
  split
  · exact handleStream_answering h
  · split
    · exact handleRequest_answering h hup (hnew ‹_›)
    · exact h

end

end Connection

/-- **A step, on a socket that stays up.** -/
theorem Answering.step {c c' : Connection J} {l : Label J} (h : c.destroyed = false → Answering c)
    (hnew : (c'.requests.map Request.id).Nodup) (hok : l.Printable) (hs : step c l = some c') :
    c'.destroyed = false → Answering c' := by
  intro hup
  cases l with
  | register name handler =>
    cases hs
    exact ⟨(h hup).wire, (h hup).requests⟩
  | frame msg =>
    have hfresh := fresh_of_nodup hs hnew
    rw [Server.step] at hs
    split at hs <;> cases hs
    have hup' : c.destroyed = false := Connection.handleFrame_destroyed.symm.trans hup
    exact Connection.handleFrame_answering (h hup') hup' hfresh
  | disconnect =>
    rw [Server.step] at hs
    split at hs <;> cases hs
    cases hup
  | destroy =>
    cases hs
    cases hup
  | request i l =>
    obtain ⟨r, hr, hs⟩ := Option.bind_eq_some_iff.1 hs
    obtain ⟨x, hx, hs⟩ := Option.bind_eq_some_iff.1 hs
    cases hs
    have hc := h hup
    rw [show c.destroyed = false from hup] at hx
    exact Connection.move_answering hc hr ((hc.requests r (mem_of_getElem? hr)).moved hok hx)

/-- What holds after the labels `ls`. -/
structure Answered (ls : List (Label J)) (c : Connection J) : Prop where
  ids : c.requests.map Request.id = ls.flatMap Label.asks
  answering : (ls.flatMap Label.asks).Nodup → c.destroyed = false → Answering c

theorem Answered.step {ls : List (Label J)} {c c' : Connection J} {l : Label J}
    (h : Answered ls c) (hok : l.Printable) (hs : step c l = some c') :
    Answered (ls ++ [l]) c' := by
  have hids : c'.requests.map Request.id = (ls ++ [l]).flatMap Label.asks := by
    rw [step_ids hs, h.ids, flatMap_append, flatMap_singleton]
  refine ⟨hids, fun hn => ?_⟩
  rw [← hids] at hn
  refine Answering.step (h.answering ?_) hn hok hs
  rw [step_ids hs, nodup_append] at hn
  exact h.ids ▸ hn.1

def Request.Finished (r : Request J) : Prop := r.pc = .done ∨ r.pc = .rejected

theorem Request.Sent.frames {r : Request J} (h : r.Sent) : ∃ sent last,
    r.out = sent.map (chunkFrame r.id) ++ last ∧ Sendable r.yielded sent ∧
      (r.Finished → ∃ m, last = [m] ∧ Terminal m ∧ m.id = r.id) ∧ (¬ r.Finished → last = []) := by
  unfold Sent at h
  unfold Finished
  cases hpc : r.pc with
  | start =>
    rw [hpc] at h
    exact ⟨[], [], h.2, .inl h.1, nofun, fun _ => rfl⟩
  | iterate =>
    rw [hpc] at h
    exact ⟨r.yielded, [], h.trans (append_nil _).symm, .inl rfl, nofun, fun _ => rfl⟩
  | closing err =>
    rw [hpc] at h
    cases err with
    | none => exact h.elim
    | some err =>
      obtain ⟨sent, v, hout, hyielded, hrefuse, -⟩ := h
      exact ⟨sent, [], hout.trans (append_nil _).symm, .inr ⟨v, hyielded, hrefuse ▸ nofun⟩,
        nofun, fun _ => rfl⟩
  | done =>
    rw [hpc] at h
    obtain ⟨sent, m, hout, hsent, hm, hid⟩ := h
    exact ⟨sent, [m], hout, hsent, fun _ => ⟨m, rfl, hm, hid⟩, fun hf => absurd (.inl rfl) hf⟩
  | rejected =>
    rw [hpc] at h
    exact h.elim

/-- **Every request is answered once**, if the ids differ, the socket is up and everything that is
thrown can be sent. -/
theorem requests_answeredOnce {handlers : AList fun _ : String => Handler} {ls : List (Label J)}
    {c : Connection J} (hids : (ls.flatMap Label.asks).Nodup) (hok : ∀ l ∈ ls, l.Printable)
    (hrun : run step (.init handlers) ls = some c) (hup : c.destroyed = false) :
    c.requests.map Request.id = ls.flatMap Label.asks ∧ ∀ r ∈ c.requests, ∃ sent last,
      writtenBy WireMessage.id r.id c.wire = sent.map (chunkFrame r.id) ++ last ∧
      Sendable r.yielded sent ∧
      (r.Finished → ∃ m, last = [m] ∧ Terminal m ∧ m.id = r.id) ∧ (¬ r.Finished → last = []) := by
  have hinit : Answered (J := J) [] (.init handlers) :=
    ⟨rfl, fun _ _ => ⟨.nil, forall_mem_nil _⟩⟩
  have h : Answered ls c := history_invariant (fun _ _ _ _ => Answered.step) hinit
    (Along.of_labels (fun l hl _ => hok l hl) _) hrun
  refine ⟨h.ids, fun r hr => ?_⟩
  have hans := h.answering hids hup
  rw [hans.wire.records r hr]
  exact (hans.requests r hr).frames

def twoRequests : List (Label plain) :=
  [.frame { id := 1, type := "request", func := some "f" },
    .request 0 (.returned Datum.iterable),
    .frame { id := 2, type := "request", func := some "g" },
    .request 0 (.yielded (Datum.num 7)),
    .request 0 (.threw (Datum.str "x"))]

theorem requests_answeredOnce_two :
    ∃ c, run step (.init exports) twoRequests = some c ∧ c.requests.map Request.id = [1, 2] ∧
      ∀ r ∈ c.requests, ∃ sent last,
        writtenBy WireMessage.id r.id c.wire = sent.map (chunkFrame r.id) ++ last ∧
        Sendable r.yielded sent ∧
        (r.Finished → ∃ m, last = [m] ∧ Terminal m ∧ m.id = r.id) ∧
        (¬ r.Finished → last = []) := by
  have hok : ∀ l ∈ twoRequests, l.Printable := by
    intro l hl
    simp only [twoRequests, mem_cons, not_mem_nil, or_false] at hl
    rcases hl with rfl | rfl | rfl | rfl | rfl
    · trivial
    · exact nofun
    · trivial
    · exact nofun
    · exact ⟨Datum.str "x", rfl, rfl⟩
  obtain ⟨c, hrun, hup⟩ : ∃ c, run step (.init exports) twoRequests = some c ∧
      c.destroyed = false := ⟨_, rfl, rfl⟩
  exact ⟨c, hrun, requests_answeredOnce (by decide) hok hrun hup⟩

/-- An object without a prototype has no text: the request is over and was not answered. -/
theorem request_unanswered :
    ∃ c : Connection plain, run step (.init exports)
        [.frame { id := 1, type := "request", func := some "f" },
          .request 0 (.threw Datum.bare)] = some c ∧
      c.destroyed = false ∧
      ∃ r ∈ c.requests, r.Finished ∧ writtenBy WireMessage.id r.id c.wire = [] :=
  ⟨_, rfl, rfl, _, mem_singleton_self _, .inr rfl, rfl⟩

end Server

end Callwire.Ts
