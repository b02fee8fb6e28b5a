import Callwire.Py.Proof.LateFrames

/-!
# Bidirectional calls in the Python server

`_dispatch_streaming` answers a bidirectional call in the way of a client stream: with one frame,
the `response` for what the function returned or an `error`. `Answers` is the invariant: the frames
with the id of a streaming call are this one, once it is written. For a function that returns its
output this is not the protocol (`bidi_response`); it is one of its cases if the function raises, or
returns an object that cannot be encoded, such as a generator (`bidi_error`).
-/

namespace Callwire.Py

open Lib List ServerConn Option StreamCall

variable {P : Python}

/-- The frame for what a function returned or raised. -/
def replyFrame (id : Nat) (outcome : Except Exn P.Val) : WireMessage P :=
  match outcome.bind (packResponse id) with
  | .ok m => m
  | .error e => packError id (exceptionToWire e).1 (exceptionToWire e).2

def StreamCall.written (call : StreamCall P) : List (WireMessage P) :=
  match call.pc, call.outcome with
  | .popping, some outcome | .done, some outcome => [replyFrame call.id outcome]
  | .popping, none | .done, none =>
    [packError call.id "NotFoundError" ("function '" ++ call.func.getD "None" ++ "' not exported")]
  | _, _ => []

def StreamCall.Recorded (call : StreamCall P) : Prop :=
  match call.pc with
  | .starting | .notFound | .running => call.outcome = none
  | .replying outcome => call.outcome = some outcome
  | .popping | .done => True

theorem replyFrame_id (id : Nat) (outcome : Except Exn P.Val) :
    (replyFrame id outcome).id = id := by
  unfold replyFrame
  split
  · exact bind_packResponse_id ‹_›
  · rfl

namespace ServerConn

variable {registry : String → Option (Fn P)} {c c₁ : ServerConn P} {outcome : Except Exn P.Val}
  {id : Nat} {m : WireMessage P}

def framesOf (c : ServerConn P) (id : Nat) : List (WireMessage P) :=
  c.wire.filter fun f => f.id = id

/-! ## What the moves write -/

theorem write_open (hopen : c.isOpen = true) :
    c.write none (.ok m) = .ok { c with wire := c.wire ++ [m] } := by
  simp only [write, hopen, if_true]

/-- On an open connection that takes the write, the reply is written. -/
theorem tryWrite_open (hopen : c.isOpen = true) :
    c.tryWrite id none none (outcome.bind (packResponse id)) =
      .ok { c with wire := c.wire ++ [replyFrame id outcome] } := by
  unfold tryWrite replyFrame
  cases outcome.bind (packResponse id) with
  | ok m => rw [write_open hopen]
  | error e =>
    have hw : c.write none (.error e) = .error e := rfl
    rw [hw]
    exact write_open hopen

/-- What a move of the read loop does, without what it does to queues. -/
inductive Effect (c : ServerConn P) : ServerConn P → Prop
  | silent {c₁ : ServerConn P} (hwire : c₁.wire = c.wire) (hasked : c₁.asked = c.asked)
      (hcalls : ∀ (k : Nat) (call₁ : StreamCall P), c₁.calls[k]? = some call₁ →
        ∃ call, c.calls[k]? = some call ∧ call₁ = { call with queue := call₁.queue })
      (hlength : c₁.calls.length = c.calls.length)
      (hserves : ∀ id, c₁.reader.serves = some id → c.reader.serves = some id) : Effect c c₁
  | wrote {id : Nat} {m : WireMessage P} {c₁ : ServerConn P} (hid : c.reader.serves = some id)
      (hm : m.id = id) (hwire : c₁.wire = c.wire ++ [m]) (hasked : c₁.asked = c.asked)
      (hcalls : c₁.calls = c.calls)
      (hserves : ∀ id, c₁.reader.serves = some id → c.reader.serves = some id) : Effect c c₁
  | dispatched {m : WireMessage P} {c₁ : ServerConn P} (hwire : c₁.wire = c.wire)
      (hasked : c₁.asked = c.asked ++ [m.id]) (hcalls : c₁.calls = c.calls)
      (hserves : ∀ id, c₁.reader.serves = some id → id = m.id) (hnew : m.id ∉ c.asked) : Effect c c₁
  | started {m : WireMessage P} (hreader : c.reader = .reading) (hnew : m.id ∉ c.asked) :
      Effect c (c.startStream m)

/-- A message that starts a call has an id that was not used before. -/
def Fresh (c : ServerConn P) (l : ServerLabel P) : Prop :=
  ∀ m, l = .read (.msg m) → (m.StreamFrame → c.streams.lookup m.id = none) → m.id ∉ c.asked

theorem dispatch_effect (hnew : m.id ∉ c.asked) : Effect c (c.dispatch registry m) := by
  unfold dispatch
  split
  · exact .silent rfl rfl (fun _ call h => ⟨call, h, rfl⟩) rfl fun _ h => nomatch h
  · split
    · exact .dispatched rfl rfl rfl (fun _ h => (some.inj h).symm) hnew
    · split
      · exact .dispatched rfl rfl rfl (fun _ h => (some.inj h).symm) hnew
      · exact .dispatched rfl rfl rfl (fun _ h => (some.inj h).symm) hnew

theorem handle_effect (hreader : c.reader = .reading) (hfresh : Fresh c (.read (.msg m))) :
    Effect c (c.handle registry m) := by
  unfold handle
  split
  · exact .silent rfl rfl (fun _ call h => ⟨call, h, rfl⟩) rfl fun _ h => nomatch h
  · rename_i hnone
    have hnew : m.id ∉ c.asked :=
      hfresh m rfl fun hm => AList.lookup_eq_none.2 fun hin => hnone ⟨hm, hin⟩
    split
    · exact .started hreader hnew
    · exact dispatch_effect hnew

theorem readerStep_effect {l : ServerLabel P} (hfresh : Fresh c l)
    (h : c.readerStep registry l = some c₁) (hl : ∀ k l', l ≠ .stream k l') : Effect c c₁ := by
  have hsettle : settles l = true → Effect c c₁ := by
    intro hl
    obtain ⟨hcalls, -, -, hasked, hserves, hwire | ⟨m, hid, hwire⟩⟩ := readerStep_settles hl h
    · exact .silent hwire hasked (fun _ call h => ⟨call, hcalls ▸ h, rfl⟩)
        (congrArg List.length hcalls) hserves
    · exact .wrote hid rfl hwire hasked hcalls hserves
  cases l with
  | index =>
    obtain ⟨m, -, hfound, hgone⟩ := readerStep_index h
    cases hk : c.streams.lookup m.id with
    | some k =>
      rw [hfound k hk]
      exact .silent rfl rfl (fun _ call h => ⟨call, h, rfl⟩) rfl fun _ h => nomatch h
    | none =>
      rw [hgone hk]
      exact .silent rfl rfl (fun _ call h => ⟨call, h, rfl⟩) rfl fun _ h => nomatch h
  | put =>
    obtain ⟨k, m, call, -, hcall, -, rfl⟩ := readerStep_put h
    refine .silent rfl rfl (fun j call₁ hj => ?_) length_set fun _ h => nomatch h
    rcases set_cases hcall hj with ⟨rfl, rfl⟩ | ⟨-, hj⟩
    · exact ⟨call, hcall, rfl⟩
    · exact ⟨call₁, hj, rfl⟩
  | read payload =>
    cases payload with
    | msg m =>
      obtain ⟨hr, rfl⟩ := readerStep_msg h
      exact handle_effect hr hfresh
    | undecodable | malformed => exact hsettle rfl
  | readFails | refuse | call | gen | close => exact hsettle rfl
  | stream k l => exact absurd rfl (hl k l)

/-- The replies of the threads are taken. -/
def Accepts (c : ServerConn P) (l : ServerLabel P) : Prop :=
  ∀ k fail fail', l = .stream k (.reply fail fail') → c.isOpen = true ∧ fail = none ∧ fail' = none

theorem streamStep_effect {k : Nat} {call : StreamCall P} {l : StreamLabel P}
    (haccepts : Accepts c (.stream k l)) (hrecorded : call.Recorded)
    (h : c.streamStep registry k call l = some c₁) :
    ∃ call₁ frames, c₁.calls = c.calls.set k call₁ ∧ c₁.reader = c.reader ∧ c₁.asked = c.asked ∧
      call₁.id = call.id ∧ call₁.Recorded ∧ c₁.wire = c.wire ++ frames ∧
      (∀ f ∈ frames, f.id = call.id) ∧ call₁.written = call.written ++ frames := by
  have hquiet : ∀ {call₁ : StreamCall P}, some { c with calls := c.calls.set k call₁ } = some c₁ →
      call₁.id = call.id → call₁.Recorded → call₁.written = call.written →
      ∃ call₁ frames, c₁.calls = c.calls.set k call₁ ∧ c₁.reader = c.reader ∧ c₁.asked = c.asked ∧
        call₁.id = call.id ∧ call₁.Recorded ∧ c₁.wire = c.wire ++ frames ∧
        (∀ f ∈ frames, f.id = call.id) ∧ call₁.written = call.written ++ frames := by
    intro call₁ hc hid hrec hwritten
    cases hc
    refine ⟨call₁, [], rfl, rfl, rfl, hid, hrec, (append_nil _).symm, ?_, ?_⟩
    · exact fun f hf => nomatch hf
    · rw [hwritten, append_nil]
  unfold StreamCall.Recorded at hrecorded
  simp only [streamStep] at h
  split at h
  · rename_i hpc
    rw [hpc] at hrecorded
    split at h
    · refine hquiet h rfl hrecorded ?_
      simp only [written, hpc]
    · refine hquiet h rfl hrecorded ?_
      simp only [written, hpc]
  · rename_i hpc
    rw [hpc] at hrecorded
    obtain ⟨hopen, rfl, -⟩ := haccepts _ _ _ rfl
    rw [sendNotFound, write_open hopen] at h
    cases h
    refine ⟨_, _, rfl, rfl, rfl, rfl, trivial, rfl, fun f hf => ?_, ?_⟩
    · rw [mem_singleton.1 hf]
      rfl
    · simp only [written, hpc, hrecorded, nil_append]
  · rename_i hpc
    rw [hpc] at hrecorded
    split at h
    · obtain ⟨⟨m, queue⟩, -, hc⟩ := map_eq_some_iff.1 h
      have hsame : (call.take m queue).id = call.id ∧ (call.take m queue).pc = call.pc ∧
          (call.take m queue).outcome = call.outcome := by
        unfold StreamCall.take
        split
        · exact ⟨rfl, rfl, rfl⟩
        · split <;> exact ⟨rfl, rfl, rfl⟩
      refine hquiet (congrArg some hc) hsame.1 ?_ ?_
      · rw [StreamCall.Recorded, hsame.2.1, hpc]
        exact hsame.2.2.trans hrecorded
      · simp only [written, hsame.2.1, hpc]
    · cases h
  · rename_i hpc
    split at h
    · refine hquiet h rfl ?_ rfl
      rw [StreamCall.Recorded, hpc]
      rw [hpc] at hrecorded
      exact hrecorded
    · cases h
  · rename_i hpc
    split at h
    · refine hquiet h rfl rfl ?_
      simp only [written, hpc]
    · refine hquiet h rfl rfl ?_
      simp only [written, hpc]
  · rename_i hpc
    rw [hpc] at hrecorded
    obtain ⟨hopen, rfl, rfl⟩ := haccepts _ _ _ rfl
    rw [tryWrite_open hopen] at h
    cases h
    refine ⟨_, _, rfl, rfl, rfl, rfl, trivial, rfl, fun f hf => ?_, ?_⟩
    · rw [mem_singleton.1 hf]
      exact replyFrame_id ..
    · simp only [written, hpc, hrecorded, nil_append]
  · rename_i hpc
    cases h
    refine ⟨_, [], rfl, rfl, rfl, rfl, trivial, (append_nil _).symm,
      fun f hf => (nomatch hf), ?_⟩
    rw [append_nil]
    unfold written
    rw [hpc]
    cases call.outcome <;> rfl
  · cases h

/-! ## The invariant -/

structure Answers (c : ServerConn P) : Prop where
  asked : ∀ call ∈ c.calls, call.id ∈ c.asked
  ids : (c.calls.map StreamCall.id).Nodup
  reader : ∀ id, c.reader.serves = some id → id ∈ c.asked ∧ ∀ call ∈ c.calls, call.id ≠ id
  wire : ∀ f ∈ c.wire, f.id ∈ c.asked
  recorded : ∀ call ∈ c.calls, call.Recorded
  replies : ∀ call ∈ c.calls, c.framesOf call.id = call.written

theorem answers_init : (init : ServerConn P).Answers where
  asked _ h := nomatch h
  ids := nodup_nil
  reader _ h := nomatch h
  wire _ h := nomatch h
  recorded _ h := nomatch h
  replies _ h := nomatch h

theorem framesOf_append {frames : List (WireMessage P)} (hwire : c₁.wire = c.wire ++ frames) :
    c₁.framesOf id = c.framesOf id ++ frames.filter fun f => f.id = id := by
  rw [framesOf, hwire, filter_append]
  rfl

theorem filter_of_id {frames : List (WireMessage P)} {id' : Nat} (h : ∀ f ∈ frames, f.id = id)
    (hne : id ≠ id') : frames.filter (fun f => f.id = id') = [] := by
  refine filter_eq_nil_iff.2 fun f hf => ?_
  rw [decide_eq_true_eq, h f hf]
  exact hne

theorem Answers.effect (h : c.Answers) (he : Effect c c₁) : c₁.Answers := by
  cases he with
  | silent hwire hasked hcalls hlength hserves =>
    have hcall : ∀ call₁ ∈ c₁.calls, ∃ call ∈ c.calls,
        call₁ = { call with queue := call₁.queue } := by
      intro call₁ hmem
      obtain ⟨k, hk⟩ := mem_iff_getElem?.1 hmem
      obtain ⟨call, hcall, hsame⟩ := hcalls k call₁ hk
      exact ⟨call, mem_of_getElem? hcall, hsame⟩
    refine ⟨fun call₁ hmem => ?_, ?_, fun id hid => ?_, ?_, fun call₁ hmem => ?_,
      fun call₁ hmem => ?_⟩
    · obtain ⟨call, hmem, hsame⟩ := hcall call₁ hmem
      rw [hsame, hasked]
      exact h.asked call hmem
    · have hids : c₁.calls.map StreamCall.id = c.calls.map StreamCall.id := by
        refine ext_getElem? fun k => ?_
        rw [getElem?_map, getElem?_map]
        cases hk : c₁.calls[k]? with
        | some call₁ =>
          obtain ⟨call, hcall, hsame⟩ := hcalls k call₁ hk
          rw [hcall, hsame]
          rfl
        | none =>
          rw [List.getElem?_eq_none_iff, hlength] at hk
          rw [getElem?_eq_none hk]
      exact hids ▸ h.ids
    · obtain ⟨hmem, hne⟩ := h.reader id (hserves id hid)
      refine ⟨hasked ▸ hmem, fun call₁ hmem₁ => ?_⟩
      obtain ⟨call, hmem, hsame⟩ := hcall call₁ hmem₁
      rw [hsame]
      exact hne call hmem
    · rw [hwire, hasked]
      exact h.wire
    · obtain ⟨call, hmem, hsame⟩ := hcall call₁ hmem
      rw [hsame]
      exact h.recorded call hmem
    · obtain ⟨call, hmem, hsame⟩ := hcall call₁ hmem
      rw [framesOf, hwire, hsame]
      exact h.replies call hmem
  | @wrote id m _ hid hm hwire hasked hcalls hserves =>
    obtain ⟨hmem, hne⟩ := h.reader id hid
    refine ⟨?_, ?_, fun id' hid' => ?_, fun f hf => ?_, ?_, fun call hcall => ?_⟩
    · rw [hcalls, hasked]
      exact h.asked
    · rw [hcalls]
      exact h.ids
    · rw [hcalls, hasked]
      exact h.reader id' (hserves id' hid')
    · rw [hwire] at hf
      rw [hasked]
      rcases mem_concat_cases hf with hf | rfl
      · exact h.wire f hf
      · rw [hm]
        exact hmem
    · rw [hcalls]
      exact h.recorded
    · rw [hcalls] at hcall
      have hown : ∀ f ∈ [m], f.id = id := fun f hf => (mem_singleton.1 hf) ▸ hm
      rw [framesOf_append hwire, h.replies call hcall, filter_of_id hown (hne call hcall).symm,
        append_nil]
  | @dispatched m _ hwire hasked hcalls hserves hnew =>
    have hsub : c.asked ⊆ c₁.asked := hasked ▸ subset_append_left ..
    refine ⟨fun call hcall => ?_, ?_, fun id hid => ?_, ?_, ?_, ?_⟩
    · rw [hcalls] at hcall
      exact hsub (h.asked call hcall)
    · rw [hcalls]
      exact h.ids
    · obtain rfl := hserves id hid
      rw [hasked, hcalls]
      refine ⟨mem_append_right _ (mem_singleton.2 rfl), fun call hcall heq => hnew ?_⟩
      exact heq ▸ h.asked call hcall
    · rw [hwire]
      exact fun f hf => hsub (h.wire f hf)
    · rw [hcalls]
      exact h.recorded
    · rw [hcalls]
      intro call hcall
      rw [framesOf, hwire]
      exact h.replies call hcall
  | @started m hreader hnew =>
    have hold : ∀ {call : StreamCall P}, call ∈ (c.startStream m).calls → call ∈ c.calls ∨
        call = { id := m.id, func := m.func, isBidi := m.stream, queue := .new 256,
                 exhausted := false, pulled := [], outcome := none, pc := .starting } := by
      intro call hcall
      exact (mem_append.1 hcall).imp_right mem_singleton.1
    refine ⟨fun call hcall => ?_, ?_, fun id hid => ?_, fun f hf => ?_, fun call hcall => ?_,
      fun call hcall => ?_⟩
    · rcases hold hcall with hcall | rfl
      · exact mem_append_left _ (h.asked call hcall)
      · exact mem_append_right _ (mem_singleton.2 rfl)
    · show ((c.calls ++ [_]).map StreamCall.id).Nodup
      rw [map_append, nodup_append]
      refine ⟨h.ids, nodup_singleton _, fun a ha b hb hab => hnew ?_⟩
      obtain ⟨call, hcall, rfl⟩ := mem_map.1 ha
      obtain rfl : b = m.id := mem_singleton.1 hb
      exact hab ▸ h.asked call hcall
    · have hserves : c.reader.serves = some id := hid
      rw [hreader] at hserves
      cases hserves
    · exact mem_append_left _ (h.wire f hf)
    · rcases hold hcall with hcall | rfl
      · exact h.recorded call hcall
      · exact rfl
    · rcases hold hcall with hcall | rfl
      · exact h.replies call hcall
      · refine filter_eq_nil_iff.2 fun f hf => ?_
        rw [decide_eq_true_eq]
        intro heq
        have hmem : f.id ∈ c.asked := h.wire f hf
        rw [heq] at hmem
        exact hnew hmem

theorem Answers.stream {k : Nat} {l : StreamLabel P} (h : c.Answers)
    (haccepts : Accepts c (.stream k l)) (hs : c.step registry (.stream k l) = some c₁) :
    c₁.Answers := by
  obtain ⟨call, hcall, hs⟩ := bind_eq_some_iff.1 hs
  have hmem := mem_of_getElem? hcall
  obtain ⟨call₁, frames, hcalls, hreader, hasked, hid, hrecorded, hwire, hown, hwritten⟩ :=
    streamStep_effect haccepts (h.recorded call hmem) hs
  have hids : c₁.calls.map StreamCall.id = c.calls.map StreamCall.id := by
    rw [hcalls]
    exact map_set_of_eq StreamCall.id hcall hid
  refine ⟨?_, hids ▸ h.ids, fun id hserves => ?_, fun f hf => ?_, ?_, fun x hx => ?_⟩
  · rw [hcalls, hasked]
    exact forall_set hcall h.asked (hid ▸ h.asked call hmem)
  · rw [hreader] at hserves
    obtain ⟨hin, hne⟩ := h.reader id hserves
    refine ⟨hasked ▸ hin, ?_⟩
    rw [hcalls]
    exact forall_set hcall hne (hid ▸ hne call hmem)
  · rw [hwire] at hf
    rw [hasked]
    rcases mem_append.1 hf with hf | hf
    · exact h.wire f hf
    · rw [hown f hf]
      exact h.asked call hmem
  · rw [hcalls]
    exact forall_set hcall h.recorded hrecorded
  · obtain ⟨j, hj⟩ := mem_iff_getElem?.1 hx
    rw [hcalls] at hj
    rcases set_cases hcall hj with ⟨rfl, rfl⟩ | ⟨hkj, hj⟩
    · rw [framesOf_append hwire, hid, h.replies call hmem, hwritten]
      congr 1
      exact filter_eq_self.2 fun f hf => decide_eq_true (hown f hf)
    · have hne : call.id ≠ x.id := by
        intro heq
        have hk' : (c.calls.map StreamCall.id)[k]? = some call.id := by
          rw [getElem?_map, hcall]
          rfl
        have hj' : (c.calls.map StreamCall.id)[j]? = some call.id := by
          rw [getElem?_map, hj, heq]
          rfl
        exact hkj ((Nodup.getElem_inj_iff h.ids).1
          ((List.getElem?_eq_some_iff.1 hk').2.trans (List.getElem?_eq_some_iff.1 hj').2.symm))
      rw [framesOf_append hwire, h.replies x (mem_of_getElem? hj), filter_of_id hown hne,
        append_nil]

/-- The conditions on a step: its request id is new, and replies of threads are taken. -/
def Served (c : ServerConn P) (l : ServerLabel P) : Prop := Fresh c l ∧ Accepts c l

theorem Answers.step {l : ServerLabel P} (h : c.Answers) (hok : Served c l)
    (hs : c.step registry l = some c₁) : c₁.Answers := by
  cases l with
  | stream k l => exact h.stream hok.2 hs
  | _ => exact h.effect (readerStep_effect hok.1 hs nofun)

/-- **Every streaming call is answered by its one frame**, in every run. -/
theorem answers {ls : List (ServerLabel P)}
    (hrun : run (step registry) .init ls = some c)
    (hok : Along (step registry) Served .init ls) : c.Answers := by
  have hstep : ∀ (c : ServerConn P) l c₁, c.Answers → Served c l →
      step registry c l = some c₁ → c₁.Answers := fun _ _ _ h hok hs => h.step hok hs
  exact run_invariant hstep answers_init hok hrun

/-! ## The protocol -/

/-- The frames of a bidirectional call whose output is `outputs`: all chunks and the end, or some of
them and an error. -/
def BidiReply (id : Nat) (outputs : List P.Val) (frames : List (WireMessage P)) : Prop :=
  let chunk (v : P.Val) : WireMessage P := { id, type := some "stream_chunk", result := v }
  frames = outputs.map chunk ++ [packStreamEnd id] ∨
    ∃ n errorType message, frames = (outputs.take n).map chunk ++ [packError id errorType message]

/-- The function raised, or returned what cannot be encoded. -/
def Refused (outcome : Except Exn P.Val) : Prop :=
  ∀ v, outcome = .ok v → ∃ e, P.refuse v = some e

theorem replyFrame_refused (h : Refused outcome) :
    ∃ errorType message, replyFrame id outcome = packError id errorType message := by
  unfold replyFrame
  split
  · rename_i m hm
    cases outcome with
    | error => cases hm
    | ok v =>
      obtain ⟨e, he⟩ := h v rfl
      have hpack : packResponse id v = .error e := by
        rw [packResponse, packb, findSome?_cons, he]
      cases hpack.symm.trans hm
  · exact ⟨_, _, rfl⟩

theorem replyFrame_response {v : P.Val} (h : P.refuse v = none) :
    (replyFrame id (.ok v)).type = some "response" := by
  have hpack : packResponse id v = .ok { id, type := some "response", result := v } := by
    rw [packResponse, packb, findSome?_cons, h]
    rfl
  rw [replyFrame, Except.bind, hpack]

/-- The last frame of the protocol is not a `response`. -/
theorem BidiReply.last {outputs : List P.Val} {frames : List (WireMessage P)}
    (h : BidiReply id outputs frames) :
    ∃ f, frames.getLast? = some f ∧ f.type ≠ some "response" := by
  rcases h with rfl | ⟨n, errorType, message, rfl⟩
  · exact ⟨_, getLast?_concat, by simp [packStreamEnd]⟩
  · exact ⟨_, getLast?_concat, by simp [packError]⟩

/-- The moves that are left for a thread whose function has returned. -/
inductive Ends (k : Nat) : ServerLabel P → Prop
  | reply : Ends k (.stream k (.reply none none))
  | pop : Ends k (.stream k .go)

theorem stream_ends {k : Nat} {call : StreamCall P} (hcall : c.calls[k]? = some call)
    (hpc : call.pc = .replying outcome) :
    Reaches (step registry) (Ends k)
      (fun c₁ => ∃ call₁, c₁.calls[k]? = some call₁ ∧ call₁.pc = .done) c := by
  have hreply : ∃ c₁, c.step registry (.stream k (.reply none none)) = some c₁ ∧
      c₁.calls = c.calls.set k { call with pc := .popping } := by
    simp only [step, hcall, bind_some, streamStep, hpc]
    split
    · rename_i c₁ hw
      obtain ⟨m, -, rfl⟩ := tryWrite_wire (fun m => bind_packResponse_id) hw
      exact ⟨_, rfl, rfl⟩
    · exact ⟨_, rfl, rfl⟩
  obtain ⟨c₁, hs, hcalls⟩ := hreply
  have hlt := lt_of_some hcall
  have hcall₁ : c₁.calls[k]? = some { call with pc := .popping } := by
    rw [hcalls]
    exact getElem?_set_self hlt
  have hs₁ : c₁.step registry (.stream k .go) = some
      { c₁ with
        streams := c₁.streams.erase call.id
        calls := c₁.calls.set k { call with pc := .done } } := by
    have hpop : ({ call with pc := .popping } : StreamCall P).pc = .popping := rfl
    rw [step, hcall₁]
    exact @streamStep_popping P registry c₁ k _ hpop
  refine .next hs .reply (.step_one hs₁ .pop ⟨{ call with pc := .done }, ?_, rfl⟩)
  exact set_of_some hcall₁

/-- **A bidirectional call that has been answered is answered by the protocol exactly if its
function raised, or returned what cannot be encoded**: with an error, and nothing else. No move
looks at `isBidi`. -/
theorem bidi_error {ls : List (ServerLabel P)}
    (hrun : run (step registry) .init ls = some c)
    (hok : Along (step registry) Served .init ls) {k : Nat} {call : StreamCall P}
    (hcall : c.calls[k]? = some call) (outputs : List P.Val) :
    (call.Ended → (BidiReply call.id outputs (c.framesOf call.id) ↔
      ∀ outcome, call.outcome = some outcome → Refused outcome)) ∧
      ∀ outcome, call.pc = .replying outcome →
        Reaches (step registry) (Ends k)
          (fun c₁ => ∃ call₁, c₁.calls[k]? = some call₁ ∧ call₁.pc = .done) c := by
  refine ⟨fun hend => ?_, fun outcome hpc => stream_ends hcall hpc⟩
  rw [(answers hrun hok).replies call (mem_of_getElem? hcall)]
  cases ho : call.outcome with
  | none =>
    have hwritten : ∃ errorType message, call.written = [packError call.id errorType message] := by
      unfold written
      rcases hend with hpc | hpc <;> rw [hpc, ho] <;> exact ⟨_, _, rfl⟩
    obtain ⟨errorType, message, hwritten⟩ := hwritten
    exact ⟨fun _ _ h => (nomatch h), fun _ => .inr ⟨0, errorType, message, hwritten⟩⟩
  | some outcome =>
    have hwritten : call.written = [replyFrame call.id outcome] := by
      unfold written
      rcases hend with hpc | hpc <;> rw [hpc, ho]
    rw [hwritten]
    refine ⟨fun hreply outcome' ho' v hv => ?_, fun hrefused => .inr ?_⟩
    · cases ho'
      subst hv
      cases hv : P.refuse v with
      | some e => exact ⟨e, rfl⟩
      | none =>
        obtain ⟨f, hf, htype⟩ := hreply.last
        cases hf
        exact absurd (replyFrame_response hv) htype
    · obtain ⟨errorType, message, hframe⟩ :
          ∃ errorType message, replyFrame call.id outcome = packError call.id errorType message :=
        replyFrame_refused (hrefused outcome rfl)
      rw [hframe]
      exact ⟨0, errorType, message, rfl⟩

end ServerConn

inductive Obj where
  | none
  | int (n : Int)
  | list (ns : List Int)
  | generator

def objects : Python where
  Val := Obj
  None := .none
  refuse
    | .generator => some ⟨"TypeError", "can not serialize 'generator' object"⟩
    | _ => none

namespace ServerConn

def listAndGenerator (name : String) : Option (Fn objects) :=
  if name = "f" then some ⟨true, none⟩
  else if name = "g" then some ⟨true, some .generator⟩
  else none

def bidiInput (func : String) : List (ServerLabel objects) :=
  [.read (.msg { id := 1, type := some "request", func := some func, args := some [],
                 stream := true }),
    .read (.msg { id := 1, type := some "stream_chunk", result := .int 3 }), .index, .put,
    .read (.msg { id := 1, type := some "stream_end" }), .index, .put, .stream 0 .go]

def generatorLabels : List (ServerLabel objects) :=
  bidiInput "g" ++ [.stream 0 (.result (.ok .none)), .stream 0 (.reply none none)]

theorem bidi_error_generator : ∃ (c : ServerConn objects) (call : StreamCall objects),
    run (step listAndGenerator) .init generatorLabels = some c ∧
    c.calls[0]? = some call ∧ call.isBidi = true ∧
    BidiReply call.id [Obj.int 3, Obj.int 4] (c.framesOf call.id) := by
  have hok : Along (step listAndGenerator) Served .init generatorLabels := by
    refine Along.cons ⟨fun m hm _ => ?_, fun _ _ _ h => (nomatch h)⟩ rfl ?_
    · exact fun h => nomatch h
    refine Along.cons ⟨fun m hm hnone => ?_, fun _ _ _ h => (nomatch h)⟩ rfl ?_
    · cases hm
      cases hnone (by decide)
    iterate 2
      refine Along.cons ⟨fun m hm => (nomatch hm), fun _ _ _ h => (nomatch h)⟩ rfl ?_
    refine Along.cons ⟨fun m hm hnone => ?_, fun _ _ _ h => (nomatch h)⟩ rfl ?_
    · cases hm
      cases hnone (by decide)
    iterate 4
      refine Along.cons ⟨fun m hm => (nomatch hm), fun _ _ _ h => (nomatch h)⟩ rfl ?_
    refine Along.cons ⟨fun m hm => (nomatch hm), fun _ _ _ h => ?_⟩ rfl trivial
    cases h
    exact ⟨rfl, rfl, rfl⟩
  refine ⟨_, _, rfl, rfl, rfl, ((@bidi_error objects listAndGenerator _ _ rfl hok 0 _ rfl _).1
    (.inl rfl)).2 fun outcome ho v hv => ?_⟩
  cases ho
  cases hv
  exact ⟨_, rfl⟩

def listLabels : List (ServerLabel objects) :=
  bidiInput "f" ++ [.stream 0 .next, .stream 0 .next,
    .stream 0 (.result (.ok (.list [3, 4]))), .stream 0 (.reply none none), .stream 0 .go]

/-- **A bidirectional call is answered by a `response`.** -/
theorem bidi_response : ∃ (c : ServerConn objects) (call : StreamCall objects),
    run (step listAndGenerator) .init listLabels = some c ∧
    c.calls[0]? = some call ∧ call.isBidi = true ∧ call.pulled = [.int 3] ∧
    call.exhausted = true ∧ c.isOpen = true ∧
    c.framesOf 1 = [{ id := 1, type := some "response", result := .list [3, 4] }] ∧
    ¬ BidiReply 1 [Obj.int 3, Obj.int 4] (c.framesOf 1) := by
  refine ⟨_, _, rfl, rfl, rfl, rfl, rfl, rfl, rfl, ?_⟩
  intro h
  obtain ⟨f, hf, htype⟩ := h.last
  cases hf
  exact htype rfl

end ServerConn

end Callwire.Py
