import Callwire.Lib.Ledger
import Callwire.C.Proof.Routing

/-!
# The server's ledger

`Conn.ledger` is what a connection owes: the requests read, those the read loop or a thread still
has in its hands, and the frames written. A request id is in one pair of hands at most (`OneCall`),
and if the socket takes every frame, threads are created and every response fits into one frame,
each step is a move of the ledger or leaves it alone (`ledger_step`).
-/

namespace Callwire.C

open Lib List Conn

/-! ## Frames -/

def Outgoing.id : Outgoing → BitVec 64
  | .request id _ _ | .bidiRequest id _ _ | .response id _ | .error id _ _ | .streamChunk id _
  | .streamEnd id | .streamClose id => id

def Outgoing.terminal : Outgoing → Bool
  | .response _ _ | .error _ _ _ | .streamEnd _ => true
  | _ => false

/-- The frame can be written: it can be encoded and is not over the frame limit. -/
def Outgoing.Frameable (m : Outgoing) : Prop :=
  ∃ p, m.payload = some p ∧ p.length ≤ callwireMaxFrameSize

variable {m : Outgoing}

theorem Conn.write_frameable (c : Conn) (h : m.Frameable) :
    c.write m true = (0, { c with out := c.out ++ [m] }) := by
  obtain ⟨p, hp, hl⟩ := h
  rcases c.write_cases m true with ⟨hw, -⟩ | ⟨-, hf | hf⟩
  · exact hw
  · cases hf
  · have := hf p hp
    omega

theorem Conn.write_not_frameable (c : Conn) (ok : Bool) (h : ¬ m.Frameable) :
    c.write m ok = (-1, c) := by
  rcases c.write_cases m ok with ⟨-, -, hp⟩ | ⟨hw, -⟩
  · exact absurd hp h
  · exact hw

theorem frameable_of_size (h : (Value.map m.entries).size ≤ callwireMaxFrameSize) :
    m.Frameable := by
  obtain ⟨p, hp, hl⟩ := Outgoing.payload_of_size (h.trans (by decide))
  exact ⟨p, hp, hl.trans h⟩

theorem error_frameable {id : BitVec 64} {errorType text : CString}
    (h : text.bytes.length ≤ 100 ∧ errorType.bytes.length ≤ 100) :
    (Outgoing.error id (some errorType) (some text)).Frameable := by
  refine frameable_of_size ?_
  simp only [Outgoing.entries, idType, cons_append, nil_append, Value.size, sizeEntries,
    strOr, Option.map_some, Option.getD_some, callwireMaxFrameSize]
  have hid : (lit "id").length = 2 := by decide
  have htype : (lit "type").length = 4 := by decide
  have herr : (lit "error").length = 5 := by decide
  have het : (lit "error_type").length = 10 := by decide
  have hm : (lit "message").length = 7 := by decide
  omega

theorem streamEnd_frameable (id : BitVec 64) : (Outgoing.streamEnd id).Frameable :=
  frameable_of_size (Nat.le_of_ble_eq_true rfl)

/-! ## Requests in hand -/

def Thread.working (t : Thread) : Bool :=
  match t.pc with
  | .start | .running _ | .reply _ _ => true
  | _ => false

namespace Conn

/-- The request the read loop is dispatching. -/
def loopIds (c : Conn) : List (BitVec 64) :=
  match c.loop with
  | .request msg => [msg.id]
  | .spawn _ id _ => [id]
  | _ => []

/-- The calls of the threads, and whether they are still working. -/
def calls (c : Conn) : List (BitVec 64 × Bool) := c.threads.map fun t => (t.id, t.working)

/-- The request is in the hands of the read loop or of a working thread. -/
def Pending (c : Conn) (k : BitVec 64) : Prop := k ∈ c.loopIds ∨ (k, true) ∈ c.calls

def ledger (c : Conn) : Ledger (BitVec 64) Outgoing :=
  ⟨{k | k ∈ requestIds c.frames}, {k | c.Pending k}, c.out⟩

end Conn

/-- A request id is in one pair of hands at most. -/
structure OneCall (c : Conn) : Prop where
  distinct : (c.loopIds ++ c.calls.map Prod.fst).Nodup
  known : ∀ k ∈ c.loopIds ++ c.calls.map Prod.fst, k ∈ requestIds c.frames

theorem OneCall.init : OneCall .init := ⟨nodup_nil, nofun⟩

section
variable {c c' : Conn} {i : Nat} {t t' : Thread}

theorem OneCall.congr (h : OneCall c) (hl : c'.loopIds = c.loopIds)
    (hc : c'.calls.map Prod.fst = c.calls.map Prod.fst) (hf : c'.frames = c.frames) :
    OneCall c' := by
  refine ⟨?_, ?_⟩
  · rw [hl, hc]
    exact h.distinct
  · rw [hl, hc, hf]
    exact h.known

theorem OneCall.not_thread (h : OneCall c) {k : BitVec 64} (hk : k ∈ c.loopIds) (b : Bool) :
    (k, b) ∉ c.calls := fun hm =>
  (nodup_append.1 h.distinct).2.2 k hk k (mem_map_of_mem hm) rfl

theorem calls_set (ht : c.threads[i]? = some t) (hth : c'.threads = c.threads.set i t')
    (hid : t'.id = t.id) (hw : t'.working = t.working) : c'.calls = c.calls := by
  rw [calls, hth, calls]
  exact map_set_of_eq _ ht (by rw [hid, hw])

theorem calls_ids_set (ht : c.threads[i]? = some t) (hth : c'.threads = c.threads.set i t')
    (hid : t'.id = t.id) : c'.calls.map Prod.fst = c.calls.map Prod.fst := by
  rw [calls, hth, calls, map_map, map_map]
  exact map_set_of_eq _ ht hid

/-- A thread that stops working takes its id out of the pending ones. -/
theorem OneCall.pending_finish (h : OneCall c) (ht : c.threads[i]? = some t)
    (hw : t.working = true) (hth : c'.threads = c.threads.set i t') (hl : c'.loopIds = c.loopIds)
    (hid : t'.id = t.id) (hw' : t'.working = false) (k : BitVec 64) :
    c'.Pending k ↔ c.Pending k ∧ k ≠ t.id := by
  have hti : c.calls[i]? = some (t.id, true) := by simp [calls, ht, hw]
  have hset : c'.calls = c.calls.set i (t.id, false) := by
    rw [calls, hth, map_set, hid, hw']
    rfl
  have hnd := (nodup_append.1 h.distinct).2.1
  have hloop : t.id ∉ c.loopIds := fun hm =>
    h.not_thread hm true (mem_of_getElem? hti)
  rw [Pending, Pending, hl, hset]
  constructor
  · rintro (hk | hk)
    · exact ⟨.inl hk, fun he => hloop (he ▸ hk)⟩
    · obtain ⟨j, hj⟩ := mem_iff_getElem?.1 hk
      rcases set_cases hti hj with ⟨-, he⟩ | ⟨hij, hj⟩
      · simp at he
      · refine ⟨.inr (mem_of_getElem? hj), ?_⟩
        rintro rfl
        -- two threads with one id
        have hi' : (c.calls.map Prod.fst)[i]? = some t.id := by simp [hti]
        have hj' : (c.calls.map Prod.fst)[j]? = some t.id := by simp [hj]
        have hlt : i < (c.calls.map Prod.fst).length := lt_of_some hi'
        exact hij ((getElem?_inj hlt hnd).1 (hi'.trans hj'.symm))
  · rintro ⟨hk | hk, hne⟩
    · exact .inl hk
    · obtain ⟨j, hj⟩ := mem_iff_getElem?.1 hk
      refine .inr (mem_of_getElem? (i := j) ?_)
      rw [getElem?_set_ne, hj]
      rintro rfl
      rw [hti] at hj
      simp at hj
      exact hne hj.symm

end

/-! ## Steps of the ledger -/

/-- The socket takes the frame, the thread is created. -/
def Label.Accepted : Label → Prop
  | .loop ok => ok = true
  | .thread _ ok => ok = true
  | _ => True

/-- A result that is to be sent back fits into one frame. -/
def ReplyFits (c : Conn) (l : Label) : Prop :=
  ∀ i ok t result, l = .thread i ok → c.threads[i]? = some t → t.pc = .reply 0 result →
    t.entry.kind.hasOutput = false → (Outgoing.response t.id (some result)).Frameable

section
variable {entries : List Entry} {c c' : Conn} {l : Label} {i : Nat} {t t' : Thread}
  {msg : WireMessage}

theorem replyOf_spec (t : Thread) (rc : Int) (result : Value)
    (hfit : rc = 0 → t.entry.kind.hasOutput = false →
      (Outgoing.response t.id (some result)).Frameable) :
    (replyOf t rc result).id = t.id ∧ (replyOf t rc result).terminal = true ∧
      (replyOf t rc result).Frameable := by
  unfold replyOf
  split
  · exact ⟨rfl, rfl, error_frameable (by decide)⟩
  · rename_i hrc
    have hrc : rc = 0 := by simpa using hrc
    split
    · exact ⟨rfl, rfl, streamEnd_frameable _⟩
    · rename_i hk
      exact ⟨rfl, rfl, hfit hrc (by simpa using hk)⟩

theorem ledger_congr (hl : c'.loopIds = c.loopIds) (hc : c'.calls = c.calls)
    (hf : requestIds c'.frames = requestIds c.frames) (ho : c'.out = c.out) :
    c'.ledger = c.ledger := by
  simp only [ledger, Pending, hl, hc, hf, ho]

theorem requestIds_other (h : typeIs msg "request" = false) (frames : List WireMessage) :
    requestIds (frames ++ [msg]) = requestIds frames := by
  rw [requestIds_concat, if_neg (by simp [h]), append_nil]

theorem stream_not_request (h : isStreamFrame msg = true) :
    typeIs msg "request" = false := by
  cases hr : typeIs msg "request" with
  | false => rfl
  | true =>
    rw [request_not_stream hr] at h
    cases h

theorem OneCall.request (h : OneCall c) (hl : c.loop = .reading)
    (hr : typeIs msg "request" = true) (hnd : (requestIds (c.frames ++ [msg])).Nodup) :
    OneCall { c with frames := c.frames ++ [msg], loop := .request msg } ∧
      Ledger.Step Outgoing.id Outgoing.terminal c.ledger
        (ledger { c with frames := c.frames ++ [msg], loop := .request msg }) := by
  have hreq := requestIds_concat c.frames msg
  rw [if_pos hr] at hreq
  rw [hreq, nodup_append] at hnd
  have hnew : msg.id ∉ requestIds c.frames := fun hm =>
    hnd.2.2 msg.id hm msg.id (mem_singleton_self _) rfl
  have hids : c.loopIds = [] := by rw [loopIds, hl]
  have hdist := h.distinct
  have hknown := h.known
  rw [hids, nil_append] at hdist hknown
  refine ⟨⟨?_, ?_⟩, ?_⟩
  · exact nodup_cons.2 ⟨fun hm => hnew (hknown _ hm), hdist⟩
  · intro k hk
    change k ∈ requestIds (c.frames ++ [msg])
    rw [hreq]
    rcases mem_cons.1 hk with rfl | hk
    · exact mem_append_right _ (mem_singleton_self _)
    · exact mem_append_left _ (hknown k hk)
  · have hled : ledger { c with frames := c.frames ++ [msg], loop := .request msg } =
        ⟨insert msg.id {k | k ∈ requestIds c.frames}, insert msg.id {k | c.Pending k}, c.out⟩ := by
      simp only [ledger, Pending, hids, hreq, Ledger.mk.injEq, and_true]
      refine ⟨Set.ext fun k => ?_, Set.ext fun k => ?_⟩
      · simp [or_comm]
      · simp [loopIds, calls]
    rw [hled]
    exact .ask msg.id hnew

theorem OneCall.refuse {errorType text : CString} (h : OneCall c) (hl : c.loop = .request msg)
    (ht : text.bytes.length ≤ 100 ∧ errorType.bytes.length ≤ 100) :
    OneCall { c.writeError msg.id errorType text true with loop := .reading } ∧
      Ledger.Step Outgoing.id Outgoing.terminal c.ledger
        (ledger { c.writeError msg.id errorType text true with loop := .reading }) := by
  have hids : c.loopIds = [msg.id] := by rw [loopIds, hl]
  have hmem : msg.id ∈ c.loopIds := by simp [hids]
  have hnot := h.not_thread hmem true
  rw [writeError, write_frameable c (error_frameable ht)]
  have hdist := h.distinct
  have hknown := h.known
  rw [hids] at hdist hknown
  refine ⟨⟨(nodup_cons.1 hdist).2, fun k hk => hknown k (mem_cons_of_mem _ hk)⟩, ?_⟩
  have hled : ledger { c with
      out := c.out ++ [.error msg.id (some errorType) (some text)], loop := .reading } =
      ⟨{k | k ∈ requestIds c.frames}, {k | c.Pending k} \ {msg.id},
        c.out ++ [.error msg.id (some errorType) (some text)]⟩ := by
    simp only [ledger, Ledger.mk.injEq, true_and, and_true]
    refine Set.ext fun k => ?_
    simp only [Pending, hids, Set.mem_ofPred_eq, Set.mem_sdiff, Set.mem_singleton_iff,
      mem_singleton]
    constructor
    · rintro (hk | hk)
      · cases hk
      · refine ⟨.inr hk, ?_⟩
        rintro rfl
        exact hnot hk
    · rintro ⟨hk | hk, hne⟩
      · exact absurd hk hne
      · exact .inr hk
  rw [hled]
  exact .finish (Outgoing.error msg.id (some errorType) (some text)) (.inl hmem) rfl

theorem OneCall.spawn {e : Entry} {id : BitVec 64} {args : List Value} (h : OneCall c)
    (hl : c.loop = .spawn e id args) :
    OneCall { c with threads := c.threads ++ [newThread e id args], loop := .reading } ∧
      ledger { c with threads := c.threads ++ [newThread e id args], loop := .reading } =
        c.ledger := by
  have hids : c.loopIds = [id] := by rw [loopIds, hl]
  have hw : (newThread e id args).working = true := by
    unfold newThread
    split <;> rfl
  have hcalls : calls { c with threads := c.threads ++ [newThread e id args], loop := .reading } =
      c.calls ++ [(id, true)] := by
    simp only [calls, map_append, map_cons, map_nil, newThread_id, hw]
  have hperm : (c.loopIds ++ c.calls.map Prod.fst).Perm
    ((c.calls ++ [(id, true)]).map Prod.fst) := by
    rw [hids, map_append]
    exact perm_append_comm
  refine ⟨⟨?_, ?_⟩, ?_⟩
  · change ([] ++ (calls _).map Prod.fst).Nodup
    rw [hcalls]
    exact hperm.nodup_iff.1 h.distinct
  · change ∀ k ∈ [] ++ (calls _).map Prod.fst, _
    rw [hcalls]
    exact fun k hk => h.known k (hperm.mem_iff.2 hk)
  · simp only [ledger, Pending, hcalls, Ledger.mk.injEq, true_and, and_true]
    refine Set.ext fun k => ?_
    simp [loopIds, hl, or_comm]

/-- **Every step is a move of the ledger or leaves it alone**, and keeps the ids apart. -/
theorem ledger_step (h : OneCall c) (hok : l.Accepted) (hfit : ReplyFits c l)
    (hs : step entries c l = some c') (hnd : (requestIds c'.frames).Nodup) :
    OneCall c' ∧ (c'.ledger = c.ledger ∨
      Ledger.Step Outgoing.id Outgoing.terminal c.ledger c'.ledger) := by
  -- steps that change neither the calls nor the frames written
  have same : ∀ d : Conn, d.loopIds = c.loopIds → d.calls = c.calls →
      requestIds d.frames = requestIds c.frames → d.out = c.out →
      OneCall d ∧ (d.ledger = c.ledger ∨
        Ledger.Step Outgoing.id Outgoing.terminal c.ledger d.ledger) := by
    intro d hl hc hf ho
    refine ⟨⟨?_, ?_⟩, .inl (ledger_congr hl hc hf ho)⟩
    · rw [hl, hc]
      exact h.distinct
    · rw [hl, hc, hf]
      exact h.known
  cases step_move hs with
  | malformed | reuse => exact same _ rfl rfl rfl rfl
  | route hl hd hsf =>
    exact same _ (by simp [loopIds, hl]) rfl (requestIds_other (stream_not_request hsf) _) rfl
  | discard hl hd hsf =>
    refine same _ (by simp [loopIds]) rfl (requestIds_other ?_ _) rfl
    rcases hsf with ⟨hsf, -⟩ | ⟨-, hr⟩
    · exact stream_not_request hsf
    · exact hr
  | request hl hd hsf hr =>
    obtain ⟨h₁, h₂⟩ := h.request hl hr hnd
    exact ⟨h₁, .inr h₂⟩
  | drain hl =>
    obtain ⟨-, -, hth, hfr, hout⟩ := drainInputs_eq c
    exact same _ (by simp [loopIds, drainInputs, hl]) (by rw [calls, hth, calls])
      (by rw [hfr]) hout
  | push hl => exact same _ (by simp [loopIds, hl]) rfl rfl rfl
  | refuse hl ht =>
    obtain rfl := hok
    obtain ⟨h₁, h₂⟩ := h.refuse hl ht
    exact ⟨h₁, .inr h₂⟩
  | register hl | accept hl => exact same _ (by simp [loopIds, hl]) rfl rfl rfl
  | spawn hl =>
    obtain ⟨h₁, h₂⟩ := h.spawn hl
    exact ⟨h₁, .inl h₂⟩
  | noThread => cases hok
  | find ht hpc | ret ht hpc =>
    exact same _ rfl (calls_set ht rfl rfl (by simp [Thread.working, hpc])) rfl rfl
  | @emit i t ok input chunk ht hpc =>
    obtain rfl := hok
    have hw : t.working = true := by simp [Thread.working, hpc]
    rcases c.write_cases (.streamChunk t.id chunk) true with ⟨hwr, -⟩ | ⟨hwr, -⟩ <;> rw [hwr]
    · have hcalls : calls (setThread { c with out := c.out ++ [.streamChunk t.id chunk] } i
          { t with events := t.events ++ [.emitted 0] }) = c.calls := calls_set ht rfl rfl rfl
      refine ⟨h.congr rfl (calls_ids_set ht rfl rfl) rfl, .inr ?_⟩
      have hled : ledger (setThread { c with out := c.out ++ [.streamChunk t.id chunk] } i
          { t with events := t.events ++ [.emitted 0] }) =
          ⟨{k | k ∈ requestIds c.frames}, {k | c.Pending k},
            c.out ++ [.streamChunk t.id chunk]⟩ := by
        simp only [ledger, setThread_out, setThread_frames, Pending, Ledger.mk.injEq,
          true_and, and_true]
        rw [hcalls]
        rfl
      rw [hled]
      refine .say (Outgoing.streamChunk t.id chunk) (.inr ?_) rfl
      exact mem_map.2 ⟨t, mem_of_getElem? ht, by rw [hw]; rfl⟩
    · exact same _ rfl (calls_set ht rfl rfl rfl) rfl rfl
  | recv ht => exact same _ rfl (calls_set ht rfl rfl rfl) rfl rfl
  | @reply i t ok rc result ht hpc =>
    obtain rfl := hok
    have hw : t.working = true := by simp [Thread.working, hpc]
    obtain ⟨hid, hterm, hfr⟩ := replyOf_spec t rc result fun h0 hk =>
      hfit i true t result rfl ht (h0 ▸ hpc) hk
    rw [write_frameable c hfr]
    refine ⟨h.congr rfl (calls_ids_set ht rfl rfl) rfl, .inr ?_⟩
    have hw' : Thread.working
        { t with pc := if t.entry.kind.hasInput = true then .remove else .done } = false := by
      simp only [Thread.working]
      cases t.entry.kind.hasInput <;> rfl
    have hpend : ∀ k, Pending (setThread
        { c with out := c.out ++ [replyOf t rc result] } i
        { t with pc := if t.entry.kind.hasInput = true then .remove else .done }) k ↔
          c.Pending k ∧ k ≠ t.id := h.pending_finish ht hw rfl rfl rfl hw'
    have hled : ledger (setThread { c with out := c.out ++ [replyOf t rc result] } i
        { t with pc := if t.entry.kind.hasInput = true then .remove else .done }) =
        ⟨{k | k ∈ requestIds c.frames}, {k | c.Pending k} \ {(replyOf t rc result).id},
          c.out ++ [replyOf t rc result]⟩ := by
      simp only [ledger, setThread_out, setThread_frames, Ledger.mk.injEq,
        true_and, and_true, hid]
      exact Set.ext hpend
    rw [hled]
    refine .finish _ (.inr ?_) hterm
    exact mem_map.2 ⟨t, mem_of_getElem? ht, by rw [hw, hid]⟩
  | remove ht hpc | removeNone ht hpc | free ht hpc =>
    exact same _ rfl (calls_set ht rfl rfl (by simp [Thread.working, hpc])) rfl rfl

end

end Callwire.C
