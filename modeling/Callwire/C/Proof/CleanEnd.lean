import Callwire.C.Proof.Lifetime

/-!
# The clean end of a streaming input

`recv` answers 1, the clean end, when it takes an end marker from the queue. The read loop pushes a
marker for each `stream_close` or `stream_end` frame, to the input with the id of the frame:
`Marked` follows it from the frame through the read loop and the queue to the thread. At the end of
the connection the same marker is pushed to every input that is still registered, and a handler
cannot tell the two apart (`truncated_is_clean`), unless all of these had their frame (`CleanEof`).
-/

namespace Callwire.C

open Lib List Conn

/-- A `stream_close` or `stream_end` with this id is among the frames. -/
def Closing (frames : List WireMessage) (id : BitVec 64) : Prop :=
  ∃ msg ∈ frames, isEnd id msg = true

/-- When the connection ends, every input that is still registered has had its terminator. -/
def CleanEof (c : Conn) (l : Label) : Prop :=
  l = .eof → ∀ r ∈ c.inputs, ∀ id, c.ids[r]? = some id → Closing c.frames id

/-- Every end marker, in a queue, on its way there or received, is from a terminator frame. -/
structure Marked (c : Conn) : Prop where
  kept : Kept c
  queued : ∀ r ∈ c.inputs, ∀ id, c.ids[r]? = some id → .fin ∈ c.queueOf r ++ c.pendingTo r →
    Closing c.frames id
  received : ∀ t ∈ c.threads, .received .fin ∈ t.events → Closing c.frames t.id

section
variable {entries : List Entry} {c c' : Conn} {l : Label} {t t' : Thread} {id : BitVec 64}
  {i r : Nat} {item : Item}

theorem Closing.mono {frames frames' : List WireMessage} (h : Closing frames id)
    (hp : frames <+: frames') : Closing frames' id := by
  obtain ⟨msg, hm, he⟩ := h
  exact ⟨msg, hp.subset hm, he⟩

theorem Marked.init : Marked .init where
  kept := .init
  queued _ h := nomatch h
  received _ h := nomatch h

theorem itemOf_fin {msg : WireMessage} (hs : isStreamFrame msg = true)
    (hi : itemOf msg = .fin) : isEnd msg.id msg = true := by
  cases hc : typeIs msg "stream_chunk" with
  | true =>
    rw [itemOf, if_pos hc] at hi
    cases hi
  | false => simpa [isEnd, isStreamFrame, hc] using hs

/-- The markers stay where they are, or come with their frame. -/
theorem Marked.congr (h : Marked c) (hk : Kept c') (hf : c.frames <+: c'.frames)
    (hq : ∀ r ∈ c'.inputs, ∀ id, c'.ids[r]? = some id → .fin ∈ c'.queueOf r ++ c'.pendingTo r →
      (r ∈ c.inputs ∧ c.ids[r]? = some id ∧ .fin ∈ c.queueOf r ++ c.pendingTo r) ∨
        Closing c'.frames id)
    (ht : ∀ t ∈ c'.threads, .received .fin ∈ t.events →
      (∃ t₀ ∈ c.threads, t₀.id = t.id ∧ .received .fin ∈ t₀.events) ∨ Closing c'.frames t.id) :
    Marked c' where
  kept := hk
  queued r hr id hid hm := by
    rcases hq r hr id hid hm with ⟨hr, hid, hm⟩ | hc
    · exact (h.queued r hr id hid hm).mono hf
    · exact hc
  received t htm he := by
    rcases ht t htm he with ⟨t₀, ht₀, hid, he⟩ | hc
    · exact hid ▸ (h.received t₀ ht₀ he).mono hf
    · exact hc

theorem Marked.loop (h : Marked c) (hk : Kept c') (hf : c.frames <+: c'.frames)
    (hth : c'.threads = c.threads)
    (hq : ∀ r ∈ c'.inputs, ∀ id, c'.ids[r]? = some id → .fin ∈ c'.queueOf r ++ c'.pendingTo r →
      (r ∈ c.inputs ∧ c.ids[r]? = some id ∧ .fin ∈ c.queueOf r ++ c.pendingTo r) ∨
        Closing c'.frames id) : Marked c' :=
  h.congr hk hf hq fun t ht he => .inl ⟨t, hth ▸ ht, rfl, he⟩

/-- A thread that takes nothing from a queue. -/
theorem Marked.thread (h : Marked c) (hk : Kept c') (hin : ∀ r ∈ c'.inputs, r ∈ c.inputs)
    (hids : c'.ids = c.ids) (hq : ∀ r, c'.queueOf r = c.queueOf r) (hl : c'.loop = c.loop)
    (hf : c'.frames = c.frames) (ht : c.threads[i]? = some t)
    (hth : c'.threads = c.threads.set i t') (hid : t'.id = t.id)
    (he : .received .fin ∈ t'.events → .received .fin ∈ t.events) : Marked c' := by
  refine h.congr hk (hf ▸ prefix_rfl) (fun r hr id hrid hm => .inl ⟨hin r hr, hids ▸ hrid, ?_⟩)
    fun u hu hm => .inl ?_
  · rwa [hq, pendingTo, hl] at hm
  · rw [hth] at hu
    rcases mem_set_cases ht hu with rfl | hu
    · exact ⟨t, mem_of_getElem? ht, hid.symm, he hm⟩
    · exact ⟨u, hu, rfl, hm⟩

/-- The marker goes from the queue to the thread of the same id. -/
theorem Marked.recv {inp : Input} {queue : Queue Item} (h : Marked c)
    (hk : Kept (setThread { c with heap := c.heap.set r { inp with queue } } i
      { t with events := t.events ++ [.received item] }))
    (ht : c.threads[i]? = some t) (hpc : t.pc = .running (some r))
    (hkind : t.entry.kind.hasInput = true) (hr : c.heap[r]? = some inp)
    (hq : inp.queue.items = item :: queue.items) :
    Marked (setThread { c with heap := c.heap.set r { inp with queue } } i
      { t with events := t.events ++ [.received item] }) := by
  obtain ⟨r₀, hr₀, hid, hrun⟩ := h.kept.owned.owner i t ht
    (Thread.owns_iff.2 ⟨hkind, by simp [hpc], by simp [hpc]⟩)
  obtain rfl : r = r₀ := Option.some.inj (hrun _ hpc)
  have hqr : c.queueOf r = item :: queue.items := by
    simp [queueOf, hr, hq]
  have hids : ids { c with heap := c.heap.set r { inp with queue } } = c.ids :=
    map_set_of_eq _ hr rfl
  refine h.congr hk prefix_rfl (fun r' hr' id' hid' hm => .inl ?_) fun u hu he => ?_
  · refine ⟨hr', (congrArg (·[r']?) hids).symm.trans hid', ?_⟩
    have hold : queueOf { c with heap := c.heap.set r { inp with queue } } r' =
        if r' = r then queue.items else c.queueOf r' := queueOf_set hr
    rcases mem_append.1 hm with hm | hm
    · refine mem_append_left _ ?_
      change .fin ∈ queueOf { c with heap := c.heap.set r { inp with queue } } r' at hm
      rw [hold] at hm
      split at hm
      · rename_i he
        rw [he, hqr]
        exact mem_cons_of_mem _ hm
      · exact hm
    · exact mem_append_right _ hm
  · rcases mem_set_cases ht hu with rfl | hu
    · rcases mem_concat_cases he with he | he
      · exact .inl ⟨t, mem_of_getElem? ht, rfl, he⟩
      · cases he
        refine .inr (h.queued r hr₀ t.id hid (mem_append_left _ ?_))
        rw [hqr]
        exact mem_cons_self
    · exact .inl ⟨u, hu, rfl, he⟩

theorem Marked.register {e : Entry} {args : List Value} (h : Marked c)
    (hk : Kept { c.connRegisterInput id with loop := .spawn e id args }) :
    Marked { c.connRegisterInput id with loop := .spawn e id args } := by
  refine h.loop hk prefix_rfl rfl fun r hr id' hid hm => ?_
  have hids : ids { c.connRegisterInput id with loop := .spawn e id args } = c.ids ++ [id] := by
    simp [ids, connRegisterInput]
  rw [queueOf_register, show pendingTo { c.connRegisterInput id with loop := .spawn e id args } r =
    [] from rfl, append_nil] at hm
  rcases mem_concat_cases hr with hr | rfl
  · have hb := h.kept.owned.bound r hr
    rw [hids, getElem?_append_left hb] at hid
    rw [ids, length_map] at hb
    rw [if_neg hb.ne] at hm
    exact .inl ⟨hr, hid, mem_append_left _ hm⟩
  · rw [if_pos rfl] at hm
    cases hm

theorem Marked.step (h : Marked c) (hfresh : Fresh entries c l) (hu : Unhurried c l)
    (he : CleanEof c l) (hs : Callwire.C.step entries c l = some c') : Marked c' := by
  have hk := h.kept.step hfresh hu hs
  have hlen : ∀ r ∈ c.inputs, r < c.heap.length := by
    intro r hr
    have hb := h.kept.owned.bound r hr
    rwa [ids, length_map] at hb
  cases step_move hs with
  | malformed => exact h
  | @route p msg r _ _ hstream hf =>
    refine h.loop hk (prefix_append _ _) rfl fun r' hr' id hid hm => ?_
    rcases mem_append.1 hm with hm | hnew
    · exact .inl ⟨hr', hid, mem_append_left _ hm⟩
    · simp only [pendingTo] at hnew
      split at hnew
      · rename_i hrr
        obtain rfl := hrr
        obtain rfl : msg.id = id := Option.mem_unique (connFindInput_some hf).2 hid
        have hitem := (mem_singleton.1 hnew).symm
        exact .inr ⟨msg, mem_append_right _ mem_cons_self, itemOf_fin hstream hitem⟩
      · cases hnew
  | discard => exact h.loop hk (prefix_append _ _) rfl fun r hr id hid hm => .inl ⟨hr, hid, hm⟩
  | request =>
    refine h.loop hk (prefix_append _ _) rfl fun r hr id hid hm => .inl ⟨hr, hid, ?_⟩
    exact mem_append_left _ (by simpa [queueOf, pendingTo] using hm)
  | drain =>
    obtain ⟨hin, hids, hth, hfr, -⟩ := drainInputs_eq c
    refine h.loop hk (hfr.symm ▸ prefix_rfl) hth fun r hr id hid _ => .inr ?_
    rw [hfr]
    exact he rfl r (hin ▸ hr) id (hids ▸ hid)
  | @push r item ok hl =>
    refine h.loop hk prefix_rfl rfl fun r' hr' id hid hm => .inl ⟨hr', ?_, ?_⟩
    · exact (congrArg (·[r']?) (streamInputPush_ids item)).symm.trans hid
    · have hq : queueOf { c.streamInputPush r item with loop := .reading } r' =
          c.queueOf r' ++ if r = r' then [item] else [] := queueOf_push (hlen r' hr')
      rw [hq] at hm
      simpa [pendingTo, hl] using hm
  | @refuse msg ok errorType text =>
    refine h.loop hk ((write_frames _ _ _).symm ▸ prefix_rfl) (write_threads _ _ _)
      fun r hr id hid hm => .inl ⟨(write_inputs _ _ _) ▸ hr, (write_ids _ _) ▸ hid, ?_⟩
    have hq : queueOf { c.writeError msg.id errorType text ok with loop := .reading } r =
        c.queueOf r := queueOf_congr (congrArg (List.map _) (write_heap _ _ _))
    rw [hq] at hm
    exact mem_append_left _ (by simpa [pendingTo] using hm)
  | register => exact h.register hk
  | accept | noThread =>
    refine h.loop hk prefix_rfl rfl fun r hr id hid hm => .inl ⟨hr, hid, ?_⟩
    exact mem_append_left _ (by simpa [queueOf, pendingTo] using hm)
  | spawn =>
    refine h.congr hk prefix_rfl (fun r hr id hid hm => .inl ⟨hr, hid, ?_⟩) fun t ht hfin => .inl ?_
    · exact mem_append_left _ (by simpa [queueOf, pendingTo] using hm)
    · rcases mem_concat_cases ht with ht | rfl
      · exact ⟨t, ht, rfl, hfin⟩
      · unfold newThread at hfin
        split at hfin <;> cases hfin
  | find ht | ret ht | removeNone ht =>
    exact h.thread hk (fun _ hr => hr) rfl (fun _ => rfl) rfl rfl ht rfl rfl fun hm => hm
  | emit ht =>
    refine h.thread hk (fun _ hr => (write_inputs _ _ _) ▸ hr) (write_ids _ _)
      (fun _ => queueOf_congr (congrArg (List.map _) (write_heap _ _ _))) (write_loop _ _ _)
      (write_frames _ _ _) ht (write_setThread _ _ _ _ _) rfl fun hm => ?_
    simpa using hm
  | recv ht hpc ha hr hq => exact h.recv hk ht hpc (hasInput_of_recv ha) hr (Queue.items_of_pop? hq)
  | reply ht =>
    exact h.thread hk (fun _ hr => (write_inputs _ _ _) ▸ hr) (write_ids _ _)
      (fun _ => queueOf_congr (congrArg (List.map _) (write_heap _ _ _))) (write_loop _ _ _)
      (write_frames _ _ _) ht (write_setThread _ _ _ _ _) rfl fun hm => hm
  | remove ht hpc hj =>
    refine h.thread hk (fun r hr => ?_) rfl (fun _ => rfl) rfl rfl ht rfl rfl fun hm => hm
    exact ((mem_swapRemove h.kept.owned.inputs_nodup hj r).1 hr).1
  | free ht =>
    refine h.thread hk (fun _ hr => hr) streamInputFree_ids (fun _ => queueOf_congr ?_) rfl rfl
      ht rfl rfl fun hm => hm
    exact map_modify_of_eq _ _ _ _ fun _ => rfl
  | @reuse r id queue inp hr hf =>
    refine h.loop hk prefix_rfl rfl fun r' hr' id' hid hm => .inl ⟨hr', ?_, ?_⟩
    all_goals
      have hheap : (c.heap.set r ⟨id, queue, true⟩)[r']? = c.heap[r']? :=
        getElem?_set_ne (h.kept.owned.ne_of_freed hr hf hr')
    · rwa [ids, getElem?_map, hheap, ← getElem?_map, ← ids] at hid
    · rwa [queueOf, getElem?_map, hheap, ← getElem?_map, ← queueOf] at hm

end

end Callwire.C
