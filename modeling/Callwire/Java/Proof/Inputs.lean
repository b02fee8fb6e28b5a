import Callwire.Java.Proof.QueueIterator
import Callwire.Lib.AssocUpdate
import Callwire.Lib.Segment

/-!
# The input streams of the Java server

`ServerConn.sentTo c w` are the values of the chunks that were received for a worker, up to the
terminator. If no chunk is `null` and no queue is full, every worker's iterator is one over these
(`inputs_delivered`): the queue was given the values that were sent and then the end (`Fed`). The
invariant is kept by every kind of move (`Moved`). A `null` chunk makes `offer` throw in the
connection thread, which closes the connection (`null_chunk_closes`).
-/

namespace Callwire.Java

open Lib List Option Msg Along Worker

variable {V : Type}

/-! ## The connection -/

namespace ConnPc

def Running : ConnPc V → Prop
  | .leaving .. | .closing _ | .closed _ => False
  | _ => True

end ConnPc

namespace ServerConn

/-- The stream frames that were received for a worker. -/
def fed (c : ServerConn V) (w : Worker V) : List (Msg V) :=
  (c.received.drop w.since).filter fun m => m.id = w.id ∧ (m.isChunk ∨ m.isTerminator)

/-- The values of the chunks, up to the terminator. -/
def sentTo (c : ServerConn V) (w : Worker V) : List (Option V) :=
  ((c.fed w).takeWhile (!isTerminator ·)).map result

def Terminated (c : ServerConn V) (w : Worker V) : Prop := ∃ m ∈ c.fed w, m.isTerminator

/-- A chunk for a worker is not `null` and finds room, and no request has the id of a stream that
goes on. -/
def Ordinary (c : ServerConn V) : ServerLabel V → Prop
  | .read (.msg m) =>
    if m.isChunk ∨ m.isTerminator then
      ∀ k w, c.streamInputs.lookup m.id = some k → c.workers[k]? = some w →
        ¬ w.queue.Full ∧ (m.isChunk → m.result ≠ none)
    else c.streamInputs.lookup m.id = none
  | _ => True

/-- What a move does to the queues. -/
inductive Moved (c c' : ServerConn V) : Prop
  | quiet (hr : c'.received = c.received) (hw : c'.workers = c.workers)
      (hs : c'.streamInputs = c.streamInputs) (ht : c'.thread.Running → c.thread.Running)
  | ignored (m : Msg V) (ht : c.thread.Running) (hr : c'.received = c.received ++ [m])
      (hw : c'.workers = c.workers) (hs : c'.streamInputs = c.streamInputs)
      (hm : m.isChunk ∨ m.isTerminator → c.streamInputs.lookup m.id = none)
  | chunk (m : Msg V) (k : Nat) (w : Worker V) (v : V) (ht : c.thread.Running)
      (hk : c.streamInputs.lookup m.id = some k) (hget : c.workers[k]? = some w)
      (hroom : ¬ w.queue.Full) (hm : m.isChunk) (hv : m.result = some v)
      (hr : c'.received = c.received ++ [m])
      (hw : c'.workers = c.workers.set k (w.offer (.value v)))
      (hs : c'.streamInputs = c.streamInputs)
  | final (m : Msg V) (k : Nat) (w : Worker V) (ht : c.thread.Running)
      (hk : c.streamInputs.lookup m.id = some k) (hget : c.workers[k]? = some w)
      (hroom : ¬ w.queue.Full) (hm : m.isTerminator) (hr : c'.received = c.received ++ [m])
      (hw : c'.workers = c.workers.set k (w.offer .streamInputEnd))
      (hs : c'.streamInputs = c.streamInputs.erase m.id)
  | start (m : Msg V) (bidi : Bool) (pc : WorkerPc) (ht : c.thread.Running)
      (hm : ¬ (m.isChunk ∨ m.isTerminator)) (hfree : c.streamInputs.lookup m.id = none)
      (hr : c'.received = c.received ++ [m])
      (hw : c'.workers = c.workers ++ [Worker.start m.id bidi (c.received.length + 1) pc])
      (hs : c'.streamInputs = c.streamInputs.insert m.id c.workers.length)
  | offered (k : Nat) (w : Worker V) (ht : ¬ c'.thread.Running) (hget : c.workers[k]? = some w)
      (hr : c'.received = c.received)
      (hw : c'.workers = c.workers.set k (w.offer .streamInputEnd))
      (hs : c'.streamInputs = c.streamInputs)
  | cleared (ht : ¬ c'.thread.Running) (hr : c'.received = c.received)
      (hw : c'.workers = c.workers) (hs : c'.streamInputs = ∅)
  | worked (k : Nat) (w w' : Worker V) (hget : c.workers[k]? = some w) (hk : Kept w w')
      (hh : ∀ vs n, w.Holds vs n → w'.Holds vs n) (hr : c'.received = c.received)
      (hw : c'.workers = c.workers.set k w') (hs : c'.streamInputs = c.streamInputs)
      (ht : c'.thread = c.thread)

section Write

variable {c c' : ServerConn V} {id : BitVec 64} {fail fail' : Option String}

/-- A write only adds to the wire. -/
structure Wrote (c c' : ServerConn V) : Prop where
  received : c'.received = c.received
  workers : c'.workers = c.workers
  streamInputs : c'.streamInputs = c.streamInputs
  thread : c'.thread = c.thread

theorem wrote_write {m : Msg V} (h : c.write fail m = .ok c') : Wrote c c' := by
  unfold write at h
  split at h
  · split at h
    · cases h
    · cases h
      exact ⟨rfl, rfl, rfl, rfl⟩
  · cases h

theorem wrote_tryWrite {m : Msg V} (h : c.tryWrite id fail fail' m = .ok c') : Wrote c c' := by
  unfold tryWrite at h
  split at h
  · cases h
    exact wrote_write ‹_›
  · exact wrote_write h

theorem wrote_writeOutcome {outcome : Except String (Option V)}
    (h : c.writeOutcome id fail fail' outcome = .ok c') : Wrote c c' := by
  cases outcome with
  | ok v => exact wrote_tryWrite h
  | error message => exact wrote_write h

theorem moved_leave (c : ServerConn V) (cause : String) : Moved c (c.leave cause) :=
  .quiet rfl rfl rfl False.elim

theorem Wrote.proceed {r : Except String (ServerConn V)} (h : ∀ c', r = .ok c' → Wrote c c')
    (pc : ConnPc V) (ht : c.thread.Running) : Moved c (c.proceed pc r) := by
  cases r with
  | ok c' =>
    have hw := h c' rfl
    exact .quiet hw.received hw.workers hw.streamInputs fun _ => ht
  | error message => exact moved_leave c _

theorem Wrote.wroteOr {r : Except String (ServerConn V)} (h : ∀ c', r = .ok c' → Wrote c c') :
    Wrote c (c.wroteOr r) := by
  cases r with
  | ok c' => exact h c' rfl
  | error message => exact ⟨rfl, rfl, rfl, rfl⟩

end Write

/-- Ids are registered for workers that have them. -/
def Registered (c : ServerConn V) : Prop :=
  ∀ id k, c.streamInputs.lookup id = some k → ∃ w, c.workers[k]? = some w ∧ w.id = id

section Moves

variable {registry : String → Option Entry} {c c' : ServerConn V}

theorem moved_handle {m : Msg V} (ht : c.thread.Running) (hreg : c.Registered)
    (hok : c.Ordinary (.read (.msg m))) : Moved c (c.handle registry m) := by
  unfold handle
  by_cases hm : m.isChunk ∨ m.isTerminator
  · simp only [Ordinary, if_pos hm] at hok
    simp only [if_pos hm, streamFrame]
    cases hk : c.streamInputs.lookup m.id with
    | none => exact .ignored m ht rfl rfl rfl fun _ => hk
    | some k =>
      obtain ⟨w, hget, -⟩ := hreg _ _ hk
      obtain ⟨hroom, hnull⟩ := hok k w hk hget
      simp only [hget]
      split
      · rename_i hchunk
        cases hv : m.result with
        | none => exact absurd hv (hnull hchunk)
        | some v => exact .chunk m k w v ht hk hget hroom hchunk hv rfl rfl rfl
      · rename_i hchunk
        exact .final m k w ht hk hget hroom (hm.resolve_left hchunk) rfl rfl rfl
  · simp only [Ordinary, if_neg hm] at hok
    simp only [if_neg hm]
    have hignored : ∀ thread, Moved c { c with received := c.received ++ [m], thread := thread } :=
      fun _ => .ignored m ht rfl rfl rfl fun h => absurd h hm
    have hstart : Moved c (startWorker { c with received := c.received ++ [m] } m) := by
      simp only [startWorker]
      split
      · exact .start m m.stream .running ht hm hok rfl
          (by simp only [length_append, length_singleton]) rfl
      · exact .start m m.stream .finished ht hm hok rfl
          (by simp only [leave, length_append, length_singleton]) rfl
    simp only [dispatch]
    repeat' split
    all_goals first
      | exact hignored _
      | exact hstart

theorem moved_threadStep {l : ServerLabel V} (hreg : c.Registered) (hok : c.Ordinary l)
    (h : c.threadStep registry l = some c') : Moved c c' := by
  unfold threadStep at h
  generalize hthread : c.thread = pc at h
  have hrun : pc.Running → c.thread.Running := fun hpc => hthread ▸ hpc
  split at h
  · split at h
    · cases h
      exact .quiet rfl rfl rfl fun _ => hrun trivial
    · cases h
      exact moved_leave c _
  · cases h
    exact moved_handle (hrun trivial) hreg hok
  · cases h
    exact moved_leave c _
  · cases h
    exact moved_leave c _
  · cases h
    exact Wrote.proceed (fun _ => wrote_write) _ (hrun trivial)
  · cases h
    exact Wrote.proceed (fun _ => wrote_writeOutcome) _ (hrun trivial)
  · split at h
    · rename_i hwrite
      cases h
      have hw := wrote_write hwrite
      exact .quiet hw.received hw.workers hw.streamInputs fun ht => hw.thread ▸ ht
    · cases h
      exact Wrote.proceed (fun _ => wrote_write) _ (hrun trivial)
  · cases h
    exact Wrote.proceed (fun _ => wrote_tryWrite) _ (hrun trivial)
  · cases h
    exact Wrote.proceed (fun _ => wrote_write) _ (hrun trivial)
  · split at h
    · rename_i hget
      cases h
      exact .offered _ _ False.elim hget rfl rfl rfl
    · cases h
  · cases h
    exact .cleared False.elim rfl rfl rfl
  · cases h
    exact .quiet rfl rfl rfl False.elim
  · cases h

theorem Moved.of_finish {k : Nat} {w : Worker V} {c₁ : ServerConn V} (hw : Wrote c c₁)
    (hget : c.workers[k]? = some w) (pc : WorkerPc) :
    Moved c (c₁.setWorker k { w with pc }) := by
  refine .worked k w { w with pc } hget ⟨rfl, rfl⟩
    (fun vs n hh => { hh with }) hw.received ?_
    hw.streamInputs hw.thread
  rw [setWorker, hw.workers]

theorem moved_workerStep {k : Nat} {w : Worker V} {l : WorkerLabel V}
    (hget : c.workers[k]? = some w) (h : c.workerStep k w l = some c') : Moved c c' := by
  simp only [workerStep] at h
  split at h
  · cases h
  · obtain ⟨w', hn, rfl⟩ := map_eq_some_iff.1 h
    exact .worked k w w' hget (kept_hasNext hn) (fun vs n hh => (hh.of_hasNext hn).1) rfl
      rfl rfl rfl
  · obtain ⟨w', hn, rfl⟩ := map_eq_some_iff.1 h
    exact .worked k w w' hget (kept_next hn) (fun vs n hh => (hh.of_next hn).1) rfl rfl
      rfl rfl
  · split at h
    · cases h
    · cases h
      exact .of_finish (.wroteOr fun _ => wrote_writeOutcome) hget _
  · split at h
    · cases h
      exact .of_finish ⟨rfl, rfl, rfl, rfl⟩ hget _
    · cases h
  · split at h
    · cases h
      exact .of_finish (.wroteOr fun _ => wrote_write) hget _
    · cases h
  · split at h
    · rename_i hwrite
      cases h
      have hw := wrote_write hwrite
      exact .quiet hw.received hw.workers hw.streamInputs fun ht => hw.thread ▸ ht
    · cases h
      exact .of_finish (.wroteOr fun _ => wrote_write) hget _
  · cases h
    exact .of_finish (.wroteOr fun _ => wrote_tryWrite) hget _
  · cases h
    exact .of_finish (.wroteOr fun _ => wrote_write) hget _
  · cases h

theorem moved_step {l : ServerLabel V} (hreg : c.Registered) (hok : c.Ordinary l)
    (h : c.step registry l = some c') : Moved c c' := by
  cases l with
  | worker k l =>
    obtain ⟨w, hget, h⟩ := bind_eq_some_iff.1 h
    exact moved_workerStep hget h
  | close | closePool =>
    cases h
    exact .quiet rfl rfl rfl id
  | _ => exact moved_threadStep hreg hok h

end Moves

/-! ## What was sent and what the queue holds -/

section Fed

variable {c c' : ServerConn V} {k : Nat} {w w' : Worker V} {m : Msg V}

theorem fed_kept (hr : c'.received = c.received) (hk : Kept w w') : c'.fed w' = c.fed w := by
  rw [fed, fed, hr, hk.since, hk.id]

theorem fed_concat (hr : c'.received = c.received ++ [m]) (hs : w.since ≤ c.received.length)
    (hk : Kept w w') :
    c'.fed w' = c.fed w ++ if m.id = w.id ∧ (m.isChunk ∨ m.isTerminator) then [m] else [] := by
  rw [fed, fed, hr, hk.since, hk.id, drop_append_of_le_length hs, filter_append,
    filter_singleton]
  simp only [Bool.cond_decide]

/-- Nothing was sent to the worker that counts. -/
structure Still (c c' : ServerConn V) (w w' : Worker V) : Prop where
  sent : c'.sentTo w' = c.sentTo w
  unfinished : Unfinished isTerminator (c'.fed w') ↔ Unfinished isTerminator (c.fed w)

theorem still_of_eq (h : c'.fed w' = c.fed w) : Still c c' w w' :=
  ⟨by rw [sentTo, sentTo, h], by rw [h]⟩

theorem still_concat (hr : c'.received = c.received ++ [m]) (hs : w.since ≤ c.received.length)
    (hlate : m.id = w.id → (m.isChunk ∨ m.isTerminator) →
      ¬ Unfinished isTerminator (c.fed w)) : Still c c' w w := by
  have hfed := fed_concat hr hs ⟨rfl, rfl⟩
  split at hfed
  · rename_i hm
    have hfin := hlate hm.1 hm.2
    refine ⟨?_, fun h => absurd ?_ hfin, fun h => absurd h hfin⟩
    · rw [sentTo, sentTo, hfed, takeWhile_concat_of_finished hfin]
    · rw [hfed] at h
      exact (unfinished_concat.1 h).1
  · rw [append_nil] at hfed
    exact still_of_eq hfed

/-- The queue of a worker holds what was sent to it, and it is registered until its terminator. -/
structure Fed (c : ServerConn V) (k : Nat) (w : Worker V) : Prop where
  since : w.since ≤ c.received.length
  listed : c.thread.Running →
    (c.streamInputs.lookup w.id = some k ↔ Unfinished isTerminator (c.fed w))
  holds : ∃ vs n, c.sentTo w = vs.map some ∧ w.Holds vs n ∧
    (c.thread.Running → Unfinished isTerminator (c.fed w) → n = 0) ∧
    (¬ Unfinished isTerminator (c.fed w) → 0 < n)

namespace Fed

section
variable (h : Fed c k w)
include h

theorem since_concat (hr : c'.received = c.received ++ [m]) : w.since ≤ c'.received.length := by
  rw [hr, length_append]
  exact Nat.le_add_right_of_le h.since

theorem carry (hstill : Still c c' w w') (hs : w'.since ≤ c'.received.length)
    (hh : ∀ vs n, w.Holds vs n → w'.Holds vs n) (ht : c'.thread.Running → c.thread.Running)
    (hl : c'.thread.Running → (c'.streamInputs.lookup w'.id = some k ↔
      c.streamInputs.lookup w.id = some k)) :
    Fed c' k w' := by
  obtain ⟨vs, n, hsent, hholds, hzero, hpos⟩ := h.holds
  refine ⟨hs, fun hr => ?_, vs, n, hstill.sent.trans hsent, hh vs n hholds, fun hr hu => ?_,
    fun hu => hpos fun hu' => hu (hstill.unfinished.2 hu')⟩
  · rw [hl hr, h.listed (ht hr), hstill.unfinished]
  · exact hzero (ht hr) (hstill.unfinished.1 hu)

theorem late (ht : c.thread.Running) (hk : c.streamInputs.lookup w.id ≠ some k) :
    ¬ Unfinished isTerminator (c.fed w) :=
  fun hu => hk ((h.listed ht).2 hu)

theorem offer_chunk {v : V} (ht : c.thread.Running) (hk : c.streamInputs.lookup m.id = some k)
    (hid : w.id = m.id) (hroom : ¬ w.queue.Full) (hm : m.isChunk) (hv : m.result = some v)
    (hr : c'.received = c.received ++ [m]) (hs : c'.streamInputs = c.streamInputs) :
    Fed c' k (w.offer (.value v)) := by
  have hkept := w.kept_offer (.value v)
  have hu := (h.listed ht).1 (hid ▸ hk)
  have hfed := fed_concat hr h.since hkept
  rw [if_pos ⟨hid.symm, .inl hm⟩] at hfed
  have hfinal : m.isTerminator = false := by
    have htype : m.type = some "stream_chunk" := of_decide_eq_true hm
    rw [isTerminator, htype]
    decide
  have hu' : Unfinished isTerminator (c'.fed (w.offer (.value v))) := by
    rw [hfed]
    exact unfinished_concat.2 ⟨hu, hfinal⟩
  obtain ⟨vs, n, hsent, hholds, hzero, -⟩ := h.holds
  rw [hzero ht hu] at hholds
  refine ⟨?_, fun _ => ?_, vs ++ [v], 0, ?_, hholds.offer_value hroom v, fun _ _ => rfl,
    fun hfin => absurd hu' hfin⟩
  · rw [hkept.since]
    exact h.since_concat hr
  · rw [hkept.id, hs, hid, hk]
    exact ⟨fun _ => hu', fun _ => rfl⟩
  · rw [sentTo, hfed, takeWhile_concat_of_unfinished hu hfinal, map_append, map_append,
      ← hsent, map_singleton, map_singleton, hv]
    rfl

theorem offer_final (hid : w.id = m.id) (hroom : ¬ w.queue.Full) (hm : m.isTerminator)
    (hr : c'.received = c.received ++ [m]) (hs : c'.streamInputs = c.streamInputs.erase m.id) :
    Fed c' k (w.offer .streamInputEnd) := by
  have hkept := w.kept_offer .streamInputEnd
  have hfed := fed_concat hr h.since hkept
  rw [if_pos ⟨hid.symm, .inr hm⟩] at hfed
  have hfin : ¬ Unfinished isTerminator (c'.fed (w.offer .streamInputEnd)) := by
    rw [hfed, unfinished_concat, hm]
    exact fun hu => nomatch hu.2
  obtain ⟨vs, n, hsent, hholds, -, -⟩ := h.holds
  refine ⟨?_, fun _ => ?_, vs, n + 1, ?_, ?_, fun _ hu => absurd hu hfin, fun _ => Nat.succ_pos n⟩
  · rw [hkept.since]
    exact h.since_concat hr
  · rw [hkept.id, hs, hid, AList.lookup_erase]
    exact ⟨nofun, fun hu => absurd hu hfin⟩
  · rw [← hsent, sentTo, hfed, takeWhile_concat_of_final hm]
    rfl
  · rw [offer_eq hroom]
    exact hholds.push_end

theorem offer_leaving (ht : ¬ c'.thread.Running) (hr : c'.received = c.received) :
    Fed c' k (w.offer .streamInputEnd) := by
  have hkept := w.kept_offer .streamInputEnd
  have hstill : Still c c' w (w.offer .streamInputEnd) := still_of_eq (fed_kept hr hkept)
  obtain ⟨vs, n, hsent, hholds, -, hpos⟩ := h.holds
  obtain ⟨n', hle, hholds'⟩ := hholds.offer_end
  refine ⟨?_, fun h' => absurd h' ht, vs, n', hstill.sent.trans hsent, hholds',
    fun h' => absurd h' ht, fun hu => ?_⟩
  · rw [hkept.since, hr]
    exact h.since
  · exact Nat.lt_of_lt_of_le (hpos fun hu' => hu (hstill.unfinished.2 hu')) hle

end

theorem start {bidi : Bool} {pc : WorkerPc} (hr : c'.received = c.received ++ [m])
    (hs : c'.streamInputs = c.streamInputs.insert m.id k) :
    Fed c' k (Worker.start m.id bidi (c.received.length + 1) pc) := by
  have hlen : c'.received.length = c.received.length + 1 := by
    rw [hr, length_append]
    rfl
  have hfed : c'.fed (Worker.start m.id bidi (c.received.length + 1) pc) = [] := by
    have hdrop := drop_of_length_le (Nat.le_of_eq hlen)
    rw [fed, Worker.start, hdrop]
    rfl
  have hu : Unfinished isTerminator
      (c'.fed (Worker.start m.id bidi (c.received.length + 1) pc)) := by
    rw [hfed]
    exact unfinished_nil
  refine ⟨Nat.le_of_eq hlen.symm, fun _ => ⟨fun _ => hu, fun _ => ?_⟩, [], 0, ?_,
    holds_start .., fun _ _ => rfl, fun hfin => absurd hu hfin⟩
  · rw [hs]
    exact AList.lookup_insert _
  · rw [sentTo, hfed]
    rfl

end Fed

end Fed

/-- The invariant of the input streams. -/
structure Inputs (c : ServerConn V) : Prop where
  registered : c.Registered
  fed : ∀ k w, c.workers[k]? = some w → Fed c k w

section Inputs

variable {registry : String → Option Entry} {c c' : ServerConn V} {w : Worker V}

theorem inputs_init : Inputs (init : ServerConn V) :=
  ⟨nofun, nofun⟩

theorem Registered.set {k : Nat} {w' : Worker V} (h : c.Registered)
    (hget : c.workers[k]? = some w) (hk : Kept w w') (hw : c'.workers = c.workers.set k w')
    (hs : ∀ id k, c'.streamInputs.lookup id = some k → c.streamInputs.lookup id = some k) :
    c'.Registered := by
  intro id j hj
  obtain ⟨w₁, hw₁, hid⟩ := h id j (hs id j hj)
  rw [hw]
  refine exists_set hget hw₁ ?_ hid
  rintro rfl
  exact hk.id.trans hid

theorem Registered.congr (h : c.Registered) (hw : c'.workers = c.workers)
    (hs : c'.streamInputs = c.streamInputs) : c'.Registered := by
  unfold Registered
  rw [hw, hs]
  exact h

theorem Inputs.other (hi : Inputs c) {k : Nat} {m : Msg V} (hget : c.workers[k]? = some w)
    (ht : c.thread.Running) (hr : c'.received = c.received ++ [m])
    (hne : (m.isChunk ∨ m.isTerminator) → c.streamInputs.lookup m.id ≠ some k)
    (hl : c'.streamInputs.lookup w.id = some k ↔ c.streamInputs.lookup w.id = some k) :
    Fed c' k w := by
  have hf := hi.fed k w hget
  refine hf.carry (still_concat hr hf.since fun hid hm => ?_) (hf.since_concat hr)
    (fun _ _ => id) (fun _ => ht) fun _ => hl
  exact hf.late ht (hid ▸ hne hm)

theorem Inputs.moved (hi : Inputs c) (h : Moved c c') : Inputs c' := by
  cases h with
  | quiet hr hw hs ht =>
    refine ⟨hi.registered.congr hw hs, fun k w hget => ?_⟩
    rw [hw] at hget
    have hf := hi.fed k w hget
    exact hf.carry (still_of_eq (fed_kept hr ⟨rfl, rfl⟩)) (hr ▸ hf.since) (fun _ _ => id) ht
      fun _ => by rw [hs]
  | ignored m ht hr hw hs hm =>
    refine ⟨hi.registered.congr hw hs, fun k w hget => ?_⟩
    rw [hw] at hget
    refine hi.other hget ht hr (fun hstream hk => ?_) (by rw [hs])
    rw [hm hstream] at hk
    cases hk
  | chunk m k w v ht hk hget hroom hm hv hr hw hs =>
    have hkept := w.kept_offer (.value v)
    refine ⟨hi.registered.set hget hkept hw fun _ _ => (hs ▸ ·), fun j w' hget' => ?_⟩
    rw [hw] at hget'
    rcases set_cases hget hget' with ⟨rfl, rfl⟩ | ⟨hne, hget'⟩
    · obtain ⟨w₁, hw₁, hid⟩ := hi.registered _ _ hk
      obtain rfl : w = w₁ := mem_unique hget hw₁
      exact (hi.fed k w hget).offer_chunk ht hk hid hroom hm hv hr hs
    · refine hi.other hget' ht hr (fun _ hj => hne ?_) (by rw [hs])
      exact mem_unique hk hj
  | final m k w ht hk hget hroom hm hr hw hs =>
    have hkept := w.kept_offer .streamInputEnd
    have herase : ∀ id k, c'.streamInputs.lookup id = some k →
        c.streamInputs.lookup id = some k := by
      intro id k hid
      rw [hs] at hid
      exact (lookup_of_erase hid).2
    refine ⟨hi.registered.set hget hkept hw herase, fun j w' hget' => ?_⟩
    rw [hw] at hget'
    rcases set_cases hget hget' with ⟨rfl, rfl⟩ | ⟨hne, hget'⟩
    · obtain ⟨w₁, hw₁, hid⟩ := hi.registered _ _ hk
      obtain rfl : w = w₁ := mem_unique hget hw₁
      exact (hi.fed k w hget).offer_final hid hroom hm hr hs
    · refine hi.other hget' ht hr (fun _ hj => hne ?_) ⟨herase _ _, fun hj => ?_⟩
      · exact mem_unique hk hj
      · rw [hs, AList.lookup_erase_ne]
        · exact hj
        · rintro hid
          rw [hid, hk] at hj
          exact hne (some.inj hj)
  | start m bidi pc ht hm hfree hr hw hs =>
    constructor
    · intro id k hk
      rw [hs] at hk
      rw [hw]
      by_cases hid : id = m.id
      · subst hid
        rw [AList.lookup_insert] at hk
        cases hk
        exact ⟨_, getElem?_concat_length, rfl⟩
      · rw [AList.lookup_insert_ne hid] at hk
        obtain ⟨w, hget, hw'⟩ := hi.registered id k hk
        exact ⟨w, concat_of_some hget, hw'⟩
    · intro k w hget
      rw [hw] at hget
      rcases concat_cases hget with hget | ⟨rfl, rfl⟩
      · refine hi.other hget ht hr (fun h => absurd h hm) ?_
        by_cases hid : w.id = m.id
        · rw [hs, hid, AList.lookup_insert, hfree]
          have hlt := lt_of_some hget
          exact ⟨fun h => absurd (some.inj h) (Nat.ne_of_gt hlt), nofun⟩
        · rw [hs, AList.lookup_insert_ne hid]
      · exact Fed.start hr hs
  | offered k w ht hget hr hw hs =>
    have hkept := w.kept_offer .streamInputEnd
    refine ⟨hi.registered.set hget hkept hw fun _ _ => (hs ▸ ·), fun j w' hget' => ?_⟩
    rw [hw] at hget'
    rcases set_cases hget hget' with ⟨rfl, rfl⟩ | ⟨hne, hget'⟩
    · exact (hi.fed k w hget).offer_leaving ht hr
    · have hf := hi.fed j w' hget'
      exact hf.carry (still_of_eq (fed_kept hr ⟨rfl, rfl⟩)) (hr ▸ hf.since) (fun _ _ => id)
        (fun h => absurd h ht) fun h => absurd h ht
  | cleared ht hr hw hs =>
    refine ⟨fun id k hk => ?_, fun k w hget => ?_⟩
    · rw [hs] at hk
      cases hk
    · rw [hw] at hget
      have hf := hi.fed k w hget
      exact hf.carry (still_of_eq (fed_kept hr ⟨rfl, rfl⟩)) (hr ▸ hf.since) (fun _ _ => id)
        (fun h => absurd h ht) fun h => absurd h ht
  | worked k w w' hget hk hh hr hw hs ht =>
    refine ⟨hi.registered.set hget hk hw fun _ _ => (hs ▸ ·), fun j w₁ hget' => ?_⟩
    rw [hw] at hget'
    rcases set_cases hget hget' with ⟨rfl, rfl⟩ | ⟨hne, hget'⟩
    · have hf := hi.fed k w hget
      refine hf.carry (still_of_eq (fed_kept hr hk)) ?_ hh (fun h => ht ▸ h) fun _ => by
        rw [hs, hk.id]
      rw [hk.since, hr]
      exact hf.since
    · have hf := hi.fed j w₁ hget'
      exact hf.carry (still_of_eq (fed_kept hr ⟨rfl, rfl⟩)) (hr ▸ hf.since) (fun _ _ => id)
        (fun h => ht ▸ h) fun _ => by rw [hs]

theorem run_inputs {ls : List (ServerLabel V)}
    (hok : Along (step registry) Ordinary init ls)
    (hrun : run (step registry) init ls = some c) : Inputs c :=
  run_invariant (fun _ _ _ hi hok h => hi.moved (moved_step hi.registered hok h)) inputs_init hok
    hrun

theorem Terminated.not_unfinished (h : c.Terminated w) :
    ¬ Unfinished isTerminator (c.fed w) := by
  obtain ⟨m, hm, hfinal⟩ := h
  intro hu
  rw [hu m hm] at hfinal
  cases hfinal

/-- Nothing more comes for the worker. -/
def Ended (c : ServerConn V) (w : Worker V) : Prop := c.Terminated w ∨ ¬ c.thread.Running

theorem ended_of_not_unfinished (h : c.thread.Running → ¬ Unfinished isTerminator (c.fed w)) :
    c.Ended w := by
  by_cases ht : c.thread.Running
  · refine .inl ?_
    by_contra hnone
    exact h ht fun m hm => Bool.eq_false_iff.2 fun hfinal => hnone ⟨m, hm, hfinal⟩
  · exact .inr ht

theorem step_iterator {k : Nat} {w' : Worker V} {l : WorkerLabel V}
    (hget : c.workers[k]? = some w) (hpc : w.pc ≠ .finished)
    (hl : l = .hasNext ∧ w.hasNext = some w' ∨ l = .next ∧ w.next = some w') :
    ∃ c', c.step registry (.worker k l) = some c' ∧ c'.workers[k]? = some w' := by
  refine ⟨c.setWorker k w', ?_, set_of_some hget⟩
  rw [step, hget, bind_some]
  unfold workerStep
  rcases hl with ⟨rfl, hw⟩ | ⟨rfl, hw⟩
  all_goals
    rw [hw]
    cases hp : w.pc with
    | finished => exact absurd hp hpc
    | _ => rfl

theorem eq_handle_of_read {m : Msg V} (h : c.step registry (.read (.msg m)) = some c') :
    c' = c.handle registry m := by
  simp only [step] at h
  unfold threadStep at h
  generalize c.thread = pc at h
  cases pc with
  | reading => exact (some.inj h).symm
  | leaving cause rest => cases rest <;> cases h
  | _ => cases h

theorem handle_frame {m : Msg V} (hreg : c.Registered) (hm : m.isChunk ∨ m.isTerminator)
    (hok : c.Ordinary (.read (.msg m))) :
    (c.handle registry m).thread = .top ∧ (c.handle registry m).isOpen = c.isOpen := by
  simp only [Ordinary, if_pos hm] at hok
  simp only [handle, if_pos hm, streamFrame]
  cases hk : c.streamInputs.lookup m.id with
  | none => exact ⟨rfl, rfl⟩
  | some k =>
    obtain ⟨w, hget, -⟩ := hreg _ _ hk
    simp only [hget]
    split
    · rename_i hchunk
      cases hv : m.result with
      | none => exact absurd hv ((hok k w hk hget).2 hchunk)
      | some v => exact ⟨rfl, rfl⟩
    · exact ⟨rfl, rfl⟩

/-- **The handler is given what was sent.** As long as no chunk is `null`, no queue is full and no
request has the id of a stream in progress, every answer of an iterator is right. After the
terminator no answer is waited for. A stream frame leaves the connection open. -/
theorem inputs_delivered {ls : List (ServerLabel V)}
    (hrun : run (step registry) init ls = some c)
    (hok : Along (step registry) Ordinary init ls) :
    (∀ k w, c.workers[k]? = some w →
      given w.log <+: c.sentTo w ∧ Answers (c.sentTo w) (c.Ended w) 0 (w.log.map Event.answer) ∧
      (c.Terminated w → w.pc ≠ .finished →
        (∃ c' w', c.step registry (.worker k .hasNext) = some c' ∧ c'.workers[k]? = some w' ∧
          w'.log = w.log ++ [.hasNext (decide ((given w.log).length < (c.sentTo w).length))]) ∧
        ∃ c' w', c.step registry (.worker k .next) = some c' ∧ c'.workers[k]? = some w' ∧
          w'.log = w.log ++ [nextOf (c.sentTo w) (given w.log).length])) ∧
    ∀ m c', (m.isChunk ∨ m.isTerminator) → c.Ordinary (.read (.msg m)) →
      c.step registry (.read (.msg m)) = some c' → c'.thread = .top ∧ c'.isOpen = c.isOpen := by
  have hi := run_inputs hok hrun
  constructor
  · intro k w hget
    obtain ⟨vs, n, hsent, hholds, hzero, hpos⟩ := (hi.fed k w hget).holds
    rw [hsent]
    refine ⟨hholds.answers.values_prefix, hholds.answers.end_of fun hn => ?_, fun hterm hpc => ?_⟩
    · exact ended_of_not_unfinished fun ht hu => absurd (hzero ht hu) (Nat.ne_of_gt hn)
    · obtain ⟨w₁, hfetch⟩ := hholds.fetches (hpos hterm.not_unfinished)
      have hhas : ∃ w', w.hasNext = some w' := by
        rw [hasNext, hfetch]
        exact ⟨_, rfl⟩
      have hnext : ∃ w', w.next = some w' := by
        rw [Worker.next, hfetch]
        exact ⟨_, rfl⟩
      obtain ⟨w₂, hhas⟩ := hhas
      obtain ⟨w₃, hnext⟩ := hnext
      obtain ⟨c₂, hstep₂, hget₂⟩ := step_iterator hget hpc (.inl ⟨rfl, hhas⟩)
      obtain ⟨c₃, hstep₃, hget₃⟩ := step_iterator hget hpc (.inr ⟨rfl, hnext⟩)
      rw [length_map]
      exact ⟨⟨c₂, w₂, hstep₂, hget₂, (hholds.of_hasNext hhas).2⟩, c₃, w₃, hstep₃, hget₃,
        (hholds.of_next hnext).2⟩
  · intro m c' hm hord h
    rw [eq_handle_of_read h]
    exact handle_frame hi.registered hm hord

theorem inputs_delivered_two :
    ∃ (c : ServerConn Nat) (w : Worker Nat), c.workers[0]? = some w ∧ c.Terminated w ∧
      c.sentTo w = [some 5, some 6] ∧ Answers (c.sentTo w) (c.Ended w) 0 (w.log.map Event.answer) ∧
      given w.log <+: c.sentTo w := by
  let registry : String → Option Entry := fun _ => some .clientStream
  let ls : List (ServerLabel Nat) :=
    [.go, .read (.msg (encodeRequest 1 "sum" [] false)), .go,
      .read (.msg (encodeStreamChunk 1 (some 5))), .worker 0 .next, .go,
      .read (.msg (encodeStreamChunk 1 (some 6))), .go, .read (.msg (encodeStreamEnd 1)),
      .worker 0 .hasNext]
  have hroom : ∀ w : Worker Nat, w.queue.put.length < w.queue.capacity → ¬ w.queue.Full := by
    intro w hw hfull
    rw [BoundedQueue.Full, BoundedQueue.items, length_drop] at hfull
    omega
  have hok : Along (step registry) Ordinary init ls := by
    refine cons trivial rfl ?_
    refine cons rfl rfl ?_
    refine cons trivial rfl ?_
    refine cons (fun k w hk hw => ?_) rfl ?_
    · cases hk
      cases hw
      exact ⟨hroom _ (by decide), nofun⟩
    refine cons trivial rfl ?_
    refine cons trivial rfl ?_
    refine cons (fun k w hk hw => ?_) rfl ?_
    · cases hk
      cases hw
      exact ⟨hroom _ (by decide), nofun⟩
    refine cons trivial rfl ?_
    refine cons (fun k w hk hw => ?_) rfl ?_
    · cases hk
      cases hw
      exact ⟨hroom _ (by decide), nofun⟩
    exact cons trivial rfl trivial
  have h := (@inputs_delivered Nat registry _ ls rfl hok).1 0 _ rfl
  exact ⟨_, _, rfl, ⟨encodeStreamEnd 1, mem_of_getElem? (i := 2) rfl, rfl⟩, rfl, h.2.1, h.1⟩

/-- **A `null` chunk closes the connection.** `offer` throws, so the handler is told that the stream
has ended and the connection is gone. -/
theorem null_chunk_closes :
    ∃ (ls : List (ServerLabel Nat)) (c : ServerConn Nat) (w : Worker Nat),
      run (step fun _ => some .clientStream) init ls = some c ∧ c.workers[0]? = some w ∧
      c.sentTo w = [none] ∧ ¬ c.Terminated w ∧
      w.log = [.hasNext false] ∧ c.isOpen = false ∧
      c.thread = .closed "NullPointerException" := by
  let ls : List (ServerLabel Nat) :=
    [.go, .read (.msg (encodeRequest 1 "sum" [] false)), .go,
      .read (.msg (encodeStreamChunk 1 none)), .go, .worker 0 .hasNext, .go, .go]
  refine ⟨ls, _, _, rfl, rfl, rfl, ?_, rfl, rfl, rfl⟩
  rintro ⟨m, hm, hfinal⟩
  rcases mem_singleton.1 hm
  cases hfinal

end Inputs

end ServerConn

end Callwire.Java
