import Callwire.Lib.Interleave
import Callwire.C.Proof.Replies
import Callwire.C.Proof.Lifetime

/-!
# The server comes to rest

With handlers that do not emit forever (`Entry.Halts`), the read loop and the threads cannot go on
forever without a new frame (`ownStep_acc`): the read loop gets to its next read, a `recv` uses up a
queued item, and everything else brings a thread closer to its end. Where no step is left, every
thread is done or waits in `recv` for input (`quiet_thread`). Together with the ledger this says
that every request is answered exactly once.
-/

namespace Callwire.C

open Lib List Thread Conn

/-! ## Threads -/

/-- The handler does not emit forever: whatever the emits return, it comes to receive or return. -/
def Entry.Halts (e : Entry) : Prop :=
  ∀ (call : Nat) (args : List Value) (events : List Event) (rcs : Nat → Int), ∃ n, ∀ chunk,
    e.fn call args (events ++ (List.range n).map fun j => .emitted (rcs j)) ≠ .emit chunk

def ThreadPc.rank : ThreadPc → Nat
  | .start => 5
  | .running _ => 4
  | .reply _ _ => 3
  | .remove => 2
  | .free _ => 1
  | .done => 0

/-- The handler of thread `i` emits. -/
def Thread.Emits (i : Nat) (t' t : Thread) : Prop :=
  t.entry.Halts ∧ ∃ chunk rc, t.entry.fn i t.args t.events = .emit chunk ∧
    t' = { t with events := t.events ++ [.emitted rc] }

theorem Thread.emits_acc (i : Nat) (t : Thread) : Acc (Emits i) t := by
  rw [acc_iff_isEmpty_descending_chain]
  refine ⟨fun ⟨f, h0, hf⟩ => ?_⟩
  choose chunks rcs hemit hnext using fun n => (hf n).2
  -- the events of the chain are those of `t` and one more emit each
  have hfn : ∀ n, f n =
      { t with events := t.events ++ (List.range n).map fun j => .emitted (rcs j) } := by
    intro n
    induction n with
    | zero => rw [h0]; simp
    | succ n ih => rw [hnext n, ih, range_succ, map_append, ← append_assoc]; rfl
  have hh : t.entry.Halts := h0 ▸ (hf 0).1
  obtain ⟨n, hn⟩ := hh i t.args t.events rcs
  have := hemit n
  rw [hfn n] at this
  exact hn _ this

/-- The moves of thread `i` other than `recv`. -/
def Thread.Progress (i : Nat) (t' t : Thread) : Prop :=
  t'.pc.rank < t.pc.rank ∨ t'.pc.rank = t.pc.rank ∧ Emits i t' t

theorem Thread.progress_wf (i : Nat) : WellFounded (Progress i) := by
  refine ⟨fun t => ?_⟩
  -- by the pc, and for one pc by the emits
  induction hn : t.pc.rank using Nat.strong_induction_on generalizing t with
  | _ n ih =>
    have hacc := emits_acc i t
    induction hacc with
    | intro t _ iht =>
      constructor
      rintro t' (hlt | ⟨heq, hemit⟩)
      · exact ih _ (hn ▸ hlt) t' rfl
      · exact iht t' hemit (heq.trans hn)

/-! ## The connection -/

def LoopPc.rank : LoopPc → Nat
  | .request _ => 2
  | .push _ _ | .spawn _ _ _ => 1
  | _ => 0

def Conn.queued (c : Conn) : Nat := (c.heap.map fun inp => inp.queue.items.length).sum

/-- The order in which the server's own steps go down. -/
def Conn.Below : Nat × Nat × List Thread → Nat × Nat × List Thread → Prop :=
  Prod.Lex (· < ·) (Prod.Lex (· < ·) (Advance Progress))

theorem Conn.below_wf : WellFounded Conn.Below :=
  WellFounded.prod_lex Nat.lt_wfRel.wf
    (WellFounded.prod_lex Nat.lt_wfRel.wf (advance_wf progress_wf))

def Conn.measure (c : Conn) : Nat × Nat × List Thread := (c.loop.rank, c.queued, c.threads)

/-- A step of the read loop or of a thread, other than reading from the socket. -/
def Label.own : Label → Bool
  | .loop _ | .thread _ _ => true
  | _ => false

/-- All handlers that are or will be called halt. -/
structure AllHalt (c : Conn) : Prop where
  threads : ∀ t ∈ c.threads, t.entry.Halts
  spawn : ∀ e id args, c.loop = .spawn e id args → e.Halts

section
variable {entries : List Entry} {c c' : Conn} {l : Label} {i : Nat} {t t' : Thread}

theorem below_loop (h : c'.loop.rank < c.loop.rank) : Conn.Below c'.measure c.measure :=
  Prod.Lex.left _ _ h

theorem below_recv (hl : c'.loop = c.loop) (h : c'.queued < c.queued) :
    Conn.Below c'.measure c.measure := by
  rw [Conn.measure, hl]
  exact Prod.Lex.right _ (Prod.Lex.left _ _ h)

theorem below_thread (hl : c'.loop = c.loop) (hq : c'.queued = c.queued)
    (ht : c.threads[i]? = some t) (hth : c'.threads = c.threads.set i t')
    (h : Progress i t' t) : Conn.Below c'.measure c.measure := by
  rw [Conn.measure, hl, hq, hth]
  exact Prod.Lex.right _ (Prod.Lex.right _ ⟨i, t, t', ht, h, rfl⟩)

theorem AllHalt.setThread (h : AllHalt c) (hl : c'.loop = c.loop) (ht : c.threads[i]? = some t)
    (hth : c'.threads = c.threads.set i t') (he : t'.entry = t.entry) : AllHalt c' := by
  refine ⟨?_, by rw [hl]; exact h.spawn⟩
  rw [hth]
  refine forall_set ht h.threads ?_
  rw [he]
  exact h.threads t (mem_of_getElem? ht)

theorem findHandler_halts (hh : ∀ e ∈ entries, e.Halts) {func : Bytes} {e : Entry}
    (h : findHandler entries func = some e) : e.Halts :=
  hh e (mem_of_find?_eq_some h)

/-- **Every step of the server's own goes down.** -/
theorem own_step (hh : ∀ e ∈ entries, e.Halts) (h : AllHalt c) (hown : l.own = true)
    (hs : step entries c l = some c') : AllHalt c' ∧ Conn.Below c'.measure c.measure := by
  have written : ∀ (m : Outgoing) (ok : Bool), queued (c.write m ok).2 = c.queued := by
    intro m ok
    rw [queued, write_heap, queued]
  cases step_move hs with
  | push hl => exact ⟨⟨h.threads, by simp⟩, below_loop (by rw [hl]; exact Nat.one_pos)⟩
  | refuse hl =>
    refine ⟨⟨?_, by simp⟩, below_loop (by rw [hl]; exact Nat.lt_add_left 1 Nat.one_pos)⟩
    simp only [writeError, write_threads]
    exact h.threads
  | register hl hf he | accept hl hf he =>
    refine ⟨⟨h.threads, ?_⟩, below_loop (by rw [hl]; exact Nat.lt_succ_self 1)⟩
    rintro e' id args ⟨⟩
    exact findHandler_halts hh he
  | @spawn e id args hl =>
    refine ⟨⟨forall_concat h.threads ?_, by simp⟩, below_loop (by rw [hl]; exact Nat.one_pos)⟩
    rw [newThread_entry]
    exact h.spawn e id args hl
  | noThread hl => exact ⟨⟨h.threads, by simp⟩, below_loop (by rw [hl]; exact Nat.one_pos)⟩
  | find ht hpc =>
    refine ⟨h.setThread rfl ht rfl rfl, below_thread rfl rfl ht rfl (.inl ?_)⟩
    rw [hpc]
    exact Nat.lt_succ_self 4
  | ret ht hpc =>
    refine ⟨h.setThread rfl ht rfl rfl, below_thread rfl rfl ht rfl (.inl ?_)⟩
    rw [hpc]
    exact Nat.lt_succ_self 3
  | @emit i t ok input chunk ht hpc ha =>
    have hth := write_setThread c (.streamChunk t.id chunk) ok i
      { t with events := t.events ++ [.emitted (c.write (.streamChunk t.id chunk) ok).1] }
    refine ⟨h.setThread (write_loop _ _ _) ht hth rfl,
      below_thread (write_loop _ _ _) (written _ _) ht hth (.inr ⟨rfl, ?_⟩)⟩
    exact ⟨h.threads t (mem_of_getElem? ht), chunk, _, ha, rfl⟩
  | @recv i t ok r inp item queue ht hpc ha hr hq =>
    refine ⟨h.setThread rfl ht rfl rfl, below_recv rfl ?_⟩
    have hlen : (c.heap.map fun inp => inp.queue.items.length)[r]? =
        some (queue.items.length + 1) := by
      rw [getElem?_map, hr, Option.map_some, Queue.items_of_pop? hq, length_cons]
    have hsum := sum_set_add queue.items.length hlen
    simp only [queued, setThread_heap, map_set]
    omega
  | @reply i t ok rc result ht hpc =>
    refine ⟨h.setThread (write_loop _ _ _) ht (write_setThread _ _ _ _ _) rfl,
      below_thread (write_loop _ _ _) (written _ _) ht (write_setThread _ _ _ _ _) (.inl ?_)⟩
    simp only [hpc]
    cases t.entry.kind.hasInput <;> simp [ThreadPc.rank]
  | remove ht hpc =>
    refine ⟨h.setThread rfl ht rfl rfl, below_thread rfl rfl ht rfl (.inl ?_)⟩
    rw [hpc]
    exact Nat.lt_succ_self 1
  | removeNone ht hpc =>
    refine ⟨h.setThread rfl ht rfl rfl, below_thread rfl rfl ht rfl (.inl ?_)⟩
    rw [hpc]
    exact Nat.two_pos
  | @free i r t ok ht hpc =>
    refine ⟨h.setThread rfl ht rfl rfl, below_thread rfl ?_ ht rfl (.inl ?_)⟩
    · exact congrArg List.sum (map_modify_of_eq _ _ _ _ fun _ => rfl)
    · rw [hpc]
      exact Nat.one_pos
  | _ => cases hown

theorem AllHalt.step (hh : ∀ e ∈ entries, e.Halts) (h : AllHalt c)
    (hs : Callwire.C.step entries c l = some c') : AllHalt c' := by
  cases hown : l.own with
  | true => exact (own_step hh h hown hs).1
  | false =>
    cases step_move hs with
    | malformed => exact h
    | reuse => exact ⟨h.threads, h.spawn⟩
    | route | request => exact ⟨h.threads, by simp⟩
    | discard hl => exact ⟨h.threads, by simp [hl]⟩
    | drain =>
      obtain ⟨-, -, hth, -⟩ := drainInputs_eq c
      exact ⟨hth.symm ▸ h.threads, by simp [drainInputs]⟩
    | _ => cases hown

def OwnStep (entries : List Entry) (c' c : Conn) : Prop :=
  ∃ l, l.own = true ∧ Callwire.C.step entries c l = some c'

/-- **Without new frames the server comes to rest.** -/
theorem ownStep_acc (hh : ∀ e ∈ entries, e.Halts) (h : AllHalt c) : Acc (OwnStep entries) c := by
  refine acc_of_rank below_wf (fun d m => AllHalt d ∧ m = d.measure) ?_ ⟨h, rfl⟩
  rintro d m d' ⟨hd, rfl⟩ ⟨l, hown, hs⟩
  obtain ⟨hd', hlt⟩ := own_step hh hd hown hs
  exact ⟨d'.measure, ⟨hd', rfl⟩, hlt⟩

/-! ## At rest -/

/-- None of the server's own steps is enabled. -/
def Quiet (entries : List Entry) (c : Conn) : Prop :=
  ∀ l : Label, l.own = true → Callwire.C.step entries c l = none

/-- The handler of thread `i` waits in `recv` at an empty queue. -/
def Conn.Waits (c : Conn) (i : Nat) (t : Thread) : Prop :=
  ∃ r, t.pc = .running (some r) ∧ t.entry.fn i t.args t.events = .recv ∧ c.queueOf r = []

theorem quiet_loop (h : Quiet entries c) : c.loopIds = [] := by
  have hnone := h (.loop true) rfl
  unfold Callwire.C.step at hnone
  unfold loopIds
  cases hl : c.loop with
  | request msg | spawn e id args =>
    rw [hl] at hnone
    cases hnone
  | _ => rfl

theorem quiet_thread (ho : Owned c) (h : Callwire.C.step entries c (.thread i true) = none)
    (ht : c.threads[i]? = some t) : t.pc = .done ∨ c.Waits i t := by
  have hnone : c.threadStep i t true = none := by
    simpa [Callwire.C.step, ht] using h
  unfold threadStep at hnone
  split at hnone
  · cases hnone
  · rename_i input hpc
    refine .inr ?_
    unfold handlerStep at hnone
    split at hnone
    · cases hnone
    · cases hnone
    · rename_i ha
      obtain ⟨r, hr, -, hrun⟩ := ho.owner i t ht
        (owns_iff.2 ⟨hasInput_of_recv ha, by simp [hpc], by simp [hpc]⟩)
      obtain rfl := hrun input hpc
      have hlt := ho.bound r hr
      rw [ids, length_map] at hlt
      refine ⟨r, hpc, ha, ?_⟩
      simp only [streamInputRecv, getElem?_eq_getElem hlt, Option.bind_eq_bind,
        Option.bind_some] at hnone
      rcases c.heap[r].queue.items_pop? with ⟨-, hq⟩ | ⟨v, q', hp, -⟩
      · simp [queueOf, getElem?_eq_getElem hlt, hq]
      · rw [hp] at hnone
        cases hnone
  · cases hnone
  · rename_i hpc
    rcases connRemoveInput_cases c t.id with ⟨j, r, -, -, hr⟩ | ⟨-, hr⟩ <;> rw [hr] at hnone <;>
      cases hnone
  · cases hnone
  · rename_i hpc
    exact .inl hpc

/-! ## Runs -/

theorem ledger_run {ls : List Label}
    (hok : Along (Callwire.C.step entries) (fun c l => l.Accepted ∧ ReplyFits c l) .init ls)
    (hrun : run (Callwire.C.step entries) .init ls = some c) (hnd : (requestIds c.frames).Nodup) :
    c.ledger.Sound Outgoing.id Outgoing.terminal := by
  have hstep : ∀ s l s', ((requestIds s.frames).Nodup →
        OneCall s ∧ s.ledger.Sound Outgoing.id Outgoing.terminal) →
      (Label.Accepted l ∧ ReplyFits s l) → Callwire.C.step entries s l = some s' →
      (requestIds s'.frames).Nodup →
        OneCall s' ∧ s'.ledger.Sound Outgoing.id Outgoing.terminal := by
    intro s l s' hi hl hs hn
    obtain ⟨h1, hsound⟩ := hi (requestIds_nodup_mono (step_frames hs) hn)
    obtain ⟨h1', heq | hmove⟩ := ledger_step h1 hl.1 hl.2 hs hn
    · exact ⟨h1', heq.symm ▸ hsound⟩
    · exact ⟨h1', hsound.step hmove⟩
  have hinit : init.ledger.Sound Outgoing.id Outgoing.terminal := by
    constructor <;> simp [ledger, init, Pending, loopIds, calls, requestIds]
  exact (run_invariant hstep (fun _ => ⟨.init, hinit⟩) hok hrun hnd).2

theorem allHalt_run (hh : ∀ e ∈ entries, e.Halts) {ls : List Label}
    (hrun : run (Callwire.C.step entries) .init ls = some c) : AllHalt c :=
  run_kept (fun _ _ _ hi hs => hi.step hh hs) ⟨by simp [init], by simp [init]⟩ hrun

end

/-- **Every request is answered exactly once**, if every response fits into one frame and no thread
removes the input that the read loop is about to push to: no freed input is used, at any time a
request has its one terminal frame, with nothing after it, or is still in hand and has none; the
server comes to rest; and then only a handler that waits for input has not answered. -/
theorem request_answeredOnce (entries : List Entry) (hh : ∀ e ∈ entries, e.Halts)
    (ls : List Label) (c : Conn)
    (hok : Along (step entries) (fun c l => l.Accepted ∧ ReplyFits c l ∧ Unhurried c l) .init ls)
    (hrun : run (step entries) .init ls = some c) (hids : (requestIds c.frames).Nodup) :
    InputsLive c ∧
    (∀ k ∈ requestIds c.frames, AnsweredOnce Outgoing.id Outgoing.terminal k c.out ∨
      c.Pending k ∧ ∀ m ∈ c.out, m.id = k → m.terminal = false) ∧
    Acc (OwnStep entries) c ∧
    (Quiet entries c → ∀ k ∈ requestIds c.frames,
      AnsweredOnce Outgoing.id Outgoing.terminal k c.out ∨
        ∃ i t, c.threads[i]? = some t ∧ t.id = k ∧ c.Waits i t) := by
  have hsound := ledger_run (hok.imp fun _ _ h => ⟨h.1, h.2.1⟩) hrun hids
  obtain ⟨hkept, hrouted⟩ := Kept.run (hok.imp fun _ _ h => h.2.2) hrun hids
  refine ⟨hkept.inputsLive, fun k hk => ?_, ownStep_acc hh (allHalt_run hh hrun), fun hq k hk => ?_⟩
  · by_cases hp : c.Pending k
    · exact .inr ⟨hp, fun m hm hmk => hsound.silent m hm (hmk ▸ hp)⟩
    · exact .inl (hsound.once k hk hp)
  · by_cases hp : c.Pending k
    · refine .inr ?_
      rcases hp with hp | hp
      · rw [quiet_loop hq] at hp
        cases hp
      · obtain ⟨t, ht, heq⟩ := mem_map.1 hp
        obtain ⟨hid, hw⟩ := Prod.mk.inj heq
        obtain ⟨i, hi⟩ := mem_iff_getElem?.1 ht
        rcases quiet_thread hrouted.owned (hq (.thread i true) rfl) hi with hpc | hwait
        · simp [working, hpc] at hw
        · exact ⟨i, t, hi, hid, hwait⟩
    · exact .inl (hsound.once k hk hp)

/-! ## A response over the frame limit -/

section

def constant (v : Value) : Entry where
  name := ⟨lit "f", lit_f⟩
  kind := .unary
  fn _ _ _ := .ret 0 v
  allowed _ _ _ := trivial

theorem constant_halts (v : Value) : ∀ e ∈ [constant v], e.Halts := by
  intro e he call args events rcs
  obtain rfl := mem_singleton.1 he
  exact ⟨0, nofun⟩

def constantLabels : List Label := [.frame callF, .loop true, .loop true, .thread 0 true]

/-- The connection with the thread of the call at `pc`. -/
def constantConn (v : Value) (pc : ThreadPc) (out : List Outgoing) : Conn where
  inputs := []
  heap := []
  threads := [⟨constant v, 1, [], [], pc⟩]
  loop := .reading
  out := out
  frames := [{ id := 1, type := some (lit "request"), func := some (lit "f") }]

theorem run_constant (v : Value) : run (step [constant v]) .init constantLabels =
    some (constantConn v (.reply 0 v) []) := rfl

theorem step_constant (v : Value) :
    step [constant v] (constantConn v (.reply 0 v) []) (.thread 0 true) =
    some ((write (constantConn v (.reply 0 v) []) (.response 1 (some v)) true).2.setThread 0
      ⟨constant v, 1, [], [], .done⟩) := rfl

theorem response_length {id : BitVec 64} {data p : Bytes}
    (h : Encodes (.map (Outgoing.response id (some (.string data))).entries) p) :
    data.length < p.length := by
  cases h with
  | map hh he =>
    obtain _ | ⟨hk, _, hs⟩ := he
    obtain _ | ⟨_, _, hs⟩ := hs
    obtain _ | ⟨_, hv, _⟩ := hs
    have hpos := hk.length_pos
    cases hv
    simp only [length_append]
    omega

def oversize : Value := .string (List.replicate callwireMaxFrameSize 0x61)

theorem oversize_not_frameable : ¬ (Outgoing.response 1 (some oversize)).Frameable := by
  rintro ⟨p, hp, hl⟩
  have := response_length (Outgoing.encode_some hp)
  rw [length_replicate] at this
  omega

/-- **A handler that returns 16 MiB of text is not answered**: the socket takes everything, the
thread is done, the server is at rest, and nothing was written. -/
theorem request_oversize_unanswered : ∃ c,
    (∀ e ∈ [constant oversize], e.Halts) ∧
    Along (step [constant oversize]) (fun _ l => l.Accepted) .init
      (constantLabels ++ [.thread 0 true]) ∧
    run (step [constant oversize]) .init (constantLabels ++ [.thread 0 true]) = some c ∧
    requestIds c.frames = [1] ∧ Quiet [constant oversize] c ∧ (∀ t ∈ c.threads, t.pc = .done) ∧
    ¬ AnsweredOnce Outgoing.id Outgoing.terminal 1 c.out := by
  refine ⟨constantConn oversize .done [], constant_halts _, ?_, ?_, rfl, ?_, ?_, ?_⟩
  · refine .cons trivial rfl (.cons rfl rfl (.cons rfl rfl (.cons rfl rfl ?_)))
    refine .cons rfl (step_constant oversize) trivial
  · rw [run_append, run_constant, Option.bind_some, run, step_constant,
      write_not_frameable _ _ oversize_not_frameable]
    rfl
  · rintro (_ | _ | ok | ⟨i, ok⟩ | _) hown
    · cases hown
    · cases hown
    · rfl
    · cases i <;> rfl
    · cases hown
  · intro t ht
    obtain rfl := mem_singleton.1 ht
    rfl
  · rintro ⟨pre, m, post, h, -⟩
    cases pre <;> cases h

theorem request_answeredOnce_null : ∃ c,
    run (step [constant .null]) .init (constantLabels ++ [.thread 0 true]) = some c ∧
      (Quiet [constant .null] c → ∀ k ∈ requestIds c.frames,
        AnsweredOnce Outgoing.id Outgoing.terminal k c.out ∨
          ∃ i t, c.threads[i]? = some t ∧ t.id = k ∧ c.Waits i t) := by
  have hrun : run (step [constant .null]) .init (constantLabels ++ [.thread 0 true]) =
      some (constantConn .null .done [.response 1 (some .null)]) := by
    rw [run_append, run_constant, Option.bind_some, run, step_constant,
      write_small _ _ (by decide)]
    rfl
  refine ⟨_, hrun, (request_answeredOnce _ (constant_halts _) _ _ ?_ hrun (by decide)).2.2.2⟩
  have idle {c : Conn} {l : Label} := @unhurried_of_idle c l
  have quiet : ∀ c l, (∀ t ∈ c.threads, ∀ result, t.pc ≠ .reply 0 result) → ReplyFits c l :=
    fun c l h i ok t result _ ht hpc _ => absurd hpc (h t (mem_of_getElem? ht) result)
  refine .cons ⟨trivial, quiet _ _ (forall_mem_nil _), idle rfl⟩ rfl ?_
  refine .cons ⟨rfl, quiet _ _ (forall_mem_nil _), idle rfl⟩ rfl ?_
  refine .cons ⟨rfl, quiet _ _ (forall_mem_nil _), idle rfl⟩ rfl ?_
  refine .cons ⟨rfl, quiet _ _ ?_, idle rfl⟩ rfl ?_
  · intro t ht result h
    obtain rfl := mem_singleton.1 ht
    cases h
  refine .cons ⟨rfl, ?_, idle rfl⟩ (step_constant .null) trivial
  intro i ok t result hl ht hpc _
  obtain rfl : t = ⟨constant .null, 1, [], [], .reply 0 .null⟩ := by
    cases hl
    exact (Option.some.inj ht).symm
  cases hpc
  exact frameable_of_size (by decide)

end

end Callwire.C
