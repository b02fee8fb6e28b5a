import Callwire.C.Proof.Inputs

/-!
# Streaming input reaches its call

`itemsAfter k frames` are the items of the stream frames with id `k` that follow the request with
that id: what the call is to receive. With distinct request ids, what a dispatch thread has
received, what its queue holds and what the read loop is about to push to it are together, in this
order, exactly these items (`Routed.flow`); the end of the connection adds one end marker. A thread
that has removed its input has received a prefix (`Routed.past`).
-/

namespace Callwire.C

open Lib List Thread Conn

/-! ## The frames of a call -/

def requestIds (frames : List WireMessage) : List (BitVec 64) :=
  (frames.filter (typeIs · "request")).map (·.id)

/-- The item of a stream frame with id `k`. -/
def itemFor (k : BitVec 64) (msg : WireMessage) : List Item :=
  if isStreamFrame msg = true ∧ msg.id = k then [itemOf msg] else []

/-- The frames that follow request `k`. -/
def framesAfter (k : BitVec 64) : List WireMessage → List WireMessage
  | [] => []
  | msg :: rest =>
    if typeIs msg "request" = true ∧ msg.id = k then rest else framesAfter k rest

/-- The items of the stream frames with id `k` that follow request `k`. -/
def itemsAfter (k : BitVec 64) (frames : List WireMessage) : List Item :=
  (framesAfter k frames).flatMap (itemFor k)

section
variable {k : BitVec 64} {msg : WireMessage} {frames : List WireMessage}

theorem request_not_stream (h : typeIs msg "request" = true) :
    isStreamFrame msg = false := by
  unfold typeIs at h
  have h := of_decide_eq_true h
  simp only [isStreamFrame, typeIs, h]
  decide

theorem itemFor_request (h : typeIs msg "request" = true) : itemFor k msg = [] := by
  rw [itemFor, if_neg]
  simp [request_not_stream h]

theorem requestIds_concat (frames : List WireMessage) (msg : WireMessage) :
    requestIds (frames ++ [msg]) =
      requestIds frames ++ if typeIs msg "request" = true then [msg.id] else [] := by
  rw [requestIds, filter_append, map_append, filter_singleton]
  cases typeIs msg "request" <;> rfl

theorem framesAfter_concat (msg : WireMessage) : ∀ frames : List WireMessage,
    k ∈ requestIds frames → framesAfter k (frames ++ [msg]) = framesAfter k frames ++ [msg]
  | [], h => nomatch h
  | m :: rest, h => by
    rw [cons_append, framesAfter, framesAfter]
    by_cases hm : typeIs m "request" = true ∧ m.id = k
    · rw [if_pos hm, if_pos hm]
    · rw [if_neg hm, if_neg hm]
      refine framesAfter_concat msg rest ?_
      simp only [requestIds, filter_cons] at h ⊢
      split at h
      · rename_i hr
        rcases mem_cons.1 h with rfl | h
        · exact absurd ⟨hr, rfl⟩ hm
        · exact h
      · exact h

theorem itemsAfter_concat (msg : WireMessage) (h : k ∈ requestIds frames) :
    itemsAfter k (frames ++ [msg]) = itemsAfter k frames ++ itemFor k msg := by
  rw [itemsAfter, framesAfter_concat msg frames h, flatMap_append, flatMap_singleton,
    itemsAfter]

/-- No frame follows a request that is the last frame, or is still to come. -/
theorem framesAfter_new : ∀ frames : List WireMessage, k ∉ requestIds frames →
    framesAfter k (frames ++ [msg]) = []
  | [], _ => by
    rw [nil_append, framesAfter]
    split <;> rfl
  | m :: rest, h => by
    have hm : ¬ (typeIs m "request" = true ∧ m.id = k) := by
      rintro ⟨hr, rfl⟩
      exact h (by simp [requestIds, hr])
    rw [cons_append, framesAfter, if_neg hm]
    refine framesAfter_new rest fun hk => h ?_
    simp only [requestIds, filter_cons]
    split
    · exact mem_cons_of_mem _ hk
    · exact hk

theorem itemsAfter_new (h : k ∉ requestIds frames) : itemsAfter k (frames ++ [msg]) = [] := by
  rw [itemsAfter, framesAfter_new frames h, flatMap_nil]

end

/-! ## What a call has got and what is on its way -/

/-- The items that `recv` has returned. -/
def Thread.received (t : Thread) : List Item :=
  t.events.filterMap fun
    | .received item => some item
    | .emitted _ => none

namespace Conn

def queueOf (c : Conn) (r : Nat) : List Item := (c.heap.map (·.queue.items))[r]?.getD []

/-- The item the read loop is about to push to `r`. -/
def pendingTo (c : Conn) (r : Nat) : List Item :=
  match c.loop with
  | .push r' item => if r' = r then [item] else []
  | _ => []

/-- The end marker of a connection that has ended. -/
def ending (c : Conn) : List Item :=
  match c.loop with
  | .closed => [.fin]
  | _ => []

/-- The request with this id has been dispatched. -/
def Dispatched (c : Conn) (id : BitVec 64) : Prop :=
  id ∈ requestIds c.frames ∧ ∀ msg, c.loop = .request msg → id ≠ msg.id

end Conn

structure Routed (c : Conn) : Prop where
  owned : Owned c
  known : ∀ r ∈ c.inputs, ∀ id, c.ids[r]? = some id → c.Dispatched id
  threads : ∀ t ∈ c.threads, t.entry.kind.hasInput = true → c.Dispatched t.id
  request : ∀ msg, c.loop = .request msg →
    msg.id ∈ requestIds c.frames ∧ itemsAfter msg.id c.frames = []
  spawn : ∀ e id args, c.loop = .spawn e id args → e.kind.hasInput = true →
    itemsAfter id c.frames = [] ∧ ∀ r ∈ c.inputs, c.ids[r]? = some id → c.queueOf r = []
  flow : ∀ t ∈ c.threads, t.owns = true → ∀ r ∈ c.inputs, c.ids[r]? = some t.id →
    t.received ++ (c.queueOf r ++ c.pendingTo r) = itemsAfter t.id c.frames ++ c.ending
  past : ∀ t ∈ c.threads, t.entry.kind.hasInput = true →
    t.received <+: itemsAfter t.id c.frames ++ c.ending

theorem Routed.init : Routed .init where
  owned := .init
  known := by simp [Conn.init]
  threads := by simp [Conn.init]
  request := by simp [Conn.init]
  spawn := by simp [Conn.init]
  flow := by simp [Conn.init]
  past := by simp [Conn.init]

section
variable {entries : List Entry} {c c' : Conn} {l : Label} {i r : Nat} {t t' : Thread}
  {msg : WireMessage} {item : Item}

theorem Routed.fresh (h : Routed c) : Fresh entries c l := by
  intro ok msg func e _ hl _ _ _ _ r hr hid
  exact (h.known r hr msg.id hid).2 msg hl rfl

theorem queueOf_congr (hq : c'.heap.map (·.queue.items) = c.heap.map (·.queue.items)) :
    c'.queueOf r = c.queueOf r := by
  rw [queueOf, hq, queueOf]

/-! ## A thread moves -/

theorem Routed.thread (h : Routed c) (ho : Owned c') (hin : ∀ r ∈ c'.inputs, r ∈ c.inputs)
    (hids : c'.ids = c.ids) (hq : ∀ r, c'.queueOf r = c.queueOf r) (hlp : c'.loop = c.loop)
    (hfr : c'.frames = c.frames) (ht : c.threads[i]? = some t)
    (hth : c'.threads = c.threads.set i t') (hid : t'.id = t.id) (he : t'.entry = t.entry)
    (hown : t'.owns = true → t.owns = true) (hrec : t'.received = t.received) : Routed c' := by
  have htm := mem_of_getElem? ht
  have hdis : ∀ id, c.Dispatched id → c'.Dispatched id := by
    intro id hd
    rw [Dispatched, hfr, hlp]
    exact hd
  have hpend : ∀ r, c'.pendingTo r = c.pendingTo r := fun r => by
    rw [pendingTo, hlp, pendingTo]
  have hend : c'.ending = c.ending := by rw [ending, hlp, ending]
  refine ⟨ho, ?_, ?_, ?_, ?_, ?_, ?_⟩
  · rw [hids]
    exact fun r hr id hrid => hdis id (h.known r (hin r hr) id hrid)
  · rw [hth]
    refine forall_set ht (fun u hu hk => hdis _ (h.threads u hu hk)) fun hk => ?_
    rw [hid]
    exact hdis _ (h.threads t htm (he ▸ hk))
  · rw [hlp, hfr]
    exact h.request
  · rw [hlp, hfr, hids]
    intro e id args hl hk
    obtain ⟨hitems, hqueue⟩ := h.spawn e id args hl hk
    exact ⟨hitems, fun r hr hrid => (hq r).trans (hqueue r (hin r hr) hrid)⟩
  · rw [hth, hids, hfr, hend]
    intro u hu hou r hr hrid
    rw [hq, hpend]
    rcases mem_set_cases ht hu with rfl | hu
    · rw [hrec, hid]
      exact h.flow t htm (hown hou) r (hin r hr) (hid ▸ hrid)
    · exact h.flow u hu hou r (hin r hr) hrid
  · rw [hth, hfr, hend]
    refine forall_set ht h.past fun hk => ?_
    rw [hrec, hid]
    exact h.past t htm (he ▸ hk)

theorem queueOf_set {inp : Input} {queue : Queue Item} {r' : Nat} (hr : c.heap[r]? = some inp) :
    queueOf { c with heap := c.heap.set r { inp with queue } } r' =
      if r' = r then queue.items else c.queueOf r' := by
  simp only [queueOf, getElem?_map]
  by_cases hrr : r' = r
  · subst hrr
    rw [set_of_some hr, if_pos rfl]
    rfl
  · rw [getElem?_set_ne (Ne.symm hrr), if_neg hrr]

theorem Routed.recv {inp : Input} {queue : Queue Item} (h : Routed c)
    (ho : Owned (setThread { c with heap := c.heap.set r { inp with queue } } i
      { t with events := t.events ++ [.received item] }))
    (ht : c.threads[i]? = some t) (hpc : t.pc = .running (some r))
    (hk : t.entry.kind.hasInput = true) (hr : c.heap[r]? = some inp)
    (hq : inp.queue.items = item :: queue.items) :
    Routed (setThread { c with heap := c.heap.set r { inp with queue } } i
      { t with events := t.events ++ [.received item] }) := by
  have htm := mem_of_getElem? ht
  have hown : t.owns = true := owns_iff.2 ⟨hk, by simp [hpc], by simp [hpc]⟩
  obtain ⟨r₀, hr₀, hid, hrun⟩ := h.owned.owner i t ht hown
  obtain rfl : r = r₀ := Option.some.inj (hrun _ hpc)
  have hids : ids { c with heap := c.heap.set r { inp with queue } } = c.ids :=
    map_set_of_eq _ hr rfl
  have hqr : c.queueOf r = item :: queue.items := by
    simp [queueOf, hr, hq]
  have hrec : received { t with events := t.events ++ [.received item] } =
      t.received ++ [item] := by simp [received]
  -- the thread's own equation, with the item on the other side
  have hflow : received { t with events := t.events ++ [.received item] } ++
      (queue.items ++ c.pendingTo r) = itemsAfter t.id c.frames ++ c.ending := by
    rw [hrec, ← h.flow t htm hown r hr₀ hid, hqr, append_assoc]
    rfl
  refine ⟨ho, ?_, ?_, h.request, ?_, ?_, ?_⟩
  · intro r' hr' id hid'
    exact h.known r' hr' id ((congrArg (·[r']?) hids).symm.trans hid')
  · exact forall_set ht h.threads (h.threads t htm)
  · intro e id args hl hke
    obtain ⟨hitems, hqueue⟩ := h.spawn e id args hl hke
    refine ⟨hitems, fun r' hr' hid' => ?_⟩
    have hrid : c.ids[r']? = some id := (congrArg (·[r']?) hids).symm.trans hid'
    have hne : r' ≠ r := by
      intro he
      rw [he, hid] at hrid
      exact (h.owned.spawning e id args hl hke).2 t htm hown (Option.some.inj hrid)
    exact ((queueOf_set hr).trans (if_neg hne)).trans (hqueue r' hr' hrid)
  · intro u hu hou r' hr' hid'
    have hrid : c.ids[r']? = some u.id := (congrArg (·[r']?) hids).symm.trans hid'
    obtain ⟨j, hj⟩ := mem_iff_getElem?.1 hu
    rcases set_cases ht hj with ⟨-, rfl⟩ | ⟨hij, hju⟩
    · obtain rfl := h.owned.input_eq hr₀ hr' (hid.trans hrid.symm)
      exact (congrArg (fun q => _ ++ (q ++ _)) ((queueOf_set hr).trans (if_pos rfl))).trans hflow
    · have hne : r' ≠ r := by
        intro he
        rw [he, hid] at hrid
        exact hij (h.owned.unique i j t u ht hju hown hou (Option.some.inj hrid))
      have := h.flow u (mem_of_getElem? hju) hou r' hr' hrid
      exact (congrArg (fun q => _ ++ (q ++ _)) ((queueOf_set hr).trans (if_neg hne))).trans this
  · exact forall_set ht h.past fun _ => ⟨_, hflow⟩

/-! ## The read loop moves -/

theorem Routed.read (h : Routed c) (hl : c.loop = .reading) (ho : Owned c')
    (hin : c'.inputs = c.inputs) (hh : c'.heap = c.heap) (hth : c'.threads = c.threads)
    (hfr : c'.frames = c.frames ++ [msg]) (hnd : (requestIds c'.frames).Nodup)
    (hrq : ∀ m, c'.loop = .request m → m = msg ∧ typeIs msg "request" = true)
    (hsp : ∀ e id args, c'.loop ≠ .spawn e id args) (hcl : c'.loop ≠ .closed)
    (hpend : ∀ r ∈ c.inputs, ∀ id, c.ids[r]? = some id → c'.pendingTo r = itemFor id msg) :
    Routed c' := by
  have hids : c'.ids = c.ids := by rw [ids, hh, ids]
  have hreq := requestIds_concat c.frames msg
  have hdis : ∀ id, c.Dispatched id → c'.Dispatched id := by
    rintro id ⟨hm, -⟩
    refine ⟨by rw [hfr, hreq]; exact mem_append_left _ hm, ?_⟩
    rintro m hm' rfl
    obtain ⟨rfl, hr⟩ := hrq m hm'
    rw [hfr, hreq, if_pos hr, nodup_append] at hnd
    exact hnd.2.2 m.id hm m.id (mem_singleton_self _) rfl
  have hend : c.ending = [] := by rw [ending, hl]
  have hend' : c'.ending = [] := by
    unfold ending
    split
    · rename_i h
      exact absurd h hcl
    · rfl
  have hpend₀ : ∀ r, c.pendingTo r = [] := fun r => by rw [pendingTo, hl]
  have hitems : ∀ id, c.Dispatched id →
      itemsAfter id c'.frames = itemsAfter id c.frames ++ itemFor id msg := fun id hd => by
    rw [hfr, itemsAfter_concat msg hd.1]
  refine ⟨ho, ?_, ?_, ?_, ?_, ?_, ?_⟩
  · rw [hin, hids]
    exact fun r hr id hid => hdis id (h.known r hr id hid)
  · rw [hth]
    exact fun u hu hk => hdis u.id (h.threads u hu hk)
  · intro m hm
    obtain ⟨rfl, hr⟩ := hrq m hm
    rw [hfr, hreq, if_pos hr] at hnd ⊢
    refine ⟨mem_append_right _ (mem_singleton_self _), itemsAfter_new fun hk => ?_⟩
    exact (nodup_append.1 hnd).2.2 m.id hk m.id (mem_singleton_self _) rfl
  · intro e id args hsl
    exact absurd hsl (hsp e id args)
  · rw [hth, hin, hids]
    intro u hu hou r hr hid
    have hflow := h.flow u hu hou r hr hid
    rw [hpend₀, hend, append_nil, append_nil] at hflow
    rw [hend', append_nil, hitems u.id (h.known r hr u.id hid), hpend r hr u.id hid,
      queueOf_congr (c := c) (by rw [hh]), ← append_assoc, hflow]
  · rw [hth]
    intro u hu hk
    have hpast := h.past u hu hk
    rw [hend, append_nil] at hpast
    rw [hend', append_nil, hitems u.id (h.threads u hu hk)]
    exact hpast.trans (prefix_append _ _)

/-- The read loop goes on without a frame: the inputs stay, with `more` on its way to each. -/
theorem Routed.loop (h : Routed c) (ho : Owned c') (hin : c'.inputs = c.inputs)
    (hids : c'.ids = c.ids) (hth : c'.threads = c.threads) (hfr : c'.frames = c.frames)
    (hrq : ∀ m, c'.loop ≠ .request m)
    (hsp : ∀ e id args, c'.loop = .spawn e id args → e.kind.hasInput = false) (more : List Item)
    (hq : ∀ r ∈ c.inputs,
      c'.queueOf r ++ c'.pendingTo r = c.queueOf r ++ c.pendingTo r ++ more)
    (hend : c'.ending = c.ending ++ more) : Routed c' := by
  have hdis : ∀ id, c.Dispatched id → c'.Dispatched id := fun id hd =>
    ⟨hfr ▸ hd.1, fun m hm => absurd hm (hrq m)⟩
  refine ⟨ho, ?_, ?_, fun m hm => absurd hm (hrq m), ?_, ?_, ?_⟩
  · rw [hin, hids]
    exact fun r hr id hid => hdis id (h.known r hr id hid)
  · rw [hth]
    exact fun u hu hk => hdis u.id (h.threads u hu hk)
  · intro e id args hl hk
    exact absurd hk (by simp [hsp e id args hl])
  · rw [hth, hin, hids, hfr, hend]
    intro u hu hou r hr hid
    rw [hq r hr, ← append_assoc, h.flow u hu hou r hr hid, append_assoc]
  · rw [hth, hfr, hend]
    intro u hu hk
    rw [← append_assoc]
    exact (h.past u hu hk).trans (prefix_append _ _)

theorem queueOf_push {r' : Nat} (hr : r' < c.heap.length) :
    (c.streamInputPush r item).queueOf r' = c.queueOf r' ++ if r = r' then [item] else [] := by
  simp only [queueOf, streamInputPush, getElem?_map, getElem?_modify,
    getElem?_eq_getElem hr]
  by_cases hrr : r = r' <;> simp [hrr]

theorem queueOf_pushes : ∀ (rs : List Nat) (d : Conn), rs.Nodup →
    r < d.heap.length → (rs.foldl (fun d r => d.streamInputPush r item) d).queueOf r =
      d.queueOf r ++ if r ∈ rs then [item] else []
  | [], d, _, _ => by simp
  | r' :: rs, d, hn, hr => by
    obtain ⟨hr', hn⟩ := nodup_cons.1 hn
    rw [foldl_cons, queueOf_pushes rs _ hn (by simpa [streamInputPush] using hr),
      queueOf_push hr]
    by_cases hrr : r' = r
    · subst hrr
      simp [hr']
    · simp [hrr, Ne.symm hrr]

theorem Routed.drain (h : Routed c) (hl : c.loop = .reading) (ho : Owned c.drainInputs) :
    Routed c.drainInputs := by
  obtain ⟨hin, hids, hth, hfr, -⟩ := drainInputs_eq c
  refine h.loop ho hin hids hth hfr (by simp [drainInputs]) (by simp [drainInputs])
    [.fin] (fun r hr => ?_) ?_
  · have hb := h.owned.bound r hr
    rw [ids, length_map] at hb
    have hq : c.drainInputs.queueOf r = c.queueOf r ++ [.fin] := by
      refine (queueOf_pushes c.inputs c h.owned.inputs_nodup hb).trans ?_
      rw [if_pos hr]
    rw [hq, show c.drainInputs.pendingTo r = [] from rfl, pendingTo, hl, append_nil,
      append_nil]
  · rw [show c.drainInputs.ending = [.fin] from rfl, ending, hl, nil_append]

theorem Routed.push (h : Routed c) (hl : c.loop = .push r item)
    (ho : Owned { c.streamInputPush r item with loop := .reading }) :
    Routed { c.streamInputPush r item with loop := .reading } := by
  refine h.loop ho rfl (streamInputPush_ids _) rfl rfl (by simp) (by simp) []
    (fun r' hr' => ?_) (by simp [ending, hl])
  have hb := h.owned.bound r' hr'
  rw [ids, length_map] at hb
  have hq : queueOf { c.streamInputPush r item with loop := .reading } r' =
      c.queueOf r' ++ if r = r' then [item] else [] := queueOf_push hb
  rw [hq, show pendingTo { c.streamInputPush r item with loop := .reading } r' = [] from rfl,
    pendingTo, hl]

/-- The input that is registered has an empty queue, the others keep theirs. -/
theorem queueOf_register {id : BitVec 64} {pc : LoopPc} :
    queueOf { c.connRegisterInput id with loop := pc } r =
      if r = c.heap.length then [] else c.queueOf r := by
  by_cases hr : r = c.heap.length
  · rw [if_pos hr, hr]
    simp [queueOf, connRegisterInput]
  · rw [if_neg hr]
    simp only [queueOf, connRegisterInput, map_append]
    rcases Nat.lt_or_gt_of_ne hr with hlt | hgt
    · rw [getElem?_append_left (by simpa using hlt)]
    · rw [getElem?_eq_none (by simpa using Nat.succ_le_of_lt hgt),
        getElem?_eq_none (by simpa using hgt.le)]

theorem Routed.register {e : Entry} {args : List Value} (h : Routed c)
    (hl : c.loop = .request msg)
    (ho : Owned { c.connRegisterInput msg.id with loop := .spawn e msg.id args }) :
    Routed { c.connRegisterInput msg.id with loop := .spawn e msg.id args } := by
  have hids : ids { c.connRegisterInput msg.id with loop := .spawn e msg.id args } =
      c.ids ++ [msg.id] := by
    simp [ids, connRegisterInput]
  have hlen : c.ids.length = c.heap.length := by simp [ids]
  obtain ⟨hmem, hitems⟩ := h.request msg hl
  have hdis : ∀ id, c.Dispatched id →
      Dispatched { c.connRegisterInput msg.id with loop := .spawn e msg.id args } id :=
    fun id hd => ⟨hd.1, by simp⟩
  -- an address is one of the old inputs or the new one
  have hold : ∀ r ∈ c.inputs, (c.ids ++ [msg.id])[r]? = c.ids[r]? := fun r hr =>
    getElem?_append_left (h.owned.bound r hr)
  have hnew : (c.ids ++ [msg.id])[c.heap.length]? = some msg.id := by simp [← hlen]
  have hq : ∀ r ∈ c.inputs, queueOf
      { c.connRegisterInput msg.id with loop := .spawn e msg.id args } r = c.queueOf r := by
    intro r hr
    have hb := h.owned.bound r hr
    rw [hlen] at hb
    rw [queueOf_register, if_neg hb.ne]
  have hq₀ : queueOf { c.connRegisterInput msg.id with loop := .spawn e msg.id args }
      c.heap.length = [] := by
    rw [queueOf_register, if_pos rfl]
  refine ⟨ho, ?_, fun u hu hk => hdis u.id (h.threads u hu hk), by simp, ?_, ?_, ?_⟩
  · intro r hr id hid
    rw [hids] at hid
    rcases mem_concat_cases hr with hr | rfl
    · rw [hold r hr] at hid
      exact hdis id (h.known r hr id hid)
    · rw [hnew] at hid
      cases hid
      exact ⟨hmem, by simp⟩
  · rintro e' id args' ⟨⟩ -
    refine ⟨hitems, fun r hr hid => ?_⟩
    rw [hids] at hid
    rcases mem_concat_cases hr with hr | rfl
    · rw [hold r hr] at hid
      exact absurd rfl ((h.known r hr msg.id hid).2 msg hl)
    · exact hq₀
  · intro u hu hou r hr hid
    rw [hids] at hid
    rcases mem_concat_cases hr with hr | rfl
    · rw [hold r hr] at hid
      have hflow := h.flow u hu hou r hr hid
      rw [pendingTo, ending, hl] at hflow
      rw [hq r hr]
      exact hflow
    · rw [hnew] at hid
      exact absurd (Option.some.inj hid).symm ((h.threads u hu (owns_iff.1 hou).1).2 msg hl)
  · intro u hu hk
    have hpast := h.past u hu hk
    rw [ending, hl] at hpast
    exact hpast

theorem newThread_received (e : Entry) (id : BitVec 64) (args : List Value) :
    (newThread e id args).received = [] := by
  unfold newThread
  split <;> rfl

/-- The thread of a request starts with nothing received and an empty queue. -/
theorem Routed.spawned {e : Entry} {id : BitVec 64} {args : List Value} (h : Routed c)
    (hl : c.loop = .spawn e id args)
    (ho : Owned { c with threads := c.threads ++ [newThread e id args], loop := .reading }) :
    Routed { c with threads := c.threads ++ [newThread e id args], loop := .reading } := by
  have hdis : ∀ k, c.Dispatched k → Dispatched
      { c with threads := c.threads ++ [newThread e id args], loop := .reading } k :=
    fun k hd => ⟨hd.1, nofun⟩
  refine ⟨ho, fun r hr k hk => hdis k (h.known r hr k hk), ?_, nofun,
    nofun, ?_, ?_⟩
  · intro u hu hk
    rcases mem_concat_cases hu with hu | rfl
    · exact hdis _ (h.threads u hu hk)
    · rw [newThread_entry] at hk
      obtain ⟨⟨r, hr, hid⟩, -⟩ := h.owned.spawning e id args hl hk
      rw [newThread_id]
      exact hdis id (h.known r hr id hid)
  · intro u hu hou r hr hid
    rcases mem_concat_cases hu with hu | rfl
    · have hflow := h.flow u hu hou r hr hid
      rw [pendingTo, ending, hl] at hflow
      exact hflow
    · have hk := (owns_iff.1 hou).1
      rw [newThread_entry] at hk
      rw [newThread_id] at hid
      obtain ⟨hitems, hqueue⟩ := h.spawn e id args hl hk
      have hq := hqueue r hr hid
      rw [newThread_received, newThread_id, hitems]
      exact congrArg (· ++ []) hq
  · intro u hu hk
    rcases mem_concat_cases hu with hu | rfl
    · have hpast := h.past u hu hk
      rw [ending, hl] at hpast
      exact hpast
    · rw [newThread_received]
      exact nil_prefix

theorem Routed.reuse {id : BitVec 64} {inp : Input} {queue : Queue Item} (h : Routed c)
    (hr : c.heap[r]? = some inp) (hf : inp.freed = true) :
    Routed { c with heap := c.heap.set r ⟨id, queue, true⟩ } := by
  have hheap : ∀ r' ∈ c.inputs, (c.heap.set r ⟨id, queue, true⟩)[r']? = c.heap[r']? :=
    fun r' hr' => getElem?_set_ne (h.owned.ne_of_freed hr hf hr')
  have hids : ∀ r' ∈ c.inputs,
      (ids { c with heap := c.heap.set r ⟨id, queue, true⟩ })[r']? = c.ids[r']? := by
    intro r' hr'
    rw [ids, getElem?_map, hheap r' hr', ids, getElem?_map]
  have hq : ∀ r' ∈ c.inputs,
      queueOf { c with heap := c.heap.set r ⟨id, queue, true⟩ } r' = c.queueOf r' := by
    intro r' hr'
    rw [queueOf, getElem?_map, hheap r' hr', queueOf, getElem?_map]
  refine ⟨h.owned.reuse hr hf, fun r' hr' k hk => ?_, h.threads, h.request, ?_, ?_, h.past⟩
  · exact h.known r' hr' k ((hids r' hr').symm.trans hk)
  · intro e k args hl hke
    obtain ⟨hitems, hqueue⟩ := h.spawn e k args hl hke
    refine ⟨hitems, fun r' hr' hk => (hq r' hr').trans (hqueue r' hr' ?_)⟩
    exact (hids r' hr').symm.trans hk
  · intro t ht hown r' hr' hk
    rw [hq r' hr']
    exact h.flow t ht hown r' hr' ((hids r' hr').symm.trans hk)

/-! ## Steps and runs -/

/-- **Every step keeps the invariant**, as long as the request ids are distinct. -/
theorem Routed.step (h : Routed c) (hs : Callwire.C.step entries c l = some c')
    (hnd : (requestIds c'.frames).Nodup) : Routed c' := by
  have ho := h.owned.step h.fresh hs
  cases step_move hs with
  | malformed => exact h
  | @route p msg r hl hd hsf hfi =>
    obtain ⟨hr, hid⟩ := connFindInput_some hfi
    refine h.read hl ho rfl rfl rfl rfl hnd (by simp) (by simp) (by simp) fun r' hr' id hid' => ?_
    have hiff : r = r' ↔ msg.id = id := by
      constructor
      · rintro rfl
        exact Option.mem_unique hid hid'
      · rintro rfl
        exact h.owned.input_eq hr hr' (hid.trans hid'.symm)
    simp only [pendingTo, itemFor, hsf, true_and, hiff]
  | @discard p msg hl hd hsf =>
    refine h.read hl ho rfl rfl rfl rfl hnd (by simp [hl]) (by simp [hl]) (by simp [hl])
      fun r hr id hid => ?_
    have hno : ¬ (isStreamFrame msg = true ∧ msg.id = id) := by
      rintro ⟨hst, rfl⟩
      rcases hsf with ⟨-, hfi⟩ | ⟨hns, -⟩
      · exact connFindInput_none hfi r hr hid
      · rw [hst] at hns
        cases hns
    rw [itemFor, if_neg hno, pendingTo, hl]
  | @request p msg hl hd hsf hrq =>
    refine h.read hl ho rfl rfl rfl rfl hnd ?_ (by simp) (by simp) fun r hr id hid => ?_
    · rintro m ⟨⟩
      exact ⟨rfl, hrq⟩
    · rw [itemFor_request hrq]
      rfl
  | drain hl => exact h.drain hl ho
  | push hl => exact h.push hl ho
  | @refuse msg ok errorType text hl =>
    have hend : c.ending = [] := by rw [ending, hl]
    refine h.loop ho (write_inputs _ _ _) (write_ids _ _) (write_threads _ _ _)
      (write_frames _ _ _) (by simp) (by simp) [] (fun r hr => ?_) (by rw [hend]; rfl)
    have hq : queueOf { c.writeError msg.id errorType text ok with loop := .reading } r =
        c.queueOf r := queueOf_congr (congrArg (List.map _) (write_heap _ _ _))
    rw [hq, pendingTo, pendingTo, hl, append_nil, append_nil]
  | register hl hfn he hk => exact h.register hl ho
  | accept hl hfn he hk =>
    refine h.loop ho rfl rfl rfl rfl (by simp) ?_ [] (fun r hr => ?_) (by simp [ending, hl])
    · rintro e id args ⟨⟩
      exact hk
    · simp [queueOf, pendingTo, hl]
  | spawn hl => exact h.spawned hl ho
  | noThread hl =>
    refine h.loop ho rfl rfl rfl rfl (by simp) (by simp) [] (fun r hr => ?_)
      (by simp [ending, hl])
    simp [queueOf, pendingTo, hl]
  | find ht hpc | ret ht hpc =>
    exact h.thread ho (fun _ hr => hr) rfl (fun _ => rfl) rfl rfl ht rfl rfl rfl
      (owns_mono rfl (by simp [hpc])) rfl
  | emit ht hpc =>
    refine h.thread ho (fun _ hr => (write_inputs _ _ _) ▸ hr) (write_ids _ _)
      (fun _ => queueOf_congr (congrArg (List.map _) (write_heap _ _ _)))
      (write_loop _ _ _) (write_frames _ _ _) ht (write_setThread _ _ _ _ _) rfl rfl
      (owns_mono rfl (by simp [hpc])) ?_
    simp [received]
  | @recv i t ok r inp item queue ht hpc ha hr hq =>
    exact h.recv ho ht hpc (hasInput_of_recv ha) hr (Queue.items_of_pop? hq)
  | reply ht hpc =>
    exact h.thread ho (fun _ hr => (write_inputs _ _ _) ▸ hr) (write_ids _ _)
      (fun _ => queueOf_congr (congrArg (List.map _) (write_heap _ _ _)))
      (write_loop _ _ _) (write_frames _ _ _) ht (write_setThread _ _ _ _ _) rfl rfl
      (owns_mono rfl (by simp [hpc])) rfl
  | remove ht hpc hj =>
    refine h.thread ho (fun r hr => ?_) rfl (fun _ => rfl) rfl rfl ht rfl rfl rfl
      (owns_mono rfl (by simp [hpc])) rfl
    exact ((mem_swapRemove h.owned.inputs_nodup hj r).1 hr).1
  | removeNone ht hpc =>
    exact h.thread ho (fun _ hr => hr) rfl (fun _ => rfl) rfl rfl ht rfl rfl rfl
      (owns_mono rfl (by simp [hpc])) rfl
  | free ht hpc =>
    refine h.thread ho (fun _ hr => hr) streamInputFree_ids (fun _ => queueOf_congr ?_) rfl rfl
      ht rfl rfl rfl (fun ho => ?_) rfl
    · exact map_modify_of_eq _ _ _ _ fun _ => rfl
    · simp [owns] at ho
  | reuse hr hf => exact h.reuse hr hf

theorem step_frames (hs : Callwire.C.step entries c l = some c') : c.frames <+: c'.frames := by
  cases step_move hs with
  | route | discard | request => exact prefix_append _ _
  | drain =>
    obtain ⟨-, -, -, hfr, -⟩ := drainInputs_eq c
    exact hfr.symm ▸ prefix_rfl
  | refuse | emit | reply => exact (write_frames _ _ _).symm ▸ prefix_rfl
  | _ => exact prefix_rfl

theorem requestIds_nodup_mono {frames frames' : List WireMessage} (hp : frames <+: frames')
    (h : (requestIds frames').Nodup) : (requestIds frames).Nodup :=
  h.sublist ((hp.sublist.filter _).map _)

end

/-! ## The chunks of a call -/

/-- A `stream_close` or `stream_end` with id `k`. -/
def isEnd (k : BitVec 64) (msg : WireMessage) : Bool :=
  (typeIs msg "stream_close" || typeIs msg "stream_end") && msg.id == k

section
variable {k : BitVec 64} {msg : WireMessage} {frames : List WireMessage} {items items' : List Item}

end

def callF : Payload :=
  .mem ([0x84, 0xA2] ++ lit "id" ++ [0x01, 0xA4] ++ lit "type" ++ [0xA7] ++ lit "request" ++
    [0xA4] ++ lit "func" ++ [0xA1] ++ lit "f" ++ [0xA4] ++ lit "args" ++ [0x90]) (by decide)

def chunkF : Payload :=
  .mem ([0x83, 0xA2] ++ lit "id" ++ [0x01, 0xA4] ++ lit "type" ++ [0xAC] ++ lit "stream_chunk" ++
    [0xA6] ++ lit "result" ++ [0xC0]) (by decide)

theorem lit_f : 0#8 ∉ lit "f" := by decide

theorem lit_g : 0#8 ∉ lit "g" := by decide

end Callwire.C
