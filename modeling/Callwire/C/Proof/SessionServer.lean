import Callwire.C.Proof.SessionStage

/-!
# The server's own steps during one operation

A step of the read loop or of a thread, with the socket taking every frame, leads from one `Stage`
to another (`Stage.own`). The frames it writes continue the replies of the operation, and it goes
down in the order of `Lower`: the read loop comes closer to its next read, or a thread to its end,
the current one along the local run of its handler.
-/

namespace Callwire.C

open Lib List Conn Option Outgoing

/-- The steps the threads have left, with `fuel` for the handler of the current one. -/
def Conn.threadRank (c : Conn) (fuel : Nat) : Nat := (c.threads.map (·.pc.rank)).sum + fuel

/-- The server has come closer to rest. -/
def Lower (c' : Conn) (fuel' : Nat) (c : Conn) (fuel : Nat) : Prop :=
  c'.loop.rank < c.loop.rank ∨
    c'.loop.rank = c.loop.rank ∧ c'.threadRank fuel' < c.threadRank fuel

/-- An own step of the server within a stage: where it leads and what it writes. -/
def Onward (n : Nat) (i : BitVec 64) (op : Op) (a : Answer) (heard todo cur : List Outgoing)
    (c : Conn) (fuel : Nat) (c' : Conn) : Prop :=
  ∃ fuel' new, c'.out = c.out ++ new ∧ c'.frames = c.frames ∧
    Stage n i op a c' heard todo (cur ++ new) fuel' ∧ (∀ m ∈ new, m.Frameable) ∧
    Lower c' fuel' c fuel

section
variable {entries : List Entry} {n j : Nat} {i : BitVec 64} {op : Op} {a : Answer} {c c' : Conn}
  {heard todo cur mid : List Outgoing} {fuel fuel' : Nat} {t t' u : Thread} {ok : Bool}
  {r : List (Option Value) × Int × Value} {emitted : List (Option Value)} {result : Value}

theorem lower_set (ht : c.threads[j]? = some t) (hth : c'.threads = c.threads.set j t')
    (hl : c'.loop = c.loop) (h : t'.pc.rank + fuel' < t.pc.rank + fuel) :
    Lower c' fuel' c fuel := by
  refine .inr ⟨by rw [hl], ?_⟩
  have hj : (c.threads.map (·.pc.rank))[j]? = some t.pc.rank := by
    rw [getElem?_map, ht]
    rfl
  have hsum := sum_set_add t'.pc.rank hj
  rw [threadRank, threadRank, hth, map_set]
  omega

/-! ## Threads that have replied -/

theorem past_step (ho : Owned c) (ht : c.threads[j]? = some t) (hp : t.pc.past = true)
    (hs : step entries c (.thread j ok) = some c') :
    ∃ t', t'.pc.past = true ∧ t'.pc.rank < t.pc.rank ∧ c'.threads = c.threads.set j t' ∧
      c'.loop = c.loop ∧ c'.frames = c.frames ∧ c'.out = c.out ∧ c'.ids = c.ids ∧
      (∀ r ∈ c'.inputs, r ∈ c.inputs) ∧
      ∀ r ∈ c.inputs, r ∉ c'.inputs → t.owns = true ∧ c.ids[r]? = some t.id := by
  have busy : ∀ {pc : ThreadPc} {t₁ : Thread}, c.threads[j]? = some t₁ → t₁.pc = pc →
      pc.past = false → False := by
    intro pc t₁ ht₁ hpc hb
    obtain rfl : t = t₁ := mem_unique ht ht₁
    rw [hpc, hb] at hp
    cases hp
  cases step_move hs with
  | find ht₁ hpc | ret ht₁ hpc | emit ht₁ hpc | recv ht₁ hpc | reply ht₁ hpc =>
    exact (busy ht₁ hpc rfl).elim
  | @remove _ j' r t₁ _ ht₁ hpc hj hid =>
    obtain rfl : t = t₁ := mem_unique ht ht₁
    have hmem := mem_swapRemove ho.inputs_nodup hj
    refine ⟨{ t with pc := .free r }, rfl, by rw [hpc]; exact Nat.lt_succ_self 1, rfl, rfl,
      rfl, rfl,
      rfl, fun r' hr' => ((hmem r').1 hr').1, fun r' hr' hn => ?_⟩
    have hrr : r' = r := by
      by_contra hne
      exact hn ((hmem r').2 ⟨hr', hne⟩)
    rw [hrr]
    exact ⟨ho.owns_of_remove ht hpc, hasId_iff.1 hid⟩
  | @removeNone _ t₁ _ ht₁ hpc =>
    obtain rfl : t = t₁ := mem_unique ht ht₁
    exact ⟨{ t with pc := .done }, rfl, by rw [hpc]; exact Nat.two_pos, rfl, rfl, rfl, rfl, rfl,
      fun _ hr => hr, fun _ hr hn => absurd hr hn⟩
  | @free _ r t₁ _ ht₁ hpc =>
    obtain rfl : t = t₁ := mem_unique ht ht₁
    exact ⟨{ t with pc := .done }, rfl, by rw [hpc]; exact Nat.one_pos, rfl, rfl, rfl, rfl,
      streamInputFree_ids, fun _ hr => hr, fun _ hr hn => absurd hr hn⟩

theorem Stray.mono {m : Outgoing} (h : Stray c m) (hids : c'.ids = c.ids)
    (hin : ∀ r ∈ c'.inputs, r ∈ c.inputs) : Stray c' m :=
  ⟨h.1, fun r hr => hids ▸ h.2 r (hin r hr)⟩

theorem Calm.own {l : Label} (h : Calm c n) (ho : Owned c)
    (hl : l = .loop true ∨ ∃ j, l = .thread j true) (hs : step entries c l = some c') (fuel : Nat) :
    c'.out = c.out ∧ c'.frames = c.frames ∧ Calm c' n ∧ (∀ m, Stray c m → Stray c' m) ∧
      Lower c' fuel c fuel := by
  rcases hl with rfl | ⟨j, rfl⟩
  · unfold step at hs
    rw [h.loop] at hs
    cases hs
  · obtain ⟨t, ht, -⟩ := bind_eq_some_iff.1 hs
    obtain ⟨t', hp', hrank, hth, hlp, hfr, hout, hids, hin, -⟩ :=
      past_step ho ht (h.past t (mem_of_getElem? ht)) hs
    refine ⟨hout, hfr, ⟨hlp.trans h.loop, ?_, ?_⟩, fun m hm => hm.mono hids hin,
      lower_set ht hth hlp (by omega)⟩
    · rw [hth, length_set, h.length]
    · rw [hth]
      exact forall_set ht h.past hp'

theorem Follows.active (h : Follows n op t emitted r fuel) : t.pc.past = false := by
  unfold Follows at h
  cases hpc : t.pc <;> rw [hpc] at h
  case start | running | reply => rfl
  all_goals exact h.elim

theorem Follows.owns (h : Follows n op t emitted r fuel) (hk : t.entry.kind.hasInput = true) :
    t.owns = true := by
  have hact := h.active
  refine Thread.owns_iff.2 ⟨hk, fun r hpc => ?_, fun hpc => ?_⟩ <;>
    rw [hpc] at hact <;> cases hact

theorem Onward.silent (hout : c'.out = c.out) (hfr : c'.frames = c.frames)
    (h : Stage n i op a c' heard todo cur fuel') (hlow : Lower c' fuel' c fuel) :
    Onward n i op a heard todo cur c fuel c' :=
  ⟨fuel', [], by rw [hout, append_nil], hfr, by rwa [append_nil],
    nofun, hlow⟩

theorem Stage.past (h : Stage n i op a c heard todo cur fuel) (ho : Owned c)
    (ht : c.threads[j]? = some t) (hp : t.pc.past = true)
    (hs : step entries c (.thread j true) = some c') :
    Onward n i op a heard todo cur c fuel c' := by
  obtain ⟨t', hp', hrank, hth, hlp, hfr, hout, hids, hin, hgone⟩ := past_step ho ht hp hs
  have hlow : Lower c' fuel c fuel := lower_set ht hth hlp (by omega)
  have hlen' : c'.threads.length = c.threads.length := by rw [hth, length_set]
  refine .silent hout hfr ?_ hlow
  cases h with
  | asked calm hst htodo hcur =>
    obtain ⟨-, -, calm', hst', -⟩ := calm.own ho (.inr ⟨j, rfl⟩) hs fuel
    exact .asked calm' (fun m hm => hst' m (hst m hm)) htodo hcur
  | taken hl hlen hpast hheard htodo hcur =>
    exact .taken (hlp.trans hl) (hlen'.trans hlen) (hth ▸ forall_set ht hpast hp') hheard htodo hcur
  | spawning ha hl hlen hpast hheard htodo hcur =>
    exact .spawning ha (hlp.trans hl) (hlen'.trans hlen)
      (hth ▸ forall_set ht hpast hp') hheard htodo
      hcur
  | @running fuel₀ chunks rc result u mid emitted ha hlen hpast hu hid hargs hloop hheard htodo hcur
      hrun =>
    have hjn : j ≠ n := by
      intro hj
      rw [hj, hu] at ht
      cases ht
      rw [hrun.active] at hp
      cases hp
    refine .running ha (hlen'.trans hlen) ?_ ?_ hid hargs ?_ hheard htodo hcur hrun
    · rw [hth]
      intro k v hk hv
      rcases set_cases ht hv with ⟨-, rfl⟩ | ⟨-, hv⟩
      · exact hp'
      · exact hpast k v hk hv
    · rw [hth, getElem?_set_ne hjn]
      exact hu
    · rw [Feeds, hlp, hids]
      rcases hloop with hl | ⟨r, item, hl, hr, hrid, hk⟩
      · exact .inl hl
      · refine .inr ⟨r, item, hl, ?_, hrid, hk⟩
        -- the input of the current operation is not the one removed
        by_contra hr'
        obtain ⟨hown, htid⟩ := hgone r hr hr'
        have hsame : t.id = u.id := by
          rw [hrid] at htid
          rw [hid]
          exact (some.inj htid).symm
        exact hjn (ho.unique j n t u ht hu hown (hrun.owns hk) hsame)
  | answered calm hst hcur =>
    obtain ⟨-, -, calm', hst', -⟩ := calm.own ho (.inr ⟨j, rfl⟩) hs fuel
    exact .answered calm' (fun m hm => hst' m (hst m hm)) hcur

/-! ## The read loop -/

theorem request_message (op : Op) (i : BitVec 64) : (op.request i).message =
    { id := i, type := some (lit "request"), func := some op.func.bytes, args := op.args } := by
  cases op <;> rfl

theorem dispatch_missing (he : findHandler entries op.func.bytes = none) :
    c.dispatchRequest entries (op.request i).message ok =
      { (c.write (Answer.missing.final op i) ok).2 with loop := .reading } := by
  rw [request_message, dispatchRequest]
  simp only [he]
  rfl

theorem dispatch_found {e : Entry} (he : findHandler entries op.func.bytes = some e)
    (hf : op.fits e.kind = true) : c.dispatchRequest entries (op.request i).message ok =
      { (if e.kind.hasInput then c.connRegisterInput i else c) with
        loop := .spawn e i op.args } := by
  have hbidi : e.kind ≠ .bidiCtx := by
    intro hk
    rw [hk] at hf
    cases op <;> simp [Op.fits] at hf
  rw [request_message, dispatchRequest]
  simp only [he, hbidi, false_and, if_false, ne_eq, not_true_eq_false, and_false]
  cases e.kind.hasInput <;> rfl

theorem fits_hasInput {k : HandlerKind} (h : op.fits k = true) (hk : k.hasInput = true) :
    op.args = [] ∧ k = .clientStreamCtx := by
  cases op with
  | call | stream => cases k <;> simp [Op.fits, HandlerKind.hasInput] at h hk
  | exportStream => exact ⟨rfl, by simpa [Op.fits] using h⟩

theorem newThread_follows {e : Entry} {chunks : List (Option Value)} {rc : Int}
    (hf : op.fits e.kind = true)
    (h : e.runLocal n op.args fuel op.input [] [] = some (chunks, rc, result)) :
    (newThread e i op.args).args = op.args ∧
      Follows n op (newThread e i op.args) [] (chunks, rc, result) fuel := by
  unfold newThread
  cases hk : e.kind.hasInput with
  | true => exact ⟨(fits_hasInput hf hk).1.symm, op.input, rfl, h⟩
  | false => exact ⟨rfl, op.input, rfl, h⟩

/-- **The read loop moves on.** -/
theorem Stage.loop (h : Stage n i op a c heard todo cur fuel) (hr : Routed c)
    (hv : a.Valid entries n op i) (hs : step entries c (.loop true) = some c') :
    Onward n i op a heard todo cur c fuel c' := by
  unfold step at hs
  cases h with
  | asked calm =>
    rw [calm.loop] at hs
    cases hs
  | taken hl hlen hpast hheard htodo hcur =>
    have hlow : ∀ {d : Conn} {f : Nat}, d.loop.rank < 2 → Lower d f c fuel := by
      intro d f hd
      refine .inl ?_
      rw [hl]
      exact hd
    rw [hl] at hs
    have hs : c.dispatchRequest entries (op.request i).message true = c' := some.inj hs
    cases a with
    | missing =>
      rw [dispatch_missing hv.2] at hs
      have hfit := hv.1 _ (mem_singleton_self _)
      rw [write_frameable c hfit] at hs
      cases hs
      refine ⟨fuel, [_], rfl, rfl, .answered ⟨rfl, hlen, hpast⟩ (fun m hm => ?_) ?_, ?_,
        hlow Nat.two_pos⟩
      · rw [htodo] at hm
        obtain ⟨hsf, hid⟩ := body_stream hm
        refine ⟨hsf, fun r hrm hrid => ?_⟩
        have hd := (hr.known r hrm m.id hrid).2 _ hl
        rw [hid, message_id] at hd
        exact hd (by cases op <;> rfl)
      · rw [hcur]
        rfl
      · exact forall_mem_singleton.2 hfit
    | found e fuel₀ chunks rc result =>
      obtain ⟨-, he, hf, -⟩ := hv
      rw [dispatch_found he hf] at hs
      cases hs
      refine @Onward.silent _ _ _ _ _ _ _ _ _ fuel fuel ?_ ?_
        (.spawning rfl rfl ?_ ?_ hheard htodo hcur) (hlow Nat.one_lt_two)
      · cases e.kind.hasInput <;> rfl
      · cases e.kind.hasInput <;> rfl
      · rw [← hlen]
        cases e.kind.hasInput <;> rfl
      · cases e.kind.hasInput <;> exact hpast
  | @spawning e fuel₀ chunks rc result ha hl hlen hpast hheard htodo hcur =>
    subst ha
    obtain ⟨-, he, hf, -, hrun⟩ := hv
    obtain ⟨hargs, hfol⟩ := newThread_follows (i := i) hf hrun
    rw [hl] at hs
    cases hs
    have hent := newThread_entry e i op.args
    have hcur' : cur = ([] : List (Option Value)).map (.streamChunk i) := hcur
    have htodo' : [] ++ todo = op.body i := htodo
    refine .silent rfl rfl (.running (t := newThread e i op.args) (by rw [hent]) ?_ ?_ ?_
      (newThread_id _ _ _) hargs (.inl rfl) hheard htodo' hcur' hfol) (.inl ?_)
    · exact (length_append ..).trans (by rw [hlen]; rfl)
    · intro k u hk hu
      have hu' : c.threads[k]? = some u := by
        rw [← hu]
        exact (getElem?_append_left (by omega)).symm
      exact hpast u (mem_of_getElem? hu')
    · rw [← hlen]
      exact getElem?_concat_length
    · rw [hl]
      exact Nat.one_pos
  | running ha hlen hpast ht hid hargs hloop hheard htodo hcur hrun =>
    rcases hloop with hl | ⟨r, item, hl, -⟩
    · rw [hl] at hs
      cases hs
    · rw [hl] at hs
      cases hs
      refine .silent rfl rfl (.running ha hlen hpast ht hid hargs (.inl rfl) hheard htodo hcur hrun)
        (.inl ?_)
      rw [hl]
      exact Nat.one_pos
  | answered calm =>
    rw [calm.loop] at hs
    cases hs

/-! ## The current thread -/

theorem framesAfter_split {k : BitVec 64} {msg : WireMessage} {mid : List WireMessage}
    (hr : typeIs msg "request" = true ∧ msg.id = k) : ∀ pre : List WireMessage,
    k ∉ requestIds pre → framesAfter k (pre ++ msg :: mid) = mid
  | [], _ => by rw [nil_append, framesAfter, if_pos hr]
  | m :: pre, h => by
    have hm : ¬ (typeIs m "request" = true ∧ m.id = k) := by
      rintro ⟨hm, rfl⟩
      exact h (by simp [requestIds, hm])
    rw [cons_append, framesAfter, if_neg hm]
    refine framesAfter_split hr pre fun hk => h ?_
    simp only [requestIds, filter_cons]
    split
    · exact mem_cons_of_mem _ hk
    · exact hk

/-- The items after the current request are those of the frames since. -/
theorem current_items (hnd : (requestIds c.frames).Nodup)
    (hf : c.frames = heard.map message)
    (hheard : ∃ pre, heard = pre ++ op.request i :: mid) :
    itemsAfter i c.frames = (mid.map message).flatMap (itemFor i) := by
  obtain ⟨pre, rfl⟩ := hheard
  have hreq : typeIs (op.request i).message "request" = true ∧ (op.request i).message.id = i :=
    ⟨request_message_type op i, by rw [request_message]⟩
  rw [hf, map_append, map_cons] at hnd ⊢
  rw [itemsAfter, framesAfter_split hreq]
  intro hk
  simp only [requestIds, filter_append, map_append, filter_cons, hreq.1, if_true,
    map_cons, hreq.2] at hnd
  exact (nodup_append.1 hnd).2.2 i hk i (mem_cons_self ..) rfl

/-- What the current handler has received, what is in its queue, what is about to be pushed and
what is on its way are its input. -/
def Fed (c : Conn) (i : BitVec 64) (op : Op) (t : Thread) (todo : List Outgoing) : Prop :=
  ∃ r ∈ c.inputs, c.ids[r]? = some i ∧ (∀ input, t.pc = .running input → input = some r) ∧
    t.received ++ (c.queueOf r ++ (c.pendingTo r ++
      (todo.map message).flatMap (itemFor i))) = op.input

theorem current_flow (hr : Routed c)
    (hitems : itemsAfter i c.frames = (mid.map message).flatMap (itemFor i))
    (htodo : mid ++ todo = op.body i) (hloop : c.loop ≠ .closed) (ht : c.threads[n]? = some t)
    (hid : t.id = i) (hown : t.owns = true) : Fed c i op t todo := by
  obtain ⟨r, hrm, hrid, hrun⟩ := hr.owned.owner n t ht hown
  have hflow := hr.flow t (mem_of_getElem? ht) hown r hrm hrid
  have hend : c.ending = [] := by
    unfold ending
    split
    · rename_i hl
      exact absurd hl hloop
    · rfl
  rw [hid, hend, append_nil, hitems] at hflow
  refine ⟨r, hrm, hid ▸ hrid, hrun, ?_⟩
  rw [← body_items op i, ← htodo, map_append, flatMap_append, ← hflow]
  simp only [append_assoc]

theorem received_all {rest : List Item} (h : t.received ++ rest = op.input)
    (hfin : .fin ∈ t.received) : t.received = op.input := by
  rcases eq_nil_or_concat rest with rfl | ⟨rest, x, rfl⟩
  · rw [← h, append_nil]
  · exfalso
    rw [concat_eq_append, ← append_assoc] at h
    cases op with
    | call | stream => exact absurd h (by simp [Op.input])
    | exportStream f chunks =>
      have hinit := (append_inj' h rfl).1
      have hmem := mem_append_left rest hfin
      rw [hinit] at hmem
      simp at hmem

theorem body_item_ne_nil {m : Outgoing} (h : m ∈ op.body i) : itemFor i m.message ≠ [] := by
  obtain ⟨hsf, hid⟩ := body_stream h
  rw [itemFor, if_pos ⟨hsf, by rw [message_id, hid]⟩]
  exact cons_ne_nil _ _

theorem replyOf_eq {rc : Int} (hf : op.fits t.entry.kind = true) (hid : t.id = i) :
    replyOf t rc result = op.finalReply i rc result := by
  unfold replyOf Op.finalReply
  rw [hid]
  split
  · rfl
  · cases op with
    | call | exportStream =>
      have hk : t.entry.kind.hasOutput = false := by
        cases hk : t.entry.kind <;> rw [hk] at hf <;> first | rfl | simp [Op.fits] at hf
      rw [hk]
      rfl
    | stream =>
      have hk : t.entry.kind = .streamCtx := by simpa [Op.fits] using hf
      rw [hk]
      rfl

theorem received_of_ret {rest : List Item} {rc : Int} (hf : op.fits t.entry.kind = true)
    (hd : t.entry.kind = .clientStreamCtx → t.entry.Drains) (h : t.received ++ rest = op.input)
    (ha : t.entry.fn j t.args t.events = .ret rc result) : t.received = op.input := by
  cases op with
  | call | stream => exact (append_eq_nil_iff.1 h).1
  | exportStream f chunks =>
    have hk : t.entry.kind = .clientStreamCtx := by simpa [Op.fits] using hf
    have hfin := hd hk _ _ _ _ _ ha
    exact received_all h (mem_filterMap.2 ⟨_, hfin, rfl⟩)

/-- Once the handler has received all of its input, nothing is left of the body. -/
theorem body_done (hf : op.fits t.entry.kind = true) (ho : Owned c)
    (hloop : Feeds c i t) (htodo : mid ++ todo = op.body i) (hall : t.received = op.input)
    (hflow : t.entry.kind.hasInput = true → Fed c i op t todo) :
    c.loop = .reading ∧ todo = [] := by
  cases hk : t.entry.kind.hasInput with
  | true =>
    obtain ⟨r, hr, hrid, -, hin⟩ := hflow hk
    rw [← hall] at hin
    have hnil := append_eq_nil_iff.1 (append_right_eq_self.1 hin)
    obtain ⟨hpend, hitems⟩ := append_eq_nil_iff.1 hnil.2
    constructor
    · rcases hloop with hl | ⟨r', item, hl, hr', hrid', -⟩
      · exact hl
      · have hrr := ho.input_eq hr' hr (hrid'.trans hrid.symm)
        rw [pendingTo, hl] at hpend
        simp only [hrr, if_true] at hpend
        cases hpend
    · cases todo with
      | nil => rfl
      | cons m todo =>
        rw [map_cons, flatMap_cons] at hitems
        have hm : m ∈ op.body i := htodo ▸ mem_append_right _ (mem_cons_self ..)
        exact absurd (append_eq_nil_iff.1 hitems).1 (body_item_ne_nil hm)
  | false =>
    constructor
    · rcases hloop with hl | ⟨r', item, -, -, -, hk'⟩
      · exact hl
      · rw [hk] at hk'
        cases hk'
    · cases op with
      | call | stream => exact (append_eq_nil_iff.1 htodo).2
      | exportStream =>
        have hkind : t.entry.kind = .clientStreamCtx := by simpa [Op.fits] using hf
        rw [hkind] at hk
        cases hk

theorem Stage.not_closed (h : Stage n i op a c heard todo cur fuel) : c.loop ≠ .closed := by
  cases h with
  | asked calm => rw [calm.loop]; exact nofun
  | taken hl | spawning _ hl => rw [hl]; exact nofun
  | running _ _ _ _ _ _ hloop =>
    rcases hloop with hl | ⟨r, item, hl, -⟩ <;> rw [hl] <;> exact nofun
  | answered calm => rw [calm.loop]; exact nofun

/-- **The thread of the current operation moves.** -/
theorem Stage.current (h : Stage n i op a c heard todo cur fuel) (hr : Routed c)
    (hnd : (requestIds c.frames).Nodup) (hfr : c.frames = heard.map message)
    (hv : a.Valid entries n op i) (ht : c.threads[j]? = some t) (hact : t.pc.past = false)
    (hs : step entries c (.thread j true) = some c') :
    Onward n i op a heard todo cur c fuel c' := by
  have hclosed := h.not_closed
  have none_past : (∀ u ∈ c.threads, u.pc.past = true) → False := by
    intro hpast
    rw [hpast t (mem_of_getElem? ht)] at hact
    cases hact
  cases h with
  | asked calm => exact (none_past calm.past).elim
  | taken _ _ hpast | spawning _ _ _ hpast => exact (none_past hpast).elim
  | answered calm => exact (none_past calm.past).elim
  | @running fuel₀ chunks rc result u mid emitted ha hlen hpast hu hid hargs hloop hheard htodo hcur
      hrun =>
    obtain rfl : j = n := by
      by_contra hjn
      have hlt := lt_of_some ht
      rw [hpast j t (by omega) ht] at hact
      cases hact
    obtain rfl : t = u := mem_unique ht hu
    subst ha
    obtain ⟨hfit, -, hf, hd, -⟩ := hv
    have hflow : t.entry.kind.hasInput = true → Fed c i op t todo := fun hk =>
      current_flow hr (current_items hnd hfr hheard) htodo hclosed ht hid (hrun.owns hk)
    -- the thread goes on inside its handler, or to its reply
    have moved : ∀ {d : Conn} {t' : Thread} {emitted' : List (Option Value)} {fuel' : Nat},
        d.threads = c.threads.set j t' → d.loop = c.loop → d.inputs = c.inputs → d.ids = c.ids →
        t'.entry = t.entry → t'.id = t.id → t'.args = t.args →
        Follows j op t' emitted' (chunks, rc, result) fuel' →
        Stage j i op (.found t.entry fuel₀ chunks rc result) d heard todo
          (emitted'.map (.streamChunk i)) fuel' := by
      intro d t' emitted' fuel' hth hlp hin hids he hi har hfol
      refine .running (t := t') (by rw [he]) (by rw [hth, length_set, hlen]) ?_ ?_
        (hi.trans hid) (har.trans hargs) ?_ hheard htodo rfl hfol
      · rw [hth]
        intro k v hk hv
        rcases set_cases ht hv with ⟨rfl, -⟩ | ⟨-, hv⟩
        · omega
        · exact hpast k v hk hv
      · rw [hth]
        exact set_of_some ht
      · rw [Feeds, hlp, hin, hids, he]
        exact hloop
    have same : ∀ {u : Thread}, c.threads[j]? = some u → t = u := fun hu =>
      mem_unique ht hu
    unfold Follows at hrun
    cases step_move hs with
    | find hu hpc =>
      obtain rfl := same hu
      rw [hpc] at hrun
      rw [hcur]
      exact .silent rfl rfl (moved rfl rfl rfl rfl rfl rfl rfl hrun)
        (lower_set ht rfl rfl (Nat.add_lt_add_right (by rw [hpc]; exact Nat.lt_succ_self 4) fuel))
    | ret hu hpc hact =>
      obtain rfl := same hu
      rw [hpc] at hrun
      obtain ⟨rest, hrec, hl⟩ := hrun
      have hall := received_of_ret hf hd hrec hact
      rw [hargs] at hact
      rw [hcur]
      exact .silent rfl rfl (moved rfl rfl rfl rfl rfl rfl rfl ⟨hall, runLocal_ret hl hact⟩)
        (lower_set ht rfl rfl (Nat.add_lt_add_right (by rw [hpc]; exact Nat.lt_succ_self 3) fuel))
    | @emit _ _ _ _ chunk hu hpc hact =>
      obtain rfl := same hu
      subst hid
      rw [hpc] at hrun
      obtain ⟨rest, hrec, hl⟩ := hrun
      rw [hargs] at hact
      obtain ⟨fuel', rfl, hl'⟩ := runLocal_emit hl hact
      have hmem : chunk ∈ chunks := (runLocal_mono hl').subset (by simp)
      have hmf : (streamChunk t.id chunk).Frameable :=
        hfit _ (mem_append_left _ (mem_map_of_mem hmem))
      rw [write_frameable c hmf]
      refine ⟨fuel', [.streamChunk t.id chunk], rfl, rfl, ?_, ?_, ?_⟩
      · have hcur' : cur ++ [.streamChunk t.id chunk] =
            (emitted ++ [chunk]).map (.streamChunk t.id) := by rw [hcur, map_append]; rfl
        rw [hcur']
        refine moved rfl rfl rfl rfl rfl rfl rfl ?_
        unfold Follows
        rw [hpc]
        refine ⟨rest, ?_, hl'⟩
        rw [← hrec]
        simp [Thread.received]
      · exact forall_mem_singleton.2 hmf
      · exact lower_set ht rfl rfl (Nat.lt_succ_self _)
    | @recv _ _ _ r inp item queue hu hpc hact hheap hq =>
      obtain rfl := same hu
      obtain ⟨r', -, -, hrr, hin⟩ := hflow (hasInput_of_recv hact)
      obtain rfl := some.inj (hrr _ hpc)
      rw [hpc] at hrun
      obtain ⟨rest, hrec, hl⟩ := hrun
      rw [hargs] at hact
      obtain ⟨fuel', item', rest', rfl, rfl, hl'⟩ := runLocal_recv hl hact
      -- the head of the queue is the next item of the input
      have hhead : item' = item := by
        have hqr : c.queueOf r = item :: queue.items := by
          simp [queueOf, hheap, Queue.items_of_pop? hq]
        rw [← hrec, hqr] at hin
        exact (List.cons.inj (append_cancel_left hin)).1.symm
      subst hhead
      rw [hcur]
      refine .silent rfl rfl (moved rfl rfl rfl (map_set_of_eq _ hheap rfl) rfl rfl rfl ?_)
        (lower_set ht rfl rfl (Nat.lt_succ_self (t.pc.rank + fuel')))
      unfold Follows
      rw [hpc]
      refine ⟨rest', ?_, hl'⟩
      rw [← hrec]
      simp [Thread.received]
    | @reply _ _ _ rc' result' hu hpc =>
      obtain rfl := same hu
      rw [hpc] at hrun
      obtain ⟨hall, heq⟩ := hrun
      cases heq
      have hrest := body_done hf hr.owned hloop htodo hall hflow
      have hrep : replyOf t rc result = op.finalReply i rc result := replyOf_eq hf hid
      have hmf : (op.finalReply i rc result).Frameable :=
        hfit _ (mem_append_right _ (mem_singleton_self _))
      rw [hrep, write_frameable c hmf]
      refine ⟨fuel, [op.finalReply i rc result], rfl, rfl,
        .answered ⟨hrest.1, ?_, ?_⟩ ?_ ?_, ?_, ?_⟩
      · exact (length_set ..).trans hlen
      · intro v hv
        obtain ⟨k, hk⟩ := mem_iff_getElem?.1 hv
        rcases set_cases ht hk with ⟨-, rfl⟩ | ⟨hjk, hk⟩
        · cases t.entry.kind.hasInput <;> rfl
        · have := lt_of_some hk
          exact hpast k v (by omega) hk
      · rw [hrest.2]
        exact (by simp)
      · rw [hcur]
        rfl
      · exact forall_mem_singleton.2 hmf
      · refine lower_set ht rfl rfl (Nat.add_lt_add_right ?_ fuel)
        rw [hpc]
        cases t.entry.kind.hasInput
        · exact Nat.succ_pos 2
        · exact Nat.lt_succ_self 2
    | remove hu hpc | removeNone hu hpc | free hu hpc =>
      rw [same hu, hpc] at hact
      cases hact

/-- **The server moves within the operation.** -/
theorem Stage.own {l : Label} (h : Stage n i op a c heard todo cur fuel) (hr : Routed c)
    (hnd : (requestIds c.frames).Nodup) (hfr : c.frames = heard.map message)
    (hv : a.Valid entries n op i) (hl : l = .loop true ∨ ∃ j, l = .thread j true)
    (hs : step entries c l = some c') : Onward n i op a heard todo cur c fuel c' := by
  rcases hl with rfl | ⟨j, rfl⟩
  · exact h.loop hr hv hs
  · obtain ⟨t, ht, -⟩ := bind_eq_some_iff.1 hs
    cases hp : t.pc.past with
    | true => exact h.past hr.owned ht hp hs
    | false => exact h.current hr hnd hfr hv ht hp hs

/-! ## The replies so far -/

theorem Follows.emitted_mono (h : Follows n op t emitted r fuel) : emitted <+: r.1 := by
  unfold Follows at h
  split at h
  · obtain ⟨rest, -, hl⟩ := h
    exact runLocal_mono hl
  · obtain ⟨rest, -, hl⟩ := h
    exact runLocal_mono hl
  · exact h.2 ▸ prefix_rfl
  · exact h.elim

/-- What the server has written for the operation is the beginning of its replies; with the last of
them the operation is answered. -/
theorem Stage.replies (h : Stage n i op a c heard todo cur fuel) :
    (∃ emitted, emitted <+: a.chunks ∧ cur = emitted.map (.streamChunk i)) ∨
      Calm c (n + a.calls) ∧ (∀ m ∈ todo, Stray c m) ∧ cur = a.replies op i := by
  cases h with
  | asked _ _ _ hcur | taken _ _ _ _ _ hcur | spawning _ _ _ _ _ _ hcur =>
    exact .inl ⟨[], nil_prefix, hcur⟩
  | running ha _ _ _ _ _ _ _ _ hcur hrun =>
    subst ha
    exact .inl ⟨_, hrun.emitted_mono, hcur⟩
  | answered calm hst hcur => exact .inr ⟨calm, hst, hcur⟩

/-! ## At rest -/

/-- Neither the read loop nor a thread can move. -/
def Still (entries : List Entry) (c : Conn) : Prop :=
  ∀ l : Label, (l = .loop true ∨ ∃ j, l = .thread j true) → step entries c l = none

theorem Still.loop (h : Still entries c) (hc : c.loop ≠ .closed) : c.loop = .reading := by
  have hnone := h (.loop true) (.inl rfl)
  unfold step at hnone
  cases hl : c.loop with
  | reading => rfl
  | closed => exact absurd hl hc
  | push | request | spawn =>
    rw [hl] at hnone
    cases hnone

/-- **A server that has read all of the operation and is at rest has answered it.** -/
theorem Stage.still (h : Stage n i op a c heard [] cur fuel) (hr : Routed c)
    (hnd : (requestIds c.frames).Nodup) (hfr : c.frames = heard.map message)
    (hq : Still entries c) : cur = a.replies op i := by
  have hread := hq.loop h.not_closed
  cases h with
  | asked _ _ htodo => simp at htodo
  | taken hl | spawning _ hl =>
    rw [hl] at hread
    cases hread
  | answered _ _ hcur => exact hcur
  | @running fuel₀ chunks rc result t mid emitted ha hlen hpast ht hid hargs hloop hheard htodo hcur
      hrun =>
    exfalso
    rcases quiet_thread hr.owned (hq (.thread n true) (.inr ⟨n, rfl⟩)) ht with hpc | hwait
    · have hact := hrun.active
      rw [hpc] at hact
      cases hact
    · -- the handler waits, but its input has come to the end
      obtain ⟨r, hpc, hact, hqueue⟩ := hwait
      obtain ⟨r', -, -, hrr, hin⟩ := current_flow hr (current_items hnd hfr hheard) htodo
        (by rw [hread]; exact nofun) ht hid (hrun.owns (hasInput_of_recv hact))
      obtain rfl := some.inj (hrr _ hpc)
      unfold Follows at hrun
      rw [hpc] at hrun
      obtain ⟨rest, hrec, hl⟩ := hrun
      have hpend : c.pendingTo r = [] := by rw [pendingTo, hread]
      rw [hqueue, hpend, ← hrec] at hin
      have hrest : [] = rest := append_cancel_left hin
      rw [hargs] at hact
      obtain ⟨fuel', item, rest', -, hcons, -⟩ := runLocal_recv hl hact
      rw [← hrest] at hcons
      cases hcons

end

end Callwire.C
