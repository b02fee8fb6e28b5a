import Callwire.Ts.Proof.ClientStep

/-!
# The reply to a client stream

`exportStream` registers an entry that takes the reply and drops it, and `closeAndRecv` replaces it
by one that gives the reply to the application. So a reply that comes before `closeAndRecv` is lost
(`reply_swallowed`); and the timer of `exportStream`, which nobody clears, removes the entry of
`closeAndRecv` if it fires. If `closeAndRecv` has been called and no timer of the stream fires, the
reply settles it (`closeAndRecv_settles`).
-/

namespace Callwire.Ts

open Lib List Option

variable {J : Js}

/-! ## Other calls -/

namespace Client

variable {c c' c'' : Client J} {id k : Nat}

/-- Nothing changes for call `id`. -/
structure Apart (id : Nat) (c c' : Client J) : Prop where
  pending : c'.pending.lookup id = c.pending.lookup id
  ops : c'.ops id = c.ops id

namespace Apart

theorem refl (c : Client J) : Apart id c c := ⟨rfl, rfl⟩

theorem trans (h : Apart id c c') (h' : Apart id c' c'') : Apart id c c'' :=
  ⟨h'.pending.trans h.pending, h'.ops.trans h.ops⟩

theorem setOp (hk : id ≠ k) (op : Op J) : Apart id c (c.setOp k op) :=
  ⟨rfl, Function.update_of_ne hk ..⟩

theorem modifyOp (hk : id ≠ k) (f : Op J → Op J) : Apart id c (c.modifyOp k f) :=
  ⟨rfl, Function.update_of_ne hk ..⟩

theorem insertPending (hk : id ≠ k) (entry : Entry) : Apart id c (c.insertPending k entry) :=
  ⟨AList.lookup_insert_ne hk, rfl⟩

theorem erasePending (hk : id ≠ k) : Apart id c (c.erasePending k) :=
  ⟨AList.lookup_erase_ne hk, rfl⟩

theorem write (msg : WireMessage J) : Apart id c (c.write msg) := by
  unfold Client.write
  split <;> exact ⟨rfl, rfl⟩

end Apart

theorem dispatch_apart {msg : WireMessage J} (hid : id ≠ msg.id) : Apart id c (c.dispatch msg) := by
  have hmodify : ∀ f, Apart id c (c.modifyOp msg.id f) := fun f => .modifyOp hid f
  have herase : ∀ f, Apart id c ((c.erasePending msg.id).modifyOp msg.id f) :=
    fun f => (Apart.erasePending hid).trans (.modifyOp hid f)
  unfold dispatch
  split
  · exact .refl c
  · dsimp only
    split
    · exact hmodify _
    · exact herase _
  · split
    · exact hmodify _
    · split
      · exact herase _
      · split
        · exact herase _
        · exact .refl c
  · split
    · exact herase _
    · exact .refl c
  · split
    · exact herase _
    · exact .refl c
  · split
    · exact hmodify _
    · split
      · exact hmodify _
      · split
        · exact herase _
        · exact .refl c

theorem opEvent_apart {e : OpEvent J} (hk : id ≠ k) (h : c.opEvent k e = some c') :
    Apart id c c' := by
  cases opEvent_moves h with
  | callTimeout hop | exportTimeout hop | recvTimeout hop hw htimer =>
    exact (Apart.erasePending hk).trans (.setOp hk _)
  | send hc' =>
    rcases hc' with rfl | ⟨payload, rfl⟩
    · exact .refl _
    · exact .write payload
  | refused hop hsocket => exact .setOp hk _
  | closeAndRecv hop hsocket =>
    exact (Apart.write _).trans ((Apart.setOp hk _).trans (.insertPending hk _))
  | closeSend hop => exact .write _
  | imported hop => exact (Apart.setOp hk _).trans ((Apart.insertPending hk _).trans (.write _))
  | pollStream hop _ => exact .setOp hk _
  | pollBidi hop _ =>
    unfold pollBidi
    dsimp only
    split
    · exact (Apart.setOp hk _).trans (.erasePending hk)
    · exact .setOp hk _

theorem invoke_apart {method : Method} {func : String} {args : List J.Val} (hid : id ≤ c.nextId)
    (hnum : c.nextId < 2 ^ 53) : Apart id c (c.invoke method func args).1 := by
  have hk : id ≠ increment c.nextId := Nat.ne_of_lt (Nat.lt_of_le_of_lt hid (lt_increment hnum))
  have hnext : Apart id c { c with nextId := increment c.nextId } := ⟨rfl, rfl⟩
  have hnew : ∀ op entry payload, Apart id c
      (((Client.setOp { c with nextId := increment c.nextId } (increment c.nextId) op).insertPending
        (increment c.nextId) entry).write payload) := fun op entry payload =>
    hnext.trans ((Apart.setOp hk op).trans ((Apart.insertPending hk entry).trans (.write _)))
  unfold invoke
  split
  · exact .refl c
  · cases method <;> dsimp only
    · split
      · exact ⟨rfl, rfl⟩
      · exact hnew ..
    · split
      · exact ⟨rfl, rfl⟩
      · exact hnew ..
    · split
      · exact ⟨rfl, rfl⟩
      · exact hnew ..
    · exact hnext.trans (.setOp hk _)

end Client

/-! ## A promise is settled once -/

theorem Waiter.settle_promise {w : Waiter J} {x : Settled J} (h : w.promise = some x)
    (y : Settled J) : (w.settle y).promise = some x := by
  rw [settle, h]
  rfl

namespace Op

variable {op : Op J} {j : Nat} {x : Settled J} {recvs : List (Waiter J)}

theorem modify_received (h : recvs[j]?.bind Waiter.promise = some x) (i : Nat) (y : Settled J) :
    (recvs.modify i fun w => w.settle y)[j]?.bind Waiter.promise = some x := by
  obtain ⟨w, hw, hx⟩ := bind_eq_some_iff.1 h
  rw [getElem?_modify, hw]
  split
  · exact Waiter.settle_promise hx y
  · exact hx

theorem set_received {i : Nat} {w : Waiter J} (hw : recvs[i]? = some w)
    (h : recvs[j]?.bind Waiter.promise = some x) (y : Settled J) :
    (recvs.set i (w.settle y))[j]?.bind Waiter.promise = some x := by
  obtain ⟨v, hv, hx⟩ := bind_eq_some_iff.1 h
  by_cases hij : i = j
  · subst hij
    obtain rfl : w = v := mem_unique hw hv
    rw [set_of_some hw]
    exact Waiter.settle_promise hx y
  · rw [getElem?_set_ne hij]
    exact h

theorem append_received {func : String} {timer : Bool} {w : Waiter J}
    (h : (exportStream func timer recvs).received j = some x) :
    (exportStream func timer (recvs ++ [w])).received j = some x := by
  obtain ⟨v, hv, hx⟩ := bind_eq_some_iff.1 h
  exact bind_eq_some_iff.2 ⟨v, concat_of_some hv, hx⟩

theorem enqueue_received (h : op.received j = some x) (item : Item J) :
    (op.enqueue item).received j = some x := by
  cases op <;> exact h

theorem resolve_received (h : op.received j = some x) (msg : WireMessage J) (entry : Entry) :
    (resolve msg entry op).received j = some x := by
  cases op with
  | exportStream func timer recvs =>
    cases entry with
    | receiving i => exact modify_received h i _
    | _ => exact h
  | _ => cases h

theorem reject_received (h : op.received j = some x) (failure : Failure J) (entry : Entry) :
    (reject failure entry op).received j = some x := by
  cases op with
  | exportStream func timer recvs =>
    cases entry with
    | receiving i => exact modify_received h i _
    | _ => exact h
  | _ => cases h

end Op

namespace Client

variable {c c' : Client J} {id j : Nat} {x : Settled J}

theorem received_modifyOp {f : Op J → Op J} {k : Nat}
    (hf : ∀ op, op.received j = some x → (f op).received j = some x)
    (h : c.received id j = some x) : (c.modifyOp k f).received id j = some x := by
  obtain ⟨op, hop, hx⟩ := bind_eq_some_iff.1 h
  by_cases hk : id = k
  · subst hk
    rw [received, modifyOp_ops_self, hop]
    exact hf op hx
  · rw [received, (Apart.modifyOp hk f).ops]
    exact h

theorem received_dispatch {msg : WireMessage J} (h : c.received id j = some x) :
    (c.dispatch msg).received id j = some x := by
  have hitem : ∀ item, (c.modifyOp msg.id (Op.enqueue item)).received id j = some x :=
    fun item => received_modifyOp (fun _ hx => Op.enqueue_received hx item) h
  have hresolve : ∀ entry, (c.modifyOp msg.id (Op.resolve msg entry)).received id j = some x :=
    fun entry => received_modifyOp (fun _ hx => Op.resolve_received hx msg entry) h
  unfold dispatch
  split
  · exact h
  · dsimp only
    split <;> exact hresolve _
  · repeat' split
    all_goals first | exact hitem _ | exact h
  · split
    · exact hresolve _
    · exact h
  · split
    · exact hresolve _
    · exact h
  · repeat' split
    all_goals first | exact hitem _ | exact h

theorem received_rejectAll (h : c.received id j = some x) : c.rejectAll.received id j = some x := by
  obtain ⟨op, hop, hx⟩ := bind_eq_some_iff.1 h
  unfold received rejectAll
  dsimp only
  rw [hop]
  split
  · exact Op.reject_received hx _ _
  · exact hx

theorem received_opEvent {k : Nat} {e : OpEvent J} (h : c.received id j = some x)
    (he : c.opEvent k e = some c') : c'.received id j = some x := by
  by_cases hk : id = k
  · subst hk
    obtain ⟨op, hop', hx⟩ := bind_eq_some_iff.1 h
    have hset : ∀ op' (c₁ : Client J), op'.received j = some x →
        (c₁.setOp id op').received id j = some x := fun op' c₁ hx => by
      rw [received, setOp_ops_self]
      exact hx
    cases opEvent_moves he with
    | callTimeout hop =>
      obtain rfl := mem_unique hop' hop
      cases hx
    | exportTimeout hop =>
      obtain rfl := mem_unique hop' hop
      exact hset _ _ hx
    | @recvTimeout _ _ recvs i w _ hop hw htimer =>
      obtain rfl := mem_unique hop' hop
      exact hset _ _ (Op.set_received hw hx _)
    | send hc' =>
      rcases hc' with rfl | ⟨payload, rfl⟩
      · exact h
      · rwa [received, write_ops]
    | refused hop hsocket | closeAndRecv hop hsocket =>
      obtain rfl := mem_unique hop' hop
      exact hset _ _ (Op.append_received hx)
    | closeSend hop | imported hop | pollStream hop _ | pollBidi hop _ =>
      obtain rfl := mem_unique hop' hop
      cases hx
  · rw [received, (opEvent_apart hk he).ops]
    exact h

/-- **A call of `closeAndRecv` that is settled stays so.** -/
theorem received_step {l : Label J} (hid : id ≤ c.nextId) (hnum : c.nextId < 2 ^ 53)
    (h : c.received id j = some x) (hs : c.step l = some c') : c'.received id j = some x := by
  cases l with
  | connect addr =>
    cases hs
    exact h
  | invoke method func args =>
    cases hs
    rwa [received, (invoke_apart hid hnum).ops]
  | event e =>
    cases e with
    | link e =>
      obtain ⟨link, -, rfl | ⟨-, rfl⟩⟩ := event_link_cases hs
      · exact h
      · exact received_rejectAll (c := { c with link }) h
    | frame s msg =>
      obtain ⟨link, -, rfl⟩ := event_frame_cases hs
      exact received_dispatch h
    | op k e => exact received_opEvent h hs
  | close =>
    cases hs
    exact received_rejectAll (c := { c with link := c.link.close }) h

end Client

/-! ## The reply -/

def IsReply (msg : WireMessage J) : Prop := msg.type = "response" ∨ msg.type = "error"

/-- A timer of the stream fires, or `closeAndRecv` is called. -/
def OpEvent.Disturbs : OpEvent J → Prop
  | .timeout | .recvTimeout _ | .closeAndRecv => True
  | _ => False

/-- What comes between `closeAndRecv` and the reply of call `id`. -/
def Client.Label.Disturbs (id : Nat) : Client.Label J → Prop
  | .close | .event (.link (.readFailed _)) => True
  | .event (.frame _ msg) => msg.id = id ∧ IsReply msg
  | .event (.op k e) => k = id ∧ e.Disturbs
  | _ => False

namespace Client

variable {c c' : Client J} {id j : Nat}

/-- Call `j` of `closeAndRecv` waits for the reply. -/
structure Awaiting (id j : Nat) (c : Client J) : Prop where
  entry : c.pending.lookup id = some (.receiving j)
  op : ∃ func timer recvs w, c.ops id = some (.exportStream func timer recvs) ∧
    recvs[j]? = some w ∧ w.promise = none

namespace Awaiting

theorem apart (h : c.Awaiting id j) (ha : Apart id c c') : c'.Awaiting id j :=
  ⟨ha.pending.trans h.entry, ha.ops ▸ h.op⟩

theorem dispatch_other {msg : WireMessage J} (h : c.Awaiting msg.id j) (hm : ¬ IsReply msg) :
    c.dispatch msg = c := by
  unfold dispatch
  rw [h.entry]
  exact if_neg hm

theorem dispatch_reply {msg : WireMessage J} (h : c.Awaiting msg.id j) (hm : IsReply msg) :
    (c.dispatch msg).received msg.id j = some msg.reply := by
  obtain ⟨func, timer, recvs, w, hop, hw, hpromise⟩ := h.op
  unfold dispatch
  rw [h.entry]
  dsimp only
  rw [if_pos (show msg.type = "response" ∨ msg.type = "error" from hm), received, modifyOp_ops_self,
    show (c.erasePending msg.id).ops msg.id = _ from hop]
  show (recvs.modify j _)[j]?.bind Waiter.promise = _
  rw [getElem?_modify_eq, hw]
  show (w.promise.or (some msg.reply)) = some msg.reply
  rw [hpromise]
  rfl

theorem opEvent (h : c.Awaiting id j) {e : OpEvent J} (he : ¬ e.Disturbs)
    (hs : c.opEvent id e = some c') : c'.Awaiting id j := by
  obtain ⟨func, timer, recvs, w, hop', -⟩ := h.op
  cases opEvent_moves hs with
  | callTimeout hop | exportTimeout hop | recvTimeout hop hw htimer => exact absurd trivial he
  | send hc' =>
    rcases hc' with rfl | ⟨payload, rfl⟩
    · exact h
    · exact h.apart (.write payload)
  | refused hop hsocket | closeAndRecv hop hsocket => exact absurd trivial he
  | closeSend hop => exact h.apart (.write _)
  | imported hop | pollStream hop _ | pollBidi hop _ => cases hop'.symm.trans hop

theorem step {l : Label J} (h : c.Awaiting id j) (hid : id ≤ c.nextId)
    (hnum : c.nextId < 2 ^ 53) (hl : ¬ l.Disturbs id) (hs : c.step l = some c') :
    c'.Awaiting id j := by
  cases l with
  | connect addr =>
    cases hs
    exact ⟨h.entry, h.op⟩
  | invoke method func args =>
    cases hs
    exact h.apart (invoke_apart hid hnum)
  | event e =>
    cases e with
    | link e =>
      obtain ⟨link, -, rfl | ⟨⟨s, rfl⟩, -⟩⟩ := event_link_cases hs
      · exact ⟨h.entry, h.op⟩
      · exact absurd trivial hl
    | frame s msg =>
      obtain ⟨link, -, rfl⟩ := event_frame_cases hs
      have hdispatch : (c.dispatch msg).Awaiting id j := by
        by_cases hmsg : msg.id = id
        · subst hmsg
          rw [h.dispatch_other fun hm => hl ⟨rfl, hm⟩]
          exact h
        · exact h.apart (dispatch_apart (Ne.symm hmsg))
      exact ⟨hdispatch.entry, hdispatch.op⟩
    | op k e =>
      by_cases hk : k = id
      · subst hk
        exact h.opEvent (fun he => hl ⟨rfl, he⟩) hs
      · exact h.apart (opEvent_apart (Ne.symm hk) hs)
  | close => exact absurd trivial hl

end Awaiting

def recvCount (c : Client J) (id : Nat) : Nat :=
  match c.ops id with
  | some (.exportStream _ _ recvs) => recvs.length
  | _ => 0

theorem closeAndRecv_awaiting (hsocket : c.link.socket ≠ none)
    (hs : c.opEvent id .closeAndRecv = some c') : c'.Awaiting id (c.recvCount id) := by
  cases opEvent_moves hs with
  | refused hop hnone => exact absurd hnone hsocket
  | @closeAndRecv func timer recvs hop _ =>
    have hcount : c.recvCount id = recvs.length := by rw [recvCount, hop]
    rw [hcount]
    refine ⟨AList.lookup_insert _, func, timer, _, .new, setOp_ops_self, ?_, rfl⟩
    exact getElem?_concat_length
  | pollStream hop he | pollBidi hop he => rcases he with he | he <;> cases he

theorem invoke_ok {method : Method} {func : String} {args : List J.Val}
    (h : c.invoke method func args = (c', .ok id)) : id ≤ c'.nextId := by
  unfold invoke at h
  split at h
  · cases h
  · cases method <;> dsimp only at h
    · split at h <;> cases h
      simp
    · split at h <;> cases h
      simp
    · split at h <;> cases h
      simp
    · cases h
      simp

theorem run_nextId {ls : List (Label J)} (h : run step c ls = some c') : c.nextId ≤ c'.nextId :=
  run_kept (fun _ _ _ hle hs => Nat.le_trans hle (step_nextId hs)) (Nat.le_refl c.nextId) h

/-- What the steps keep as long as ids are new. -/
theorem run_new {P : Client J → Prop} {Ok : Client J → Label J → Prop} {ls : List (Label J)}
    (hstep : ∀ c l c', id ≤ c.nextId → c.nextId < 2 ^ 53 → P c → Ok c l → step c l = some c' → P c')
    (hrun : run step c ls = some c') (hok : Along step Ok c ls) (hid : id ≤ c.nextId) (h : P c)
    (hids : c'.nextId < 2 ^ 53) : P c' := by
  have hkept : ∀ c l c', (c.nextId < 2 ^ 53 → id ≤ c.nextId ∧ P c) → Ok c l → step c l = some c' →
      c'.nextId < 2 ^ 53 → id ≤ c'.nextId ∧ P c' := by
    intro c l c' h hl hs hids
    have hle := step_nextId hs
    obtain ⟨hid, hP⟩ := h (Nat.lt_of_le_of_lt hle hids)
    exact ⟨Nat.le_trans hid hle, hstep c l c' hid (Nat.lt_of_le_of_lt hle hids) hP hl hs⟩
  exact (run_invariant hkept (fun _ => ⟨hid, h⟩) hok hrun hids).2

/-- **The reply settles `closeAndRecv`**, if it comes after the call and before a timer of the
stream fires, with the connection up, and ids have not run out. -/
theorem closeAndRecv_settles {c₀ c₁ c₂ c : Client J} {func : String} {args : List J.Val} {s : Nat}
    {msg : WireMessage J} {ls₁ ls₂ ls₃ : List (Label J)}
    (hopen : c₀.invoke .exportStream func args = (c₁, .ok msg.id))
    (hrun₁ : run step c₁ ls₁ = some c₂) (hup : c₂.link.socket ≠ none)
    (hrun : run step c₂ (.event (.op msg.id .closeAndRecv) :: ls₂ ++ .event (.frame s msg) :: ls₃) =
      some c) (hquiet : ∀ l ∈ ls₂, ¬ l.Disturbs msg.id) (hreply : IsReply msg)
    (hids : c.nextId < 2 ^ 53) :
    c.received msg.id (c₂.recvCount msg.id) = some msg.reply := by
  rw [cons_append] at hrun
  obtain ⟨c₃, hs₃, hrun⟩ := run_cons hrun
  have hid₃ : msg.id ≤ c₃.nextId :=
    Nat.le_trans (invoke_ok hopen) (Nat.le_trans (run_nextId hrun₁) (step_nextId hs₃))
  rw [run_append, bind_eq_some_iff] at hrun
  obtain ⟨c₄, hrun₂, hrun⟩ := hrun
  -- until the reply
  have h₄ : c₄.Awaiting msg.id (c₂.recvCount msg.id) :=
    run_new (fun _ _ _ hid hnum h hl hs => h.step hid hnum hl hs) hrun₂
      (Along.of_labels (fun l hl _ => hquiet l hl) _) hid₃ (closeAndRecv_awaiting hup hs₃)
      (Nat.lt_of_le_of_lt (run_nextId hrun) hids)
  obtain ⟨c₅, hs₅, hrun₃⟩ := run_cons hrun
  have hid₅ := Nat.le_trans hid₃ (Nat.le_trans (run_nextId hrun₂) (step_nextId hs₅))
  obtain ⟨link, -, rfl⟩ := event_frame_cases hs₅
  -- from then on
  exact run_new (fun _ _ _ hid hnum h _ hs => received_step hid hnum h hs) hrun₃ (.trivial ..) hid₅
    (h₄.dispatch_reply hreply) hids

def opened : List (Label plain) :=
  [.connect "a", .event (.link (.connected 0)), .invoke .exportStream "f" []]

def response : WireMessage plain := { id := 1, type := "response", result := Datum.num 3 }

theorem closeAndRecv_settles_response : ∃ c₀ c₁ c₂ c : Client plain,
    run step (.init false 30000) [.connect "a", .event (.link (.connected 0))] = some c₀ ∧
      c₀.invoke .exportStream "f" [] = (c₁, .ok 1) ∧
      run step c₁ [.event (.op 1 (.send (Datum.num 2)))] = some c₂ ∧
      run step c₂ [.event (.op 1 .closeAndRecv), .event (.frame 0 response)] = some c ∧
      c.received 1 0 = some (.resolved (Datum.num 3)) := by
  obtain ⟨c₀, c₁, c₂, c, h₀, hopen, hrun₁, hup, hcount, hrun, hids⟩ : ∃ c₀ c₁ c₂ c : Client plain,
      run step (.init false 30000) [.connect "a", .event (.link (.connected 0))] = some c₀ ∧
        c₀.invoke .exportStream "f" [] = (c₁, .ok 1) ∧
        run step c₁ [.event (.op 1 (.send (Datum.num 2)))] = some c₂ ∧
        c₂.link.socket ≠ none ∧ c₂.recvCount 1 = 0 ∧
        run step c₂ [.event (.op 1 .closeAndRecv), .event (.frame 0 response)] = some c ∧
        c.nextId < 2 ^ 53 :=
    ⟨_, _, _, _, rfl, rfl, rfl, nofun, rfl, rfl, by decide⟩
  have hrun' : run step c₂ (.event (.op response.id .closeAndRecv) :: [] ++
      .event (.frame 0 response) :: []) = some c := hrun
  have h := closeAndRecv_settles hopen hrun₁ hup hrun' nofun (.inl rfl) hids
  rw [show response.id = 1 from rfl, hcount] at h
  exact ⟨c₀, c₁, c₂, c, h₀, hopen, hrun₁, hrun, h⟩

/-- A reply before `closeAndRecv` is lost: `closeAndRecv` times out. -/
theorem reply_swallowed : ∃ c : Client plain,
    run step (.init false 30000)
        (opened ++ [.event (.frame 0 response), .event (.op 1 .closeAndRecv),
          .event (.op 1 (.recvTimeout 0))]) = some c ∧
      c.link.connected = true ∧
      c.received 1 0 = some (.rejected (.error "closeAndRecv 'f' timed out")) :=
  ⟨_, rfl, rfl, rfl⟩

end Client

end Callwire.Ts
