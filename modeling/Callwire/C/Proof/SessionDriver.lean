import Callwire.C.Proof.Correlation
import Callwire.C.Proof.SessionStage

/-!
# The client during one operation

`InOp` says how far the client is with the current operation of its session: which frames it has
still to send and which chunks it has received. An API call brings it on (`invoke_begin`,
`invoke_within`), and so does a frame of the server's answer: a chunk (`read_chunk`) or the last
frame, with which the operation returns its outcome (`read_final`).
-/

namespace Callwire.C

open Lib List Driver

/-- The id of the operation that `k` others come before. -/
def opId (k : Nat) : BitVec 64 := BitVec.ofNat 64 (k + 1)

def seen (got : List (Option Value)) : List Value := got.map fun v => (v.getD .null).normal

/-- The client in the operation with id `i`: its phase, the call that waits, the frames that are
still to be sent and the chunks that were received. -/
inductive InOp (i : BitVec 64) : Op → Phase → Option (Api × BitVec 64) → List Outgoing →
    List (Option Value) → Prop
  | call {f : CString} {args : List Value} :
      InOp i (.call f args) .start (some (.call (some f) args, i)) [] []
  | recv {f : CString} {args : List Value} {got : List (Option Value)} :
      InOp i (.stream f args) (.receiving i (seen got)) none [] got
  | recvWait {f : CString} {args : List Value} {got : List (Option Value)} :
      InOp i (.stream f args) (.receiving i (seen got)) (some (.streamRecv i, i)) [] got
  | send {f : CString} {chunks rest : List Value} :
      InOp i (.exportStream f chunks) (.sending i rest) none
        (rest.map (fun v => .streamChunk i (some v)) ++ [.streamClose i]) []
  | close {f : CString} {chunks : List Value} :
      InOp i (.exportStream f chunks) (.sending i []) (some (.exportStreamClose i, i)) [] []

theorem InOp.unsent_nil {i : BitVec 64} {op : Op} {phase : Phase} {w : Api × BitVec 64}
    {unsent : List Outgoing} {got : List (Option Value)}
    (h : InOp i op phase (some w) unsent got) : unsent = [] := by
  cases h <;> rfl

/-! ## The work left -/

/-- An upper bound of the API calls of an operation that send. -/
def Op.work : Op → Nat
  | .call _ _ | .stream _ _ => 2
  | .exportStream _ chunks => chunks.length + 3

def Op.workLeft (op : Op) (phase : Phase) (waiting : Option (Api × BitVec 64)) : Nat :=
  match op, phase, waiting with
  | .call _ _, _, some _ => 1
  | .stream _ _, .receiving _ _, _ => 1
  | .exportStream _ _, .sending _ _, some _ => 1
  | .exportStream _ _, .sending _ rest, none => rest.length + 2
  | op, _, _ => op.work

def Driver.work (d : Driver) : Nat :=
  match d.ops with
  | [] => 0
  | op :: ops => op.workLeft d.phase d.client.waiting + (ops.map Op.work).sum

section
variable {d d' : Driver} {i : BitVec 64} {op : Op} {ops : List Op} {unsent : List Outgoing}
  {got : List (Option Value)} {m : Outgoing} {p : Payload}

theorem Op.workLeft_start (op : Op) : op.workLeft .start none = op.work := by
  cases op <;> rfl

/-! ## API calls -/

theorem settle_done (d : Driver) (c : Client) (api : Api) (id : BitVec 64)
    (frame : Option WireMessage) (ret : Return) :
    d.settle (c.done api id frame ret) =
      { d with client := c.done api id frame ret }.onReturn ret := by
  simp only [settle, Client.done, getLast?_concat]

theorem settle_waiting {c : Client} {w : Api × BitVec 64} (h : c.waiting = some w) :
    d.settle c = { d with client := c } := by
  simp only [settle, h]

/-- **The next operation begins.** -/
theorem invoke_begin (hops : d.ops = op :: ops) (hph : d.phase = .start)
    (hw : d.client.waiting = none) (hi : d.client.nextId + 1 = i) (h0 : i ≠ 0)
    (hf : (op.request i).Frameable) (hs : d.invoke = some d') :
    d'.ops = d.ops ∧ d'.results = d.results ∧ d'.client.nextId = i ∧
      d'.client.out = d.client.out ++ [op.request i] ∧
      InOp i op d'.phase d'.client.waiting (op.body i) [] ∧ d'.work < d.work := by
  have hwork : d.work = op.work + (ops.map Op.work).sum := by
    rw [work, hops, hph, hw]
    simp only [op.workLeft_start]
  rw [hwork]
  subst hi
  obtain ⟨c, ops', phase, results⟩ := d
  cases hops
  cases hph
  unfold invoke at hs
  simp only at hw
  cases op with
  | call f args =>
    simp only [hw, Driver.next, Client.invoke] at hs
    rw [Client.ask_frameable c .unary _ hf] at hs
    cases hs
    exact ⟨rfl, rfl, rfl, rfl, .call, Nat.add_lt_add_right (Nat.lt_succ_self 1) _⟩
  | stream f args =>
    simp only [hw, Driver.next, Client.invoke, Client.beginStream] at hs
    rw [Client.ask_frameable c .serverStream _ hf] at hs
    simp only [settle_done, onReturn, if_neg h0] at hs
    cases hs
    exact ⟨rfl, rfl, rfl, rfl, show InOp _ _ (.receiving _ (seen [])) none [] [] from .recv,
      Nat.add_lt_add_right (Nat.lt_succ_self 1) _⟩
  | exportStream f chunks =>
    simp only [hw, Driver.next, Client.invoke, Client.beginStream] at hs
    rw [Client.ask_frameable c .clientStream _ hf] at hs
    simp only [settle_done, onReturn, if_neg h0] at hs
    cases hs
    exact ⟨rfl, rfl, rfl, rfl, .send, Nat.add_lt_add_right (Nat.lt_succ_self _) _⟩

/-- **An API call within an operation** sends the next frame, or waits for one. -/
theorem invoke_within (h : InOp i op d.phase d.client.waiting unsent got) (hops : d.ops = op :: ops)
    (hf : ∀ m ∈ unsent, m.Frameable) (hs : d.invoke = some d') :
    d'.ops = d.ops ∧ d'.results = d.results ∧ d'.client.nextId = d.client.nextId ∧
    ∃ new unsent', d'.client.out = d.client.out ++ new ∧ unsent = new ++ unsent' ∧
      InOp i op d'.phase d'.client.waiting unsent' got ∧
      (d'.work < d.work ∨ d'.work = d.work ∧ new = [] ∧ d.client.waiting = none ∧
        d'.client.waiting ≠ none) := by
  obtain ⟨c, ops', phase, results⟩ := d
  cases hops
  unfold invoke at hs
  cases hw : c.waiting with
  | some w =>
    simp only [hw] at hs
    cases hs
  | none =>
    simp only [hw] at h hs
    cases h with
    | recv =>
      simp only [Driver.next, Client.invoke] at hs
      cases hs
      exact ⟨rfl, rfl, rfl, [], [], (append_nil _).symm, rfl, .recvWait,
        .inr ⟨rfl, rfl, rfl, Option.some_ne_none _⟩⟩
    | @send _ _ rest =>
      cases rest with
      | cons v rest =>
        simp only [Driver.next, Client.invoke, Client.sendOnly] at hs
        rw [Client.writeFrame_frameable c _ (hf _ (mem_cons_self ..))] at hs
        simp only [settle_done, onReturn, if_true] at hs
        cases hs
        refine ⟨rfl, rfl, rfl, [_], _, rfl, rfl, .send, .inl ?_⟩
        simp [work, Op.workLeft, hw, Client.done]
      | nil =>
        simp only [Driver.next, Client.invoke] at hs
        rw [Client.writeFrame_frameable c _ (hf _ (mem_cons_self ..))] at hs
        rw [settle_waiting rfl] at hs
        cases hs
        refine ⟨rfl, rfl, rfl, [_], [], rfl, rfl, .close, .inl ?_⟩
        simp [work, Op.workLeft, hw]

/-! ## The server's answer -/

theorem readWireMessage_payload (c : Client) (hp : m.payload = some p.bytes) :
    c.readWireMessage (some p) = (some m.message, c) := by
  simp only [Client.readWireMessage, decode_payload hp]

theorem takeReply_eq (c : Client) (msg : WireMessage) :
    ∃ e, (c.takeReply msg).2 = { c with error := e } := by
  unfold Client.takeReply
  split
  · exact ⟨_, rfl⟩
  · exact ⟨c.error, rfl⟩

theorem takeChunk_eq (c : Client) (msg : WireMessage) :
    ∃ e, (c.takeChunk msg).2 = { c with error := e } := by
  unfold Client.takeChunk
  split
  · exact ⟨c.error, rfl⟩
  split
  · exact ⟨c.error, rfl⟩
  split <;> exact ⟨_, rfl⟩

/-- What a call or the close of an export stream makes of the last frame. -/
theorem takeReply_final (c : Client) (a : Answer) (i : BitVec 64) (op : Op)
    (hop : ∀ f args, op ≠ .stream f args) : ∃ rc out,
      (c.takeReply (a.final op i).message).1 = .rc rc out ∧ a.outcome op = .reply rc out := by
  cases a with
  | missing =>
    refine ⟨-1, none, rfl, ?_⟩
    cases op with
    | stream f args => exact absurd rfl (hop f args)
    | _ => rfl
  | found e fuel chunks rc result =>
    by_cases hrc : rc = 0
    · subst hrc
      refine ⟨0, some result.normal, ?_, ?_⟩ <;> cases op with
      | stream f args => exact absurd rfl (hop f args)
      | _ => rfl
    · refine ⟨-1, none, ?_, ?_⟩
      · simp only [Answer.final, Op.finalReply, if_pos hrc]
        rfl
      · cases op with
        | stream f args => exact absurd rfl (hop f args)
        | _ => exact if_neg hrc

theorem takeChunk_final (c : Client) (a : Answer) (i : BitVec 64) (f : CString)
    (args : List Value) :
    ∃ rc, rc ≠ 0 ∧ (c.takeChunk (a.final (.stream f args) i).message).1 = .rc rc none ∧
      a.outcome (.stream f args) = .stream (seen a.chunks) rc := by
  cases a with
  | missing => exact ⟨-1, by decide, rfl, rfl⟩
  | found e fuel chunks rc result =>
    by_cases hrc : rc = 0
    · subst hrc
      exact ⟨1, by decide, rfl, rfl⟩
    · refine ⟨-1, by decide, ?_, ?_⟩
      · rw [Answer.final, Op.finalReply, if_pos hrc]
        rfl
      · rw [Answer.outcome, Op.outcome, if_neg hrc]
        rfl

/-- **A chunk reaches the application.** -/
theorem read_chunk {f : CString} {args : List Value} {v : Option Value}
    (h : InOp i (.stream f args) d.phase d.client.waiting unsent got)
    (hops : d.ops = .stream f args :: ops) (hp : (Outgoing.streamChunk i v).payload = some p.bytes)
    (hs : d.read p = some d') :
    d'.ops = d.ops ∧ d'.results = d.results ∧ d'.client.nextId = d.client.nextId ∧
      d'.client.out = d.client.out ∧ d'.work = d.work ∧ d.client.waiting ≠ none ∧
      d'.client.waiting = none ∧ unsent = [] ∧
      InOp i (.stream f args) d'.phase d'.client.waiting [] (got ++ [v]) := by
  obtain ⟨c, ops', phase, results⟩ := d
  cases hops
  unfold Driver.read at hs
  simp only at h
  cases hw : c.waiting with
  | none =>
    simp only [hw] at hs
    cases hs
  | some w =>
    rw [hw] at h
    simp only [hw] at hs
    cases h with
    | recvWait =>
      simp only [Client.read, readWireMessage_payload c hp] at hs
      have hret : c.takeChunk (Outgoing.streamChunk i v).message =
          (.rc 0 (some (v.getD .null).normal), c) := rfl
      rw [hret] at hs
      simp only [settle_done, onReturn, if_true] at hs
      cases hs
      have hseen : seen got ++ [(v.getD .null).normal] = seen (got ++ [v]) := by
        rw [seen, seen, map_append]
        rfl
      refine ⟨rfl, rfl, rfl, rfl, rfl, nofun, rfl, rfl, ?_⟩
      simp only [Option.toList_some, hseen]
      exact .recv

/-- **The last frame ends the operation with its outcome.** -/
theorem read_final {a : Answer} (h : InOp i op d.phase d.client.waiting unsent got)
    (hops : d.ops = op :: ops) (hgot : ∀ f args, op = .stream f args → got = a.chunks)
    (hp : (a.final op i).payload = some p.bytes) (hs : d.read p = some d') :
    d'.ops = ops ∧ d'.results = d.results ++ [a.outcome op] ∧
      d'.client.nextId = d.client.nextId ∧ d'.client.out = d.client.out ∧ d'.phase = .start ∧
      d'.client.waiting = none ∧ unsent = [] ∧ d'.work < d.work := by
  obtain ⟨c, ops', phase, results⟩ := d
  cases hops
  unfold Driver.read at hs
  simp only at h
  -- the rest of the work is that of the later operations
  have hwork : ∀ {e : Driver} {w : Api × BitVec 64}, e.ops = ops → e.phase = .start →
      e.client.waiting = none → c.waiting = some w → op.workLeft phase (some w) = 1 →
      e.work < work ⟨c, op :: ops, phase, results⟩ := by
    intro e w ho hph hwt hcw hleft
    rw [work, work, ho, hph, hwt]
    simp only [hcw, hleft]
    cases ops with
    | nil => exact Nat.succ_pos _
    | cons op' ops =>
      simp only [op'.workLeft_start, map_cons, sum_cons]
      omega
  cases hw : c.waiting with
  | none =>
    simp only [hw] at hs
    cases hs
  | some w =>
    rw [hw] at h
    simp only [hw] at hs
    cases h with
    | @call f args =>
      simp only [Client.read, readWireMessage_payload c hp] at hs
      obtain ⟨rc, out, hret, hout⟩ := takeReply_final c a i (.call f args) nofun
      obtain ⟨e, he⟩ := takeReply_eq c (a.final (.call f args) i).message
      rw [hret, he] at hs
      simp only [settle_done, onReturn] at hs
      cases hs
      rw [hout]
      exact ⟨rfl, rfl, rfl, rfl, rfl, rfl, rfl, hwork rfl rfl rfl hw rfl⟩
    | @recvWait f args _ =>
      simp only [Client.read, readWireMessage_payload c hp] at hs
      obtain ⟨rc, hrc, hret, hout⟩ := takeChunk_final c a i f args
      obtain ⟨e, he⟩ := takeChunk_eq c (a.final (.stream f args) i).message
      rw [hret, he] at hs
      simp only [settle_done, onReturn, if_neg hrc] at hs
      cases hs
      rw [hout, ← hgot f args rfl]
      exact ⟨rfl, rfl, rfl, rfl, rfl, rfl, rfl, hwork rfl rfl rfl hw rfl⟩
    | @close f chunks =>
      simp only [Client.read, readWireMessage_payload c hp] at hs
      obtain ⟨rc, out, hret, hout⟩ := takeReply_final c a i (.exportStream f chunks) nofun
      obtain ⟨e, he⟩ := takeReply_eq c (a.final (.exportStream f chunks) i).message
      rw [hret, he] at hs
      simp only [settle_done, onReturn] at hs
      cases hs
      rw [hout]
      exact ⟨rfl, rfl, rfl, rfl, rfl, rfl, rfl, hwork rfl rfl rfl hw rfl⟩

end

end Callwire.C
