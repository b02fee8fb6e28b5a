import Callwire.C.Session
import Callwire.C.Proof.Quiescence

/-!
# The server during one operation

`Stage` says how far the server is with the current operation of a session, from its request on the
way (`asked`) over the read loop (`taken`, `spawning`) and the handler (`running`) to the last frame
of its reply (`answered`). The threads of earlier operations have replied and only clean up.
Whatever the server does next, and whichever frame it reads next, it is in such a stage again
(`Stage.own`, `Stage.deliver`), and the replies it has written so far are the beginning of those
that the handler gives when it runs by itself.
-/

namespace Callwire.C

open Lib List Conn

/-! ## Frames of an operation -/

/-- The frames an operation sends. -/
def Op.request (i : BitVec 64) : Op → Outgoing
  | .call f args | .stream f args => .request i (some f) args
  | .exportStream f _ => .request i (some f) []

def Op.body (i : BitVec 64) : Op → List Outgoing
  | .exportStream _ chunks => chunks.map (fun v => .streamChunk i (some v)) ++ [.streamClose i]
  | _ => []

theorem lit_returned : 0#8 ∉ lit "handler returned an error" := by decide

theorem lit_notExported : 0#8 ∉ lit "function not exported" := by decide

/-- The frame that ends an operation whose handler returned. -/
def Op.finalReply (op : Op) (i : BitVec 64) (rc : Int) (result : Value) : Outgoing :=
  if rc ≠ 0 then
    .error i (some errorText) (some ⟨lit "handler returned an error", lit_returned⟩)
  else
    match op with
    | .stream _ _ => .streamEnd i
    | _ => .response i (some result)

/-- A handler that returns only after its input has ended. -/
def Entry.Drains (e : Entry) : Prop :=
  ∀ call args events rc result, e.fn call args events = .ret rc result →
    .received .fin ∈ events

/-- What becomes of an operation: its name is not exported, or its handler runs and returns. -/
inductive Answer where
  | missing
  | found (e : Entry) (fuel : Nat) (chunks : List (Option Value)) (rc : Int) (result : Value)

namespace Answer

def calls : Answer → Nat
  | .missing => 0
  | .found _ _ _ _ _ => 1

def outcome (op : Op) : Answer → Outcome
  | .missing => op.missing
  | .found _ _ chunks rc result => op.outcome chunks rc result

def chunks : Answer → List (Option Value)
  | .missing => []
  | .found _ _ chunks _ _ => chunks

def final (op : Op) (i : BitVec 64) : Answer → Outgoing
  | .missing => .error i (some notFoundText) (some ⟨lit "function not exported", lit_notExported⟩)
  | .found _ _ _ rc result => op.finalReply i rc result

def replies (op : Op) (i : BitVec 64) (a : Answer) : List Outgoing :=
  a.chunks.map (.streamChunk i) ++ [a.final op i]

/-- The answer is that of the local run, and its frames can be written. -/
def Valid (entries : List Entry) (n : Nat) (op : Op) (i : BitVec 64) (a : Answer) : Prop :=
  (∀ m ∈ a.replies op i, m.Frameable) ∧
  match a with
  | .missing => findHandler entries op.func.bytes = none
  | .found e fuel chunks rc result =>
    findHandler entries op.func.bytes = some e ∧ op.fits e.kind = true ∧
      (e.kind = .clientStreamCtx → e.Drains) ∧
      e.runLocal n op.args fuel op.input [] [] = some (chunks, rc, result)

end Answer

/-! ## Stages -/

def ThreadPc.past : ThreadPc → Bool
  | .remove | .free _ | .done => true
  | _ => false

/-- The read loop waits for a frame and `n` threads have replied. -/
structure Calm (c : Conn) (n : Nat) : Prop where
  loop : c.loop = .reading
  length : c.threads.length = n
  past : ∀ t ∈ c.threads, t.pc.past = true

/-- A stream frame that no input is registered for. -/
def Stray (c : Conn) (m : Outgoing) : Prop :=
  isStreamFrame m.message = true ∧ ∀ r ∈ c.inputs, c.ids[r]? ≠ some m.id

/-- The handler in thread `t` follows the local run with result `r`, which has `fuel` steps left. -/
def Follows (n : Nat) (op : Op) (t : Thread) (emitted : List (Option Value))
    (r : List (Option Value) × Int × Value) (fuel : Nat) : Prop :=
  match t.pc with
  | .start | .running _ => ∃ rest, t.received ++ rest = op.input ∧
      t.entry.runLocal n op.args fuel rest t.events emitted = some r
  | .reply rc result => t.received = op.input ∧ r = (emitted, rc, result)
  | _ => False

/-- The read loop reads, or is about to push to the input of the current handler. -/
def Feeds (c : Conn) (i : BitVec 64) (t : Thread) : Prop :=
  c.loop = .reading ∨ ∃ r item, c.loop = .push r item ∧ r ∈ c.inputs ∧ c.ids[r]? = some i ∧
    t.entry.kind.hasInput = true

/-- The server in the operation `op` with id `i`, its handler being call `n`. The server has read
the frames `heard` and has yet to read `todo`, and it has written `cur` for this operation. -/
inductive Stage (n : Nat) (i : BitVec 64) (op : Op) (a : Answer) (c : Conn)
    (heard todo cur : List Outgoing) (fuel : Nat) : Prop
  | asked {stray : List Outgoing} (calm : Calm c n) (hs : ∀ m ∈ stray, Stray c m)
      (htodo : todo = stray ++ op.request i :: op.body i) (hcur : cur = [])
  | taken (hl : c.loop = .request (op.request i).message) (hlen : c.threads.length = n)
      (hpast : ∀ t ∈ c.threads, t.pc.past = true) (hheard : ∃ pre, heard = pre ++ [op.request i])
      (htodo : todo = op.body i) (hcur : cur = [])
  | spawning {e : Entry} {fuel₀ : Nat} {chunks : List (Option Value)} {rc : Int} {result : Value}
      (ha : a = .found e fuel₀ chunks rc result) (hl : c.loop = .spawn e i op.args)
      (hlen : c.threads.length = n) (hpast : ∀ t ∈ c.threads, t.pc.past = true)
      (hheard : ∃ pre, heard = pre ++ [op.request i]) (htodo : todo = op.body i) (hcur : cur = [])
  | running {fuel₀ : Nat} {chunks : List (Option Value)} {rc : Int} {result : Value} {t : Thread}
      {mid : List Outgoing} {emitted : List (Option Value)}
      (ha : a = .found t.entry fuel₀ chunks rc result) (hlen : c.threads.length = n + 1)
      (hpast : ∀ j u, j < n → c.threads[j]? = some u → u.pc.past = true)
      (ht : c.threads[n]? = some t) (hid : t.id = i) (hargs : t.args = op.args)
      (hloop : Feeds c i t) (hheard : ∃ pre, heard = pre ++ op.request i :: mid)
      (htodo : mid ++ todo = op.body i) (hcur : cur = emitted.map (.streamChunk i))
      (hrun : Follows n op t emitted (chunks, rc, result) fuel)
  | answered (calm : Calm c (n + a.calls)) (hs : ∀ m ∈ todo, Stray c m)
      (hcur : cur = a.replies op i)

/-! ## Messages -/

section
variable {m : Outgoing} {i : BitVec 64} {op : Op}

theorem message_id (m : Outgoing) : m.message.id = m.id := by cases m <;> rfl

theorem request_message_type (op : Op) (i : BitVec 64) :
    typeIs (op.request i).message "request" = true := by
  cases op <;> rfl

theorem body_stream (h : m ∈ op.body i) : isStreamFrame m.message = true ∧ m.id = i := by
  cases op with
  | call | stream => cases h
  | exportStream f chunks =>
    rcases mem_concat_cases h with h | rfl
    · obtain ⟨v, -, rfl⟩ := mem_map.1 h
      exact ⟨rfl, rfl⟩
    · exact ⟨rfl, rfl⟩

theorem body_items (op : Op) (i : BitVec 64) :
    ((op.body i).map Outgoing.message).flatMap (itemFor i) = op.input := by
  have hchunk : ∀ v : Value, itemFor i (Outgoing.streamChunk i (some v)).message =
      [.chunk v.normal] := by
    intro v
    rw [itemFor, if_pos ⟨rfl, rfl⟩]
    rfl
  have hclose : itemFor i (Outgoing.streamClose i).message = [.fin] := by
    rw [itemFor, if_pos ⟨rfl, rfl⟩]
    rfl
  cases op with
  | call | stream => rfl
  | exportStream f chunks =>
    simp only [Op.body, Op.input, map_append, flatMap_append, map_map,
      flatMap_map, map_cons, map_nil, flatMap_singleton, hclose]
    congr 1
    induction chunks with
    | nil => rfl
    | cons v chunks ih =>
      rw [flatMap_cons, map_cons, ih]
      exact congrArg (· ++ _) (hchunk v)

theorem decode_payload {p : Payload} (h : m.payload = some p.bytes) :
    callwireCodecDecode .ok p = .ok (some m.message) := by
  rw [← m.messageOf_entries]
  exact decodeDepth_map (Nat.lt_succ_self _) (append_nil _).symm (Outgoing.encode_some h)

end

/-! ## Local runs -/

section
variable {e : Entry} {n : Nat} {args : List Value} {fuel : Nat} {input : List Item}
  {events : List Event} {emitted : List (Option Value)} {r : List (Option Value) × Int × Value}

theorem runLocal_silent (hk : e.kind.hasOutput = false) :
    ∀ {fuel : Nat} {input : List Item} {events : List Event} {emitted : List (Option Value)}
      {r : List (Option Value) × Int × Value},
    e.runLocal n args fuel input events emitted = some r → r.1 = emitted
  | 0, _, _, _, _, h => nomatch h
  | fuel + 1, input, events, emitted, r, h => by
    rw [Entry.runLocal_succ] at h
    have hallow := e.allowed n args events
    split at h
    · cases h
      rfl
    · rename_i ha
      rw [ha] at hallow
      rw [show e.kind.hasOutput = true from hallow] at hk
      cases hk
    · split at h
      · cases h
      · exact runLocal_silent hk h

section
variable (h : e.runLocal n args fuel input events emitted = some r)
include h

theorem runLocal_ret {rc : Int} {result : Value} (ha : e.fn n args events = .ret rc result) :
    r = (emitted, rc, result) := by
  cases fuel with
  | zero => cases h
  | succ fuel =>
    rw [Entry.runLocal_succ, ha] at h
    exact (Option.some.inj h).symm

theorem runLocal_emit {chunk : Option Value} (ha : e.fn n args events = .emit chunk) :
    ∃ fuel', fuel = fuel' + 1 ∧
      e.runLocal n args fuel' input (events ++ [.emitted 0]) (emitted ++ [chunk]) = some r := by
  cases fuel with
  | zero => cases h
  | succ fuel =>
    rw [Entry.runLocal_succ, ha] at h
    exact ⟨fuel, rfl, h⟩

theorem runLocal_recv (ha : e.fn n args events = .recv) :
    ∃ fuel' item rest, fuel = fuel' + 1 ∧ input = item :: rest ∧
      e.runLocal n args fuel' rest (events ++ [.received item]) emitted = some r := by
  cases fuel with
  | zero => cases h
  | succ fuel =>
    rw [Entry.runLocal_succ, ha] at h
    cases input with
    | nil => cases h
    | cons item rest => exact ⟨fuel, item, rest, rfl, rfl, h⟩

end

theorem runLocal_mono : ∀ {fuel : Nat} {input : List Item} {events : List Event}
      {emitted : List (Option Value)} {r : List (Option Value) × Int × Value},
    e.runLocal n args fuel input events emitted = some r → emitted <+: r.1
  | 0, _, _, _, _, h => nomatch h
  | fuel + 1, input, events, emitted, r, h => by
    cases ha : e.fn n args events with
    | ret rc result => exact runLocal_ret h ha ▸ prefix_rfl
    | emit chunk =>
      obtain ⟨fuel', hf, h'⟩ := runLocal_emit h ha
      cases hf
      exact (prefix_append _ _).trans (runLocal_mono h')
    | recv =>
      obtain ⟨fuel', item, rest, hf, -, h'⟩ := runLocal_recv h ha
      cases hf
      exact runLocal_mono h'

end

/-! ## Reading a frame -/

section
variable {entries : List Entry} {n : Nat} {i : BitVec 64} {op : Op} {a : Answer} {c c' : Conn}
  {heard todo cur : List Outgoing} {fuel : Nat} {m : Outgoing} {p : Payload}

theorem deliver_cases (hp : m.payload = some p.bytes) (hs : step entries c (.frame p) = some c') :
    c.loop = .reading ∧
    ((∃ r, isStreamFrame m.message = true ∧ c.connFindInput m.id = some r ∧
      c' = { c with frames := c.frames ++ [m.message], loop := .push r (itemOf m.message) }) ∨
    (typeIs m.message "request" = false ∧
      c' = { c with frames := c.frames ++ [m.message] }) ∨
    (typeIs m.message "request" = true ∧
      c' = { c with frames := c.frames ++ [m.message], loop := .request m.message })) := by
  have hd := decode_payload hp
  have same : ∀ msg, callwireCodecDecode .ok p = .ok (some msg) → msg = m.message := by
    intro msg h
    rw [hd] at h
    cases h
    rfl
  cases step_move hs with
  | malformed hl hno => exact absurd hd (hno _)
  | route hl h hsf hfi =>
    obtain rfl := same _ h
    rw [message_id] at hfi
    exact ⟨hl, .inl ⟨_, hsf, hfi, rfl⟩⟩
  | discard hl h hsf =>
    obtain rfl := same _ h
    refine ⟨hl, .inr (.inl ⟨?_, rfl⟩)⟩
    rcases hsf with ⟨hsf, -⟩ | ⟨-, hr⟩
    · exact stream_not_request hsf
    · exact hr
  | request hl h hsf hr =>
    obtain rfl := same _ h
    exact ⟨hl, .inr (.inr ⟨hr, rfl⟩)⟩

theorem deliver_stray (hst : Stray c m) (hp : m.payload = some p.bytes)
    (hs : step entries c (.frame p) = some c') :
    c' = { c with frames := c.frames ++ [m.message] } := by
  obtain ⟨-, ⟨r, -, hfi, -⟩ | ⟨-, rfl⟩ | ⟨hr, -⟩⟩ := deliver_cases hp hs
  · obtain ⟨hr, hid⟩ := connFindInput_some hfi
    exact absurd hid (hst.2 r hr)
  · rfl
  · rw [stream_not_request hst.1] at hr
    cases hr

theorem Calm.read (h : Calm c n) (frames : List WireMessage) :
    Calm { c with frames := frames } n :=
  { h with }

/-- **The server reads the next frame.** -/
theorem Stage.deliver (hv : a.Valid entries n op i)
    (h : Stage n i op a c heard (m :: todo) cur fuel)
    (hp : m.payload = some p.bytes) (hs : step entries c (.frame p) = some c') :
    c'.out = c.out ∧ c'.frames = c.frames ++ [m.message] ∧ c'.threads = c.threads ∧
      Stage n i op a c' (heard ++ [m]) todo cur fuel := by
  obtain ⟨hl, hcases⟩ := deliver_cases hp hs
  cases h with
  | @asked stray calm hst htodo hcur =>
    cases stray with
    | nil =>
      obtain ⟨rfl, rfl⟩ := List.cons.inj htodo
      obtain ⟨r, hsf, -, -⟩ | ⟨hr, -⟩ | ⟨-, rfl⟩ := hcases
      · rw [request_not_stream (request_message_type op i)] at hsf
        cases hsf
      · rw [request_message_type] at hr
        cases hr
      · exact ⟨rfl, rfl, rfl, .taken rfl calm.length calm.past ⟨heard, rfl⟩ rfl hcur⟩
    | cons x stray =>
      obtain ⟨rfl, rfl⟩ := List.cons.inj htodo
      obtain rfl := deliver_stray (hst m (by simp)) hp hs
      exact ⟨rfl, rfl, rfl, .asked (calm.read _) (fun x hx => hst x (by simp [hx])) rfl hcur⟩
  | taken hl' | spawning ha hl' =>
    rw [hl] at hl'
    cases hl'
  | @running fuel₀ chunks rc result t mid emitted ha hlen hpast ht hid hargs hloop hheard htodo hcur
      hrun =>
    have hmem : m ∈ op.body i := htodo ▸ mem_append_right _ (mem_cons_self ..)
    obtain ⟨hsf, hmid⟩ := body_stream hmem
    obtain ⟨pre, hpre⟩ := hheard
    have hheard' : ∃ pre, heard ++ [m] = pre ++ op.request i :: (mid ++ [m]) :=
      ⟨pre, by rw [hpre]; simp⟩
    have htodo' : (mid ++ [m]) ++ todo = op.body i := by rw [← htodo]; simp
    have hk : t.entry.kind.hasInput = true := by
      subst ha
      obtain ⟨-, -, hfits, -⟩ := hv
      cases op with
      | call | stream => cases hmem
      | exportStream f chunks =>
        have hkind : t.entry.kind = .clientStreamCtx := by simpa [Op.fits] using hfits
        rw [hkind]
        rfl
    obtain ⟨r, -, hfi, rfl⟩ | ⟨-, rfl⟩ | ⟨hr, -⟩ := hcases
    · obtain ⟨hr, hrid⟩ := connFindInput_some hfi
      rw [hmid] at hrid
      exact ⟨rfl, rfl, rfl, .running ha hlen hpast ht hid hargs (.inr ⟨r, _, rfl, hr, hrid, hk⟩)
        hheard' htodo' hcur hrun⟩
    · exact ⟨rfl, rfl, rfl, .running ha hlen hpast ht hid hargs (.inl hl) hheard' htodo' hcur hrun⟩
    · rw [stream_not_request hsf] at hr
      cases hr
  | answered calm hst hcur =>
    obtain rfl := deliver_stray (hst m (by simp)) hp hs
    exact ⟨rfl, rfl, rfl, .answered (calm.read _) (fun x hx => hst x (by simp [hx])) hcur⟩

end

end Callwire.C
