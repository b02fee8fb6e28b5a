import Callwire.Lib.Writers
import Callwire.Py.Proof.Calls

/-!
# What the streams of the Python client write

On a connection that takes every write (`Accepts`), the frames with the id of an `ExportStream` or a
`BidiStream` are its script: the request, a chunk for each `send` whose payload could be made, and a
terminator for each `close_and_recv` or `close_send` (`Scripted`). `client.py` does not import
`pack_stream_chunk`: `send` raises, and no chunk is written (`chunks_missing`). Exactly without
chunks, or with the import, the streams write the protocol (`streams_write`).
-/

namespace Callwire.Py

open Lib List

variable {P : Python}

def Kind.sends : Kind → Bool
  | .exportStream | .bidiStream => true
  | .call | .batch | .callStream => false

def Kind.requestArgs (call : Call P) : Kind → List P.Val
  | .call | .batch | .callStream => call.args.getD []
  | .exportStream | .bidiStream => []

def Kind.terminator (id : Nat) : Kind → WireMessage P
  | .bidiStream => packStreamEnd id
  | _ => packStreamClose id

/-- The frame for a `send`, if its payload can be made. -/
def chunkFrame (imports : List CodecName) (id : Nat) (v : P.Val) : Option (WireMessage P) :=
  (bound imports .packStreamChunk (packStreamChunk id v)).toOption

def OpPc.early : OpPc → Bool
  | .registering | .packing | .writing _ => true
  | .waiting | .timedOut | .opened | .finished _ => false

/-- The payload of the request, once it is written. -/
def Op.opening (op : Op P) : List (WireMessage P) := if op.pc.early then [] else op.payloads

def Op.script (imports : List CodecName) (id : Nat) (op : Op P) : List (WireMessage P) :=
  op.opening ++ op.sends.filterMap (chunkFrame imports id) ++
    List.replicate op.ends (op.kind.terminator id)

namespace Client

variable {imports : List CodecName} {reconnect : Bool} {c c' : Client P} {m : WireMessage P}
  {op op' : Op P} {id i : Nat}

/-- The connection takes the write of the step, if there is one. -/
def Accepts (c : Client P) : Label P → Prop
  | .op _ (.write fail) | .op _ (.send _ fail) | .op _ (.closeSend fail)
  | .op _ (.closeAndRecv fail) => fail = none ∧ c.conn ≠ none
  | _ => True

def framesOf (c : Client P) (id : Nat) : List (WireMessage P) :=
  writtenBy (fun m => m.id) id (c.wire.map Prod.snd)

theorem framesOf_write {s : Nat} (h : c'.wire = c.wire ++ [(s, m)]) (hid : m.id = id) :
    c'.framesOf id = c.framesOf id ++ [m] := by
  rw [framesOf, h, map_append, writtenBy_append]
  refine congrArg _ (writtenBy_eq_self fun m' hm' => ?_)
  rw [mem_singleton.1 hm']
  exact hid

theorem framesOf_write_ne {s : Nat} (h : c'.wire = c.wire ++ [(s, m)]) (hid : m.id ≠ id) :
    c'.framesOf id = c.framesOf id := by
  have hnil : writtenBy (fun m => m.id) id [m] = [] := by
    refine writtenBy_eq_nil fun m' hm' => ?_
    rw [mem_singleton.1 hm']
    exact hid
  rw [framesOf, h, map_append, writtenBy_append]
  exact (congrArg _ hnil).trans (append_nil _)

/-! ## The frames that a call writes -/

theorem packb_ok {vs : List P.Val} {m' : WireMessage P} (h : packb vs m = .ok m') : m' = m := by
  unfold packb at h
  split at h <;> cases h
  rfl

theorem bound_ok {α : Type} {name : CodecName} {value : Except Exn α} {a : α}
    (h : bound imports name value = .ok a) : name ∈ imports ∧ value = .ok a := by
  unfold bound at h
  split at h
  · exact ⟨‹_›, h⟩
  · cases h

theorem bound_of_mem {α : Type} {name : CodecName} (h : name ∈ imports) (value : Except Exn α) :
    bound imports name value = value := if_pos h

theorem request_eq {kind : Kind} {call : Call P} (h : kind.request id call = .ok m) :
    m = { id, type := some "request", func := some call.func,
          args := some (kind.requestArgs call), stream := decide (kind = .bidiStream) } := by
  unfold Kind.request packRequest packBidiRequest at h
  cases kind <;> exact packb_ok h

theorem request_id {kind : Kind} {call : Call P} (h : kind.request id call = .ok m) :
    m.id = id := by
  rw [request_eq h]

theorem OpMoves.wire {l : OpLabel P} (h : OpMoves imports c i op l c')
    (hop : op.Sound c.slots c.wire i) :
    c'.wire = c.wire ∨
      ∃ s q m, c'.wire = c.wire ++ [(s, m)] ∧ q ∈ op.qs ∧ m.id = q + 1 := by
  have hstream : ∀ {q : Nat} {fail payload} {op₁ failed : Op P}, op.queue = some q →
      (∀ m, payload = .ok m → m.id = q + 1) →
      (c.streamWrite i fail payload op₁ failed).wire = c.wire ∨
        ∃ s q m, (c.streamWrite i fail payload op₁ failed).wire = c.wire ++ [(s, m)] ∧
          q ∈ op.qs ∧ m.id = q + 1 := by
    intro q fail payload op₁ failed hq hid
    rcases streamWrite_cases c i fail payload op₁ failed with ⟨s, m, -, hm, hw⟩ |
      ⟨-, hw⟩ <;> rw [hw]
    · exact .inr ⟨s, q, m, rfl, Op.Sound.queue_mem hq, hid m hm⟩
    · exact .inl rfl
  cases h with
  | written hpc hpayload hconn =>
    obtain ⟨q, call, hq, -, hreq⟩ := hop.payload _ _ hpayload
    exact .inr ⟨_, q, _, rfl, mem_of_getElem? hq, request_id hreq⟩
  | send hpc hq =>
    refine hstream hq fun m hm => ?_
    rw [packb_ok (bound_ok hm).2]
  | closeSend hpc hq | closeAndRecv hpc hq =>
    refine hstream hq fun m hm => ?_
    cases (bound_ok hm).2
    rfl
  | _ => exact .inl rfl

/-! ## The invariant -/

structure Scripted (imports : List CodecName) (c : Client P) (i : Nat) (op : Op P) : Prop where
  script : ∀ q, op.qs = [q] → c.framesOf (q + 1) = op.script imports (q + 1)
  early : op.pc.early = true → op.sends = [] ∧ op.ends = 0
  opened : op.kind = .exportStream → op.pc = .opened → op.ends = 0
  ended : op.ends ≠ 0 → op.payloads.length = 1 ∧ op.qs.length = 1

/-- The frames on the wire and the streams that send. -/
structure WritesScripts (imports : List CodecName) (c : Client P) : Prop where
  known : ∀ f ∈ c.wire, f.2.id ≤ c.slots.length
  streams : ∀ (i : Nat) op, c.ops[i]? = some op → op.kind.sends = true → Scripted imports c i op

section
variable (h : Scripted imports c i op)
include h

theorem Scripted.mono (hframes : ∀ q ∈ op.qs, c'.framesOf (q + 1) = c.framesOf (q + 1)) :
    Scripted imports c' i op where
  script q hq := by
    rw [hframes q (by rw [hq]; exact mem_singleton.2 rfl)]
    exact h.script q hq
  early := h.early
  opened := h.opened
  ended := h.ended

theorem Scripted.write {s q : Nat} (hwire : c'.wire = c.wire ++ [(s, m)]) (hm : m.id = q + 1)
    (hqs : op.qs = [q]) (hqs' : op'.qs = op.qs)
    (hscript : op'.script imports (q + 1) = op.script imports (q + 1) ++ [m])
    (hlate : op'.pc.early = false)
    (hopened : op'.kind = .exportStream → op'.pc = .opened → op'.ends = 0)
    (hended : op'.ends ≠ 0 → op'.payloads.length = 1 ∧ op'.qs.length = 1) :
    Scripted imports c' i op' where
  script k hk := by
    obtain rfl : k = q := by
      rw [hqs', hqs] at hk
      exact (singleton_inj.1 hk).symm
    rw [framesOf_write hwire hm, h.script k hqs, hscript]
  early he := by
    rw [hlate] at he
    cases he
  opened := hopened
  ended := hended

theorem Scripted.quiet (hwire : c'.wire = c.wire) (hqs : op'.qs = op.qs)
    (hscript : ∀ q, op.qs = [q] → op'.script imports (q + 1) = op.script imports (q + 1))
    (hearly : op'.pc.early = true → op'.sends = [] ∧ op'.ends = 0)
    (hopened : op'.kind = .exportStream → op'.pc = .opened → op'.ends = 0)
    (hended : op'.ends ≠ 0 → op'.payloads.length = 1 ∧ op'.qs.length = 1) :
    Scripted imports c' i op' where
  script q hq := by
    rw [hqs] at hq
    rw [hscript q hq, ← h.script q hq, framesOf, hwire]
    rfl
  early := hearly
  opened := hopened
  ended := hended

theorem Scripted.late (hwire : c'.wire = c.wire) (hlate : op.pc.early = false)
    (hlate' : op'.pc.early = false) (hkind : op'.kind = op.kind) (hqs : op'.qs = op.qs)
    (hpayloads : op'.payloads = op.payloads) (hsends : op'.sends = op.sends)
    (hends : op'.ends = op.ends)
    (hopened : op'.kind = .exportStream → op'.pc = .opened → op'.ends = 0) :
    Scripted imports c' i op' := by
  refine h.quiet hwire hqs (fun q _ => ?_) (fun he => ?_) hopened ?_
  · rw [Op.script, Op.script, Op.opening, Op.opening, hlate, hlate', hpayloads, hsends,
      hends, hkind]
  · rw [hlate'] at he
    cases he
  · rw [hends, hpayloads, hqs]
    exact h.ended

end

theorem chunkFrame_of_ok {v : P.Val}
    (h : bound imports .packStreamChunk (packStreamChunk id v) = .ok m) :
    chunkFrame imports id v = some m := by
  rw [chunkFrame, h]
  rfl

theorem chunkFrame_of_error {v : P.Val} {e : Exn}
    (h : bound imports .packStreamChunk (packStreamChunk id v) = .error e) :
    chunkFrame imports id v = none := by
  rw [chunkFrame, h]
  rfl

/-- A stream that sends stays past its request, and `close_and_recv` returns. -/
theorem receive_late (hkind : op.kind.sends = true) (item : Item P) :
    (op.receive item).pc.early = false ∧
      (op.kind = .exportStream → (op.receive item).pc ≠ .opened) := by
  cases item with
  | done => exact ⟨rfl, fun _ h => by cases h⟩
  | msg m =>
    unfold Op.receive
    cases hk : op.kind with
    | call | batch | callStream =>
      rw [hk] at hkind
      cases hkind
    | exportStream =>
      simp only [Op.recvResponse]
      split <;> exact ⟨rfl, fun _ h => by cases h⟩
    | bidiStream =>
      refine ⟨?_, by simp⟩
      simp only [Op.nextChunk]
      split
      · rfl
      · split <;> rfl

theorem Kind.not_batch {kind : Kind} (h : kind.sends = true) : kind ≠ .batch := by
  rintro rfl
  cases h

/-- The frame of `close_send` or `close_and_recv` was written. -/
theorem Scripted.close {s q : Nat} (h : Scripted imports c i op) (hpc : op.pc = .opened)
    (hwire : c'.wire = c.wire ++ [(s, op.kind.terminator (q + 1))])
    (hqs : op.qs = [q]) (hpay : op.payloads.length = 1) (hqs' : op'.qs = op.qs)
    (hlate : op'.pc.early = false) (hkind : op'.kind = op.kind)
    (hpayloads : op'.payloads = op.payloads) (hsends : op'.sends = op.sends)
    (hends : op'.ends = op.ends + 1) (hopened : op.kind = .exportStream → op'.pc ≠ .opened) :
    Scripted imports c' i op' := by
  have hid : (op.kind.terminator (q + 1) : WireMessage P).id = q + 1 := by
    cases op.kind <;> rfl
  refine h.write hwire hid hqs hqs' ?_ hlate (fun hk hpc' => ?_) fun _ => ?_
  · rw [Op.script, Op.script, Op.opening, Op.opening, hpc, hlate, hpayloads, hsends, hends, hkind,
      replicate_succ', ← append_assoc]
    rfl
  · exact absurd hpc' (hopened (hkind ▸ hk))
  · rw [hpayloads, hqs', hqs]
    exact ⟨hpay, rfl⟩

theorem OpMoves.scripted {l : OpLabel P} (h : OpMoves imports c i op l c')
    (himports : clientImports ⊆ imports) (hok : Accepts c (.op i l))
    (hknown : ∀ f ∈ c.wire, f.2.id ≤ c.slots.length) (hop : c.ops[i]? = some op)
    (hsound : op.Sound c.slots c.wire i) (hkind : op.kind.sends = true)
    (hs : Scripted imports c i op) (hop' : c'.ops[i]? = some op') : Scripted imports c' i op' := by
  have hself : ∀ {op₁ : Op P}, (c.ops.set i op₁)[i]? = some op' → op₁ = op' := fun h =>
    Option.some.inj ((set_of_some hop).symm.trans h)
  have hbatch := Kind.not_batch hkind
  have hsingle : op.calls.length = 1 := hsound.single hbatch
  have hphase := hsound.phase
  have hpay : op.pc = .opened → op.payloads.length = 1 := by
    intro hpc
    rw [Op.Phase, hpc] at hphase
    exact hphase.1.1.trans hsingle
  -- a write of the application: it is made unless the payload is not
  have hwrite : ∀ {fail payload} {op₁ failed : Op P}, fail = none ∧ c.conn ≠ none →
      (c.streamWrite i fail payload op₁ failed).ops[i]? = some op' →
      (∃ s m, payload = .ok m ∧ (c.streamWrite i fail payload op₁ failed).wire =
        c.wire ++ [(s, m)] ∧ op₁ = op') ∨
      ∃ e, payload = .error e ∧ (c.streamWrite i fail payload op₁ failed).wire = c.wire ∧
        failed = op' := by
    intro fail payload op₁ failed hok hop'
    rcases streamWrite_cases c i fail payload op₁ failed with ⟨s, m, -, hm, hw⟩ | ⟨hr, hw⟩ <;>
      rw [hw] at hop' ⊢
    · exact .inl ⟨s, m, hm, rfl, hself hop'⟩
    · rcases hr with hr | hr | ⟨e, he⟩
      · exact absurd hok.1 hr
      · exact absurd hr hok.2
      · exact .inr ⟨e, he, rfl, hself hop'⟩
  cases h with
  | register hpc =>
    obtain rfl := hself hop'
    obtain ⟨hsends, hends⟩ := hs.early (by rw [hpc]; rfl)
    rw [Op.Phase, hpc] at hphase
    have hnil : op.qs = [] := eq_nil_of_length_eq_zero (by omega)
    refine ⟨fun q hq => ?_, fun _ => ⟨hsends, hends⟩, by simp,
      fun h => absurd hends h⟩
    obtain rfl : c.slots.length = q := by
      rw [hnil] at hq
      exact singleton_inj.1 hq
    have hscript : Op.script imports (c.slots.length + 1)
        { op with qs := op.qs ++ [c.slots.length], pc := .packing } = [] := by
      rw [Op.script, Op.opening]
      simp only [hsends, hends]
      rfl
    rw [hscript]
    refine writtenBy_eq_nil fun m hm he => ?_
    obtain ⟨f, hf, rfl⟩ := mem_map.1 hm
    have := hknown f hf
    omega
  | packed hpc hcall hq hpack =>
    obtain rfl := hself hop'
    have hearly := hs.early (by rw [hpc]; rfl)
    have hpc' : ∀ pc, pc = (if op.qs.length < op.calls.length then OpPc.registering
        else .writing 0) → pc.early = true := by
      rintro pc rfl
      split <;> rfl
    refine hs.quiet rfl rfl (fun q _ => ?_) (fun _ => hearly) (fun _ h => ?_)
      fun h => absurd hearly.2 h
    · rw [Op.script, Op.script, Op.opening, Op.opening, hpc, hpc' _ rfl]
      rfl
    · cases (congrArg OpPc.early h).symm.trans (hpc' _ rfl)
  | packFailed hpc =>
    obtain rfl := hself hop'
    rw [Op.Phase, hpc] at hphase
    have hnil : op.payloads = [] := by
      have := hphase.2.1
      exact eq_nil_of_length_eq_zero (by omega)
    refine hs.quiet rfl rfl (fun q _ => ?_) (fun h => by cases h) (fun _ h => by cases h) hs.ended
    rw [Op.script, Op.script, Op.opening, Op.opening, hpc]
    simp only [Op.finish, hnil]
    rfl
  | @written k s payload fail hpc hpayload hconn =>
    obtain rfl := hself hop'
    obtain ⟨hsends, hends⟩ := hs.early (by rw [hpc]; rfl)
    rw [Op.Phase, hpc] at hphase
    obtain ⟨⟨hpay, hqs⟩, hk, -⟩ := hphase
    obtain rfl : k = 0 := by omega
    obtain ⟨x, hx⟩ := length_eq_one_iff.1 (hpay.trans hsingle)
    obtain rfl : x = payload := by
      rw [hx] at hpayload
      exact Option.some.inj hpayload
    obtain ⟨q, hq⟩ := length_eq_one_iff.1 (hqs.trans hsingle)
    obtain ⟨q', call, hq', -, hreq⟩ := hsound.payload 0 x hpayload
    obtain rfl : q = q' := by
      rw [hq] at hq'
      exact Option.some.inj hq'
    have hpc' : op.written 0 = .opened := by
      rw [Op.written, if_neg (by omega)]
      cases hk : op.kind <;> rw [hk] at hkind <;> first | rfl | cases hkind
    refine hs.write rfl (request_id hreq) hq rfl ?_ (congrArg OpPc.early hpc') (fun _ _ => hends)
      fun h => absurd hends h
    rw [Op.script, Op.script, Op.opening, Op.opening, hpc, hsends, hends, hpc', hx]
    rfl
  | writeFailed hpc hfail =>
    rcases hfail with h | h
    · exact absurd hok.1 h
    · exact absurd h hok.2
  | @get q slot item queue hpc hq hslot hget =>
    obtain rfl := hself hop'
    obtain ⟨hk, -, hqs, hpayloads, hsends, hends⟩ := receive_same op item
    obtain ⟨hlate, hexport⟩ := receive_late hkind item
    refine hs.late rfl (by rw [hpc]; rfl) hlate hk hqs hpayloads hsends hends fun hk' h => ?_
    exact absurd h (hexport (hk.symm.trans hk'))
  | timeout hpc hpc' =>
    obtain rfl := hself hop'
    refine hs.late rfl (by rw [hpc]; rfl) ?_ rfl rfl rfl rfl rfl fun hk h => ?_
    · rw [hpc']
      split <;> rfl
    · change op.kind = .exportStream at hk
      rw [hpc', hk] at h
      cases h
  | pop hpc | abandon hpc | resume hpc | recv hpc =>
    obtain rfl := hself hop'
    exact hs.late rfl (by rw [hpc]; rfl) rfl rfl rfl rfl rfl rfl fun _ h => by cases h
  | @send q v fail hpc hq hk =>
    have hlate : op.pc.early = false := by rw [hpc]; rfl
    have hqs : op.qs = [q] := hsound.qs_eq hbatch (.inl hpc) (Op.Sound.queue_mem hq)
    have hends : op.ends = 0 := by
      rcases hk with hk | ⟨-, hk⟩
      · exact hs.opened hk hpc
      · exact hk
    have hscript : ∀ id, Op.script imports id { op with sends := op.sends ++ [v] } =
        op.script imports id ++ (chunkFrame imports id v).toList := by
      intro id
      rw [Op.script, Op.script, hends, filterMap_append, replicate_zero, append_nil,
        append_nil, append_assoc]
      refine congrArg _ (congrArg _ ?_)
      cases h : chunkFrame imports id v <;> simp [h]
    rcases hwrite hok hop' with ⟨s, m, hm, hwire, rfl⟩ | ⟨e, he, hwire, rfl⟩
    · refine hs.write hwire (by rw [packb_ok (bound_ok hm).2]) hqs rfl ?_ hlate
        (fun _ _ => hends) hs.ended
      rw [hscript, chunkFrame_of_ok hm]
      rfl
    · refine hs.quiet hwire rfl (fun k hk => ?_) (fun h => ?_) (fun _ _ => hends) hs.ended
      · obtain rfl : q = k := singleton_inj.1 (hqs.symm.trans hk)
        rw [hscript, chunkFrame_of_error he]
        exact append_nil _
      · cases hlate.symm.trans h
  | @closeSend q fail hpc hq hk | @closeAndRecv q fail hpc hq hk =>
    have hqs := hsound.qs_eq hbatch (.inl hpc) (Op.Sound.queue_mem hq)
    rw [bound_of_mem (himports (by decide))] at hop' ⊢
    rcases hwrite hok hop' with ⟨s, m, hm, hwire, rfl⟩ | ⟨e, he, -⟩
    · cases hm
      refine hs.close hpc (hwire.trans (by rw [hk]; rfl)) hqs (hpay hpc) rfl ?_ rfl rfl rfl rfl ?_
      · simp [OpPc.early, hpc]
      · rw [hk]
        simp
    · cases he

theorem WritesScripts.step {l : Label P} (h : WritesScripts imports c)
    (himports : clientImports ⊆ imports) (hcalls : c.CallsSound) (hok : Accepts c l)
    (hs : step imports reconnect c l = some c') : WritesScripts imports c' := by
  have hlen : c.slots.length ≤ c'.slots.length := by
    obtain ⟨e, hm, -⟩ := step_post hs
    exact hm.length_le
  have hknown : ∀ f ∈ c.wire, f.2.id ≤ c'.slots.length := fun f hf =>
    Nat.le_trans (h.known f hf) hlen
  cases step_ops hs with
  | same hl hops hwire =>
    refine ⟨hwire ▸ hknown, fun i op hop hkind => ?_⟩
    refine (h.streams i op (hops ▸ hop) hkind).mono fun q _ => ?_
    rw [framesOf, hwire]
    rfl
  | start =>
    refine ⟨hknown, fun i op hop hkind => ?_⟩
    rcases concat_cases hop with hop | ⟨-, rfl⟩
    · exact (h.streams i op hop hkind).mono fun _ _ => rfl
    · exact ⟨nofun, fun _ => ⟨rfl, rfl⟩, fun _ _ => rfl, fun h => absurd rfl h⟩
  | op hop hmove =>
    rename_i k opk l
    obtain ⟨op₁, hops, hkind₁, -⟩ := hmove.ops
    have hframe := hmove.wire (hcalls k opk hop)
    refine ⟨fun f hf => ?_, fun i op hi hkind => ?_⟩
    · rcases hframe with hw | ⟨s, q, m, hw, hq, hid⟩ <;> rw [hw] at hf
      · exact hknown f hf
      · rcases mem_append.1 hf with hf | hf
        · exact hknown f hf
        · obtain ⟨slot, hslot, -⟩ := (hcalls k opk hop).owns q hq
          rw [mem_singleton.1 hf, hid]
          exact Nat.lt_of_lt_of_le (lt_of_some hslot) hlen
    · by_cases hki : k = i
      · subst hki
        obtain rfl : op₁ = op := by
          rw [hops, set_of_some hop] at hi
          exact Option.some.inj hi
        have hkind' : opk.kind.sends = true := hkind₁ ▸ hkind
        exact hmove.scripted himports hok h.known hop (hcalls k opk hop) hkind'
          (h.streams k opk hop hkind') hi
      · rw [hops, getElem?_set_ne hki] at hi
        refine (h.streams i op hi hkind).mono fun q hq => ?_
        rcases hframe with hw | ⟨s, q', m, hw, hq', hid⟩
        · rw [framesOf, hw]
          rfl
        · -- the frame is of a queue of the other call
          refine framesOf_write_ne hw fun he => hki ?_
          obtain rfl : q' = q := Nat.succ.inj (hid.symm.trans he)
          exact hcalls.owner hop hi hq' hq

theorem writesScripts {ls : List (Label P)} (himports : clientImports ⊆ imports)
    (hok : Along (Client.step imports reconnect) Accepts .init ls)
    (h : run (Client.step imports reconnect) .init ls = some c) : WritesScripts imports c := by
  have hstep : ∀ (c : Client P) l c', c.CallsSound ∧ WritesScripts imports c → Accepts c l →
      Client.step imports reconnect c l = some c' → c'.CallsSound ∧ WritesScripts imports c' :=
    fun _ _ _ hc hok hs => ⟨hc.1.step hs, hc.2.step himports hc.1 hok hs⟩
  have hinit : WritesScripts imports (init : Client P) :=
    ⟨nofun, nofun⟩
  exact (run_invariant hstep ⟨callsSound_init, hinit⟩ hok h).2

/-- **The streams write the protocol** on a connection that takes every write exactly if there are
no chunks, or `pack_stream_chunk` is imported and the chunks can be packed: the frames with the id
of a stream that was opened and closed once, which is that of no other call, are its request, a
chunk for each `send`, and the terminator. -/
theorem streams_write {ls : List (Label P)} {c : Client P} {i : Nat} {op : Op P}
    (himports : clientImports ⊆ imports)
    (hrun : run (step imports reconnect) .init ls = some c)
    (hok : Along (step imports reconnect) Accepts .init ls) (hop : c.ops[i]? = some op)
    (hkind : op.kind = .exportStream ∨ op.kind = .bidiStream) (hends : op.ends = 1) :
    ∃ call q, op.calls = [call] ∧
      (c.framesOf (q + 1) =
        { id := q + 1, type := some "request", func := some call.func, args := some [],
          stream := decide (op.kind = .bidiStream) } ::
        op.sends.map (fun v => { id := q + 1, type := some "stream_chunk", result := v }) ++
        [if op.kind = .bidiStream then packStreamEnd (q + 1) else packStreamClose (q + 1)] ↔
        ∀ v ∈ op.sends, CodecName.packStreamChunk ∈ imports ∧ P.refuse v = none) ∧
      ∀ (j : Nat) op', j ≠ i → c.ops[j]? = some op' → q ∉ op'.qs := by
  have hcalls := callsSound hrun
  have hsound := hcalls i op hop
  have hsends : op.kind.sends = true := by
    rcases hkind with hk | hk <;> rw [hk] <;> rfl
  have hs := (writesScripts himports hok hrun).streams i op hop hsends
  -- the stream is past its request
  have hlate : op.pc.early = false := by
    cases he : op.pc.early with
    | false => rfl
    | true => cases hends.symm.trans (hs.early he).2
  obtain ⟨call, hcall⟩ : ∃ call, op.calls = [call] := by
    exact length_eq_one_iff.1 (hsound.single (Kind.not_batch hsends))
  obtain ⟨hpayloads, hqs⟩ := hs.ended (hends ▸ Nat.one_ne_zero)
  obtain ⟨payload, hpayload⟩ := length_eq_one_iff.1 hpayloads
  obtain ⟨q, hq⟩ := length_eq_one_iff.1 hqs
  have hrequest : payload =
      { id := q + 1, type := some "request", func := some call.func, args := some [],
        stream := decide (op.kind = .bidiStream) } := by
    obtain ⟨q', call', hq', hcall', hreq⟩ := hsound.payload 0 payload (by rw [hpayload]; rfl)
    rw [hq] at hq'
    rw [hcall] at hcall'
    cases hq'
    cases hcall'
    rw [request_eq hreq]
    rcases hkind with hk | hk <;> rw [hk] <;> rfl
  have hchunk : ∀ v, chunkFrame imports (q + 1) v =
      some { id := q + 1, type := some "stream_chunk", result := v } ↔
      CodecName.packStreamChunk ∈ imports ∧ P.refuse v = none := by
    intro v
    unfold chunkFrame bound packStreamChunk packb
    by_cases hmem : CodecName.packStreamChunk ∈ imports <;>
      cases hv : P.refuse v <;> simp [hmem, hv, Except.toOption]
  refine ⟨call, q, hcall, ?_, fun j op' hji hj hq' => ?_⟩
  · have hscript : c.framesOf (q + 1) =
      payload :: op.sends.filterMap (chunkFrame imports (q + 1)) ++
        [if op.kind = .bidiStream then packStreamEnd (q + 1) else packStreamClose (q + 1)] := by
      rw [hs.script q hq, Op.script, Op.opening, hlate, hpayload, hends]
      rcases hkind with hk | hk <;> rw [hk] <;> rfl
    rw [hscript, hrequest, append_left_inj, cons_inj_right, filterMap_eq_map_iff_forall_eq_some]
    exact forall₂_congr fun v _ => hchunk v
  · exact hji (hcalls.owner hj hop hq' (hq ▸ mem_singleton.2 rfl))

/-- An export and a bidi stream with two chunks. -/
def twoChunkLabels : List (Label plain) :=
  [.start .exportStream ⟨"f", none⟩, .start .bidiStream ⟨"g", none⟩, .op 0 .register,
    .op 1 .register, .op 1 .pack, .op 0 .pack, .op 1 (.write none), .op 0 (.write none),
    .op 1 (.send (some 7) none), .op 1 (.send (some 8) none), .op 1 (.closeSend none),
    .op 0 (.closeAndRecv none)]

theorem streams_write_two : ∃ c : Client plain, ∃ op call q,
    run (step (.packStreamChunk :: clientImports) false) .init twoChunkLabels = some c ∧
    c.ops[1]? = some op ∧ op.calls = [call] ∧ c.framesOf (q + 1) =
      [{ id := q + 1, type := some "request", func := some call.func, args := some [],
         stream := true },
        { id := q + 1, type := some "stream_chunk", result := (some 7 : Option Int) },
        { id := q + 1, type := some "stream_chunk", result := (some 8 : Option Int) },
        packStreamEnd (q + 1)] := by
  have hok : Along (step (.packStreamChunk :: clientImports) false) Accepts (init : Client plain)
      twoChunkLabels := by
    iterate 6 refine Along.cons trivial rfl ?_
    iterate 6 refine Along.cons ⟨rfl, nofun⟩ rfl ?_
    exact trivial
  obtain ⟨call, q, hcall, hframes, -⟩ :=
    streams_write (subset_cons_self ..) rfl hok (i := 1) rfl (.inr rfl) rfl
  exact ⟨_, _, call, q, rfl, rfl, hcall, hframes.2 fun _ _ => ⟨mem_cons_self .., rfl⟩⟩

def oneChunkLabels : List (Label plain) :=
  [.start .exportStream ⟨"f", none⟩, .op 0 .register, .op 0 .pack, .op 0 (.write none),
    .op 0 (.send (some 7) none), .op 0 (.closeAndRecv none)]

/-- **`send` raises and writes no chunk**: the name `pack_stream_chunk` is not bound. -/
theorem chunks_missing : ∃ c : Client plain, ∃ op,
    run (step clientImports false) .init oneChunkLabels = some c ∧
    Along (step clientImports false) Accepts (init : Client plain) oneChunkLabels ∧
    c.ops[0]? = some op ∧ op.sends = [some 7] ∧ op.ends = 1 ∧
    c.framesOf 1 =
      [{ id := 1, type := some "request", func := some "f", args := some [] }, packStreamClose 1] ∧
    bound clientImports .packStreamChunk (packStreamChunk (P := plain) 1 (some 7)) =
      .error ⟨"NameError", "name 'pack_stream_chunk' is not defined"⟩ := by
  refine ⟨_, _, rfl, ?_, rfl, rfl, rfl, rfl, rfl⟩
  iterate 3 refine Along.cons trivial rfl ?_
  iterate 3 refine Along.cons ⟨rfl, nofun⟩ rfl ?_
  exact trivial

end Client

end Callwire.Py
