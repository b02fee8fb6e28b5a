import Callwire.C.Proof.SessionDriver
import Callwire.C.Proof.SessionServer

/-!
# A session, frame by frame

`Net` is the client and the server with whole frames between them: `up` and `down` count the frames
that were read in each direction. Between two operations the server is calm and all that is on its
way are stray stream frames of operations that were answered early; within an operation the client
is in `InOp` and the server in a `Stage` (`At`). Every step keeps this and goes down in a
well-founded order (`Net.step_inv`), and where no step is possible the session is over
(`Net.stuck_done`).
-/

namespace Callwire.C

open Lib List Outgoing

/-! ## The frame-level system -/

structure Net where
  driver : Driver
  server : Conn
  up : Nat
  down : Nat

namespace Net

def init (ops : List Op) : Net := ⟨.init ops, .init, 0, 0⟩

/-- The frames the server has read, those it has yet to read, and those on their way back. -/
def heard (s : Net) : List Outgoing := s.driver.client.out.take s.up
def unread (s : Net) : List Outgoing := s.driver.client.out.drop s.up
def toRead (s : Net) : List Outgoing := s.server.out.drop s.down

inductive Step (entries : List Entry) (s : Net) : Net → Prop
  | deliver {m : Outgoing} {p : Payload} {c : Conn} (hm : s.driver.client.out[s.up]? = some m)
      (hp : m.payload = some p.bytes) (h : step entries s.server (.frame p) = some c) :
      Step entries s { s with server := c, up := s.up + 1 }
  | read {m : Outgoing} {p : Payload} {d : Driver} (hm : s.server.out[s.down]? = some m)
      (hp : m.payload = some p.bytes) (h : s.driver.read p = some d) :
      Step entries s { s with driver := d, down := s.down + 1 }
  | invoke {d : Driver} (h : s.driver.invoke = some d) : Step entries s { s with driver := d }
  | own {l : Label} {c : Conn} (hl : l = .loop true ∨ ∃ j, l = .thread j true)
      (h : step entries s.server l = some c) : Step entries s { s with server := c }

end Net

/-! ## The invariant -/

/-- The answers to a session: `n` handlers have been called and `k` operations begun before. -/
inductive Plan (entries : List Entry) : (n k : Nat) → List Op → List Outcome → Prop
  | nil {n k : Nat} : Plan entries n k [] []
  | cons {n k : Nat} {op : Op} {ops : List Op} {os : List Outcome} {a : Answer}
      (hv : a.Valid entries n op (opId k))
      (hf : ∀ m ∈ op.request (opId k) :: op.body (opId k), m.Frameable)
      (h : Plan entries (n + a.calls) (k + 1) ops os) :
      Plan entries n k (op :: ops) (a.outcome op :: os)

/-- What holds throughout, with `k` operations begun. -/
structure Net.Base (k : Nat) (s : Net) : Prop where
  routed : Routed s.server
  frames : s.server.frames = s.heard.map message
  nextId : s.driver.client.nextId = BitVec.ofNat 64 k
  ids : requestIds (s.driver.client.out.map message) = (List.range k).map opId
  bound : k < 2 ^ 64
  upLe : s.up ≤ s.driver.client.out.length
  downLe : s.down ≤ s.server.out.length
  upFits : ∀ m ∈ s.driver.client.out, m.Frameable
  downFits : ∀ m ∈ s.server.out, m.Frameable

/-- Where the session stands: `k` operations have begun, `n` handlers were called before the current
operation, and its handler has `fuel` steps left. -/
inductive Net.At (entries : List Entry) (os : List Outcome) (s : Net) (n fuel : Nat) : Nat → Prop
  | between {k : Nat} {os' : List Outcome} (hph : s.driver.phase = .start)
      (hw : s.driver.client.waiting = none) (calm : Calm s.server n)
      (hst : ∀ m ∈ s.unread, Stray s.server m) (hread : s.toRead = [])
      (plan : Plan entries n k s.driver.ops os') (hos : os = s.driver.results ++ os')
      (hb : k + s.driver.ops.length < 2 ^ 64) : At entries os s n fuel k
  | within {k : Nat} {op : Op} {ops : List Op} {os' : List Outcome} {a : Answer}
      {unsent : List Outgoing} {got : List (Option Value)} (hops : s.driver.ops = op :: ops)
      (hin : InOp (opId k) op s.driver.phase s.driver.client.waiting unsent got)
      (stage : Stage n (opId k) op a s.server s.heard (s.unread ++ unsent)
        (got.map (.streamChunk (opId k)) ++ s.toRead) fuel)
      (hv : a.Valid entries n op (opId k)) (hf : ∀ m ∈ unsent, m.Frameable)
      (plan : Plan entries (n + a.calls) (k + 1) ops os')
      (hos : os = s.driver.results ++ a.outcome op :: os') (hb : k + 1 + ops.length < 2 ^ 64) :
      At entries os s n fuel (k + 1)

def Net.Inv (entries : List Entry) (os : List Outcome) (s : Net) (fuel : Nat) : Prop :=
  ∃ k n, s.Base k ∧ s.At entries os n fuel k

/-! ## The rank -/

/-- The session goes down in this order: the client's work, the frames to be read by the server, the
place of its read loop, the steps of its threads, the frames to be read by the client. -/
def Net.rank (s : Net) (fuel : Nat) : Nat × Nat × Nat × Nat × Nat :=
  (s.driver.work, s.unread.length, s.server.loop.rank, s.server.threadRank fuel,
    2 * s.toRead.length + if s.driver.client.waiting = none then 1 else 0)

def Net.Below : Nat × Nat × Nat × Nat × Nat → Nat × Nat × Nat × Nat × Nat → Prop :=
  Prod.Lex (· < ·) (Prod.Lex (· < ·) (Prod.Lex (· < ·) (Prod.Lex (· < ·) (· < ·))))

theorem Net.below_wf : WellFounded Net.Below :=
  WellFounded.prod_lex Nat.lt_wfRel.wf (WellFounded.prod_lex Nat.lt_wfRel.wf
    (WellFounded.prod_lex Nat.lt_wfRel.wf (WellFounded.prod_lex Nat.lt_wfRel.wf Nat.lt_wfRel.wf)))

section
variable {s s' : Net} {fuel fuel' : Nat}

theorem below_work (h : s'.driver.work < s.driver.work) :
    Net.Below (s'.rank fuel') (s.rank fuel) :=
  Prod.Lex.left _ _ h

theorem below_unread (hw : s'.driver.work = s.driver.work)
    (h : s'.unread.length < s.unread.length) : Net.Below (s'.rank fuel') (s.rank fuel) := by
  rw [Net.rank, hw]
  exact Prod.Lex.right _ (Prod.Lex.left _ _ h)

theorem below_lower (hd : s'.driver = s.driver) (hup : s'.up = s.up)
    (h : Lower s'.server fuel' s.server fuel) : Net.Below (s'.rank fuel') (s.rank fuel) := by
  have hun : s'.unread = s.unread := by rw [Net.unread, hd, hup, Net.unread]
  rw [Net.rank, hd, hun]
  rcases h with h | ⟨hl, h⟩
  · exact Prod.Lex.right _ (Prod.Lex.right _ (Prod.Lex.left _ _ h))
  · rw [hl]
    exact Prod.Lex.right _ (Prod.Lex.right _ (Prod.Lex.right _ (Prod.Lex.left _ _ h)))

theorem below_read (hw : s'.driver.work = s.driver.work) (hun : s'.unread = s.unread)
    (hs : s'.server = s.server)
    (h : 2 * s'.toRead.length + (if s'.driver.client.waiting = none then 1 else 0) <
      2 * s.toRead.length + if s.driver.client.waiting = none then 1 else 0) :
    Net.Below (s'.rank fuel) (s.rank fuel) := by
  rw [Net.rank, hw, hun, hs]
  exact Prod.Lex.right _ (Prod.Lex.right _ (Prod.Lex.right _ (Prod.Lex.right _ h)))

end

/-! ## What holds throughout -/

theorem opId_inj {a b k : Nat} (hk : k < 2 ^ 64) (ha : a < k) (hb : b < k) (h : opId a = opId b) :
    a = b := by
  have := congrArg BitVec.toNat h
  simp only [opId, BitVec.toNat_ofNat] at this
  omega

theorem opId_ne_zero {k : Nat} (hk : k + 1 < 2 ^ 64) : opId k ≠ 0 := by
  intro h
  have := congrArg BitVec.toNat h
  simp only [opId, BitVec.toNat_ofNat, BitVec.ofNat_eq_ofNat] at this
  omega

theorem requestIds_append (xs ys : List WireMessage) :
    requestIds (xs ++ ys) = requestIds xs ++ requestIds ys := by
  rw [requestIds, filter_append, map_append]
  rfl

theorem requestIds_nil {ms : List Outgoing}
    (h : ∀ m ∈ ms, Conn.typeIs m.message "request" = false) :
    requestIds (ms.map message) = [] := by
  rw [requestIds, filter_eq_nil_iff.2, map_nil]
  intro msg hmsg
  obtain ⟨m, hm, rfl⟩ := mem_map.1 hmsg
  rw [h m hm]
  exact Bool.false_ne_true

namespace Net

section
variable {entries : List Entry} {os : List Outcome} {s : Net} {k k' n fuel : Nat} {c : Conn}
  {d : Driver} {m : Outgoing} {p : Payload} {new : List Outgoing} {got : List (Option Value)}
  {op : Op} {i : BitVec 64} {a : Answer} {ops : List Op}

theorem unread_eq (hm : s.driver.client.out[s.up]? = some m) :
    s.unread = m :: s.driver.client.out.drop (s.up + 1) := by
  obtain ⟨hlt, rfl⟩ := List.getElem?_eq_some_iff.1 hm
  exact drop_eq_getElem_cons hlt

theorem toRead_eq (hm : s.server.out[s.down]? = some m) :
    s.toRead = m :: s.server.out.drop (s.down + 1) := by
  obtain ⟨hlt, rfl⟩ := List.getElem?_eq_some_iff.1 hm
  exact drop_eq_getElem_cons hlt

theorem heard_succ (hm : s.driver.client.out[s.up]? = some m) :
    s.driver.client.out.take (s.up + 1) = s.heard ++ [m] := by
  rw [take_add_one, hm]
  rfl

section
variable (h : s.Base k)
include h

theorem Base.ids_nodup : (requestIds (s.driver.client.out.map message)).Nodup := by
  rw [h.ids]
  refine Nodup.map_on (fun a ha b hb he => ?_) nodup_range
  exact opId_inj h.bound (mem_range.1 ha) (mem_range.1 hb) he

theorem Base.frames_nodup : (requestIds s.server.frames).Nodup := by
  rw [h.frames]
  exact requestIds_nodup_mono (( take_prefix _ _).map _) h.ids_nodup

theorem Base.deliver (hm : s.driver.client.out[s.up]? = some m)
    (hs : step entries s.server (.frame p) = some c) (hout : c.out = s.server.out)
    (hfr : c.frames = s.server.frames ++ [m.message]) :
    Base k { s with server := c, up := s.up + 1 } := by
  have hlt := lt_of_some hm
  have hfr' : c.frames = (s.driver.client.out.take (s.up + 1)).map message := by
    rw [hfr, h.frames, heard_succ hm, map_append]
    rfl
  refine ⟨h.routed.step hs ?_, hfr', h.nextId, h.ids, h.bound, hlt, ?_, h.upFits, ?_⟩
  · rw [hfr']
    exact requestIds_nodup_mono (( take_prefix _ _).map _) h.ids_nodup
  · rw [hout]
    exact h.downLe
  · rw [hout]
    exact h.downFits

theorem Base.own {l : Label} (hs : step entries s.server l = some c)
    (hout : c.out = s.server.out ++ new) (hfr : c.frames = s.server.frames)
    (hnew : ∀ m ∈ new, m.Frameable) : Base k { s with server := c } := by
  refine ⟨h.routed.step hs (hfr.symm ▸ h.frames_nodup), hfr.trans h.frames, h.nextId, h.ids,
    h.bound,
    h.upLe, ?_, h.upFits, ?_⟩
  · rw [hout, length_append]
    exact Nat.le_add_right_of_le h.downLe
  · rw [hout]
    exact fun m hm => (mem_append.1 hm).elim (h.downFits m) (hnew m)

theorem Base.client {j : Nat} (hj : j ≤ s.server.out.length)
    (hout : d.client.out = s.driver.client.out ++ new)
    (hnext : d.client.nextId = BitVec.ofNat 64 k') (hb : k' < 2 ^ 64)
    (hids : (List.range k).map opId ++ requestIds (new.map message) = (List.range k').map opId)
    (hnew : ∀ m ∈ new, m.Frameable) : Base k' { s with driver := d, down := j } := by
  refine ⟨h.routed, ?_, hnext, ?_, hb, ?_, hj, ?_, h.downFits⟩
  · rw [h.frames, Net.heard, Net.heard, hout, take_append_of_le_length h.upLe]
  · rw [hout, map_append, requestIds_append, h.ids, hids]
  · rw [hout, length_append]
    exact Nat.le_add_right_of_le h.upLe
  · rw [hout]
    exact fun m hm => (mem_append.1 hm).elim (h.upFits m) (hnew m)

theorem Base.unread_append (hout : d.client.out = s.driver.client.out ++ new) (j : Nat) :
    Net.unread { s with driver := d, down := j } = s.unread ++ new := by
  rw [Net.unread, hout, drop_append_of_le_length h.upLe]
  rfl

theorem Base.heard_append (hout : d.client.out = s.driver.client.out ++ new) (j : Nat) :
    Net.heard { s with driver := d, down := j } = s.heard := by
  rw [Net.heard, hout, take_append_of_le_length h.upLe]
  rfl

end

/-! ## Between two operations -/

/-- **A step between two operations.** -/
theorem step_between {os' : List Outcome} {s' : Net} (hb : s.Base k)
    (hph : s.driver.phase = .start) (hw : s.driver.client.waiting = none) (calm : Calm s.server n)
    (hst : ∀ m ∈ s.unread, Stray s.server m) (hread : s.toRead = [])
    (plan : Plan entries n k s.driver.ops os') (hos : os = s.driver.results ++ os')
    (hk : k + s.driver.ops.length < 2 ^ 64) (hs : Step entries s s') :
    ∃ fuel', s'.Inv entries os fuel' ∧ Below (s'.rank fuel') (s.rank fuel) := by
  cases hs with
  | @deliver m p c hm hp h =>
    have hun := unread_eq hm
    have hc := deliver_stray (hst m (by rw [hun]; exact mem_cons_self ..)) hp h
    have hbase := hb.deliver hm h (by rw [hc]) (by rw [hc])
    subst hc
    refine ⟨fuel, ⟨k, n, hbase, .between hph hw (calm.read _) ?_ hread plan hos hk⟩,
      below_unread rfl ?_⟩
    · intro x hx
      exact hst x (by rw [hun]; exact mem_cons_of_mem _ hx)
    · rw [hun]
      exact Nat.lt_succ_self _
  | @read m p d hm =>
    rw [toRead_eq hm] at hread
    cases hread
  | @invoke d h =>
    cases hops : s.driver.ops with
    | nil =>
      unfold Driver.invoke Driver.next at h
      rw [hw, hops] at h
      cases h
    | cons op ops =>
      rw [hops] at plan hk
      have hk : k + (ops.length + 1) < 2 ^ 64 := hk
      cases plan with
      | @cons _ _ _ _ os' a hv hf hplan =>
        have hid : s.driver.client.nextId + 1 = opId k := by
          rw [hb.nextId, opId, BitVec.ofNat_add]
          rfl
        have hreq : (op.request (opId k)).Frameable := hf _ (mem_cons_self ..)
        obtain ⟨hops', hres, hnext, hout, hin, hwork⟩ :=
          invoke_begin hops hph hw hid (opId_ne_zero (by omega)) hreq h
        have hnew : ∀ m ∈ [op.request (opId k)], m.Frameable := fun m hm =>
          mem_singleton.1 hm ▸ hreq
        have hids : (List.range k).map opId ++
            requestIds ([op.request (opId k)].map message) =
            (List.range (k + 1)).map opId := by
          rw [range_succ, map_append, map_singleton, map_singleton,
            request_message]
          rfl
        refine ⟨fuel, ⟨k + 1, n, hb.client hb.downLe hout hnext (by omega) hids hnew,
          .within (hops'.trans hops) hin (.asked calm hst ?_ ?_) hv ?_ hplan ?_ (by omega)⟩,
          below_work hwork⟩
        · rw [hb.unread_append hout, append_assoc]
          rfl
        · exact hread
        · exact fun m hm => hf m (mem_cons_of_mem _ hm)
        · rw [hos, ← hres]
  | @own l c hl h =>
    obtain ⟨hout, hfr, calm', hst', hlow⟩ := calm.own hb.routed.owned hl h fuel
    have hbase := hb.own h (hout.trans (append_nil _).symm) hfr nofun
    refine ⟨fuel, ⟨k, n, hbase, .between hph hw calm'
      (fun m hm => hst' m (hst m hm)) ?_ plan hos hk⟩,
      below_lower rfl rfl hlow⟩
    rw [toRead, hout]
    exact hread

/-! ## Within an operation -/

theorem chunks_nil (hv : a.Valid entries n op i) (hop : ∀ f args, op ≠ .stream f args) :
    a.chunks = [] := by
  cases a with
  | missing => rfl
  | found e fuel chunks rc result =>
    obtain ⟨-, -, hf, -, hrun⟩ := hv
    refine runLocal_silent ?_ hrun
    cases op with
    | stream f args => exact absurd rfl (hop f args)
    | call | exportStream =>
      cases hk : e.kind <;> rw [hk] at hf <;> first | rfl | simp [Op.fits] at hf

theorem final_ne_chunk {j : BitVec 64} {v : Option Value} : a.final op i ≠ .streamChunk j v := by
  cases a with
  | missing => exact fun h => by cases h
  | found e fuel chunks rc result =>
    cases op <;> simp only [Answer.final, Op.finalReply] <;> split <;> simp

theorem next_reply_aux {last : Outgoing} {rest : List Outgoing} :
    ∀ {got chunks : List (Option Value)},
    got.map (.streamChunk i) ++ m :: rest <+: chunks.map (.streamChunk i) ++ [last] →
      (∃ v ∈ chunks, m = .streamChunk i v) ∨ m = last ∧ got = chunks ∧ rest = []
  | [], [], h => by
    obtain ⟨rfl, hr⟩ := cons_prefix_cons.1 h
    exact .inr ⟨rfl, rfl, prefix_nil.1 hr⟩
  | [], v :: chunks, h => .inl ⟨v, mem_cons_self .., (cons_prefix_cons.1 h).1⟩
  | g :: got, [], h => by
    have hr := prefix_nil.1 (cons_prefix_cons.1 h).2
    simp at hr
  | g :: got, v :: chunks, h => by
    obtain ⟨hg, htail⟩ := cons_prefix_cons.1 h
    cases hg
    rcases next_reply_aux htail with ⟨w, hw, hm⟩ | ⟨hm, rfl, hr⟩
    · exact .inl ⟨w, mem_cons_of_mem _ hw, hm⟩
    · exact .inr ⟨hm, rfl, hr⟩

theorem next_reply {rest : List Outgoing}
    (h : got.map (.streamChunk i) ++ m :: rest <+: a.replies op i) :
    (∃ v ∈ a.chunks, m = .streamChunk i v) ∨ m = a.final op i ∧ got = a.chunks ∧ rest = [] :=
  next_reply_aux h

theorem unsent_not_request {phase : Phase} {waiting : Option (Api × BitVec 64)}
    {unsent : List Outgoing} (h : InOp i op phase waiting unsent got) :
    ∀ m ∈ unsent, Conn.typeIs m.message "request" = false := by
  cases h with
  | send =>
    intro m hm
    rcases mem_concat_cases hm with hm | rfl
    · obtain ⟨v, -, rfl⟩ := mem_map.1 hm
      rfl
    · rfl
  | _ => exact nofun

/-- **A step within an operation.** -/
theorem step_within {os' : List Outcome} {unsent : List Outgoing} {s' : Net} (hb : s.Base (k + 1))
    (hops : s.driver.ops = op :: ops)
    (hin : InOp (opId k) op s.driver.phase s.driver.client.waiting unsent got)
    (stage : Stage n (opId k) op a s.server s.heard (s.unread ++ unsent)
      (got.map (.streamChunk (opId k)) ++ s.toRead) fuel)
    (hv : a.Valid entries n op (opId k)) (hf : ∀ m ∈ unsent, m.Frameable)
    (plan : Plan entries (n + a.calls) (k + 1) ops os')
    (hos : os = s.driver.results ++ a.outcome op :: os') (hk : k + 1 + ops.length < 2 ^ 64)
    (hs : Step entries s s') :
    ∃ fuel', s'.Inv entries os fuel' ∧ Below (s'.rank fuel') (s.rank fuel) := by
  cases hs with
  | @deliver m p c hm hp h =>
    have hun := unread_eq hm
    rw [hun] at stage
    obtain ⟨hout, hfr, -, stage'⟩ := stage.deliver hv hp h
    have hheard : heard { s with server := c, up := s.up + 1 } = s.heard ++ [m] := heard_succ hm
    refine ⟨fuel, ⟨k + 1, n, hb.deliver hm h hout hfr,
      .within hops hin ?_ hv hf plan hos hk⟩, below_unread rfl ?_⟩
    · rw [hheard, toRead, hout]
      exact stage'
    · rw [hun]
      exact Nat.lt_succ_self _
  | @read m p d hm hp h =>
    have hto := toRead_eq hm
    have hdown : s.down + 1 ≤ s.server.out.length := lt_of_some hm
    rw [hto] at stage
    have hmono : got.map (.streamChunk (opId k)) ++ m :: s.server.out.drop (s.down + 1) <+:
        a.replies op (opId k) := by
      rcases stage.replies with ⟨emitted, hpre, hcur⟩ | ⟨-, -, hcur⟩
      · rw [hcur]
        exact (hpre.map _).trans (prefix_append _ _)
      · exact hcur ▸ prefix_rfl
    rcases next_reply hmono with ⟨v, hvm, rfl⟩ | ⟨rfl, hgot, hrest⟩
    · have hstream : ∃ f args, op = .stream f args := by
        by_contra hno
        rw [chunks_nil hv fun f args he => hno ⟨f, args, he⟩] at hvm
        cases hvm
      obtain ⟨f, args, rfl⟩ := hstream
      obtain ⟨hops', hres, hnext, hout, hwork, hw, hw', rfl, hin'⟩ := read_chunk hin hops hp h
      have hout' := hout.trans (append_nil _).symm
      have hun := (hb.unread_append hout' (s.down + 1)).trans (append_nil _)
      have hheard := hb.heard_append hout' (s.down + 1)
      refine ⟨fuel, ⟨k + 1, n, hb.client hdown hout' (hnext.trans hb.nextId) hb.bound
        (append_nil _) nofun,
        .within (hops'.trans hops) hin' ?_ hv hf plan (by rw [hos, ← hres]) hk⟩,
        below_read hwork hun rfl ?_⟩
      · rw [hun, hheard, map_append, append_assoc]
        exact stage
      · rw [hto, if_pos hw', if_neg hw]
        simp only [toRead, length_cons]
        omega
    · obtain ⟨hops', hres, hnext, hout, hph', hw', rfl, hwork⟩ :=
        read_final hin hops (fun _ _ _ => hgot) hp h
      have hout' := hout.trans (append_nil _).symm
      have hun := (hb.unread_append hout' (s.down + 1)).trans (append_nil _)
      -- the last frame is there, so the operation is answered
      rcases stage.replies with ⟨emitted, -, hcur⟩ | ⟨calm, hst, -⟩
      · have hmem : a.final op (opId k) ∈ emitted.map (.streamChunk (opId k)) := by
          rw [← hcur]
          simp
        obtain ⟨v, -, hv'⟩ := mem_map.1 hmem
        exact absurd hv'.symm final_ne_chunk
      · refine ⟨fuel, ⟨k + 1, n + a.calls, hb.client hdown hout' (hnext.trans hb.nextId) hb.bound
          (append_nil _) nofun,
          .between hph' hw' calm ?_ hrest (hops'.symm ▸ plan) ?_ (hops'.symm ▸ hk)⟩,
          below_work hwork⟩
        · rw [hun]
          rw [append_nil] at hst
          exact hst
        · rw [hos, hres, append_assoc]
          rfl
  | @invoke d h =>
    obtain ⟨hops', hres, hnext, new, unsent', hout, rfl, hin', hrank⟩ := invoke_within hin hops hf h
    have hnew : ∀ m ∈ new, m.Frameable := fun m hm => hf m (mem_append_left _ hm)
    have hids : (List.range (k + 1)).map opId ++ requestIds (new.map message) =
        (List.range (k + 1)).map opId := by
      rw [requestIds_nil fun m hm => unsent_not_request hin m (mem_append_left _ hm),
        append_nil]
    have hun := hb.unread_append hout s.down
    have hheard := hb.heard_append hout s.down
    refine ⟨fuel, ⟨k + 1, n, hb.client hb.downLe hout (hnext.trans hb.nextId) hb.bound hids hnew,
      .within (hops'.trans hops) hin' ?_ hv ?_ plan (by rw [hos, ← hres]) hk⟩, ?_⟩
    · rw [hun, hheard, append_assoc]
      exact stage
    · exact fun m hm => hf m (mem_append_right _ hm)
    · rcases hrank with hlt | ⟨hwork, rfl, hw, hw'⟩
      · exact below_work hlt
      · refine below_read hwork (hun.trans (append_nil _)) rfl ?_
        rw [if_pos hw, if_neg hw']
        exact Nat.lt_succ_self _
  | @own l c hl h =>
    obtain ⟨fuel', new, hout, hfr, stage', hnew, hlow⟩ :=
      stage.own hb.routed hb.frames_nodup hb.frames hv hl h
    refine ⟨fuel', ⟨k + 1, n, hb.own h hout hfr hnew, .within hops hin ?_ hv hf plan hos hk⟩,
      below_lower rfl rfl hlow⟩
    rw [toRead, hout, drop_append_of_le_length hb.downLe, ← append_assoc]
    exact stage'

/-! ## Steps and rest -/

/-- **Every step keeps the invariant and goes down.** -/
theorem step_inv {s' : Net} (h : s.Inv entries os fuel) (hs : Step entries s s') :
    ∃ fuel', s'.Inv entries os fuel' ∧ Below (s'.rank fuel') (s.rank fuel) := by
  obtain ⟨k, n, hb, hat⟩ := h
  cases hat with
  | between hph hw calm hst hread plan hos hk =>
    exact step_between hb hph hw calm hst hread plan hos hk hs
  | within hops hin stage hv hf plan hos hk =>
    exact step_within hb hops hin stage hv hf plan hos hk hs

theorem Inv.results (h : s.Inv entries os fuel) : s.driver.results <+: os := by
  obtain ⟨k, n, -, hat⟩ := h
  cases hat with
  | between _ _ _ _ _ _ hos | within _ _ _ _ _ _ hos => exact hos ▸ prefix_append _ _

theorem frameable_payload (h : m.Frameable) : ∃ p : Payload, m.payload = some p.bytes := by
  obtain ⟨bs, hp, hl⟩ := h
  exact ⟨.mem bs (Nat.lt_of_le_of_lt hl (by decide)), hp⟩

/-- The application makes its next call as soon as the last one has returned. -/
theorem invoke_enabled (entries : List Entry) (hops : s.driver.ops = op :: ops)
    (hw : s.driver.client.waiting = none) : ∃ s', Step entries s s' := by
  have hs : ∃ d, s.driver.invoke = some d := by
    unfold Driver.invoke Driver.next
    rw [hw, hops]
    exact ⟨_, rfl⟩
  obtain ⟨d, hd⟩ := hs
  exact ⟨_, .invoke hd⟩

/-- **Where no step is possible, the session is over.** -/
theorem stuck_done (h : s.Inv entries os fuel) (hstuck : ∀ s', ¬ Step entries s s') :
    s.driver.ops = [] ∧ s.driver.results = os := by
  obtain ⟨k, n, hb, hat⟩ := h
  cases hat with
  | between hph hw calm hst hread plan hos hk =>
    cases hops : s.driver.ops with
    | nil =>
      rw [hops] at plan
      cases plan
      exact ⟨rfl, by rw [hos, append_nil]⟩
    | cons op ops =>
      obtain ⟨s', hs⟩ := invoke_enabled entries hops hw
      exact absurd hs (hstuck s')
  | @within k op ops os' a unsent got hops hin stage hv hf plan hos hk =>
    exfalso
    have hwait : s.driver.client.waiting ≠ none := by
      intro hw
      obtain ⟨s', hs⟩ := invoke_enabled entries hops hw
      exact hstuck s' hs
    obtain ⟨w, hw⟩ := Option.ne_none_iff_exists'.1 hwait
    have hunsent : unsent = [] := by
      rw [hw] at hin
      exact hin.unsent_nil
    have hstill : Still entries s.server := by
      intro l hl
      cases hs : step entries s.server l with
      | none => rfl
      | some c => exact absurd (.own hl hs) (hstuck _)
    have hunread : s.unread = [] := by
      cases hun : s.unread with
      | nil => rfl
      | cons m ms =>
        have hm : s.driver.client.out[s.up]? = some m := by
          rw [← head?_drop, ← Net.unread, hun]
          rfl
        obtain ⟨p, hp⟩ := frameable_payload (hb.upFits m (mem_of_getElem? hm))
        have hs : step entries s.server (.frame p) = some (s.server.handleFrame p) := by
          unfold step
          rw [hstill.loop stage.not_closed]
        exact absurd (.deliver hm hp hs) (hstuck _)
    rw [hunsent, hunread] at stage
    have hcur := stage.still hb.routed hb.frames_nodup hb.frames hstill
    cases hto : s.toRead with
    | nil =>
      rw [hto, append_nil] at hcur
      have hmem : a.final op (opId k) ∈ got.map (.streamChunk (opId k)) := by
        rw [hcur]
        exact mem_append_right _ (mem_singleton_self _)
      obtain ⟨v, -, hv'⟩ := mem_map.1 hmem
      exact final_ne_chunk hv'.symm
    | cons m ms =>
      have hm : s.server.out[s.down]? = some m := by
        rw [← head?_drop, ← Net.toRead, hto]
        rfl
      obtain ⟨p, hp⟩ := frameable_payload (hb.downFits m (mem_of_getElem? hm))
      have hs : s.driver.read p = some (s.driver.settle
        (s.driver.client.read w.1 w.2 (some p))) := by
        unfold Driver.read
        rw [hw]
      exact hstuck _ (.read hm hp hs)

theorem Inv.init (plan : Plan entries 0 0 ops os) (hk : ops.length < 2 ^ 64) :
    (init ops).Inv entries os 0 := by
  refine ⟨0, 0, ⟨.init, rfl, rfl, rfl, by decide, Nat.le_refl _, Nat.le_refl _, nofun,
    nofun⟩, .between rfl rfl ⟨rfl, rfl, nofun⟩
    nofun rfl plan rfl ?_⟩
  rw [Nat.zero_add]
  exact hk

end

end Net

end Callwire.C
