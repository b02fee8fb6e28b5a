import Callwire.Rust.Proof.Stale
import Callwire.Rust.Proof.Wakeup

/-!
# Stream frames and their requests

`drain_pending` fails the calls of a lost connection, but their streams stay in the maps: after a
reconnect the pump writes their chunks to a server that has not seen the requests. The frames of a
stream follow its request on the same connection (`Heralded`) as long as the streams that are
registered at a reconnect are spent, with an empty channel that nobody can send to.
-/

namespace Callwire.Rust

open Lib List

/-- A frame that belongs to a call made before. -/
def WireMessage.IsFollowUp (m : WireMessage) : Prop :=
  m.msgType = "stream_chunk" ∨ m.msgType = "stream_close" ∨ m.msgType = "stream_end"

/-- The request `id` has been written on the connection. -/
def Requested (wire : List Written) (conn : Nat) (id : BitVec 64) : Prop :=
  ∃ v ∈ wire, v.conn = conn ∧ v.frame.msgType = "request" ∧ v.frame.id = id

/-- Every frame of a stream comes after its request on the same connection. -/
def Heralded (wire : List Written) : Prop :=
  ∀ before w after, wire = before ++ w :: after → w.frame.IsFollowUp →
    Requested before w.conn w.frame.id

/-- No frame will come out of the channel. -/
def Chan.Spent (c : Chan) : Prop := c.queue = [] ∧ c.owner ≠ .active

/-- A reconnect finds only spent streams. -/
def ReconnectsSpent (a : Actor) (l : Label) : Prop :=
  l = .connected → ∀ side id ch c, (a.streams side).lookup id = some ch →
    a.chans[ch]? = some c → c.Spent

/-! ## The wire -/

theorem Requested.append {wire : List Written} {conn : Nat} {id : BitVec 64}
    (h : Requested wire conn id) (ws : List Written) : Requested (wire ++ ws) conn id := by
  obtain ⟨v, hv, h⟩ := h
  exact ⟨v, mem_append_left _ hv, h⟩

theorem Heralded.concat {wire : List Written} {w : Written} (h : Heralded wire)
    (hw : w.frame.IsFollowUp → Requested wire w.conn w.frame.id) : Heralded (wire ++ [w]) := by
  intro before x after he hx
  rcases eq_nil_or_concat after with rfl | ⟨after', y, rfl⟩
  · obtain ⟨rfl, hl⟩ := append_inj' he rfl
    cases hl
    exact hw hx
  · rw [concat_eq_append, ← cons_append, ← append_assoc] at he
    exact h before x after' (append_inj' he rfl).1 hx

theorem not_isFollowUp_of_request {m : WireMessage} (h : m.msgType = "request") :
    ¬ m.IsFollowUp := by
  rintro (hm | hm | hm) <;> exact absurd (h.symm.trans hm) (by decide)

/-! ## The invariant -/

/-- The command writes a request, under the id of the channel it registers. -/
def ActorCommand.Requests (chans : List Chan) : ActorCommand → Prop
  | .call _ payload _ | .callStream _ payload _ => payload.msgType = "request"
  | .exportStream id payload rx _ | .importBidi id payload rx _ =>
    payload.msgType = "request" ∧ payload.id = id ∧ ∃ c, chans[rx]? = some c ∧ c.id = id
  | .shutdown => True

structure Announced (a : Actor) : Prop where
  cmds : ∀ cmd ∈ a.cmds, cmd.Requests a.chans
  ids : ∀ side id ch, (a.streams side).lookup id = some ch → ∃ c, a.chans[ch]? = some c ∧ c.id = id
  queues : ∀ (ch : Nat) c, a.chans[ch]? = some c → ∀ p ∈ c.queue, p.id = c.id
  live : ∀ conn, a.writer = some conn → ∀ side id ch c, (a.streams side).lookup id = some ch →
    a.chans[ch]? = some c → c.Spent ∨ Requested a.wire conn id
  wire : Heralded a.wire

theorem Announced.init : Announced .init where
  cmds _ h := nomatch h
  ids side _ _ h := by cases side <;> cases h
  queues _ _ h := nomatch h
  live _ _ side _ _ _ h := by cases side <;> cases h
  wire before w after h := by simp [Actor.init] at h

section
variable {reconnect : Bool} {a a' : Actor} {l : Label}

theorem Announced.mono (h : Announced a) (hchans : a'.chans = a.chans) (hwire : a'.wire = a.wire)
    (hcmds : ∀ cmd ∈ a'.cmds, cmd ∈ a.cmds)
    (hs : ∀ side id ch, (a'.streams side).lookup id = some ch →
      (a.streams side).lookup id = some ch)
    (hw : ∀ conn, a'.writer = some conn → a.writer = some conn) : Announced a' where
  cmds cmd hc := by rw [hchans]; exact h.cmds cmd (hcmds cmd hc)
  ids side id ch hl := by rw [hchans]; exact h.ids side id ch (hs side id ch hl)
  queues := by rw [hchans]; exact h.queues
  live conn hconn side id ch c hl hc := by
    rw [hchans] at hc
    rw [hwire]
    exact h.live conn (hw conn hconn) side id ch c (hs side id ch hl) hc
  wire := by rw [hwire]; exact h.wire

/-- What may happen to a channel. -/
def Chan.Next (c c' : Chan) : Prop :=
  c'.id = c.id ∧ (∀ p ∈ c'.queue, p ∈ c.queue ∨ p.id = c.id) ∧ (c.Spent → c'.Spent)

theorem ActorCommand.Requests.mono {chans chans' : List Chan} {cmd : ActorCommand}
    (h : cmd.Requests chans)
    (hid : ∀ (i : Nat) c, chans[i]? = some c → ∃ c', chans'[i]? = some c' ∧ c'.id = c.id) :
    cmd.Requests chans' := by
  cases cmd with
  | call | callStream | shutdown => exact h
  | exportStream | importBidi =>
    obtain ⟨ht, hp, c, hc, hci⟩ := h
    obtain ⟨c', hc', hci'⟩ := hid _ c hc
    exact ⟨ht, hp, c', hc', hci'.trans hci⟩

section
variable (h : Announced a)
include h

theorem Announced.chans {chans : List Chan}
    (hid : ∀ (i : Nat) c, a.chans[i]? = some c → ∃ c', chans[i]? = some c' ∧ c'.id = c.id)
    (hnext : ∀ (i : Nat) c', chans[i]? = some c' → a.chans[i]? = none ∧ c'.queue = [] ∨
      ∃ c, a.chans[i]? = some c ∧ c.Next c') :
    Announced { a with chans } where
  cmds cmd hc := (h.cmds cmd hc).mono hid
  ids side id ch hl := by
    obtain ⟨c, hc, hci⟩ := h.ids side id ch hl
    obtain ⟨c', hc', hci'⟩ := hid ch c hc
    exact ⟨c', hc', hci'.trans hci⟩
  queues ch c' hc' p hp := by
    rcases hnext ch c' hc' with ⟨-, hq⟩ | ⟨c, hc, hn⟩
    · rw [hq] at hp
      cases hp
    · rw [hn.1]
      rcases hn.2.1 p hp with hp | hp
      · exact h.queues ch c hc p hp
      · exact hp
  live conn hconn side id ch c' hl hc' := by
    obtain ⟨c, hc, -⟩ := h.ids side id ch hl
    rcases hnext ch c' hc' with ⟨hnone, -⟩ | ⟨c₁, hc₁, hn⟩
    · cases hnone.symm.trans hc
    · exact (h.live conn hconn side id ch c₁ hl hc₁).imp_left hn.2.2
  wire := h.wire

theorem Announced.modify {ch : Nat} {f : Chan → Chan}
    (hf : ∀ c, a.chans[ch]? = some c → c.Next (f c)) :
    Announced { a with chans := a.chans.modify ch f } := by
  refine h.chans (fun i c hc => ?_) (fun i c' hc' => .inr ?_)
  · rw [getElem?_modify, hc]
    refine ⟨_, rfl, ?_⟩
    split
    · rename_i hi
      exact (hf c (hi ▸ hc)).1
    · rfl
  · rw [getElem?_modify] at hc'
    obtain ⟨c, hc, rfl⟩ := Option.map_eq_some_iff.1 hc'
    refine ⟨c, hc, ?_⟩
    split
    · rename_i hi
      exact hf c (hi ▸ hc)
    · exact ⟨rfl, fun _ hp => .inl hp, (·)⟩

theorem Announced.set {ch : Nat} {c c' : Chan} (hc : a.chans[ch]? = some c) (hn : c.Next c') :
    Announced { a with chans := a.chans.set ch c' } := by
  refine h.chans (fun i d hd => ?_) (fun i d hd => .inr ?_)
  · exact exists_set hc hd (fun he => he ▸ hn.1) rfl
  · rcases set_cases hc hd with ⟨rfl, rfl⟩ | ⟨-, hd⟩
    · exact ⟨c, hc, hn⟩
    · exact ⟨d, hd, rfl, fun _ hp => .inl hp, (·)⟩

theorem Announced.pop {ch : Nat} {c : Chan} {payload : WireMessage} {queue : List WireMessage}
    (hc : a.chans[ch]? = some c) (hq : c.queue = payload :: queue) :
    Announced { a with chans := a.chans.modify ch fun c => { c with queue } } := by
  refine h.modify fun d hd => ?_
  cases hc.symm.trans hd
  refine ⟨rfl, fun p hp => .inl ?_, fun hs => ?_⟩
  · rw [hq]
    exact mem_cons_of_mem _ hp
  · cases hq.symm.trans hs.1

theorem Announced.write {w : Written}
    (hw : w.frame.IsFollowUp → Requested a.wire w.conn w.frame.id) :
    Announced { a with wire := a.wire ++ [w] } where
  cmds := h.cmds
  ids := h.ids
  queues := h.queues
  live conn hconn side id ch c hl hc :=
    (h.live conn hconn side id ch c hl hc).imp_right (·.append _)
  wire := h.wire.concat hw

/-- A stream is registered under the id of its channel, after its request. -/
theorem Announced.register {s : Side} {id : BitVec 64} {rx conn : Nat} {c : Chan}
    (hc : a.chans[rx]? = some c) (hid : c.id = id) (hw : a.writer = some conn)
    (hr : Requested a.wire conn id) : Announced (a.setStreams ((a.streams s).insert id rx) s) := by
  have hchans : (a.setStreams ((a.streams s).insert id rx) s).chans = a.chans := by
    cases s <;> rfl
  have hwire : (a.setStreams ((a.streams s).insert id rx) s).wire = a.wire := by
    cases s <;> rfl
  refine ⟨?_, fun side k ch hl => ?_, ?_, fun n hn side k ch d hl hd => ?_, ?_⟩
  · cases s <;> exact h.cmds
  · rw [hchans]
    rcases Actor.lookup_setStreams_insert hl with ⟨rfl, rfl⟩ | hl
    · exact ⟨c, hc, hid⟩
    · exact h.ids side k ch hl
  · rw [hchans]
    exact h.queues
  · have hconn : a.writer = some n := by cases s <;> exact hn
    rw [hchans] at hd
    rw [hwire]
    rcases Actor.lookup_setStreams_insert hl with ⟨rfl, rfl⟩ | hl
    · cases hw.symm.trans hconn
      exact .inr hr
    · exact h.live n hconn side k ch d hl hd
  · rw [hwire]
    exact h.wire

theorem Announced.open {s : Side} {id : BitVec 64} {rx conn : Nat} {c : Chan}
    {payload : WireMessage} (tx : Option Nat) (ht : payload.msgType = "request")
    (hp : payload.id = id) (hc : a.chans[rx]? = some c) (hid : c.id = id)
    (hw : a.writer = some conn) :
    Announced (Actor.setStreams { a with wire := a.wire ++ [⟨conn, payload, tx⟩] }
      ((a.streams s).insert id rx) s) := by
  have hwr : Announced { a with wire := a.wire ++ [⟨conn, payload, tx⟩] } :=
    h.write fun hf => absurd hf (not_isFollowUp_of_request ht)
  have hreq : Requested (a.wire ++ [⟨conn, payload, tx⟩]) conn id :=
    ⟨_, mem_append_right _ (mem_singleton_self _), rfl, ht, hp⟩
  have := hwr.register (s := s) hc hid hw hreq
  cases s <;> exact this

theorem Announced.stop : Announced a.stop := by
  obtain ⟨replies, spawned, he⟩ := a.stop_eq
  rw [he]
  refine h.mono rfl rfl nofun (fun side _ _ hl => ?_) nofun
  cases side <;> cases hl

theorem Announced.reconnectOrStop : Announced (a.reconnectOrStop reconnect) := by
  rcases a.reconnectOrStop_cases reconnect with he | he <;> rw [he]
  · exact { h with }
  · exact h.stop

theorem Announced.disconnect : Announced a.disconnect := by
  obtain ⟨replies, spawned, he⟩ := a.disconnect_eq
  rw [he]
  exact { h with live := nofun }

theorem Announced.leavePump {side : Side} {gone : List (BitVec 64)} :
    Announced (a.leavePump side gone) := by
  refine h.mono ?_ ?_ ?_ (fun _ _ _ hl => Actor.streams_leavePump hl) ?_
  · cases side <;> rfl
  · cases side <;> rfl
  · cases side <;> exact fun _ hc => hc
  · cases side <;> exact fun _ hw => hw

theorem Announced.cmds_tail {cmd : ActorCommand} {cmds : List ActorCommand}
    (hc : a.cmds = cmd :: cmds) : Announced { a with cmds } :=
  { h with cmds := fun cmd hm => h.cmds cmd (hc ▸ mem_cons_of_mem _ hm) }

end

theorem Request.command_requests (r : Request) (chans : List Chan) (tx : Nat) :
    (r.command chans.length tx).Requests (chans ++ r.chans) := by
  cases r with
  | call | callStream => rfl
  | exportStream id func | importBidi id func =>
    exact ⟨rfl, rfl, _, by rw [Request.chans, getElem?_concat_length], rfl⟩

/-- **Every step keeps the invariant**, if a reconnect finds only spent streams. -/
theorem Announced.step (h : Announced a) (hok : ReconnectsSpent a l)
    (hstep : Callwire.Rust.step reconnect a l = some a') : Announced a' := by
  cases step_move hstep with
  | @submit r hcl =>
    have hnew : Announced { a with chans := a.chans ++ r.chans } := by
      refine h.chans (fun i c hc => ⟨c, ?_, rfl⟩) (fun i c' hc' => ?_)
      · rw [getElem?_append_left (lt_of_some hc), hc]
      · by_cases hi : i < a.chans.length
        · rw [getElem?_append_left hi] at hc'
          exact .inr ⟨c', hc', rfl, fun _ hp => .inl hp, (·)⟩
        · rw [getElem?_append_right (Nat.le_of_not_lt hi)] at hc'
          exact .inl ⟨getElem?_eq_none (Nat.le_of_not_lt hi),
            r.chans_empty c' (mem_of_getElem? hc')⟩
    have hcmds := forall_concat hnew.cmds (r.command_requests a.chans a.replies.length)
    exact { hnew with cmds := hcmds }
  | close =>
    exact { h with cmds := forall_concat h.cmds trivial }
  | @send _ ch payload owner c hl hc hr ho =>
    refine h.set hc ⟨rfl, fun p hp => ?_, fun hs => absurd ho hs.2⟩
    rcases mem_concat_cases hp with hp | rfl
    · exact .inl hp
    · exact .inr ((Label.sends_cases hl).1 c)
  | @dropStream ch =>
    exact h.modify fun c hc => ⟨rfl, fun _ hp => .inl hp, fun hs => ⟨hs.1, by simp⟩⟩
  | leave => exact h.leavePump
  | @pumped side id todo gone ch conn payload queue hpc hs hq hw =>
    obtain ⟨c, hc, hci⟩ := h.ids side id ch hs
    have hcq : c.queue = payload :: queue := by
      rwa [Actor.queueOf, hc] at hq
    have hreq : Requested a.wire conn payload.id := by
      have hp : payload.id = id :=
        (h.queues ch c hc payload (hcq ▸ mem_cons_self ..)).trans hci
      rw [hp]
      rcases h.live conn hw side id ch c hs hc with hsp | hr
      · cases hcq.symm.trans hsp.1
      · exact hr
    exact (h.pop hc hcq).write fun _ => hreq
  | @unpumped side id todo gone ok ch payload queue hpc hs hq =>
    obtain ⟨c, hc, -⟩ := h.ids side id ch hs
    have hcq : c.queue = payload :: queue := by
      rwa [Actor.queueOf, hc] at hq
    refine Announced.leavePump ?_
    exact { h.pop hc hcq with live := by simp }
  | shutdown hpc hc => exact (h.cmds_tail hc).stop
  | noClients => exact h.stop
  | @call cmd cmds id payload sender tx conn hpc hc hp hw =>
    have hreq : cmd.Requests a.chans := h.cmds cmd (hc ▸ mem_cons_self ..)
    have ht : payload.msgType = "request" := by
      cases cmd <;> cases hp <;> exact hreq
    have := (h.cmds_tail hc).write (w := ⟨conn, payload, some tx⟩) fun hf =>
      absurd hf (not_isFollowUp_of_request ht)
    exact { this with }
  | @exportStream cmds id payload rx tx conn hpc hc hw =>
    obtain ⟨ht, hp, c, hcc, hci⟩ : ActorCommand.Requests a.chans (.exportStream id payload rx tx) :=
      h.cmds _ (hc ▸ mem_cons_self ..)
    exact { (h.cmds_tail hc).open (s := .exports) (some tx) ht hp hcc hci hw with }
  | @importBidi cmds id payload rx tx conn hpc hc hw =>
    obtain ⟨ht, hp, c, hcc, hci⟩ : ActorCommand.Requests a.chans (.importBidi id payload rx tx) :=
      h.cmds _ (hc ▸ mem_cons_self ..)
    exact { (h.cmds_tail hc).open (s := .bidi) (some tx) ht hp hcc hci hw with }
  | callFailed hpc hc =>
    refine Announced.reconnectOrStop (Announced.disconnect ?_)
    have h := h.cmds_tail hc
    exact { h with }
  | exportFailed hpc hc =>
    refine Announced.reconnectOrStop ?_
    exact { (h.cmds_tail hc).disconnect with }
  | @message n msg reader =>
    obtain ⟨pc, pending, replies, he, -⟩ := Actor.handleFrame_eq { a with reader } msg
    rw [he]
    exact { h with }
  | lost hpc hr =>
    refine Announced.reconnectOrStop (Announced.disconnect ?_)
    exact { h with }
  | connected hpc =>
    exact { h with live := fun _ _ side id ch c hl hc => .inl (hok rfl side id ch c hl hc) }
  | _ => exact { h with }

end

/-! ## Runs -/

/-- **Every frame of a stream follows its request on the same connection**, in every run in which a
reconnect finds only spent streams. -/
theorem wire_heralded {reconnect : Bool} {ls : List Label} {a : Actor}
    (hok : Along (step reconnect) ReconnectsSpent .init ls)
    (hrun : run (step reconnect) .init ls = some a) : Heralded a.wire := by
  have h : Announced a :=
    run_invariant (fun _ _ _ hi hp hs => hi.step hp hs) .init hok hrun
  exact h.wire

/-- The connection of an open stream is lost, the actor reconnects, and the owner sends. -/
def orphanLabels : List Label :=
  openLabels ++ [.closed 0, .message, .connected, .send 0 .nil, .enter [1], .pump true]

/-- **The chunk of a call that has failed goes to the new connection**, where its request never
was. -/
theorem wire_orphan : ∃ a, run (step true) .init orphanLabels = some a ∧
    a.wire = [⟨0, packRequest 1 "f" .nil, some 0⟩, ⟨1, packStreamChunk 1 .nil, none⟩] ∧
    a.Failed 0 ∧ ¬ Heralded a.wire := by
  refine ⟨_, rfl, rfl, .inl ⟨⟨[.connectionClosed], 1, false⟩, rfl, mem_singleton_self _⟩, ?_⟩
  intro h
  obtain ⟨v, hv, hconn, -⟩ := h [⟨0, packRequest 1 "f" .nil, some 0⟩] _ [] rfl (.inl rfl)
  rw [mem_singleton.1 hv] at hconn
  cases hconn

/-- A stream is finished, and then its connection is lost. -/
def spentLabels : List Label :=
  toSelect ++ [.submit (.exportStream 1 "f"), .send 0 .nil, .closeAndRecv 0, .command true,
    .enter [1], .pump true, .pump true, .pump true, .pump true, .pump true, .enter [], .pump true,
    .closed 0, .message]

def spentActor : Actor where
  pc := .reconnecting
  writer := none
  pending := ∅
  exportStreams := AList.insert 1 0 ∅
  bidiStreams := ∅
  cmds := []
  clients := true
  reader := []
  readers := [false]
  chans := [⟨1, .exports, [], .closing⟩]
  replies := [⟨[.connectionClosed], 1, false⟩]
  spawned := []
  wire := [⟨0, packRequest 1 "f" .nil, some 0⟩, ⟨0, packStreamChunk 1 .nil, none⟩,
    ⟨0, packStreamClose 1, none⟩]

theorem wire_heralded_spent : ∃ a, run (step true) .init (spentLabels ++ [.connected]) = some a ∧
    a.writer = some 1 ∧ a.wire = spentActor.wire ∧ Heralded a.wire := by
  have hrun : run (step true) .init spentLabels = some spentActor := rfl
  have hok : Along (step true) ReconnectsSpent .init (spentLabels ++ [.connected]) := by
    refine .append (.of_labels (fun l hl a hc => ?_) _) hrun (.cons (fun _ => ?_) rfl trivial)
    · subst hc
      simp [spentLabels, toSelect] at hl
    · intro side id ch c _ hc
      rw [mem_singleton.1 (mem_of_getElem? hc)]
      exact ⟨rfl, by simp⟩
  exact ⟨_, rfl, rfl, rfl, wire_heralded hok rfl⟩

end Callwire.Rust
