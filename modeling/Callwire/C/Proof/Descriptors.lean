import Callwire.C.Service
import Callwire.C.Proof.Quiescence

/-!
# Replies and descriptors

A dispatch thread keeps the descriptor of its connection as a number. While `handle_connection` runs
the number is the connection's own; after its `close` it is free, and a write fails, until `accept`
returns it again. `Held` says this of every connection, and that a number is in use by another
connection only when the threads that still have it are done: this is what an accept has to respect
(`Settled`), and the code does nothing for it. A thread that outlives its connection writes its
reply to whoever was accepted in between (`reply_misdirected`).
-/

namespace Callwire.C

open Lib List Option Function

/-! ## Connections that have ended -/

section
variable {entries : List Entry} {c c' : Conn} {l : Label}

theorem closed_step (h : c.loop = .closed) (hs : step entries c l = some c') :
    c'.loop = .closed := by
  cases step_move hs with
  | malformed | reuse => exact h
  | route hl | discard hl | request hl | drain hl | push hl | refuse hl | register hl | accept hl
    | spawn hl | noThread hl => cases h.symm.trans hl
  | emit | reply => rw [Conn.setThread_loop, Conn.write_loop]; exact h
  | _ => exact h

def Conn.Settled (c : Conn) : Prop := ∀ t ∈ c.threads, t.pc = .done

/-- With its read loop ended and its threads done, a connection writes nothing more. -/
theorem settled_step (h : c.loop = .closed) (hd : c.Settled) (hs : step entries c l = some c') :
    c'.Settled ∧ c'.out = c.out := by
  cases step_move hs with
  | malformed | reuse => exact ⟨hd, rfl⟩
  | route hl | discard hl | request hl | drain hl | push hl | refuse hl | register hl | accept hl
    | spawn hl | noThread hl => cases h.symm.trans hl
  | find ht hpc | ret ht hpc | emit ht hpc | recv ht hpc | reply ht hpc | remove ht hpc
    | removeNone ht hpc | free ht hpc => cases (hd _ (mem_of_getElem? ht)).symm.trans hpc

end

/-! ## The moves of the service -/

namespace Service

variable {entries : List Entry} {s s' : Service} {e : Event} {peer : Peer} {fds : Nat → Option Nat}
  {k : Nat} {l : Label}

inductive Move (entries : List Entry) (s : Service) : Event → Service → Prop
  | test (hs : s.serve = .test) :
      Move entries s .test
        { s.read .running with serve := if s.running then .accept else .returned }
  | enter (hs : s.serve = .accept) :
      Move entries s .enter { s.read .listenSock with serve := .accepting }
  | accepted {fd : Nat} {created : Bool} (hs : s.serve = .accepting) (hfd : s.fds fd = none) :
      Move entries s (.accepted fd created) (s.accepted fd created)
  | acceptFailed (hs : s.serve = .accepting) :
      Move entries s .acceptFailed { s with serve := .recheck }
  | recheck (hs : s.serve = .recheck) :
      Move entries s .recheck
        { s.read .running with serve := if s.running then .test else .returned }
  | conn {k : Nat} {l : Label} {peer : Peer} {conn : Conn} {s' : Service}
      (hp : s.peers[k]? = some peer) (hc : C.step entries peer.conn l = some conn)
      (hs : (if looksUp peer.conn l then s.read .registry else s).advance k peer conn = some s') :
      Move entries s (.conn k l) s'
  | hangUp {k : Nat} {peer : Peer} (hp : s.peers[k]? = some peer)
      (hl : peer.conn.loop = .closed) (hr : peer.returned = false) :
      Move entries s (.hangUp k) (s.hangUp k peer)
  | stop : Move entries s .stop { s with running := false }
  | release : Move entries s .release { s with alive := false }

/-- **Every step is one of the moves.** -/
theorem step_move (h : step entries s e = some s') : Move entries s e s' := by
  cases e with
  | test =>
    simp only [step] at h
    split at h
    · rename_i hs
      cases h
      exact .test hs
    · cases h
  | enter =>
    simp only [step] at h
    split at h
    · rename_i hs
      cases h
      exact .enter hs
    · cases h
  | accepted fd created =>
    simp only [step] at h
    split at h
    · rename_i hs hfd
      cases h
      exact .accepted hs hfd
    · cases h
  | acceptFailed =>
    simp only [step] at h
    split at h
    · rename_i hs
      cases h
      exact .acceptFailed hs
    · cases h
  | recheck =>
    simp only [step] at h
    split at h
    · rename_i hs
      cases h
      exact .recheck hs
    · cases h
  | conn k l =>
    obtain ⟨peer, hp, h⟩ := bind_eq_some_iff.1 h
    obtain ⟨conn, hc, h⟩ := bind_eq_some_iff.1 h
    exact .conn hp hc h
  | hangUp k =>
    obtain ⟨peer, hp, h⟩ := bind_eq_some_iff.1 h
    split at h
    · rename_i hl hr
      cases h
      exact .hangUp hp hl hr
    · cases h
  | stop =>
    simp only [step] at h
    split at h
    · cases h
      exact .stop
    · cases h
  | release =>
    simp only [step] at h
    split at h
    · cases h
      exact .release
    · cases h

theorem step_conn {conn : Conn} (hp : s.peers[k]? = some peer)
    (hc : C.step entries peer.conn l = some conn) :
    step entries s (.conn k l) =
      (if looksUp peer.conn l then s.read .registry else s).advance k peer conn := by
  simp only [step, bind_eq_bind, hp, bind_some, hc]

@[simp] theorem read_peers (s : Service) (a : Access) : (s.read a).peers = s.peers := by
  rw [read]
  split <;> rfl

@[simp] theorem read_fds (s : Service) (a : Access) : (s.read a).fds = s.fds := by
  rw [read]
  split <;> rfl

@[simp] theorem read_delivered (s : Service) (a : Access) :
    (s.read a).delivered = s.delivered := by
  rw [read]
  split <;> rfl

/-- What a step of connection `k` does: its peer is replaced, and what it wrote is delivered to the
connection its descriptor leads to, if there is one. -/
theorem advance_cases {conn : Conn} (h : s.advance k peer conn = some s') :
    s'.peers = s.peers.set k { peer with conn } ∧ s'.fds = s.fds ∧
      (s'.delivered = s.delivered ∨ ∃ target : Nat, s.fds peer.fd = some target ∧
        s'.delivered = s.delivered ++
          (conn.out.drop peer.conn.out.length).map (⟨k, target, ·⟩)) := by
  simp only [advance] at h
  split at h
  · rename_i target htarget
    cases h
    exact ⟨rfl, rfl, .inr ⟨target, htarget, rfl⟩⟩
  · split at h
    · cases h
      exact ⟨rfl, rfl, .inl rfl⟩
    · cases h

/-! ## Held descriptors -/

/-- The descriptor of connection `k`: its own while `handle_connection` runs; afterwards free, or in
other hands with nobody left to use it. -/
inductive HeldBy (fds : Nat → Option Nat) (k : Nat) (peer : Peer) : Prop
  | own (hr : peer.returned = false) (hfd : fds peer.fd = some k)
  | free (hr : peer.returned = true) (hl : peer.conn.loop = .closed) (hfd : fds peer.fd = none)
  | settled (hr : peer.returned = true) (hl : peer.conn.loop = .closed) (hd : peer.conn.Settled)

structure Held (s : Service) : Prop where
  peers : ∀ (k : Nat) (peer : Peer), s.peers[k]? = some peer → HeldBy s.fds k peer
  delivered : ∀ d ∈ s.delivered, d.target = d.source

/-- `accept` returns a number only when the threads of the connections that had it are done. -/
def Settled (s : Service) : Event → Prop
  | .accepted fd _ => ∀ peer ∈ s.peers, peer.fd = fd → peer.conn.Settled
  | _ => True

theorem Held.init : Held .init where
  peers _ _ h := nomatch h
  delivered _ h := nomatch h

theorem Held.read (h : Held s) (access : Access) : Held (s.read access) where
  peers := by
    rw [read_peers, read_fds]
    exact h.peers
  delivered := by
    rw [read_delivered]
    exact h.delivered

theorem HeldBy.conn {conn : Conn} (h : HeldBy fds k peer)
    (hc : C.step entries peer.conn l = some conn) : HeldBy fds k { peer with conn } := by
  cases h with
  | own hr hfd => exact .own hr hfd
  | free hr hl hfd => exact .free hr (closed_step hl hc) hfd
  | settled hr hl hd => exact .settled hr (closed_step hl hc) (settled_step hl hd hc).1

theorem HeldBy.target {target : Nat} {conn : Conn} (h : HeldBy fds k peer)
    (hc : C.step entries peer.conn l = some conn) (htarget : fds peer.fd = some target) :
    target = k ∨ conn.out = peer.conn.out := by
  cases h with
  | own hr hfd => exact .inl (mem_unique htarget hfd)
  | free hr hl hfd => cases htarget.symm.trans hfd
  | settled hr hl hd => exact .inr (settled_step hl hd hc).2

theorem HeldBy.accepted {n fd : Nat} (h : HeldBy fds k peer) (hfd : fds fd = none)
    (hd : peer.fd = fd → peer.conn.Settled) : HeldBy (update fds fd (some n)) k peer := by
  by_cases he : peer.fd = fd
  · cases h with
    | own hr hown =>
      rw [he, hfd] at hown
      cases hown
    | free hr hl _ => exact .settled hr hl (hd he)
    | settled hr hl hd => exact .settled hr hl hd
  · have hsame : update fds fd (some n) peer.fd = fds peer.fd :=
      update_of_ne he _ _
    cases h with
    | own hr hown => exact .own hr (hsame.trans hown)
    | free hr hl hfree => exact .free hr hl (hsame.trans hfree)
    | settled hr hl hd => exact .settled hr hl hd

theorem HeldBy.hangUp {j fd : Nat} (h : HeldBy fds j peer) (hfd : fds fd = some k) (hne : j ≠ k) :
    HeldBy (update fds fd none) j peer := by
  by_cases he : peer.fd = fd
  · cases h with
    | own hr hown =>
      rw [he, hfd] at hown
      exact absurd (some.inj hown).symm hne
    | free hr hl hfree =>
      rw [he, hfd] at hfree
      cases hfree
    | settled hr hl hd => exact .settled hr hl hd
  · have hsame : update fds fd none peer.fd = fds peer.fd := update_of_ne he _ _
    cases h with
    | own hr hown => exact .own hr (hsame.trans hown)
    | free hr hl hfree => exact .free hr hl (hsame.trans hfree)
    | settled hr hl hd => exact .settled hr hl hd

theorem Held.advance {conn : Conn} (h : Held s) (hp : s.peers[k]? = some peer)
    (hc : C.step entries peer.conn l = some conn) (hs : s.advance k peer conn = some s') :
    Held s' := by
  obtain ⟨hpeers, hfds, hdelivered⟩ := advance_cases hs
  refine ⟨fun j peer' hj => ?_, ?_⟩
  · rw [hfds]
    rw [hpeers] at hj
    rcases set_cases hp hj with ⟨rfl, rfl⟩ | ⟨-, hj⟩
    · exact (h.peers _ peer hp).conn hc
    · exact h.peers j peer' hj
  · rcases hdelivered with hsame | ⟨target, htarget, hnew⟩
    · rw [hsame]
      exact h.delivered
    · rw [hnew]
      intro d hd
      rcases mem_append.1 hd with hd | hd
      · exact h.delivered d hd
      · obtain ⟨m, hm, rfl⟩ := mem_map.1 hd
        rcases (h.peers k peer hp).target hc htarget with rfl | hout
        · rfl
        · rw [hout, drop_length] at hm
          cases hm

theorem Held.accepted {fd : Nat} {created : Bool} (h : Held s) (hfd : s.fds fd = none)
    (hd : ∀ peer ∈ s.peers, peer.fd = fd → peer.conn.Settled) : Held (s.accepted fd created) := by
  cases created with
  | false => exact { h with }
  | true =>
    refine ⟨fun k peer hk => ?_, h.delivered⟩
    rcases concat_cases hk with hk | ⟨rfl, rfl⟩
    · exact (h.peers k peer hk).accepted hfd (hd peer (mem_of_getElem? hk))
    · exact .own rfl (update_self _ _ _)

theorem Held.hangUp (h : Held s) (hp : s.peers[k]? = some peer) (hl : peer.conn.loop = .closed)
    (hr : peer.returned = false) : Held (s.hangUp k peer) := by
  have hown : s.fds peer.fd = some k := by
    cases h.peers k peer hp with
    | own _ hfd => exact hfd
    | free hr' | settled hr' => cases hr.symm.trans hr'
  refine ⟨fun j peer' hj => ?_, h.delivered⟩
  rcases set_cases hp hj with ⟨rfl, rfl⟩ | ⟨hne, hj⟩
  · exact .free rfl hl (update_self _ _ _)
  · exact (h.peers j peer' hj).hangUp hown hne.symm

theorem Held.step (h : Held s) (hset : Settled s e) (hs : step entries s e = some s') :
    Held s' := by
  cases step_move hs with
  | test | enter | recheck => exact { h.read _ with }
  | acceptFailed | stop | release => exact { h with }
  | accepted _ hfd => exact h.accepted hfd hset
  | conn hp hc hs =>
    split at hs
    · exact (h.read .registry).advance ((read_peers s _).symm ▸ hp) hc hs
    · exact h.advance hp hc hs
  | hangUp hp hl hr => exact h.hangUp hp hl hr

/-- **Replies stay on their connection.** If `accept` returns a descriptor again only when the
dispatch threads that still have it are done, every frame that was delivered went to the connection
whose call it is for, and every read loop reads from its own connection. -/
theorem delivered_own (entries : List Entry) (es : List Event) (s : Service)
    (hrun : run (step entries) init es = some s) (hset : Along (step entries) Settled init es) :
    (∀ d ∈ s.delivered, d.target = d.source) ∧
      ∀ (k : Nat) (peer : Peer), s.peers[k]? = some peer → peer.conn.loop ≠ .closed →
        s.fds peer.fd = some k := by
  have hstep : ∀ s e s', Held s → Settled s e → step entries s e = some s' → Held s' :=
    fun _ _ _ => Held.step
  have hheld : Held s := run_invariant hstep .init hset hrun
  refine ⟨hheld.delivered, fun k peer hp hl => ?_⟩
  cases hheld.peers k peer hp with
  | own _ hfd => exact hfd
  | free _ hclosed | settled _ hclosed => exact absurd hclosed hl

/-! ## A reply to somebody else -/

/-- A connection whose client has called `f` and gone away. -/
def gone (pc : ThreadPc) (out : List Outgoing) : Conn :=
  { constantConn .null pc out with loop := .closed }

theorem step_gone : C.step [constant .null] (gone (.reply 0 .null) []) (.thread 0 true) =
    some (gone .done [.response 1 (some .null)]) := by
  change some
    (((gone (.reply 0 .null) []).write (.response 1 (some .null)) true).2.setThread 0 _) = _
  rw [Conn.write_small _ _ (by decide)]
  rfl

def callAndLeave : List Event :=
  [.test, .enter, .accepted 3 true, .conn 0 (.frame callF), .conn 0 (.loop true),
    .conn 0 (.loop true), .conn 0 .eof, .conn 0 (.thread 0 true)]

/-- The service with one client, which has gone. -/
def left (conn : Conn) (delivered : List Delivery) : Service where
  alive := true
  running := true
  serve := .test
  peers := [⟨3, conn, false⟩]
  fds := update (fun _ => none) 3 (some 0)
  delivered := delivered
  stale := []

/-- The first client is gone and another has its descriptor. -/
def taken (peer : Peer) (delivered : List Delivery) : Service where
  alive := true
  running := true
  serve := .test
  peers := [peer, ⟨3, .init, false⟩]
  fds := update (update (update (fun _ => none) 3 (some 0)) 3 none) 3
    (some 1)
  delivered := delivered
  stale := []

theorem run_callAndLeave : run (step [constant .null]) init callAndLeave =
    some (left (gone (.reply 0 .null) []) []) := rfl

theorem step_left : step [constant .null] (left (gone (.reply 0 .null) []) [])
    (.conn 0 (.thread 0 true)) = some (left (gone .done [.response 1 (some .null)])
      [⟨0, 0, .response 1 (some .null)⟩]) := by
  rw [step_conn rfl step_gone]
  rfl

/-- The response is written, and then the descriptor is given back and accepted again. -/
theorem delivered_own_reused : ∃ s,
    run (step [constant .null]) init
      (callAndLeave ++ [.conn 0 (.thread 0 true), .hangUp 0, .test, .enter, .accepted 3 true]) =
        some s ∧
      s.delivered.length = 1 ∧ ∀ d ∈ s.delivered, d.target = d.source := by
  have hrun : run (step [constant .null]) init
      (callAndLeave ++ [.conn 0 (.thread 0 true), .hangUp 0, .test, .enter, .accepted 3 true]) =
        some (taken ⟨3, gone .done [.response 1 (some .null)], true⟩
          [⟨0, 0, .response 1 (some .null)⟩]) := by
    rw [run_append, run_callAndLeave, bind_some, run, step_left]
    rfl
  refine ⟨_, hrun, rfl, (delivered_own _ _ _ hrun ?_).1⟩
  refine Along.append ?_ run_callAndLeave ?_
  · refine .cons trivial rfl (.cons trivial rfl (.cons (fun _ h => by cases h) rfl ?_))
    refine .cons trivial rfl (.cons trivial rfl (.cons trivial rfl ?_))
    exact .cons trivial rfl (.cons trivial rfl trivial)
  · refine .cons trivial step_left (.cons trivial rfl (.cons trivial rfl ?_))
    refine .cons trivial rfl (.cons ?_ rfl trivial)
    intro peer hpeer _ t ht
    obtain rfl := mem_singleton.1 hpeer
    obtain rfl := mem_singleton.1 ht
    rfl

/-- **A reply can reach another client**: descriptor 3 is closed and accepted again before the
thread of the first client's call has written its response. -/
theorem reply_misdirected : ∃ s,
    run (step [constant .null]) init
      (callAndLeave ++ [.hangUp 0, .test, .enter, .accepted 3 true] ++
        [.conn 0 (.thread 0 true)]) = some s ∧
      s.delivered.map (fun d => (d.source, d.target)) = [(0, 1)] := by
  have hbefore : run (step [constant .null]) init
      (callAndLeave ++ [.hangUp 0, .test, .enter, .accepted 3 true]) =
        some (taken ⟨3, gone (.reply 0 .null) [], true⟩ []) := rfl
  refine ⟨taken ⟨3, gone .done [.response 1 (some .null)], true⟩
    [⟨0, 1, .response 1 (some .null)⟩], ?_, rfl⟩
  rw [run_append, hbefore, bind_some]
  refine run_singleton ?_
  rw [step_conn rfl step_gone]
  rfl

end Service

end Callwire.C
