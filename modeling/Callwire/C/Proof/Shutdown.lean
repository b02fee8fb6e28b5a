import Callwire.C.Proof.Descriptors

/-!
# Shutdown

`callwire_server_close` stops the accept loop and frees the structure that the accept loop and every
connection point to. It waits for neither. If the release comes when `serve` has returned and every
read loop has ended (`Quit`), nothing reads the structure any more: `Ended` is kept by all later
steps. Nothing in the code makes it wait: the usual shutdown, with `serve` blocked in `accept`,
reads `running` after the release (`running_read_late`).
-/

namespace Callwire.C.Service

open Lib List

variable {entries : List Entry} {s s' : Service} {e : Event}

/-- Nobody is left who would read the server. -/
structure Quiet (s : Service) : Prop where
  serve : s.serve = .returned
  peers : ∀ peer ∈ s.peers, peer.conn.loop = .closed

/-- The release comes last. -/
def Quit (s : Service) : Event → Prop
  | .release => s.Quiet
  | _ => True

structure Ended (s : Service) : Prop where
  quiet : s.alive = false → s.Quiet
  stale : s.stale = []

theorem Ended.init : Ended .init where
  quiet h := nomatch h
  stale := rfl

/-- Only a connection whose read loop is at a request looks up a handler. -/
theorem looksUp_closed {c : Conn} {l : Label} (h : c.loop = .closed) : looksUp c l = false := by
  cases l with
  | loop ok => rw [looksUp, h]
  | frame | eof | thread | reuse => rfl

theorem Ended.read (h : Ended s) (hq : ¬s.Quiet) (a : Access) : s.read a = s := by
  have halive : s.alive = true := by
    by_contra hdead
    exact hq (h.quiet (Bool.not_eq_true _ ▸ hdead))
  rw [Service.read, if_pos halive]

theorem Quiet.conn {k : Nat} {l : Label} {peer : Peer} {conn : Conn} (h : s.Quiet)
    (hp : s.peers[k]? = some peer) (hc : C.step entries peer.conn l = some conn)
    (hserve : s'.serve = s.serve) (hpeers : s'.peers = s.peers.set k { peer with conn }) :
    s'.Quiet where
  serve := hserve.trans h.serve
  peers := by
    rw [hpeers]
    intro peer' hm
    rcases mem_or_eq_of_mem_set hm with hm | rfl
    · exact h.peers peer' hm
    · exact closed_step (h.peers peer (mem_of_getElem? hp)) hc

theorem advance_frame {k : Nat} {peer : Peer} {conn : Conn} (h : s.advance k peer conn = some s') :
    s'.serve = s.serve ∧ s'.alive = s.alive ∧ s'.stale = s.stale := by
  simp only [advance] at h
  split at h
  · cases h
    exact ⟨rfl, rfl, rfl⟩
  · split at h
    · cases h
      exact ⟨rfl, rfl, rfl⟩
    · cases h

theorem Ended.conn {k : Nat} {l : Label} {peer : Peer} {conn : Conn} (h : Ended s)
    (hp : s.peers[k]? = some peer) (hc : C.step entries peer.conn l = some conn)
    (hs : (if looksUp peer.conn l then s.read .registry else s).advance k peer conn = some s') :
    Ended s' := by
  have hread : (if looksUp peer.conn l then s.read .registry else s) = s := by
    split
    · rename_i hlook
      refine h.read (fun hq => ?_) _
      rw [looksUp_closed (hq.peers peer (mem_of_getElem? hp))] at hlook
      cases hlook
    · rfl
  rw [hread] at hs
  obtain ⟨hserve, halive, hstale⟩ := advance_frame hs
  refine ⟨fun hdead => ?_, hstale.trans h.stale⟩
  exact (h.quiet (halive.symm.trans hdead)).conn hp hc hserve (advance_cases hs).1

/-- A step of `serve` is made while the server is there, and leaves it there. -/
theorem Ended.serve (h : Ended s) (hs : s.serve ≠ .returned) (halive : s'.alive = s.alive)
    (hstale : s'.stale = s.stale) : Ended s' where
  quiet hdead := absurd (h.quiet (halive.symm.trans hdead)).serve hs
  stale := hstale.trans h.stale

theorem Ended.step (h : Ended s) (hquit : Quit s e) (hs : step entries s e = some s') :
    Ended s' := by
  have hread : s.serve ≠ .returned → ∀ a, s.read a = s := fun hne a =>
    h.read (fun hq => hne hq.serve) a
  cases step_move hs with
  | test hpc | enter hpc | recheck hpc =>
    have hne : s.serve ≠ .returned := fun he => nomatch hpc.symm.trans he
    rw [hread hne]
    exact h.serve hne rfl rfl
  | acceptFailed hpc => exact h.serve (fun he => nomatch hpc.symm.trans he) rfl rfl
  | @accepted fd created hpc hfd =>
    have hne : s.serve ≠ .returned := fun he => nomatch hpc.symm.trans he
    cases created with
    | true | false => exact h.serve hne rfl rfl
  | conn hp hc hs => exact h.conn hp hc hs
  | @hangUp k peer hp hl hr =>
    refine ⟨fun hdead => ⟨(h.quiet hdead).serve, fun peer' hm => ?_⟩, h.stale⟩
    rcases mem_or_eq_of_mem_set hm with hm | rfl
    · exact (h.quiet hdead).peers peer' hm
    · exact hl
  | stop => exact ⟨fun hdead => ⟨(h.quiet hdead).serve, (h.quiet hdead).peers⟩, h.stale⟩
  | release => exact ⟨fun _ => ⟨hquit.serve, hquit.peers⟩, h.stale⟩

/-- **A shutdown that waits is safe.** If the server is released only when `serve` has returned and
every read loop has ended, no step reads it afterwards. -/
theorem no_late_read (entries : List Entry) (es : List Event) (s : Service)
    (hrun : run (step entries) init es = some s) (hquit : Along (step entries) Quit init es) :
    s.stale = [] := by
  have hstep : ∀ s e s', Ended s → Quit s e → step entries s e = some s' → Ended s' :=
    fun _ _ _ => Ended.step
  exact (run_invariant hstep .init hquit hrun).stale

/-- A client comes and goes, `close` stops the accept loop, and the release waits for both. -/
def waiting : List Event :=
  [.test, .enter, .accepted 3 true, .test, .enter, .stop, .acceptFailed, .recheck,
    .conn 0 (.frame callF), .conn 0 (.loop true), .conn 0 (.loop true), .conn 0 .eof, .release,
    .conn 0 (.thread 0 true), .hangUp 0]

theorem no_late_read_waiting : ∃ s, run (step [constant .null]) init waiting = some s ∧
    s.alive = false ∧ s.stale = [] := by
  have hrun : run (step [constant .null]) init waiting = some
      { alive := false
        running := false
        serve := .returned
        peers := [⟨3, gone (.reply 0 .null) [], true⟩]
        fds := Function.update (Function.update (fun _ => none) 3 (some 0)) 3 none
        delivered := []
        stale := [] } := rfl
  refine ⟨_, hrun, rfl, no_late_read _ _ _ hrun ?_⟩
  refine .cons trivial rfl (.cons trivial rfl (.cons trivial rfl ?_))
  refine .cons trivial rfl (.cons trivial rfl (.cons trivial rfl ?_))
  refine .cons trivial rfl (.cons trivial rfl (.cons trivial rfl ?_))
  refine .cons trivial rfl (.cons trivial rfl (.cons trivial rfl ?_))
  refine .cons ⟨rfl, ?_⟩ rfl (.cons trivial rfl (.cons trivial rfl trivial))
  intro peer hpeer
  obtain rfl := mem_singleton.1 hpeer
  rfl

/-- **Closing the server reads it after the release**: `serve` is in `accept`, which fails when the
listening socket is closed, and then reads `running`. A request that is being read looks up its
handler. -/
theorem running_read_late : ∃ s,
    run (step [constant .null]) init
      [.test, .enter, .accepted 3 true, .test, .enter, .conn 0 (.frame callF), .stop, .release,
        .acceptFailed, .recheck, .conn 0 (.loop true)] = some s ∧
      s.stale = [.running, .registry] :=
  ⟨_, rfl, rfl⟩

end Callwire.C.Service
