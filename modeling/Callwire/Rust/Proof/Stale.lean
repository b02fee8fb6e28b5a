import Callwire.Lib.Transition
import Callwire.Rust.Proof.ActorStep

/-!
# The end of an old connection

All readers send to one queue, and a message in it does not say which connection it is about. When a
request cannot be written the actor reconnects at once, while the reader of the old connection has
still to report its end; that `Closed` then takes the new connection down. As long as every request
that is handled can be written (`WriteSucceeds`), a reconnect comes after the `Closed` of the only
connection there is (`OneConnection`), and every `Closed` is about the current one.
-/

namespace Callwire.Rust

open Lib List Actor

/-- The call on this channel was failed with `ConnectionClosed`, or a task is about to. -/
def Actor.Failed (a : Actor) (tx : Nat) : Prop :=
  (∃ r, a.replies[tx]? = some r ∧ .connectionClosed ∈ r.got) ∨ tx ∈ a.spawned

/-- The step from `a` to `a'`, which handles the end of connection `n`, leaves a later connection
and the calls on it alone. -/
structure Actor.SparesLater (a a' : Actor) (n : Nat) : Prop where
  writer : ∀ m, a.writer = some m → n < m → a'.writer = some m
  calls : ∀ w ∈ a.wire, ∀ tx, w.tx = some tx → n < w.conn → a'.Failed tx → a.Failed tx

/-- A request that is handled is written. -/
def WriteSucceeds (a : Actor) (l : Label) : Prop :=
  ∀ ok cmd cmds, l = .command ok → a.cmds = cmd :: cmds → cmd ≠ .shutdown →
    ok = true ∧ a.writer ≠ none

/-! ## The invariant -/

/-- The ends of connections in the reader queue. -/
def Actor.closeds (a : Actor) : List Nat :=
  a.reader.filterMap fun
    | (n, .closed) => some n
    | _ => none

/-- Only the last connection is open or has its end in the queue, and not both. -/
structure OneConnection (a : Actor) : Prop where
  running : ∀ n : Nat, a.readers[n]? = some true → n + 1 = a.readers.length ∧ a.closeds = []
  queued : ∀ n rest, a.closeds = n :: rest → n + 1 = a.readers.length ∧ rest = []
  idle : a.pc = .reconnecting → a.closeds = [] ∧ ∀ n : Nat, a.readers[n]? ≠ some true
  writer : ∀ m, a.writer = some m → m < a.readers.length
  wire : ∀ w ∈ a.wire, w.conn < a.readers.length

theorem OneConnection.init : OneConnection .init where
  running n h := by
    obtain ⟨hlt, -⟩ := List.getElem?_eq_some_iff.1 h
    exact ⟨by rw [show n = 0 from Nat.lt_one_iff.1 hlt]; rfl, rfl⟩
  queued n rest h := nomatch h
  idle h := nomatch h
  writer m h := by
    cases h
    exact Nat.one_pos
  wire w h := nomatch h

section
variable {reconnect : Bool} {a a' : Actor} {l : Label}

theorem OneConnection.reader {reader : List (Nat × ReaderMessage)} (h : OneConnection a)
    (hr : closeds { a with reader } = a.closeds) : OneConnection { a with reader } where
  running := by rw [hr]; exact h.running
  queued := by rw [hr]; exact h.queued
  idle := by rw [hr]; exact h.idle
  writer := h.writer
  wire := h.wire

theorem OneConnection.stop (h : OneConnection a) : OneConnection a.stop := by
  obtain ⟨replies, spawned, hs⟩ := a.stop_eq
  rw [hs]
  exact ⟨fun n hn => ⟨(h.running n hn).1, rfl⟩, nofun, nofun,
    nofun, h.wire⟩

theorem OneConnection.lost {n : Nat} {reader : List (Nat × ReaderMessage)} (h : OneConnection a)
    (hr : a.reader = (n, .closed) :: reader) :
    OneConnection ((disconnect { a with reader }).reconnectOrStop reconnect) := by
  obtain ⟨replies, spawned, hd⟩ := disconnect_eq { a with reader }
  have hcl : a.closeds = n :: closeds { a with reader } := by
    rw [closeds, hr]
    rfl
  have hnil : closeds { a with reader } = [] := (h.queued n _ hcl).2
  have hnone : ∀ k : Nat, a.readers[k]? ≠ some true := by
    intro k hk
    have := (h.running k hk).2
    rw [hcl] at this
    cases this
  have hmid : OneConnection (disconnect { a with reader }) := by
    rw [hd]
    exact ⟨fun k hk => absurd hk (hnone k), fun k rest hc => (nomatch hnil.symm.trans hc),
      fun _ => ⟨hnil, hnone⟩, nofun, h.wire⟩
  rcases reconnectOrStop_cases (disconnect { a with reader }) reconnect with hc | hc <;>
    rw [hc]
  · rw [hd]
    exact ⟨fun k hk => absurd hk (hnone k), fun k rest hc => (nomatch hnil.symm.trans hc),
      fun _ => ⟨hnil, hnone⟩, nofun, h.wire⟩
  · exact hmid.stop

/-- **Every step keeps the invariant**, if requests can be written. -/
theorem OneConnection.step (h : OneConnection a) (hok : WriteSucceeds a l)
    (hs : Callwire.Rust.step reconnect a l = some a') : OneConnection a' := by
  cases step_move hs with
  | frame hn => exact h.reader (by simp [closeds])
  | @closed n hn =>
    obtain ⟨hlast, hnil⟩ := h.running n hn
    have hcl : closeds { a with
        reader := a.reader ++ [(n, .closed)], readers := a.readers.set n false } = [n] := by
      rw [closeds, filterMap_append]
      exact congrArg (· ++ [n]) hnil
    have hno : ∀ k : Nat, (a.readers.set n false)[k]? ≠ some true := by
      intro k hk
      rcases set_cases hn hk with ⟨-, hf⟩ | ⟨hne, hk⟩
      · cases hf
      · exact hne (Nat.succ.inj (hlast.trans (h.running k hk).1.symm))
    refine ⟨fun k hk => absurd hk (hno k), fun k rest hc => ?_, fun hp => ?_, fun m hm => ?_,
      fun w hw => ?_⟩
    · rw [hcl] at hc
      cases hc
      exact ⟨hlast.trans (length_set ..).symm, rfl⟩
    · exact absurd hn ((h.idle hp).2 n)
    · rw [length_set]
      exact h.writer m hm
    · rw [length_set]
      exact h.wire w hw
  | @skip side _ hpc => exact { h with idle := fun hp => absurd hp (afterPump_ne side) }
  | enter | miss | empty | check | delivered | undelivered =>
    exact { h with idle := nofun }
  | @leave side gone _ hpc =>
    obtain ⟨_, _, heq⟩ := a.leavePump_eq side gone
    rw [heq]
    exact { h with idle := fun hp => absurd hp (afterPump_ne side) }
  | @pumped side id todo gone ch conn payload queue hpc hs hq hw =>
    exact { h with wire := forall_concat h.wire (h.writer conn hw) }
  | @unpumped side id todo gone _ ch payload queue hpc =>
    obtain ⟨_, _, heq⟩ := leavePump_eq { a with
      chans := a.chans.modify ch fun c => { c with queue }, writer := none } side gone
    rw [heq]
    exact { h with
      idle := fun hp => absurd hp (afterPump_ne side), writer := nofun }
  | shutdown => exact OneConnection.stop { h with }
  | noClients => exact h.stop
  | call _ _ _ hw | exportStream _ _ hw | importBidi _ _ hw =>
    exact { h with
      idle := nofun, wire := forall_concat h.wire (h.writer _ hw) }
  | callFailed hpc hc hsh ht hfail =>
    obtain ⟨rfl, hw⟩ := hok _ _ _ rfl hc hsh
    rcases hfail with hf | hf
    · cases hf
    · exact absurd hf hw
  | exportFailed hpc hc hfail =>
    obtain ⟨rfl, hw⟩ := hok _ _ _ rfl hc nofun
    rcases hfail with hf | hf
    · cases hf
    · exact absurd hf hw
  | @message n msg reader hpc hr =>
    obtain ⟨pc, _, _, heq, hpc'⟩ := handleFrame_eq { a with reader } msg
    rw [heq]
    have hread : OneConnection { a with reader } := h.reader (by simp [closeds, hr])
    refine { hread with idle := fun hp => ?_ }
    rcases hpc' with rfl | ⟨tx, rfl⟩ <;> cases hp
  | lost hpc hr => exact h.lost hr
  | connected hpc =>
    obtain ⟨hnil, hno⟩ := h.idle hpc
    have hlen : (a.readers ++ [true]).length = a.readers.length + 1 := length_append
    refine ⟨fun n hn => ⟨?_, hnil⟩, fun n rest hc => (nomatch hnil.symm.trans hc),
      nofun, fun m hm => ?_, fun w hw => ?_⟩
    · rw [hlen]
      by_contra hne
      have hlt := lt_of_some hn
      rw [hlen] at hlt
      rw [getElem?_append_left (by omega)] at hn
      exact hno n hn
    · cases hm
      rw [hlen]
      exact Nat.lt_succ_self _
    · rw [hlen]
      exact Nat.lt_succ_of_lt (h.wire w hw)
  | _ => exact { h with }

theorem OneConnection.run {ls : List Label} (hok : Along (Callwire.Rust.step reconnect)
      WriteSucceeds .init ls) (hrun : Lib.run (Callwire.Rust.step reconnect) .init ls = some a) :
    OneConnection a :=
  run_invariant (fun _ _ _ h hok hs => h.step hok hs) .init hok hrun

end

/-- **The end of a connection is about the current one**, in every run in which the requests that
are handled can be written: handling it leaves later connections and their calls alone. -/
theorem closed_sparesLater (ls : List Label) (a : Actor)
    (hok : Along (step true) WriteSucceeds .init ls) (hrun : run (step true) .init ls = some a)
    (n : Nat) (reader : List (Nat × ReaderMessage)) (hr : a.reader = (n, .closed) :: reader) :
    ∀ a', step true a .message = some a' → a.SparesLater a' n := by
  intro a' _
  have h := OneConnection.run hok hrun
  have hcl : a.closeds = n :: closeds { a with reader } := by
    rw [closeds, hr]
    rfl
  obtain ⟨hlast, -⟩ := h.queued n _ hcl
  constructor
  · intro m hm hlt
    have := h.writer m hm
    omega
  · intro w hw tx _ hlt _
    have := h.wire w hw
    omega

/-! ## A stale end -/

section

/-- A request that cannot be written, the reconnect, a call on the new connection, and the end of
the old one in the queue. -/
def staleLabels : List Label :=
  toSelect ++ [.submit (.call 1 "f" .nil), .command false, .connected] ++ toSelect ++
    [.submit (.call 2 "f" .nil), .command true, .closed 0] ++ toSelect

/-- **The end of connection 0 takes connection 1 down**: the writer is dropped and the call that was
written on it fails. -/
theorem closed_stale : ∃ a a', run (step true) .init staleLabels = some a ∧
    a.reader = [(0, .closed)] ∧ step true a .message = some a' ∧ a.writer = some 1 ∧
    a'.writer = none ∧ ¬ a.Failed 1 ∧ a'.Failed 1 ∧ ¬ a.SparesLater a' 0 := by
  refine ⟨_, _, rfl, rfl, rfl, rfl, rfl, ?_, ?_, ?_⟩
  · rintro (⟨r, hr, hm⟩ | hm)
    · cases hr
      cases hm
    · cases hm
  · exact .inl ⟨⟨[.connectionClosed], 1, false⟩, rfl, mem_singleton_self _⟩
  · intro h
    cases h.writer 1 rfl Nat.one_pos

def closedActor : Actor :=
  { init with pc := .select, reader := [(0, .closed)], readers := [false] }

theorem closed_sparesLater_first : ∃ a', run (step true) .init (.closed 0 :: toSelect) =
      some closedActor ∧ step true closedActor .message = some a' ∧ a'.pc = .reconnecting ∧
    closedActor.SparesLater a' 0 := by
  have hok : Along (step true) WriteSucceeds .init (.closed 0 :: toSelect) := by
    refine Along.of_labels (fun l hl a ok cmd cmds he => ?_) _
    subst he
    simp [toSelect] at hl
  exact ⟨_, rfl, rfl, rfl, closed_sparesLater _ closedActor hok rfl 0 [] rfl _ rfl⟩

end

end Callwire.Rust
