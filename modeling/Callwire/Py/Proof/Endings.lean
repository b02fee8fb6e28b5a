import Callwire.Py.Proof.LateFrames

/-!
# The end of a streaming handler's input

`_stream_iterator` returns at a `stream_close` or `stream_end`, and also when it has waited for 30
s. Without such a timeout an iterator that has returned has met an end that was received for its
call: what is in the queue of a call was read with the id of the call (`Fed`).
-/

namespace Callwire.Py

open Lib List

variable {P : Python}

namespace ServerConn

variable {registry : String → Option (Fn P)} {c c₁ : ServerConn P} {k : Nat} {call : StreamCall P}

def ids (c : ServerConn P) : List Nat := c.calls.map StreamCall.id

/-- The queues hold messages with `Read`, each for its call, and the input of call `n` has ended by
one. -/
structure Fed (Read : WireMessage P → Prop) (n : Nat) (c : ServerConn P) : Prop where
  streams : ∀ id k, c.streams.lookup id = some k → c.ids[k]? = some id
  held : ∀ m, c.reader.held = some m → Read m
  putting : ∀ k m, c.reader = .putting k m → c.ids[k]? = some m.id
  queues : ∀ call ∈ c.calls, ∀ m ∈ call.queue.put, Read m ∧ m.id = call.id
  ended : ∀ call, c.calls[n]? = some call → call.exhausted = true →
    ∃ m, Read m ∧ m.id = call.id ∧ m.Ends

namespace Fed

variable {Read : WireMessage P → Prop} {n : Nat} (h : Fed Read n c)
include h

theorem stream {l : StreamLabel P} (hl : k = n → l ≠ .timeout) (hcall : c.calls[k]? = some call)
    (hs : c.streamStep registry k call l = some c₁) : Fed Read n c₁ := by
  obtain ⟨call₁, hcalls, hreader, ⟨hstreams, hid, hput, hex⟩, -⟩ := streamStep_local hs
  have hids : c₁.ids = c.ids := by
    rw [ids, hcalls]
    exact map_set_of_eq _ hcall hid
  have hmem := mem_of_getElem? hcall
  refine ⟨fun id j hj => ?_, hreader ▸ h.held, fun j m hr => ?_, fun u hu m hm => ?_,
    fun u hu hu' => ?_⟩
  · rw [hids]
    exact h.streams id j (hstreams id j hj)
  · rw [hids]
    exact h.putting j m (hreader ▸ hr)
  · rw [hcalls] at hu
    rcases mem_set_cases hcall hu with rfl | hu
    · rw [hid]
      exact h.queues call hmem m (hput ▸ hm)
    · exact h.queues u hu m hm
  · rw [hcalls] at hu
    rcases set_cases hcall hu with ⟨rfl, rfl⟩ | ⟨-, hu⟩
    · rw [hid]
      rcases hex (hl rfl) hu' with hex | ⟨m, hm, hend⟩
      · exact h.ended call hcall hex
      · obtain ⟨hread, hm⟩ := h.queues call hmem m hm
        exact ⟨m, hread, hm, hend⟩
    · exact h.ended u hu hu'

theorem settle (hcalls : c₁.calls = c.calls) (hstreams : c₁.streams = c.streams)
    (hheld : c₁.reader.held = none) : Fed Read n c₁ := by
  refine ⟨?_, fun m hm => (nomatch hheld.symm.trans hm), fun k m hr => ?_, ?_, ?_⟩
  · rw [ids, hcalls, hstreams]
    exact h.streams
  · rw [hr] at hheld
    cases hheld
  · rw [hcalls]
    exact h.queues
  · rw [hcalls]
    exact h.ended

theorem read {m : WireMessage P} (hm : Read m) (hr : c.reader = .reading) :
    Fed Read n (c.handle registry m) := by
  unfold handle
  split
  · refine { h with held := fun m' hm' => ?_, putting := nofun }
    cases hm'
    exact hm
  · split
    · have hids : (c.startStream m).ids = c.ids ++ [m.id] := map_append
      have hheld : c.reader.held = none := by rw [hr]; rfl
      refine ⟨fun id j hj => ?_, fun m' hm' => (nomatch hheld.symm.trans hm'),
        fun j m' hj => (nomatch hr.symm.trans hj), ?_, ?_⟩
      · rw [hids]
        rcases lookup_insert_cases hj with ⟨rfl, rfl⟩ | ⟨-, hj⟩
        · simp [ids]
        · exact concat_of_some (h.streams id j hj)
      · exact forall_concat h.queues nofun
      · intro u hu hex
        rcases concat_cases hu with hu | ⟨-, rfl⟩
        · exact h.ended u hu hex
        · cases hex
    · unfold dispatch
      repeat' split
      all_goals exact h.settle rfl rfl rfl

theorem step {l : ServerLabel P} (hl : l ≠ .stream n .timeout)
    (hread : ∀ m, l = .read (.msg m) → Read m) (hs : c.step registry l = some c₁) :
    Fed Read n c₁ := by
  have hsettle : settles l = true → c.readerStep registry l = some c₁ → Fed Read n c₁ := by
    intro hl hs
    have hs := readerStep_settles hl hs
    exact h.settle hs.calls hs.streams hs.held
  cases l with
  | stream k l =>
    obtain ⟨call, hcall, hs⟩ := Option.bind_eq_some_iff.1 hs
    exact h.stream (fun hk he => hl (hk ▸ he ▸ rfl)) hcall hs
  | index =>
    obtain ⟨m, hr, hfound, hgone⟩ := readerStep_index hs
    cases hk : c.streams.lookup m.id with
    | some k =>
      rw [hfound k hk]
      refine { h with held := fun m' hm' => h.held m' ?_, putting := fun j m' hj => ?_ }
      · rw [hr]
        exact hm'
      · cases hj
        exact h.streams _ _ hk
    | none =>
      rw [hgone hk]
      exact h.settle rfl rfl rfl
  | put =>
    obtain ⟨k, m, call, hr, hcall, -, rfl⟩ := readerStep_put hs
    have hm : Read m := h.held m (by rw [hr]; rfl)
    have hid := h.putting k m hr
    have hids : (c.calls.set k { call with queue := call.queue.push m }).map StreamCall.id =
      c.ids :=
      map_set_of_eq _ hcall rfl
    have hcall' : call.id = m.id := by simpa [ids, hcall] using hid
    refine ⟨fun id j hj => ?_, nofun, nofun, forall_set hcall h.queues ?_, fun u hu => ?_⟩
    · rw [ids, hids]
      exact h.streams id j hj
    · exact forall_concat (h.queues call (mem_of_getElem? hcall)) ⟨hm, hcall'.symm⟩
    · rcases set_cases hcall hu with ⟨rfl, rfl⟩ | ⟨-, hu⟩
      · exact h.ended call hcall
      · exact h.ended u hu
  | read payload =>
    cases payload with
    | msg m =>
      obtain ⟨hr, rfl⟩ := readerStep_msg hs
      exact h.read (hread m rfl) hr
    | undecodable | malformed => exact hsettle rfl hs
  | readFails | refuse | call | gen | close => exact hsettle rfl hs

end Fed

/-- **The input of a handler ends only after its end was received**, unless its iterator has waited
for 30 s. -/
theorem input_ended {ls : List (ServerLabel P)} (hls : .stream k .timeout ∉ ls)
    (hrun : run (ServerConn.step registry) .init ls = some c) (hcall : c.calls[k]? = some call)
    (hex : call.exhausted = true) : ∃ m, .read (.msg m) ∈ ls ∧ m.id = call.id ∧ m.Ends := by
  have hinit : Fed (fun m => .read (.msg m) ∈ ls) k (.init : ServerConn P) :=
    ⟨nofun, nofun, nofun, nofun, nofun⟩
  have h := run_invariant (fun c l c' hi (hl : l ∈ ls) => hi.step
    (fun he => hls (he ▸ hl)) (fun m he => he ▸ hl)) hinit
    (Along.of_labels (fun l hl _ => hl) _) hrun
  exact h.ended call hcall hex

def closed : List (ServerLabel plain) :=
  [request 1, .read (.msg { id := 1, type := some "stream_close" }), .index, .put, .stream 0 .go,
    .stream 0 .next]

theorem input_ended_close : ∃ c, run (ServerConn.step oneStream) .init closed = some c ∧
    (∃ call, c.calls[0]? = some call ∧ call.exhausted = true) ∧
    ∃ m, .read (.msg m) ∈ closed ∧ m.id = 1 ∧ m.Ends := by
  obtain ⟨c, hrun, call, hcall, hex, hid⟩ : ∃ c, run (ServerConn.step oneStream) .init closed =
      some c ∧ ∃ call, c.calls[0]? = some call ∧ call.exhausted = true ∧ call.id = 1 :=
    ⟨_, rfl, _, rfl, rfl, rfl⟩
  exact ⟨c, hrun, ⟨call, hcall, hex⟩, hid ▸ input_ended (by simp [closed, request]) hrun hcall hex⟩

/-- The connection is lost before the end; the handler has one chunk, its input ends and it
returns. -/
theorem input_cut : ∃ c, run (ServerConn.step oneStream) .init
    [request 1, chunk 1 5, .index, .put, .stream 0 .go, .stream 0 .next,
      .readFails ⟨"EOFError", ""⟩, .close, .stream 0 .timeout, .stream 0 (.result (.ok (some 5)))] =
        some c ∧
    ∃ call ∈ c.calls, call.exhausted = true ∧ call.pulled = [some 5] ∧
      call.outcome = some (.ok (some 5)) := ⟨_, rfl, _, mem_singleton_self _, rfl, rfl, rfl⟩

end ServerConn

end Callwire.Py
