import Callwire.Py.Socket

/-!
# Frames on the socket of a connection

As long as no `write_frame` starts while another one is sending (`Alone`), what was sent and what
the one sender still has to send are whole frames (`Whole`). Two replies at once mix their bytes
(`frames_mixed`).
-/

namespace Callwire.Py.Socket

open Lib List

variable {P : Python} {registry : String → Option (Fn P)} {pack : WireMessage P → Bytes}

/-- One thread at most is sending, and completes the frames. -/
def Whole (pack : WireMessage P → Bytes) (s : Socket P) : Prop :=
  ∃ t, (∀ u, u ≠ t → s.rest u = []) ∧ s.sent ++ s.rest t = s.begun.flatMap (frame ∘ pack)

/-- A move writes only if no thread is sending. -/
def Alone (registry : String → Option (Fn P)) (s : Socket P) : SocketLabel P → Prop
  | .move l => ∀ c, s.conn.step registry l = some c → written s.conn c = [] ∨ ∀ t, s.rest t = []
  | .send _ _ => True

theorem Whole.step {s s' : Socket P} {l : SocketLabel P} (h : Whole pack s)
    (ha : Alone registry s l) (hs : step registry pack s l = some s') : Whole pack s' := by
  obtain ⟨t, hothers, hsent⟩ := h
  cases l with
  | move l =>
    rw [Socket.step] at hs
    split at hs
    · rename_i hidle
      obtain ⟨c, hc, rfl⟩ := Option.map_eq_some_iff.1 hs
      rcases ha c hc with hw | hall
      · have hrest : Function.update s.rest l.thread [] = s.rest :=
          Function.update_eq_self_iff.2 hidle.symm
        exact ⟨t, by simpa [hw, hrest] using hothers, by simpa [hw, hrest] using hsent⟩
      · refine ⟨l.thread, fun u hu => ?_, ?_⟩
        · simp [Function.update_of_ne hu, hall]
        · simpa [hall] using hsent
    · cases hs
  | send u n =>
    rw [Socket.step] at hs
    split at hs <;> cases hs
    rename_i hn
    obtain rfl : u = t := by
      by_contra hu
      rw [hothers u hu] at hn
      exact absurd hn.2.1 (Nat.not_le.2 hn.1)
    refine ⟨u, fun v hv => ?_, ?_⟩
    · simp [Function.update_of_ne hv, hothers v hv]
    · simpa using hsent

/-- **The bytes on the connection are whole frames**, one for each `write_frame`, and the start of
one that is being sent, if no `write_frame` starts while another one is sending. -/
theorem frames_whole {ls : List (SocketLabel P)} {s : Socket P}
    (ha : Along (step registry pack) (Alone registry) .init ls)
    (h : run (step registry pack) .init ls = some s) :
    s.sent <+: s.begun.flatMap (frame ∘ pack) ∧
      ((∀ t, s.rest t = []) → s.sent = s.begun.flatMap (frame ∘ pack)) := by
  have hinit : Whole pack (.init : Socket P) := ⟨none, fun _ _ => rfl, rfl⟩
  obtain ⟨t, -, hsent⟩ := run_invariant (fun _ _ _ => Whole.step) hinit ha h
  refine ⟨⟨s.rest t, hsent⟩, fun hall => ?_⟩
  rw [← hsent, hall, append_nil]

def packId (m : WireMessage plain) : Bytes := [BitVec.ofNat 8 m.id]

/-- Two streaming calls are made and return, and the first one replies. -/
def calls : List (SocketLabel plain) :=
  [.move (.read (.msg { id := 1, type := some "request", func := some "f" })),
    .move (.read (.msg { id := 2, type := some "request", func := some "f" })),
    .move (.stream 0 .go), .move (.stream 1 .go),
    .move (.stream 0 (.result (.ok none))), .move (.stream 1 (.result (.ok none))),
    .move (.stream 0 (.reply none none))]

/-- The second one replies after it. -/
def turns : List (SocketLabel plain) :=
  calls ++ [.send (some 0) 1, .send (some 0) 4, .move (.stream 1 (.reply none none)),
    .send (some 1) 2, .send (some 1) 3]

theorem frames_whole_two : ∃ s,
    run (step (fun _ => some ⟨true, none⟩) packId) .init turns = some s ∧ s.begun.length = 2 ∧
    s.sent = s.begun.flatMap (frame ∘ packId) := by
  obtain ⟨s, hs, hlen, hall⟩ : ∃ s,
      run (step (fun _ => some ⟨true, none⟩) packId) .init turns = some s ∧ s.begun.length = 2 ∧
      ∀ t, s.rest t = [] := ⟨_, rfl, rfl, fun t => by rcases t with _ | _ | _ | t <;> rfl⟩
  refine ⟨s, hs, hlen, (frames_whole ?_ hs).2 hall⟩
  iterate 6 refine Along.cons (fun c hc => by cases hc; exact .inl rfl) rfl ?_
  refine Along.cons (fun c hc => .inr fun t => by rcases t with _ | _ | _ | t <;> rfl) rfl ?_
  iterate 2 refine Along.cons trivial rfl ?_
  refine Along.cons (fun c hc => .inr fun t => by rcases t with _ | _ | _ | t <;> rfl) rfl ?_
  exact .cons trivial rfl (.cons trivial rfl trivial)

/-- Both reply at once. -/
def replies : List (SocketLabel plain) :=
  calls ++ [.send (some 0) 1, .move (.stream 1 (.reply none none)), .send (some 1) 5,
    .send (some 0) 4]

/-- All is sent, and in no order are the bytes the two frames. -/
theorem frames_mixed : ∃ s,
    run (step (fun _ => some ⟨true, none⟩) packId) .init replies = some s ∧
    (∀ t ∈ [none, some 0, some 1], s.rest t = []) ∧
    ∀ ms : List (WireMessage plain), ms ~ s.begun → s.sent ≠ ms.flatMap (frame ∘ packId) := by
  obtain ⟨s, hs, hrest, hbegun, hsent⟩ : ∃ s,
      run (step (fun _ => some ⟨true, none⟩) packId) .init replies = some s ∧
      (∀ t ∈ [none, some 0, some 1], s.rest t = []) ∧ s.begun.length = 2 ∧
      s.sent = [0, 0, 0, 0, 1, 2, 0, 0, 1, 1] := ⟨_, rfl, by decide, rfl, rfl⟩
  refine ⟨s, hs, hrest, fun ms hms he => ?_⟩
  cases ms with
  | nil => cases hms.length_eq.trans hbegun
  | cons m ms => simp [hsent, frame, packId, beBytes] at he

end Callwire.Py.Socket
