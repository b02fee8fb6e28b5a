import Callwire.Lib.Transition
import Callwire.Rust.Proof.ActorStep

/-!
# Chunks that nobody is woken for

The actor polls the channels of its streams at the top of its loop only, and waits for commands and
reader messages. A chunk that is sent after the poll of its stream stays in the channel until one of
these comes. `Pc.due` are the places from which the actor polls a stream once more before it waits;
as long as chunks are sent from there, or while a command or a message is queued (`SendsInTime`), a
parked actor has written every chunk (`parked_drained`).
-/

namespace Callwire.Rust

open Lib List

def Actor.Parked (a : Actor) : Prop := a.pc = .select ∧ a.cmds = [] ∧ a.reader = []

def Actor.Drained (a : Actor) : Prop :=
  ∀ side id ch, (a.streams side).lookup id = some ch → a.queueOf ch = []

/-- The actor polls the stream before it waits. -/
def Pc.due (side : Side) (id : BitVec 64) : Pc → Prop
  | .enter s => s = .exports ∨ side = .bidi
  | .pump s todo _ | .check s _ todo _ => s = side ∧ id ∈ todo ∨ s = .exports ∧ side = .bidi
  | .delivering _ _ _ | .reconnecting => True
  | .select | .stopped => False

/-- A payload for a registered stream is sent while the stream is due, or while the actor has
something to take. -/
def SendsInTime (a : Actor) (l : Label) : Prop :=
  ∀ ch payload owner, l.sends = some (ch, payload, owner) →
    ∀ side id, (a.streams side).lookup id = some ch →
      a.pc.due side id ∨ a.cmds ≠ [] ∨ a.reader ≠ []

/-! ## The invariant -/

/-- A stream with a payload is due, or something else will bring the actor back. -/
def Awake (a : Actor) : Prop :=
  ∀ side id ch, (a.streams side).lookup id = some ch → a.queueOf ch ≠ [] →
    a.writer = none ∨ a.pc.due side id ∨ a.cmds ≠ [] ∨ a.reader ≠ []

theorem Awake.init : Awake .init := by
  intro side id ch h
  cases side <;> cases h

section
variable {reconnect : Bool} {a a' : Actor} {l : Label}

theorem Awake.of_due (h : ∀ side id, a.pc.due side id) : Awake a :=
  fun side id _ _ _ => .inr (.inl (h side id))

theorem Awake.stop (a : Actor) : Awake a.stop := by
  obtain ⟨replies, spawned, h⟩ := a.stop_eq
  rw [h]
  intro side id ch hs
  cases side <;> cases hs

theorem Awake.reconnectOrStop (a : Actor) (reconnect : Bool) :
    Awake (a.reconnectOrStop reconnect) := by
  rcases a.reconnectOrStop_cases reconnect with h | h <;> rw [h]
  · exact .of_due fun _ _ => trivial
  · exact .stop a

/-- The channels that had a payload before the step are the only ones that have one after it, and
what was due is due. -/
theorem Awake.mono (h : Awake a)
    (hs : ∀ side id ch, (a'.streams side).lookup id = some ch → a'.queueOf ch ≠ [] →
      (a.streams side).lookup id = some ch ∧ a.queueOf ch ≠ [] ∧
        (a.pc.due side id → a'.pc.due side id))
    (hw : a.writer = none → a'.writer = none) (hc : a.cmds ≠ [] → a'.cmds ≠ [])
    (hr : a.reader ≠ [] → a'.reader ≠ []) : Awake a' := by
  intro side id ch hl hq
  obtain ⟨hl, hq, hdue⟩ := hs side id ch hl hq
  rcases h side id ch hl hq with hwn | hd | hcm | hrd
  · exact .inl (hw hwn)
  · exact .inr (.inl (hdue hd))
  · exact .inr (.inr (.inl (hc hcm)))
  · exact .inr (.inr (.inr (hr hrd)))

/-- **Every step keeps the invariant**, if payloads are sent in time. -/
theorem Awake.step (h : Awake a) (hok : SendsInTime a l)
    (hstep : Callwire.Rust.step reconnect a l = some a') : Awake a' := by
  cases step_move hstep with
  | submit | close => exact fun _ _ _ _ _ => .inr (.inr (.inl (by simp)))
  | frame | closed => exact fun _ _ _ _ _ => .inr (.inr (.inr (by simp)))
  | dropClient | receive | dropReply | notified | unnotified => exact h
  | @send _ ch payload owner c hl hc hr ho =>
    intro side id ch' hlk hq
    by_cases hch : ch' = ch
    · subst hch
      exact .inr (hok ch' payload owner hl side id hlk)
    · refine h side id ch' hlk ?_
      rwa [Actor.queueOf, getElem?_set_ne (Ne.symm hch)] at hq
  | @dropStream ch =>
    intro side id ch' hlk hq
    refine h side id ch' hlk ?_
    rwa [a.queueOf_drop] at hq
  | skip hpc hw => exact fun _ _ _ _ _ => .inl hw
  | @enter side order hpc hw hp =>
    refine h.mono (fun s id ch hlk hq => ⟨hlk, hq, fun hd => ?_⟩) (·) (·) (·)
    have hmem : id ∈ (a.streams s).keys :=
      AList.mem_keys.1 (AList.lookup_isSome.1 (Option.isSome_of_eq_some hlk))
    rw [hpc] at hd
    cases side <;> cases s
    · exact .inl ⟨rfl, hp.mem_iff.2 hmem⟩
    · exact .inr ⟨rfl, rfl⟩
    · rcases hd with hd | hd <;> cases hd
    · exact .inl ⟨rfl, hp.mem_iff.2 hmem⟩
  | @leave side gone ok hpc =>
    refine h.mono (fun s id ch hlk hq => ⟨Actor.streams_leavePump hlk, ?_, fun hd => ?_⟩) ?_ ?_ ?_
    · cases side <;> exact hq
    · rw [hpc] at hd
      rcases hd with ⟨-, hd⟩ | ⟨rfl, rfl⟩
      · cases hd
      · exact .inr rfl
    all_goals cases side <;> exact (·)
  | @miss side id todo gone ok hpc hs =>
    refine h.mono (fun s id' ch hlk hq => ⟨hlk, hq, fun hd => ?_⟩) (·) (·) (·)
    rw [hpc] at hd
    rcases hd with ⟨rfl, hd⟩ | hd
    · rcases mem_cons.1 hd with rfl | hd
      · rw [show (a.streams side).lookup id' = some ch from hlk] at hs
        cases hs
      · exact .inl ⟨rfl, hd⟩
    · exact .inr hd
  | @empty side id todo gone ok ch hpc hs hq =>
    refine h.mono (fun s id' ch' hlk hq' => ⟨hlk, hq', fun hd => ?_⟩) (·) (·) (·)
    rw [hpc] at hd
    rcases hd with ⟨rfl, hd⟩ | hd
    · rcases mem_cons.1 hd with rfl | hd
      · rw [show (a.streams side).lookup id' = some ch' from hlk] at hs
        cases hs
        exact absurd hq hq'
      · exact .inl ⟨rfl, hd⟩
    · exact .inr hd
  | @pumped side id todo gone ch conn payload queue hpc hs hq hw =>
    intro s id' ch' hlk hq'
    refine h s id' ch' hlk ?_
    by_cases hch : ch' = ch
    · rw [hch, hq]
      simp
    · rwa [Actor.queueOf, getElem?_modify_ne _ _ (Ne.symm hch)] at hq'
  | @unpumped side => exact fun _ _ _ _ _ => .inl (by cases side <;> rfl)
  | check hpc =>
    refine h.mono (fun s id' ch' hlk hq' => ⟨hlk, hq', fun hd => ?_⟩) (·) (·) (·)
    rwa [hpc] at hd
  | shutdown | noClients => exact .stop _
  | callFailed | exportFailed | lost => exact .reconnectOrStop _ _
  | message =>
    obtain ⟨pc, pending, replies, he, hpc⟩ := Actor.handleFrame_eq _ _
    rw [he]
    rcases hpc with rfl | ⟨tx, rfl⟩
    · exact .of_due fun _ _ => .inl rfl
    · exact .of_due fun _ _ => trivial
  | _ => exact .of_due fun _ _ => .inl rfl

end

/-! ## Runs -/

/-- **No chunk is left behind.** When the actor waits with a writer connected and nothing to take,
every payload that was sent in time has been written. -/
theorem parked_drained {reconnect : Bool} {ls : List Label} {a : Actor}
    (hok : Along (step reconnect) SendsInTime .init ls)
    (hrun : run (step reconnect) .init ls = some a) (hp : a.Parked) (hw : a.writer ≠ none) :
    a.Drained := by
  have hawake : Awake a :=
    run_invariant (fun _ _ _ hi hp hs => hi.step hp hs) .init hok hrun
  obtain ⟨hpc, hc, hr⟩ := hp
  intro side id ch hlk
  by_contra hq
  rcases hawake side id ch hlk hq with hwn | hd | hcm | hrd
  · exact hw hwn
  · rw [hpc] at hd
    exact hd
  · exact hcm hc
  · exact hrd hr

/-! ## A chunk that waits -/

def openLabels : List Label :=
  toSelect ++ [.submit (.exportStream 1 "f"), .command true, .enter [1], .pump true, .pump true,
    .pump true, .enter [], .pump true]

/-- **A chunk that is sent to a waiting actor stays in its channel**, and the actor goes on
waiting. -/
theorem parked_undrained : ∃ a, run (step true) .init (openLabels ++ [.send 0 .nil]) = some a ∧
    a.Parked ∧ a.writer = some 0 ∧ ¬ a.Drained ∧ step true a (.command true) = none ∧
    step true a .message = none := by
  refine ⟨_, rfl, ⟨rfl, rfl, rfl⟩, rfl, fun h => ?_, rfl, rfl⟩
  cases h .exports 1 0 rfl

/-- A chunk that is sent while the command of its stream is still in the queue. -/
def promptLabels : List Label :=
  (toSelect ++ [.submit (.exportStream 1 "f")]) ++ .send 0 .nil :: [.command true, .enter [1],
    .pump true, .pump true, .pump true, .pump true, .enter [], .pump true]

theorem SendsInTime.of_sends {a : Actor} {l : Label} (h : l.sends = none) : SendsInTime a l :=
  fun _ _ _ hl => nomatch h.symm.trans hl

theorem parked_drained_prompt : ∃ a, run (step true) .init promptLabels = some a ∧ a.Parked ∧
    a.wire.map Written.frame = [packRequest 1 "f" .nil, packStreamChunk 1 .nil] ∧ a.Drained := by
  have hok : Along (step true) SendsInTime .init promptLabels := by
    refine .append (.of_labels (fun l hl a => ?_) _) rfl (.cons ?_ rfl (.of_labels ?_ _))
    · refine .of_sends ?_
      revert l
      decide
    · exact fun _ _ _ _ _ _ _ => .inr (.inl nofun)
    · refine fun l hl a => .of_sends ?_
      revert l
      decide
  exact ⟨_, rfl, ⟨rfl, rfl, rfl⟩, rfl, parked_drained hok rfl ⟨rfl, rfl, rfl⟩ nofun⟩

end Callwire.Rust
