import Callwire.Rust.Framing

/-!
# Frame sync of a server connection

`read_frame` keeps what it has read of a frame in its own future. When the other branch of `select!`
completes first the future is dropped, and the bytes with it: the next `read_frame` takes the middle
of a frame for a header. The loop stays in sync (`Synced`) as long as the shutdown branch completes
between frames only.
-/

namespace Callwire.Rust.Framing

open Lib List FrameReader

/-- The shutdown branch completes without a shutdown only when `read_frame` has taken nothing. -/
def ChangedIdle (c : Connection) (l : Label) : Prop :=
  l = .changed → c.watch.value = false → c.reader = .start

/-- What was processed and what is still to be read are the frames of the stream, whatever comes. -/
structure Synced (c : Connection) : Prop where
  reader : c.reader.Unfinished
  frames : ∀ more, Lib.frames (c.stream ++ more) =
    c.payloads ++ Lib.frames (c.reader.consumed ++ c.unread ++ more)

theorem Synced.init : Synced .init := ⟨start_unfinished, fun _ => rfl⟩

section
variable {c c' : Connection} {l : Label}

theorem Synced.read {b : Byte} {unread : Bytes} (h : Synced c) (hu : c.unread = b :: unread) :
    Synced (c.read b unread) := by
  unfold Connection.read
  split
  · rename_i reader hp
    obtain ⟨hr, hc⟩ := push_more h.reader hp
    refine ⟨hr, fun more => ?_⟩
    rw [h.frames more, hu, hc, append_assoc c.reader.consumed [b] unread]
    rfl
  · rename_i reader payload hp
    obtain ⟨rfl, hf⟩ := push_done h.reader hp
    refine ⟨start_unfinished, fun more => ?_⟩
    rw [h.frames more, hu, append_assoc, cons_append, hf, append_assoc]
    rfl

/-- **Every step keeps the loop in sync**, if the shutdown branch completes between frames. -/
theorem Synced.step (h : Synced c) (hok : ChangedIdle c l)
    (hs : Callwire.Rust.Framing.step c l = some c') : Synced c' := by
  cases l with
  | arrive piece =>
    cases hs
    refine ⟨h.reader, fun more => ?_⟩
    rw [append_assoc, h.frames (piece ++ more)]
    simp only [append_assoc]
  | read =>
    rw [Framing.step] at hs
    split at hs
    · rename_i hu
      cases hs
      exact h.read hu
    · cases hs
  | eof =>
    rw [Framing.step] at hs
    split at hs
    · cases hs
      exact ⟨h.reader, h.frames⟩
    · cases hs
  | changed =>
    rw [Framing.step] at hs
    split at hs
    · split at hs
      · cases hs
        exact ⟨h.reader, h.frames⟩
      · rename_i hv
        cases hs
        have hr : c.reader = .start := hok rfl (by simpa using hv)
        refine ⟨start_unfinished, fun more => ?_⟩
        have := h.frames more
        rwa [hr] at this
    · cases hs
  | close | dropHandle =>
    rw [Framing.step] at hs
    split at hs
    · cases hs
      exact ⟨h.reader, h.frames⟩
    · cases hs

theorem Synced.done (h : Synced c) (hu : c.unread = []) : c.payloads = Lib.frames c.stream := by
  have := h.frames []
  rw [append_nil, append_nil, hu, append_nil, frames_consumed h.reader,
    append_nil] at this
  exact this.symm

theorem Synced.read_on : ∀ {unread : Bytes} {c : Connection}, Synced c → c.running = true →
    c.unread = unread → ∃ c', run Framing.step c (List.replicate unread.length .read) = some c' ∧
      c'.payloads = Lib.frames c.stream
  | [], c, h, _, hu => ⟨c, rfl, h.done hu⟩
  | b :: unread, c, h, hr, hu => by
    have hstep : Framing.step c .read = some (c.read b unread) := by
      rw [Framing.step, hr, hu]
    have hsame : (c.read b unread).running = c.running ∧ (c.read b unread).stream = c.stream ∧
        (c.read b unread).unread = unread := by
      unfold Connection.read
      split <;> exact ⟨rfl, rfl, rfl⟩
    obtain ⟨c', hrun, hp⟩ := (h.read hu).read_on (hsame.1.trans hr) hsame.2.2
    refine ⟨c', ?_, hp.trans (congrArg _ hsame.2.1)⟩
    rw [length_cons, replicate_succ, run, hstep]
    exact hrun

end

/-! ## Runs -/

/-- **The payloads are the frames**: in every run in which the shutdown branch completes without a
shutdown between frames only, the payloads that were processed are the first frames of the stream,
all of them when everything has been read, and a running loop reads on to that point. -/
theorem payloads_frames {ls : List Label} {c : Connection}
    (hok : Along step ChangedIdle .init ls) (hrun : run step .init ls = some c) :
    c.payloads <+: frames c.stream ∧ (c.unread = [] → c.payloads = frames c.stream) ∧
      (c.running = true → ∃ c', run step c (List.replicate c.unread.length .read) = some c' ∧
        c'.payloads = frames c.stream) := by
  have h : Synced c :=
    run_invariant (fun _ _ _ => Synced.step) .init hok hrun
  refine ⟨?_, h.done, fun hr => h.read_on hr rfl⟩
  have := h.frames []
  rw [append_nil] at this
  rw [this]
  exact prefix_append ..

/-- The handle is dropped, and the shutdown branch wins between the header and the payload. -/
def tornLabels : List Label :=
  [.dropHandle, .arrive [0, 0, 0, 5], .read, .read, .read, .read, .changed,
    .arrive [0, 0, 0, 1, 255], .read, .read, .read, .read, .read]

/-- **A payload is taken for a frame**: the client has sent one frame of five bytes, and the loop
processes a frame of one byte. -/
theorem payloads_torn : ∃ c, run step .init tornLabels = some c ∧ c.unread = [] ∧
    c.watch.value = false ∧ c.payloads = [[255]] ∧ frames c.stream = [[0, 0, 0, 1, 255]] ∧
    ¬ c.payloads <+: frames c.stream := by
  have hf : frames [0, 0, 0, 5, 0, 0, 0, 1, 255] = [[0, 0, 0, 1, 255]] := by
    have := @frames_append [0, 0, 0, 5] [0, 0, 0, 1, 255] [] rfl rfl
    rwa [frames_nil] at this
  refine ⟨_, rfl, rfl, rfl, rfl, hf, fun hpre => ?_⟩
  have hpre : [[255]] <+: frames [0, 0, 0, 5, 0, 0, 0, 1, 255] := hpre
  rw [hf] at hpre
  exact absurd hpre (by decide)

def wholeFrame : List Label :=
  [.arrive [0, 0], .arrive [0, 1, 255], .read, .read, .read, .read, .read]

def wholeLabels : List Label := .dropHandle :: .changed :: (wholeFrame ++ [.changed])

def wholeConnection : Connection where
  stream := [0, 0, 0, 1, 255]
  unread := []
  reader := .start
  payloads := [[255]]
  watch := ⟨false, false, false⟩
  running := true

theorem payloads_frames_whole : run step .init wholeLabels = some wholeConnection ∧
    wholeConnection.payloads = frames wholeConnection.stream := by
  have hok : Along step ChangedIdle .init wholeLabels := by
    refine .cons nofun rfl (.cons (fun _ _ => rfl) rfl ?_)
    refine Along.append (Along.of_labels (fun l hl c hc => ?_) _) rfl ?_
    · subst hc
      simp [wholeFrame] at hl
    · exact ⟨fun _ _ => rfl, fun _ _ => trivial⟩
  exact ⟨rfl, (payloads_frames hok rfl).2.1 rfl⟩

end Callwire.Rust.Framing
