import Callwire.Go.Proof.ClientStep
import Callwire.Go.Proof.Library

/-!
# `Close` is final

The loop looks at `closed` before it dials and again before it installs what it has dialled. So
after `Close` no connection is installed or read: the loop closes what it dialled, and returns.
-/

namespace Callwire.Go.Client

open Lib List

variable {m : Msgpack} {reconnect : Bool} {c c' : Client} {l : Label} {n₀ : Nat}

structure Below (n₀ : Nat) (c : Client) : Prop where
  conn : ∀ n, c.conn = some n → n < n₀
  toClose : ∀ n ∈ c.toClose, n < n₀
  reading : ∀ n, c.loop = .reading n → n < n₀

theorem of_usable {n : Nat} (h : c.view.usable = some n) :
    c.closed = false ∧ c.conn = some n := by
  rw [View.usable] at h
  split at h
  · cases h
  · exact ⟨Bool.eq_false_iff.2 ‹_›, h⟩

structure Known (c : Client) : Prop where
  below : Below c.conns c
  dialled : ∀ n, c.loop = .dialled n → n < c.conns

theorem Known.step (h : Known c) (hs : step m reconnect c l = some c') : Known c' := by
  obtain ⟨⟨hconn, htoClose, hreading⟩, hdialled⟩ := h
  cases step_move hs with
  | start => exact ⟨⟨hconn, htoClose, hreading⟩, hdialled⟩
  | read hloop hu =>
    refine ⟨⟨hconn, htoClose, fun n hn => ?_⟩, nofun⟩
    cases hn
    exact hconn _ (of_usable hu).2
  | close =>
    refine ⟨⟨nofun, fun n hn => ?_, hreading⟩, hdialled⟩
    rcases mem_append.1 hn with hn | hn
    · exact htoClose n hn
    · exact hconn n (Option.mem_toList.1 hn)
  | _ => exact ⟨⟨by grind, by grind, by grind⟩, by grind⟩

/-- The client is closed; the loop closes the connections from `n₀` on. -/
structure Shut (n₀ : Nat) (c : Client) : Prop where
  closed : c.closed = true
  conn : c.conn = none
  below : Below n₀ c
  later : ∀ n, n₀ ≤ n → n < c.conns → c.loop = .dialled n ∨ n ∈ c.dead

theorem Shut.step (h : Shut n₀ c) (hs : step m reconnect c l = some c') : Shut n₀ c' := by
  obtain ⟨hclosed, hconn, ⟨hno, htoClose, hreading⟩, hlater⟩ := h
  cases step_move hs with
  | start => exact ⟨hclosed, hconn, ⟨hno, htoClose, hreading⟩, hlater⟩
  | read hloop hu => exact absurd hclosed (by simp [(of_usable hu).1])
  | close =>
    refine ⟨rfl, rfl, ⟨nofun, ?_, hreading⟩, hlater⟩
    simpa [close, hconn] using htoClose
  | _ => exact ⟨by grind, by grind, ⟨by grind, by grind, by grind⟩, by grind⟩

/-- From `Close` on the client is closed and has no connection. One dialled since is not read, is
not for a `Close` to close, and is closed when the loop has returned. -/
theorem closed_for_good (m : Msgpack) (reconnect : Bool) {ls₀ ls : List Label} {c₀ c : Client}
    (h₀ : run (step m reconnect) .init ls₀ = some c₀)
    (h : run (step m reconnect) c₀ (.close :: ls) = some c) :
    c.closed = true ∧ c.conn = none ∧ ∀ n, c₀.conns ≤ n → n < c.conns →
      c.loop ≠ .reading n ∧ n ∉ c.toClose ∧ (c.loop = .dialled n ∨ n ∈ c.dead) := by
  have hk : Known c₀ := run_kept (fun _ _ _ => Known.step)
    ⟨⟨by simp [init], by simp [init], by simp [init]⟩, by simp [init]⟩ h₀
  obtain ⟨c₁, h₁, h⟩ := run_cons h
  have hb := (hk.step h₁).below
  cases step_move h₁
  have hs : Shut c₀.conns c := run_kept (fun _ _ _ => Shut.step)
    ⟨rfl, rfl, hb, fun n hn hn' => absurd hn' hn.not_gt⟩ h
  refine ⟨hs.closed, hs.conn, fun n hn hn' => ⟨fun hl => ?_, fun hl => ?_, hs.later n hn hn'⟩⟩
  · exact hn.not_gt (hs.below.reading n hl)
  · exact hn.not_gt (hs.below.toClose n hl)

theorem closed_for_good_dialling : ∃ c₀ c,
    run (step msgpack true) .init
      [.loop .head, .loop .readError, .loop .drainEnd, .loop .redial] = some c₀ ∧
    run (step msgpack true) c₀ [.close, .loop (.dial true), .loop .install] = some c ∧
    c.loop = .returned ∧ 1 ∈ c.dead := by
  have h₀ : run (step msgpack true) .init
      [.loop .head, .loop .readError, .loop .drainEnd, .loop .redial] =
        some { init with loop := .dialling } := rfl
  have h : run (step msgpack true) { init with loop := .dialling }
      [.close, .loop (.dial true), .loop .install] = some { init with
        conn := none, closed := true, conns := 2, toClose := [0], dead := [1],
        loop := .returned } := rfl
  obtain ⟨-, -, hlater⟩ := closed_for_good msgpack true h₀ h
  exact ⟨_, _, h₀, h, rfl, (hlater 1 (by decide) (by decide)).2.2.resolve_left nofun⟩

end Callwire.Go.Client
