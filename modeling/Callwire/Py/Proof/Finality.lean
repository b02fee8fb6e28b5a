import Callwire.Py.Proof.ClientStep

/-!
# `close` is final

`close` clears `_connected` first, without `_conn_lock`, and closes the socket under that lock
later; the reconnect loop looks at `_connected` and installs a new socket in one section of the
lock. The flag can be cleared between the two: the new socket is then installed after all, and
`_close_conn`, which waits for the lock, finds it. So a client that is not connected keeps its
current socket or loses it (`Ebbs`), where a socket that has passed the check counts as current
(`current`), and it has none once a `close` has run `_close_conn`.
-/

namespace Callwire.Py

open Lib List

variable {P : Python}

/-- `_close_conn` has been run. -/
def ClosePc.Past : ClosePc → Prop
  | .joining | .done => True
  | _ => False

namespace Client

/-- The socket of the client: the one that the reader assigns, if it has passed the check. -/
def current (c : Client P) : Option Nat :=
  match c.reader with
  | .assigning s => some s
  | _ => c.conn

/-- What a step of a client that is not connected does to its sockets. -/
structure Ebbs (c c' : Client P) : Prop where
  off : c'.connected = false
  current : c'.current = c.current ∨ c'.current = none
  dead : ∀ s, c.current = some s ∨ s ∈ c.dead → c'.current = some s ∨ s ∈ c'.dead
  past : ∀ (k : Nat) pc, c'.closes[k]? = some pc → pc.Past →
    c'.current = none ∨ ∃ pc, c.closes[k]? = some pc ∧ pc.Past

section
variable {imports : List CodecName} {reconnect : Bool} {c c' : Client P}

theorem Ebbs.same (h : c'.connected = false ∧ c'.current = c.current ∧ c'.dead = c.dead ∧
    c'.closes = c.closes) : Ebbs c c' where
  off := h.1
  current := .inl h.2.1
  dead s hs := by rwa [h.2.1, h.2.2.1]
  past k pc hpc hp := .inr ⟨pc, h.2.2.2 ▸ hpc, hp⟩

theorem conn_of_current (h : c.current = none) : c.conn = none := by
  unfold current at h
  split at h
  · cases h
  · exact h

theorem current_of_unlocked (h : c.connLocked = false) : c.current = c.conn := by
  unfold connLocked at h
  unfold current
  cases hr : c.reader with
  | assigning s =>
    rw [hr] at h
    cases h
  | _ => rfl

theorem closeConn_conn (c : Client P) : c.closeConn.conn = none := by
  unfold closeConn
  split
  · rfl
  · assumption

theorem mem_closeConn_dead {s : Nat} (h : c.conn = some s ∨ s ∈ c.dead) : s ∈ c.closeConn.dead := by
  unfold closeConn
  split
  · rename_i s' hc
    refine mem_cons.2 (h.imp_left fun hs => ?_)
    exact Option.some.inj (hs.symm.trans hc)
  · rename_i hc
    exact h.resolve_left fun hs => nomatch hs.symm.trans hc

section
variable (hoff : c.connected = false)
include hoff

/-- `_close_conn`, outside of the other sections of the lock. -/
theorem ebbs_closeConn (hl : c.connLocked = false) (hr : ∀ s, c'.reader ≠ .assigning s)
    (hc : c' = { c.closeConn with reader := c'.reader, closes := c'.closes }) : Ebbs c c' := by
  have hcurrent : c'.current = none := by
    unfold current
    split
    · exact absurd ‹_› (hr _)
    · rw [hc]
      exact closeConn_conn c
  refine ⟨?_, .inr hcurrent, fun s hs => .inr ?_, fun k pc hpc hp => .inl hcurrent⟩
  · obtain ⟨conn, dead, he⟩ := closeConn_eq c
    rw [hc, he]
    exact hoff
  · rw [current_of_unlocked hl] at hs
    rw [hc]
    exact mem_closeConn_dead hs

/-- **The reader lets no socket pass the check.** -/
theorem readerStep_ebbs {l : ReaderLabel P} (hs : c.readerStep reconnect l = some c') :
    Ebbs c c' := by
  unfold readerStep at hs
  split at hs
  case h_4 | h_6 =>
    rename_i hr
    obtain ⟨c₁, hput, rfl⟩ := Option.map_eq_some_iff.1 hs
    obtain ⟨slot, -, rfl⟩ := put_eq_some hput
    have hcurrent : c.current = c.conn := by rw [current, hr]
    exact .same ⟨hoff, hcurrent.symm, rfl, rfl⟩
  case h_10 =>
    rename_i hr
    rw [if_neg (by simp [hoff])] at hs
    cases hs
    have hcurrent : c.current = c.conn := by rw [current, hr]
    refine ⟨hoff, .inl hcurrent.symm, fun s hs => ?_, fun k pc hpc hp => .inr ⟨pc, hpc, hp⟩⟩
    rw [hcurrent] at hs
    exact hs.imp_right (mem_cons_of_mem _)
  case h_13 =>
    rename_i hr
    cases hs
    exact ebbs_closeConn hoff (by rw [connLocked, hr]) nofun rfl
  all_goals grind [Ebbs.same, dispatch, current]

theorem closeStep_ebbs {i : Nat} {pc : ClosePc} (hpc : c.closes[i]? = some pc)
    (hs : c.closeStep i pc = some c') : Ebbs c c' := by
  have hset : ∀ {c₁ : Client P} {pc' : ClosePc},
      c₁.connected = c.connected ∧ c₁.current = c.current ∧ c₁.dead = c.dead →
        c₁.closes = c.closes.set i pc' → (pc'.Past → pc.Past) → Ebbs c c₁ := by
    intro c₁ pc' ⟨hoff', hcur, hdead⟩ hcloses hmono
    refine ⟨hoff'.trans hoff, .inl hcur, fun s hs => by rwa [hcur, hdead], fun k pc₁ hget hp => ?_⟩
    rcases set_cases hpc (hcloses ▸ hget) with ⟨rfl, rfl⟩ | ⟨-, hget⟩
    · exact .inr ⟨pc, hpc, hmono hp⟩
    · exact .inr ⟨pc₁, hget, hp⟩
  unfold closeStep at hs
  split at hs
  · split at hs <;> cases hs
    exact hset ⟨rfl, rfl, rfl⟩ rfl id
  · obtain ⟨c₁, hput, rfl⟩ := Option.map_eq_some_iff.1 hs
    obtain ⟨slot, -, rfl⟩ := put_eq_some hput
    exact hset ⟨rfl, rfl, rfl⟩ rfl id
  · cases hs
    exact hset ⟨rfl, rfl, rfl⟩ rfl id
  · split at hs
    · cases hs
    · rename_i hl
      cases hs
      have hl : c.connLocked = false := Bool.eq_false_iff.2 hl
      refine ebbs_closeConn hoff hl (fun s hr => ?_) rfl
      obtain ⟨conn, dead, he⟩ := closeConn_eq c
      have hreader : c.reader = .assigning s := by
        rw [he] at hr
        exact hr
      rw [connLocked, hreader] at hl
      cases hl
  · cases hs
    exact hset ⟨rfl, rfl, rfl⟩ rfl id
  · cases hs

theorem step_ebbs {l : Label P} (hs : step imports reconnect c l = some c') : Ebbs c c' := by
  cases l with
  | start kind call | batch calls =>
    rw [step, if_neg (by simp [hoff])] at hs
    cases hs
  | op i l =>
    obtain ⟨op, -, hs⟩ := Option.bind_eq_some_iff.1 hs
    cases opStep_moves hs with
    | send | closeSend | closeAndRecv =>
      rcases streamWrite_cases c i _ _ _ _ with ⟨_, _, -, -, he⟩ | ⟨-, he⟩ <;>
        exact he ▸ .same ⟨hoff, rfl, rfl, rfl⟩
    | _ => exact .same ⟨hoff, rfl, rfl, rfl⟩
  | reader l => exact readerStep_ebbs hoff hs
  | close =>
    cases hs
    refine ⟨rfl, .inl rfl, fun _ hs => hs, fun k pc hpc hp => ?_⟩
    rcases concat_cases hpc with hpc | ⟨-, rfl⟩
    · exact .inr ⟨pc, hpc, hp⟩
    · exact hp.elim
  | closer i =>
    obtain ⟨pc, hpc, hs⟩ := Option.bind_eq_some_iff.1 hs
    exact closeStep_ebbs hoff hpc hs

end

/-- The `close` number `k` was called when `old` was the socket. -/
structure Closing (old : Option Nat) (k : Nat) (c : Client P) : Prop where
  off : c.connected = false
  current : c.current = none ∨ c.current = old
  dead : ∀ s, old = some s → c.current = some s ∨ s ∈ c.dead
  past : ∀ pc, c.closes[k]? = some pc → pc.Past → c.current = none

theorem Closing.run {old : Option Nat} {k : Nat} {ls : List (Label P)} (h : Closing old k c)
    (hrun : Lib.run (step imports reconnect) c ls = some c') : Closing old k c' := by
  refine run_kept (fun c l c' h hs => ?_) h hrun
  have he := step_ebbs h.off hs
  have hnone : c.current = none → c'.current = none := fun hn => he.current.elim (·.trans hn) id
  refine ⟨he.off, ?_, fun s hs => he.dead s (h.dead s hs), fun pc hpc hp => ?_⟩
  · rcases he.current with hc | hc
    · exact hc ▸ h.current
    · exact .inl hc
  · rcases he.past k pc hpc hp with hn | ⟨pc', hpc', hp'⟩
    · exact hn
    · exact hnone (h.past pc' hpc' hp')

/-- **`close` is final**: when it has returned, the socket that was current has been closed, and
from then on the client is not connected, has no socket and is not about to get one, whatever the
reader, the calls and other threads in `close` do. -/
theorem closing_final {c₀ : Client P} {ls : List (Label P)}
    (hrun : run (step imports reconnect) c₀ (.close :: ls) = some c)
    (hdone : c.closes[c₀.closes.length]? = some .done) :
    (∀ s, c₀.current = some s → s ∈ c.dead) ∧
    ∀ ls' c', run (step imports reconnect) c ls' = some c' →
      c'.connected = false ∧ c'.conn = none ∧ c'.current = none := by
  obtain ⟨c₁, hs, hrun⟩ := run_cons hrun
  cases hs
  have hinit : Closing c₀.current c₀.closes.length
      { c₀ with connected := false, closes := c₀.closes ++ [.clearing] } := by
    refine ⟨rfl, .inr rfl, fun s hs => .inl hs, fun pc hpc hp => ?_⟩
    cases getElem?_concat_length.symm.trans hpc
    exact hp.elim
  have h := hinit.run hrun
  have hnone := h.past .done hdone trivial
  refine ⟨fun s hs => (h.dead s hs).resolve_left (hnone ▸ nofun), fun ls' c' hrun' => ?_⟩
  -- from here on there is no socket to be kept
  have hlater : Closing none c₀.closes.length c := ⟨h.off, .inl hnone, nofun, h.past⟩
  have hlater := hlater.run hrun'
  have hcurrent := hlater.current.elim id id
  exact ⟨hlater.off, conn_of_current hcurrent, hcurrent⟩

end

/-- The reader has lost socket 0 and dialled socket 1; `close` comes between the check of
`_connected` and the assignment, and `_close_conn` closes the new socket. -/
theorem closing_final_assigning : ∃ c : Client plain,
    run (step clientImports true) { init with reader := .installing 1, sockets := 2 }
      [.reader .go, .close, .closer 0, .closer 0, .reader .go, .closer 0, .closer 0] = some c ∧
    1 ∈ c.dead ∧
    ∀ ls' c', run (step clientImports true) c ls' = some c' →
      c'.connected = false ∧ c'.conn = none ∧ c'.current = none := by
  have hrun : run (step clientImports true)
      ({ init with reader := .assigning 1, sockets := 2 } : Client plain)
      [.close, .closer 0, .closer 0, .reader .go, .closer 0, .closer 0] =
        some { init with
          reader := .top, connected := false, conn := none, sockets := 2, dead := [1],
          closes := [.done] } :=
    rfl
  obtain ⟨hdead, hlater⟩ := closing_final hrun rfl
  exact ⟨_, rfl, hdead 1 rfl, hlater⟩

end Client

end Callwire.Py
