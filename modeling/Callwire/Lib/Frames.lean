import Callwire.Lib.Bytes

/-!
# Length-prefixed frames

A frame is a four-byte big-endian length and as many bytes. `frames bs` are the payloads of the
complete frames of a byte stream. `FrameReader` is a reader that takes one byte at a time; what it
has consumed of the current frame and what is still to come have the frames that the whole has
(`FrameReader.push_more`, `FrameReader.push_done`).
-/

namespace Lib

open List

/-- The payloads of the complete frames at the start of `bs`. -/
def frames (bs : Bytes) : List Bytes :=
  if 4 + beVal (bs.take 4) ≤ bs.length then
    (bs.drop 4).take (beVal (bs.take 4)) :: frames (bs.drop (4 + beVal (bs.take 4)))
  else []
termination_by bs.length

theorem frames_of_lt {bs : Bytes} (h : bs.length < 4 + beVal (bs.take 4)) : frames bs = [] := by
  rw [frames, if_neg (Nat.not_le.2 h)]

theorem frames_nil : frames [] = [] := frames_of_lt (by decide)

/-- A complete frame comes first. -/
theorem frames_append {head payload : Bytes} (rest : Bytes) (hh : head.length = 4)
    (hp : payload.length = beVal head) :
    frames (head ++ payload ++ rest) = payload :: frames rest := by
  have htake : (head ++ payload ++ rest).take 4 = head := by
    rw [append_assoc, take_left' hh]
  have hdrop : (head ++ payload ++ rest).drop 4 = payload ++ rest := by
    rw [append_assoc, drop_left' hh]
  rw [frames, htake, if_pos, hdrop, ← drop_drop, hdrop, take_left' hp,
    drop_left' hp]
  rw [length_append, length_append, hh, hp]
  exact Nat.le_add_right ..

/-! ## Reading byte by byte -/

/-- In the header, or in the payload after `head`. -/
inductive FrameReader where
  | header (got : Bytes)
  | payload (head got : Bytes)
  deriving DecidableEq

namespace FrameReader

def start : FrameReader := .header []

/-- The bytes of the current frame that have been taken. -/
def consumed : FrameReader → Bytes
  | .header got => got
  | .payload head got => head ++ got

/-- One more byte: the reader after it, and the payload it completes. -/
def push (b : Byte) : FrameReader → FrameReader × Option Bytes
  | .header got =>
    if (got ++ [b]).length < 4 then (.header (got ++ [b]), none)
    else if beVal (got ++ [b]) = 0 then (start, some [])
    else (.payload (got ++ [b]) [], none)
  | .payload head got =>
    if (got ++ [b]).length < beVal head then (.payload head (got ++ [b]), none)
    else (start, some (got ++ [b]))

/-- The frame is not complete. -/
def Unfinished : FrameReader → Prop
  | .header got => got.length < 4
  | .payload head got => head.length = 4 ∧ got.length < beVal head

theorem start_unfinished : start.Unfinished := Nat.zero_lt_succ 3

section
variable {r : FrameReader} (h : r.Unfinished)
include h

theorem frames_consumed : frames r.consumed = [] := by
  cases r with
  | header got =>
    refine frames_of_lt ?_
    have h : got.length < 4 := h
    show got.length < _
    omega
  | payload head got =>
    obtain ⟨hh, hg⟩ := h
    refine frames_of_lt ?_
    show (head ++ got).length < 4 + beVal ((head ++ got).take 4)
    rw [take_left' hh, length_append, hh]
    omega

theorem push_more {r' : FrameReader} {b : Byte} (hp : push b r = (r', none)) :
    r'.Unfinished ∧ r'.consumed = r.consumed ++ [b] := by
  cases r with
  | header got =>
    rw [push] at hp
    split at hp
    · rename_i hlt
      cases hp
      exact ⟨hlt, rfl⟩
    · rename_i hlt
      split at hp
      · cases (Prod.mk.inj hp).2
      · rename_i hne
        cases hp
        have h : got.length < 4 := h
        rw [length_append, length_singleton] at hlt
        refine ⟨⟨?_, Nat.pos_of_ne_zero hne⟩, append_nil _⟩
        rw [length_append, length_singleton]
        omega
  | payload head got =>
    rw [push] at hp
    split at hp
    · rename_i hlt
      cases hp
      exact ⟨⟨h.1, hlt⟩, (append_assoc ..).symm⟩
    · cases (Prod.mk.inj hp).2

theorem push_done {r' : FrameReader} {b : Byte} {payload : Bytes}
    (hp : push b r = (r', some payload)) : r' = start ∧
      ∀ rest, frames (r.consumed ++ b :: rest) = payload :: frames rest := by
  cases r with
  | header got =>
    rw [push] at hp
    split at hp
    · cases (Prod.mk.inj hp).2
    · rename_i hlt
      split at hp
      · rename_i hz
        cases hp
        refine ⟨rfl, fun rest => ?_⟩
        have h : got.length < 4 := h
        rw [length_append, length_singleton] at hlt
        have hlen : (got ++ [b]).length = 4 := by
          rw [length_append, length_singleton]
          omega
        have := @frames_append (got ++ [b]) [] rest hlen hz.symm
        rwa [append_nil, append_assoc] at this
      · cases (Prod.mk.inj hp).2
  | payload head got =>
    rw [push] at hp
    split at hp
    · cases (Prod.mk.inj hp).2
    · rename_i hlt
      cases hp
      obtain ⟨hh, hg⟩ := h
      refine ⟨rfl, fun rest => ?_⟩
      rw [length_append, length_singleton] at hlt
      have hlen : (got ++ [b]).length = beVal head := by
        rw [length_append, length_singleton]
        omega
      have := frames_append rest hh hlen
      rwa [← append_assoc, append_assoc (head ++ got)] at this

end

end FrameReader

end Lib
