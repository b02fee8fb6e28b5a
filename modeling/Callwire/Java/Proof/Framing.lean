import Callwire.Java.Framing

/-!
# Frames in pieces, read by the Java server and client

The payload may come in any pieces, the header may not: where the one `read` of the header returns
all of it, `readFrame` is the reader of frames of at most 16 MiB (`readFrame_eq`), and successive
calls return the payloads that were written exactly if all their headers come whole
(`framing_of_wholeHeaders`). A header in two pieces is an exception (`split_header_throws`).
-/

namespace Callwire.Java.Framing

open Lib List

def maxFrame : Nat := 16 * 1024 * 1024

theorem writeFrame_eq (payload : Bytes) : writeFrame payload = frame payload :=
  congrArg (· ++ payload) (shift_mask_four payload.length)

def readFrames (cut : Nat → Nat) : Nat → Source → Option (List Bytes × Source)
  | 0, s => some ([], s)
  | n + 1, s => do
    let (p, s) ← readFrame cut s
    let (ps, s) ← readFrames cut n s
    some (p :: ps, s)

/-- The read that each of the next `n` calls begins with may return four bytes. -/
def WholeHeaders (cut : Nat → Nat) : Nat → Source → Prop
  | 0, _ => True
  | n + 1, s => 3 ≤ cut s.reads ∧ ∀ r ∈ readFrame cut s, WholeHeaders cut n r.2

section
variable (cut : Nat → Nat) {s : Source}

theorem readFrame_eq (h : (s.read cut 4).1.length = 4) :
    readFrame cut s = s.readFrame cut maxFrame := by
  rw [readFrame, Source.readFrame, Source.readAll_of_read cut (by decide) h, Option.bind_some]
  generalize s.read cut 4 = r at h ⊢
  obtain ⟨_ | ⟨h0, _ | ⟨h1, _ | ⟨h2, _ | ⟨h3, _ | _⟩⟩⟩⟩, s⟩ := r
  case cons.cons.cons.cons.nil =>
    have hval := toNat_shift_or_four h0 h1 h2 h3
    dsimp only
    generalize ((h0.setWidth 32 <<< 24) ||| (h1.setWidth 32 <<< 16) ||| (h2.setWidth 32 <<< 8) |||
      h3.setWidth 32 : BitVec 32) = len at hval ⊢
    have hbound : (len.toInt < 0 ∨ len.toInt > 16 * 1024 * 1024) ↔ maxFrame < len.toNat := by
      have := len.isLt
      rw [BitVec.toInt_eq_toNat_cond, maxFrame]
      split <;> omega
    rw [← hval]
    exact if_congr hbound rfl rfl
  all_goals simp at h

theorem readFrame_of_short (h : (s.read cut 4).1.length ≠ 4) : readFrame cut s = none := by
  rw [readFrame]
  split
  · rename_i heq
    rw [heq] at h
    exact absurd rfl h
  · rfl

theorem read_header {p rest : Bytes} (hs : s.rest = frame p ++ rest) :
    (s.read cut 4).1.length = 4 ↔ 3 ≤ cut s.reads := by
  simp only [Source.read, hs, frame, length_take, length_append, beBytes_length]
  omega

theorem wholeHeaders_iff : ∀ {ps : List Bytes}, (∀ p ∈ ps, p.length ≤ maxFrame) →
    ∀ {s : Source} {rest : Bytes}, s.rest = ps.flatMap writeFrame ++ rest →
      (WholeHeaders cut ps.length s ↔ ∃ k, readFrames cut ps.length s = some (ps, ⟨rest, k⟩))
  | [], _, s, rest, hs => iff_of_true trivial ⟨s.reads, by rw [← nil_append rest]; exact hs ▸ rfl⟩
  | p :: ps, h, s, rest, hs => by
    rw [flatMap_cons, append_assoc, writeFrame_eq] at hs
    rw [length_cons, WholeHeaders, readFrames, ← read_header cut hs]
    by_cases hhead : (s.read cut 4).1.length = 4
    · obtain ⟨k, hk⟩ := (Source.readFrame_eq_some cut (by decide)).2 ⟨h p mem_cons_self, hs⟩
      have ih := @wholeHeaders_iff ps (fun q hq => h q (mem_cons_of_mem _ hq)) ⟨_, k⟩ rest rfl
      simp [readFrame_eq cut hhead, hk, hhead, ih, Option.bind_eq_some_iff]
    · rw [readFrame_of_short cut hhead]
      exact iff_of_false (fun hw => hhead hw.1) nofun

/-- **Frames come through** exactly if no header is split, and one that is cut off is an
exception. -/
theorem framing_of_wholeHeaders :
    (∀ (ps : List Bytes) (s : Source) (rest : Bytes), (∀ p ∈ ps, p.length ≤ maxFrame) →
      s.rest = ps.flatMap writeFrame ++ rest →
      (WholeHeaders cut ps.length s ↔ ∃ k, readFrames cut ps.length s = some (ps, ⟨rest, k⟩))) ∧
    ∀ (p : Bytes) (n k : Nat), p.length ≤ maxFrame → n < (writeFrame p).length →
      readFrame cut ⟨(writeFrame p).take n, k⟩ = none := by
  refine ⟨fun ps s rest hps hs => wholeHeaders_iff cut hps hs, fun p n k hp hn => ?_⟩
  rw [writeFrame_eq] at hn ⊢
  by_cases h : (Source.read cut 4 ⟨(frame p).take n, k⟩).1.length = 4
  · rw [readFrame_eq cut h, Source.readFrame_take cut (by decide) hp hn rfl]
  · exact readFrame_of_short cut h

theorem framing_of_wholeHeaders_two :
    ∃ k, readFrames (fun _ => 3) 2 ⟨writeFrame [1, 2] ++ writeFrame [], 0⟩ =
      some ([[1, 2], []], ⟨[], k⟩) :=
  ((framing_of_wholeHeaders fun _ => 3).1 [[1, 2], []] _ [] (by decide) rfl).1
    ⟨Nat.le_refl 3, fun _ _ => ⟨Nat.le_refl 3, fun _ _ => trivial⟩⟩

/-- **A header in two pieces is taken for the end of the stream**, with the whole frame there. -/
theorem split_header_throws :
    readFrame (fun _ => 1) ⟨writeFrame [7], 0⟩ = none :=
  rfl

end

end Callwire.Java.Framing
