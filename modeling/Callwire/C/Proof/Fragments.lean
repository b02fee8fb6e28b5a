import Callwire.C.Proof.Framing

/-!
# Frames in pieces

`send` and `recv` may move any positive number of bytes. What `callwire_framing_write_frame` puts on
the stream is the frame all the same (`sendFrame_out`), and `callwire_framing_read_frame` succeeds
exactly on a complete frame within the limit and takes no byte of what follows (`readFrame_iff`).
-/

namespace Callwire.C

open Lib List

def sendFrames (cut : Nat → Nat) : List Bytes → Sink → Option Sink
  | [], s => some s
  | p :: ps, s => (callwireFramingSendFrame cut p s).bind (sendFrames cut ps)

/-- The payloads of the next `n` calls of `callwire_framing_read_frame`. -/
def readFrames (cut : Nat → Nat) : Nat → Source → Option (List Bytes × Source)
  | 0, s => some ([], s)
  | n + 1, s => do
    let (q, s) ← callwireFramingReadFrame cut s
    let (ps, s) ← readFrames cut n s
    some (q.bytes :: ps, s)

section
variable (cut : Nat → Nat)

theorem sendFrame_out {p : Bytes} (hp : p.length ≤ callwireMaxFrameSize) (s : Sink) :
    ∃ s', callwireFramingSendFrame cut p s = some s' ∧ s'.out = s.out ++ frame p := by
  rw [callwireFramingSendFrame, if_neg (Nat.not_lt.2 hp), frameHeader_eq]
  refine ⟨_, rfl, ?_⟩
  split
  · rw [Sink.writeAll_out, Sink.writeAll_out, frame, append_assoc]
  · rename_i h0
    rw [Sink.writeAll_out, frame, length_eq_zero_iff.1 (Nat.eq_zero_of_not_pos h0),
      append_nil]

theorem sendFrames_out : ∀ {ps : List Bytes}, (∀ p ∈ ps, p.length ≤ callwireMaxFrameSize) →
    ∀ s, ∃ s', sendFrames cut ps s = some s' ∧ s'.out = s.out ++ ps.flatMap frame
  | [], _, s => ⟨s, rfl, (append_nil _).symm⟩
  | p :: ps, h, s => by
    obtain ⟨s₁, h₁, hout₁⟩ := sendFrame_out cut (h p mem_cons_self) s
    obtain ⟨s₂, h₂, hout₂⟩ := sendFrames_out (fun q hq => h q (mem_cons_of_mem p hq)) s₁
    refine ⟨s₂, by rw [sendFrames, h₁]; exact h₂, ?_⟩
    rw [hout₂, hout₁, flatMap_cons, append_assoc]

theorem toNat_headerLen : ∀ {h : Bytes}, h.length = 4 → (FrameReader.headerLen h).toNat = beVal h
  | [_, _, _, _], _ => toNat_shift_or_four ..

/-- `callwire_framing_read_frame` is the reader of frames of at most 16 MiB. -/
theorem readFrame_eq (s : Source) :
    (callwireFramingReadFrame cut s).map (fun r => (r.1.bytes, r.2)) =
      s.readFrame cut callwireMaxFrameSize := by
  rw [callwireFramingReadFrame, Source.readFrame]
  cases h : s.readAll cut 4 with
  | none => rfl
  | some r =>
    have hval := toNat_headerLen ((Source.readAll_eq_some cut).1 ⟨_, h⟩).1
    simp only [Option.bind_eq_bind, Option.bind_some, gt_iff_lt, hval]
    split
    · rfl
    · split
      · rename_i h0
        have hzero : beVal r.1 = 0 := by rw [← hval, h0]; rfl
        rw [hzero, Source.readAll, if_pos rfl]
        rfl
      · cases h' : r.2.readAll cut (beVal r.1) with
        | none => rfl
        | some r' =>
          have hlen := ((Source.readAll_eq_some cut).1 ⟨_, h'⟩).1
          exact congrArg (fun bs => some (bs, r'.2)) (take_of_length_le hlen.le)

theorem readFrame_iff {s : Source} {p rest : Bytes} :
    (∃ q k, callwireFramingReadFrame cut s = some (q, ⟨rest, k⟩) ∧ q.bytes = p) ↔
      p.length ≤ callwireMaxFrameSize ∧ s.rest = frame p ++ rest := by
  rw [← Source.readFrame_eq_some cut (by decide : callwireMaxFrameSize < 256 ^ 4), ← readFrame_eq]
  constructor
  · rintro ⟨q, k, h, rfl⟩
    exact ⟨k, by rw [h]; rfl⟩
  · rintro ⟨k, h⟩
    obtain ⟨⟨q, s'⟩, hread, heq⟩ := Option.map_eq_some_iff.1 h
    cases heq
    exact ⟨q, k, hread, rfl⟩

theorem readFrames_eq : ∀ {ps : List Bytes}, (∀ p ∈ ps, p.length ≤ callwireMaxFrameSize) →
    ∀ {s : Source} {rest : Bytes}, s.rest = ps.flatMap frame ++ rest →
      ∃ k, readFrames cut ps.length s = some (ps, ⟨rest, k⟩)
  | [], _, s, rest, hs => ⟨s.reads, by rw [← nil_append rest]; exact hs ▸ rfl⟩
  | p :: ps, h, s, rest, hs => by
    rw [flatMap_cons, append_assoc] at hs
    obtain ⟨q, k₁, h₁, rfl⟩ := (readFrame_iff cut).2 ⟨h p mem_cons_self, hs⟩
    obtain ⟨k₂, h₂⟩ : ∃ k, readFrames cut ps.length ⟨_, k₁⟩ = some (ps, ⟨rest, k⟩) :=
      readFrames_eq (fun q hq => h q (mem_cons_of_mem _ hq)) rfl
    refine ⟨k₂, ?_⟩
    rw [length_cons, readFrames, h₁, Option.bind_eq_bind, Option.bind_some]
    dsimp only
    rw [h₂]
    rfl

/-- **No way of cutting the bytes changes what is transferred.** -/
theorem framing_survives_fragmentation (sends recvs : Nat → Nat) :
    (∀ ps : List Bytes, (∀ p ∈ ps, p.length ≤ callwireMaxFrameSize) →
      ∃ sink, sendFrames sends ps ⟨[], 0⟩ = some sink ∧
        ∃ k, readFrames recvs ps.length ⟨sink.out, 0⟩ = some (ps, ⟨[], k⟩)) ∧
    ∀ (s : Source) (p rest : Bytes),
      (∃ q k, callwireFramingReadFrame recvs s = some (q, ⟨rest, k⟩) ∧ q.bytes = p) ↔
        p.length ≤ callwireMaxFrameSize ∧ s.rest = frame p ++ rest := by
  refine ⟨fun ps hps => ?_, fun s p rest => readFrame_iff recvs⟩
  obtain ⟨sink, hsink, hout⟩ := sendFrames_out sends hps ⟨[], 0⟩
  exact ⟨sink, hsink, readFrames_eq recvs hps (by rw [hout, append_nil, nil_append])⟩

theorem framing_survives_fragmentation_bytewise :
    ∃ sink, sendFrames (fun _ => 0) [[1, 2], []] ⟨[], 0⟩ = some sink ∧
      ∃ k, readFrames (fun _ => 0) 2 ⟨sink.out, 0⟩ = some ([[1, 2], []], ⟨[], k⟩) :=
  (framing_survives_fragmentation (fun _ => 0) fun _ => 0).1 [[1, 2], []] (by decide)

end

end Callwire.C
