import Callwire.Lib.Bytes

/-!
# Streams that move their bytes in pieces

A call on a stream moves as many bytes as the stream likes: the `k`-th call moves `cut k + 1` of
them, or all there are when these are fewer. `Source.readAll` and `Sink.writeAll` are the loops that
go on until a whole buffer was moved. What they move does not depend on `cut` (`readAll_eq_some`,
`writeAll_out`). Neither does what a reader of frames that is made of such loops returns
(`readFrame_eq_some`).
-/

namespace Lib

open List

/-- The bytes that are still to be read, and the number of reads so far. -/
structure Source where
  rest : Bytes
  reads : Nat

/-- The bytes that were written, and the number of writes so far. -/
structure Sink where
  out : Bytes
  writes : Nat

namespace Source

variable (cut : Nat → Nat)

/-- One read into a buffer of `len` bytes. -/
def read (len : Nat) (s : Source) : Bytes × Source :=
  (s.rest.take (min (cut s.reads + 1) len), ⟨s.rest.drop (min (cut s.reads + 1) len), s.reads + 1⟩)

/-- Reads until `len` bytes are there; `none` if the stream ends before. -/
def readAll (len : Nat) (s : Source) : Option (Bytes × Source) :=
  if len = 0 then some ([], s)
  else if s.rest = [] then none
  else
    (readAll (len - (s.read cut len).1.length) (s.read cut len).2).map fun r =>
      ((s.read cut len).1 ++ r.1, r.2)
termination_by len
decreasing_by
  have := List.length_pos_iff.2 ‹s.rest ≠ []›
  simp only [read, List.length_take]
  omega

theorem read_append (len : Nat) (s : Source) :
    (s.read cut len).1 ++ (s.read cut len).2.rest = s.rest :=
  take_append_drop ..

theorem read_length_le (len : Nat) (s : Source) : (s.read cut len).1.length ≤ len := by
  simp only [read, length_take]
  omega

/-- **The loop takes the next `len` bytes**, however they are cut, and fails if there are fewer. -/
theorem readAll_eq_some {len : Nat} {s : Source} {bs rest : Bytes} :
    (∃ k, readAll cut len s = some (bs, ⟨rest, k⟩)) ↔ bs.length = len ∧ s.rest = bs ++ rest := by
  induction len, s using readAll.induct cut generalizing bs with
  | case1 s =>
    rw [readAll, if_pos rfl]
    constructor
    · rintro ⟨k, h⟩
      cases h
      exact ⟨rfl, rfl⟩
    · rintro ⟨hbs, hs⟩
      rw [length_eq_zero_iff.1 hbs] at hs ⊢
      exact ⟨s.reads, by rw [← nil_append rest, ← hs]⟩
  | case2 len s hlen hs =>
    rw [readAll, if_neg hlen, if_pos hs]
    constructor
    · rintro ⟨k, h⟩
      cases h
    · rintro ⟨hbs, happ⟩
      rw [hs] at happ
      rw [(append_eq_nil_iff.1 happ.symm).1] at hbs
      exact absurd hbs.symm hlen
  | case3 len s hlen hs ih =>
    have hle := read_length_le cut len s
    have hsplit := read_append cut len s
    rw [readAll, if_neg hlen, if_neg hs]
    generalize s.read cut len = r at ih hle hsplit ⊢
    constructor
    · rintro ⟨k, h⟩
      obtain ⟨⟨more, s'⟩, hmore, heq⟩ := Option.map_eq_some_iff.1 h
      cases heq
      obtain ⟨hlen', hrest⟩ := ih.1 ⟨k, hmore⟩
      refine ⟨?_, by rw [append_assoc, ← hrest, hsplit]⟩
      rw [length_append, hlen', Nat.add_sub_cancel' hle]
    · rintro ⟨hbs, happ⟩
      -- the first piece is the beginning of `bs`
      obtain ⟨more, rfl⟩ : r.1 <+: bs :=
        prefix_of_prefix_length_le ⟨_, hsplit⟩ ⟨_, happ.symm⟩ (hle.trans hbs.ge)
      rw [length_append] at hbs
      rw [← hsplit, append_assoc] at happ
      obtain ⟨k, hk⟩ := ih.2 ⟨(by omega : more.length = _), append_cancel_left happ⟩
      exact ⟨k, by rw [hk]; rfl⟩

/-- A read that fills the buffer is the whole loop. -/
theorem readAll_of_read {len : Nat} {s : Source} (hlen : len ≠ 0)
    (h : (s.read cut len).1.length = len) : s.readAll cut len = some (s.read cut len) := by
  have hs : s.rest ≠ [] := by
    intro hs
    rw [read, hs, List.take_nil] at h
    exact hlen h.symm
  rw [readAll, if_neg hlen, if_neg hs, h, Nat.sub_self, readAll, if_pos rfl, Option.map_some,
    append_nil]

/-! ## Frames -/

/-- The length in four bytes and as many bytes, `limit` at most. -/
def readFrame (limit : Nat) (s : Source) : Option (Bytes × Source) :=
  (s.readAll cut 4).bind fun r => if limit < beVal r.1 then none else r.2.readAll cut (beVal r.1)

end Source

def frame (payload : Bytes) : Bytes := beBytes 4 payload.length ++ payload

namespace Source

section
variable (cut : Nat → Nat) {limit : Nat} (hlimit : limit < 256 ^ 4) {s : Source} {p rest : Bytes}
include hlimit

/-- **Exactly a complete frame within the limit is read.** -/
theorem readFrame_eq_some : (∃ k, s.readFrame cut limit = some (p, ⟨rest, k⟩)) ↔
    p.length ≤ limit ∧ s.rest = frame p ++ rest := by
  constructor
  · rintro ⟨k, h⟩
    obtain ⟨⟨header, s₁⟩, h₁, h⟩ := Option.bind_eq_some_iff.1 h
    obtain ⟨hheader, hs⟩ := (readAll_eq_some cut).1 ⟨_, h₁⟩
    split at h
    · cases h
    · rename_i hle
      obtain ⟨hp, hs₁⟩ := (readAll_eq_some cut).1 ⟨_, h⟩
      have hhead := (eq_beBytes_iff (by omega)).2 ⟨hheader, hp.symm⟩
      refine ⟨by omega, ?_⟩
      rw [hs, hs₁, frame, ← hhead, append_assoc]
  · rintro ⟨hp, hs⟩
    rw [frame, append_assoc] at hs
    obtain ⟨k₁, h₁⟩ := (readAll_eq_some cut).2 ⟨beBytes_length 4 p.length, hs⟩
    have hval : beVal (beBytes 4 p.length) = p.length := beVal_beBytes_of_lt (by omega)
    rw [readFrame, h₁, Option.bind_some, hval, if_neg (Nat.not_lt.2 hp)]
    exact (readAll_eq_some cut).2 ⟨rfl, rfl⟩

/-- A frame that is cut off is not read. -/
theorem readFrame_take {n : Nat} (hp : p.length ≤ limit) (hn : n < (frame p).length)
    (hs : s.rest = (frame p).take n) : s.readFrame cut limit = none := by
  rw [Option.eq_none_iff_forall_ne_some]
  rintro ⟨q, s'⟩ h
  obtain ⟨hq, hs'⟩ := (readFrame_eq_some cut hlimit).1 ⟨_, h⟩
  have hpre : frame q <+: frame p :=
    List.IsPrefix.trans ⟨s'.rest, hs'.symm.trans hs⟩ ( take_prefix n _)
  have hhead : beBytes 4 q.length = beBytes 4 p.length :=
    (prefix_of_prefix_length_le ((prefix_append _ _).trans hpre) (prefix_append _ _)
      (by simp)).eq_of_length (by simp)
  have hlen := congrArg beVal hhead
  rw [beVal_beBytes_of_lt (by omega), beVal_beBytes_of_lt (by omega)] at hlen
  have hle := congrArg List.length (hs.symm.trans hs')
  simp only [frame, length_append, length_take, beBytes_length] at hle hn
  omega

end

end Source

def Sink.writeAll (cut : Nat → Nat) (buf : Bytes) (s : Sink) : Sink :=
  if buf = [] then s
  else
    writeAll cut (buf.drop (cut s.writes + 1)) ⟨s.out ++ buf.take (cut s.writes + 1), s.writes + 1⟩
termination_by buf.length
decreasing_by
  have := List.length_pos_iff.2 ‹buf ≠ []›
  rw [List.length_drop]
  omega

theorem Sink.writeAll_out (cut : Nat → Nat) (buf : Bytes) (s : Sink) :
    (writeAll cut buf s).out = s.out ++ buf := by
  induction buf, s using writeAll.induct cut with
  | case1 s => rw [writeAll, if_pos rfl, append_nil]
  | case2 buf s hbuf ih =>
    rw [writeAll, if_neg hbuf, ih, append_assoc, take_append_drop]

end Lib
