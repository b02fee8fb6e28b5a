import Callwire.C.Session
import Callwire.C.Proof.Replies

/-!
# Frames in a byte stream

A reader that gets the bytes of a frame in pieces of any size has taken a proper beginning of the
frame until the last piece, and then has its payload (`feed_frame`). `Pipe.At` is one direction of a
connection in these terms: the bytes that were received are those of `u` whole frames and of the
part of the next one that the reader has taken. Every `recv` keeps that (`Pipe.At.recv`).
-/

namespace Callwire.C

open Lib List

/-! ## The header -/

theorem frameHeader_eq (n : Nat) : frameHeader n = beBytes 4 n := shift_mask_four n

theorem frameHeader_length (n : Nat) : (frameHeader n).length = 4 := rfl

namespace FrameReader

theorem headerLen_frameHeader {n : Nat} (h : n < 2 ^ 32) :
    headerLen (frameHeader n) = BitVec.ofNat 32 n := by
  apply BitVec.eq_of_toNat_eq
  have hv : (headerLen (frameHeader n)).toNat = beVal (frameHeader n) := toNat_shift_or_four ..
  rw [hv, frameHeader_eq, beVal_beBytes_of_lt h, BitVec.toNat_ofNat, Nat.mod_eq_of_lt h]

/-! ## The reader -/

/-- What the reader has taken of the current frame. -/
def taken : FrameReader → Bytes
  | .header got => got
  | .body len got => frameHeader len.toNat ++ got

/-- The current `recv_all` is not through. -/
def Inside : FrameReader → Prop
  | .header got => got.length < 4
  | .body len got => got.length < len.toNat

theorem Inside.want_pos {r : FrameReader} (h : r.Inside) : 0 < r.want := by
  cases r with
  | header | body => exact Nat.sub_pos_of_lt h

section
variable {r : FrameReader} {p bs tail got : Bytes}

section
variable (hp : p.length ≤ callwireMaxFrameSize)
include hp

theorem feed_header (hw : bs.length ≤ 4 - got.length) (hin : got.length < 4)
    (h : got ++ bs <+: frameHeader p.length ++ p ++ tail) :
    (∃ r', feed bs (.header got) = .more r' ∧ r'.Inside ∧ r'.taken = got ++ bs) ∨
      ∃ q, feed bs (.header got) = .done q ∧ q.bytes = p ∧
        got ++ bs = frameHeader p.length ++ p := by
  have hmax : callwireMaxFrameSize < 2 ^ 32 := by decide
  rw [feed]
  by_cases hlt : (got ++ bs).length < 4
  · rw [if_pos hlt]
    exact .inl ⟨_, rfl, hlt, rfl⟩
  · -- the header is complete
    have heq : got ++ bs = frameHeader p.length := by
      have hlen : (got ++ bs).length = (frameHeader p.length).length := by
        rw [length_append] at hlt ⊢
        rw [frameHeader_length]
        omega
      rw [append_assoc] at h
      exact (prefix_of_prefix_length_le h (prefix_append _ _) hlen.le).eq_of_length hlen
    have hnat : (BitVec.ofNat 32 p.length).toNat = p.length := by
      rw [BitVec.toNat_ofNat, Nat.mod_eq_of_lt (by omega)]
    rw [if_neg hlt]
    simp only [heq, headerLen_frameHeader (show p.length < 2 ^ 32 by omega), hnat,
      if_neg (Nat.not_lt.2 hp)]
    by_cases h0 : p = []
    · subst h0
      exact .inr ⟨.null, rfl, rfl, rfl⟩
    · have hpos := length_pos_of_ne_nil h0
      have hne : BitVec.ofNat 32 p.length ≠ 0 := by
        intro hz
        rw [hz] at hnat
        exact absurd hnat (by simp; omega)
      refine .inl ⟨_, if_neg hne, ?_, ?_⟩
      · rw [Inside, hnat]
        exact hpos
      · rw [taken, hnat, append_nil]

theorem body_len {len : BitVec 32}
    (h : frameHeader len.toNat ++ got <+: frameHeader p.length ++ tail) : len.toNat = p.length := by
  have hmax : callwireMaxFrameSize < 2 ^ 32 := by decide
  have hhead : frameHeader len.toNat = frameHeader p.length :=
    (prefix_of_prefix_length_le ((prefix_append _ _).trans h) (prefix_append _ _)
      (Nat.le_refl _)).eq_of_length rfl
  have hh := congrArg headerLen hhead
  rw [headerLen_frameHeader len.isLt, headerLen_frameHeader (by omega)] at hh
  have := congrArg BitVec.toNat hh
  rw [BitVec.toNat_ofNat, BitVec.toNat_ofNat, Nat.mod_eq_of_lt len.isLt,
    Nat.mod_eq_of_lt (by omega)] at this
  exact this

theorem feed_body {len : BitVec 32} (hw : bs.length ≤ len.toNat - got.length)
    (hin : got.length < len.toNat)
    (h : frameHeader len.toNat ++ got ++ bs <+: frameHeader p.length ++ p ++ tail) :
    (∃ r', feed bs (.body len got) = .more r' ∧ r'.Inside ∧
      r'.taken = frameHeader len.toNat ++ got ++ bs) ∨
      ∃ q, feed bs (.body len got) = .done q ∧ q.bytes = p ∧
        frameHeader len.toNat ++ got ++ bs = frameHeader p.length ++ p := by
  rw [append_assoc, append_assoc] at h
  have hlen : len.toNat = p.length := body_len hp h
  rw [hlen] at h
  have h := (prefix_append_right_inj _).1 h
  rw [feed]
  by_cases hlt : (got ++ bs).length < len.toNat
  · rw [if_pos hlt]
    exact .inl ⟨_, rfl, hlt, by rw [taken, append_assoc]⟩
  · have hl : (got ++ bs).length = p.length := by
      rw [length_append] at hlt ⊢
      omega
    have heq : got ++ bs = p :=
      (prefix_of_prefix_length_le h (prefix_append _ _) hl.le).eq_of_length hl
    rw [if_neg hlt]
    refine .inr ⟨_, rfl, ?_, ?_⟩
    · rw [Payload.mem]
      simp only [hlen, heq, take_length]
    · rw [append_assoc, heq, hlen]

theorem Inside.taken_lt (hin : r.Inside) (h : r.taken <+: frameHeader p.length ++ p ++ tail) :
    r.taken.length < (frameHeader p.length ++ p).length := by
  rw [length_append, frameHeader_length]
  cases r with
  | header got => exact Nat.lt_add_right _ hin
  | body len got =>
    rw [append_assoc] at h
    rw [taken, length_append, frameHeader_length, ← body_len hp h]
    exact Nat.add_lt_add_left hin 4

/-- **A `recv` brings the reader on within the frame, or to its end.** -/
theorem feed_frame (hin : r.Inside) (hw : bs.length ≤ r.want)
    (h : r.taken ++ bs <+: frameHeader p.length ++ p ++ tail) :
    (∃ r', r.feed bs = .more r' ∧ r'.Inside ∧ r'.taken = r.taken ++ bs) ∨
      ∃ q, r.feed bs = .done q ∧ q.bytes = p ∧ r.taken ++ bs = frameHeader p.length ++ p := by
  cases r with
  | header got => exact feed_header hp hw hin h
  | body len got => exact feed_body hp hw hin h

end

end

end FrameReader

/-! ## One direction -/

theorem Outgoing.wire_eq {m : Outgoing} {p : Bytes} (hp : m.payload = some p)
    (hl : p.length ≤ callwireMaxFrameSize) : m.wire = frameHeader p.length ++ p := by
  simp only [Outgoing.wire, hp, Option.bind_some, callwireFramingWriteFrame,
    if_neg (Nat.not_lt.2 hl), Option.getD_some]

theorem wireBytes_append (xs ys : List Outgoing) :
    wireBytes (xs ++ ys) = wireBytes xs ++ wireBytes ys := flatMap_append

/-- The frames `out` are sent and `u` of them were received, with the reader somewhere in the
next. -/
structure Pipe.At (out : List Outgoing) (p : Pipe) (u : Nat) : Prop where
  count : u ≤ out.length
  inside : p.reader.Inside
  got : p.got = (wireBytes (out.take u)).length + p.reader.taken.length
  taken : p.reader.taken <+: wireBytes (out.drop u)
  sent : p.sent ≤ (wireBytes out).length

namespace Pipe

section
variable {out new : List Outgoing} {p : Pipe} {u n : Nat}

theorem At.start : At [] ⟨0, 0, .start⟩ 0 :=
  ⟨Nat.le_refl _, Nat.succ_pos _, rfl, nil_prefix, Nat.le_refl _⟩

theorem At.send (h : At out p u) (hle : p.sent + n ≤ (wireBytes out).length) :
    At out { p with sent := p.sent + n } u :=
  { h with sent := hle }

theorem At.append (h : At out p u) (new : List Outgoing) : At (out ++ new) p u := by
  refine ⟨?_, h.inside, ?_, ?_, ?_⟩
  · rw [length_append]
    exact Nat.le_add_right_of_le h.count
  · rw [take_append_of_le_length h.count]
    exact h.got
  · rw [drop_append_of_le_length h.count, wireBytes_append]
    exact h.taken.trans (prefix_append _ _)
  · rw [wireBytes_append, length_append]
    exact Nat.le_add_right_of_le h.sent

theorem wireBytes_split (out : List Outgoing) (u : Nat) :
    wireBytes out = wireBytes (out.take u) ++ wireBytes (out.drop u) := by
  rw [← wireBytes_append, take_append_drop]

theorem At.slice (h : At out p u) (hle : p.got + n ≤ p.sent) :
    (Link.slice (wireBytes out) p n).length = n ∧
      p.reader.taken ++ Link.slice (wireBytes out) p n <+: wireBytes (out.drop u) := by
  have hsent := h.sent
  constructor
  · rw [Link.slice, length_take, length_drop]
    omega
  · obtain ⟨rest, hrest⟩ := h.taken
    have hdrop : (wireBytes out).drop p.got = rest := by
      rw [wireBytes_split out u, h.got, ← hrest, ← append_assoc, ← length_append, drop_left]
    rw [Link.slice, hdrop, ← hrest, prefix_append_right_inj]
    exact take_prefix _ _

theorem At.got_lt (h : At out p u) (hfits : ∀ m ∈ out, m.Frameable) {m : Outgoing}
    (hm : out[u]? = some m) : p.got < (wireBytes out).length := by
  obtain ⟨hu, rfl⟩ := List.getElem?_eq_some_iff.1 hm
  obtain ⟨bs, hp, hl⟩ := hfits _ (mem_of_getElem? hm)
  have hdrop : wireBytes (out.drop u) = frameHeader bs.length ++ bs ++
      wireBytes (out.drop (u + 1)) := by
    rw [drop_eq_getElem_cons hu, ← Outgoing.wire_eq hp hl]
    rfl
  have htaken := h.taken
  rw [hdrop] at htaken
  have hlt := h.inside.taken_lt hl htaken
  rw [wireBytes_split out u, hdrop, h.got, length_append, length_append]
  omega

/-- **A `recv`** of some of the bytes that were sent is within the next frame, or ends it. -/
theorem At.recv (h : At out p u) (hfits : ∀ m ∈ out, m.Frameable) (hn : 0 < n)
    (hw : n ≤ p.reader.want) (hle : p.got + n ≤ p.sent) :
    ∃ m, out[u]? = some m ∧
      ((∃ r, p.reader.feed (Link.slice (wireBytes out) p n) = .more r ∧
        At out { p with got := p.got + n, reader := r } u) ∨
      ∃ q, p.reader.feed (Link.slice (wireBytes out) p n) = .done q ∧ m.payload = some q.bytes ∧
        At out { p with got := p.got + n, reader := .start } (u + 1)) := by
  obtain ⟨hlen, hpre⟩ := h.slice hle
  have hu : u < out.length := by
    by_contra hu
    rw [drop_eq_nil_of_le (Nat.le_of_not_lt hu)] at hpre
    have hnil := (append_eq_nil_iff.1 (prefix_nil.1 hpre)).2
    rw [hnil] at hlen
    exact absurd hlen hn.ne
  have hm := getElem?_eq_getElem hu
  have hdrop : wireBytes (out.drop u) = out[u].wire ++ wireBytes (out.drop (u + 1)) := by
    rw [drop_eq_getElem_cons hu]
    rfl
  have htake : wireBytes (out.take (u + 1)) = wireBytes (out.take u) ++ out[u].wire := by
    rw [take_add_one, hm, wireBytes_append]
    exact congrArg _ (append_nil _)
  obtain ⟨bs, hp, hl⟩ := hfits _ (mem_of_getElem? hm)
  rw [hdrop, Outgoing.wire_eq hp hl] at hpre
  refine ⟨out[u], hm, ?_⟩
  rcases FrameReader.feed_frame hl h.inside (hlen.le.trans hw) hpre with
    ⟨r, hr, hin, htaken⟩ | ⟨q, hq, hbytes, hall⟩
  · refine .inl ⟨r, hr, h.count, hin, ?_, ?_, h.sent⟩
    · rw [htaken, length_append, hlen, h.got, Nat.add_assoc]
    · rw [htaken, hdrop, Outgoing.wire_eq hp hl]
      exact hpre
  · refine .inr ⟨q, hq, by rw [hp, hbytes], hu, Nat.succ_pos _, ?_, nil_prefix, h.sent⟩
    have hlen' := congrArg List.length hall
    rw [length_append, hlen] at hlen'
    rw [htake, length_append, Outgoing.wire_eq hp hl, ← hlen', h.got, Nat.add_assoc]
    rfl

end

end Pipe

end Callwire.C
