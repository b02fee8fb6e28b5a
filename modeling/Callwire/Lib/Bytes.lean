import Mathlib.Data.Nat.Bitwise
import Mathlib.Tactic.Ring

/-!
# Byte strings and big-endian numbers

`beVal bs` is the number a byte string writes, most significant byte first; `beBytes k n` writes
`n` in `k` bytes. They are inverse to each other below `256 ^ k` (`beVal_beBytes`,
`beBytes_beVal`). The fixed-width forms (`beVal_two`, `beVal_four`, `shift_two`, `shift_four`) are
what the shift-and-mask code of a codec computes.
-/

namespace Lib

open List

abbrev Byte := BitVec 8
abbrev Bytes := List Byte

/-- The number written by `bs`, most significant byte first. -/
def beVal : Bytes → Nat
  | [] => 0
  | b :: bs => b.toNat * 256 ^ bs.length + beVal bs

/-- `n` in `k` bytes, most significant first (higher digits of `n` are dropped). -/
def beBytes : Nat → Nat → Bytes
  | 0, _ => []
  | k + 1, n => BitVec.ofNat 8 (n / 256 ^ k) :: beBytes k n

@[simp] theorem beBytes_length : ∀ k n, (beBytes k n).length = k
  | 0, _ => rfl
  | k + 1, n => by simp [beBytes, beBytes_length k n]

theorem beVal_lt : ∀ bs : Bytes, beVal bs < 256 ^ bs.length
  | [] => by simp [beVal]
  | b :: bs => by
    have hb := b.isLt
    have ih := beVal_lt bs
    have h : (b.toNat + 1) * 256 ^ bs.length ≤ 256 * 256 ^ bs.length :=
      Nat.mul_le_mul_right _ (by omega)
    simp only [beVal, length_cons, Nat.pow_succ]
    rw [Nat.add_mul] at h
    omega

/-- Writing and reading back: `n` modulo what `k` bytes hold. -/
theorem beVal_beBytes : ∀ k n, beVal (beBytes k n) = n % 256 ^ k
  | 0, n => by simp [beVal, beBytes, Nat.mod_one]
  | k + 1, n => by
    simp only [beBytes, beVal, beBytes_length, beVal_beBytes k n, BitVec.toNat_ofNat]
    have h : n % (256 ^ k * 256) = n % 256 ^ k + 256 ^ k * (n / 256 ^ k % 256) := Nat.mod_mul
    change n / 256 ^ k % 256 * 256 ^ k + n % 256 ^ k = n % (256 ^ k * 256)
    rw [h, Nat.mul_comm, Nat.add_comm]

theorem beVal_beBytes_of_lt {k n : Nat} (h : n < 256 ^ k) : beVal (beBytes k n) = n := by
  rw [beVal_beBytes, Nat.mod_eq_of_lt h]

/-- Only the low `k` bytes are written. -/
theorem beBytes_mod : ∀ k n, beBytes k (n % 256 ^ k) = beBytes k n
  | 0, _ => rfl
  | k + 1, n => by
    have h1 : n % 256 ^ (k + 1) / 256 ^ k = n / 256 ^ k % 256 := by
      rw [Nat.pow_succ, Nat.mod_mul_right_div_self]
    have h2 : beBytes k (n % 256 ^ (k + 1)) = beBytes k n := by
      rw [← beBytes_mod k, Nat.mod_mod_of_dvd _ (Nat.pow_dvd_pow 256 (Nat.le_succ k)),
        beBytes_mod k]
    rw [beBytes, beBytes, h1, h2]
    congr 1
    apply BitVec.eq_of_toNat_eq
    simp

theorem beBytes_beVal : ∀ bs : Bytes, beBytes bs.length (beVal bs) = bs
  | [] => rfl
  | b :: bs => by
    have hlt := beVal_lt bs
    have hb : (b.toNat * 256 ^ bs.length + beVal bs) / 256 ^ bs.length = b.toNat := by
      rw [Nat.mul_comm, Nat.mul_add_div (Nat.pow_pos (by decide)), Nat.div_eq_of_lt hlt,
        Nat.add_zero]
    have hbs : beBytes bs.length (b.toNat * 256 ^ bs.length + beVal bs) = bs := by
      rw [← beBytes_mod, Nat.mul_add_mod', Nat.mod_eq_of_lt hlt, beBytes_beVal bs]
    rw [length_cons, beVal, beBytes, hb, hbs, BitVec.ofNat_toNat, BitVec.setWidth_eq]

theorem eq_beBytes_iff {k n : Nat} (h : n < 256 ^ k) {bs : Bytes} :
    bs = beBytes k n ↔ bs.length = k ∧ beVal bs = n := by
  constructor
  · rintro rfl
    exact ⟨beBytes_length k n, beVal_beBytes_of_lt h⟩
  · rintro ⟨rfl, rfl⟩
    exact (beBytes_beVal bs).symm

/-! ## Two and four bytes -/

theorem beVal_one (a : Byte) : beVal [a] = a.toNat := by simp [beVal]

theorem beVal_two (a b : Byte) : beVal [a, b] = a.toNat * 256 + b.toNat := by simp [beVal]

theorem beVal_four (a b c d : Byte) :
    beVal [a, b, c, d] = a.toNat * 2 ^ 24 + b.toNat * 2 ^ 16 + c.toNat * 2 ^ 8 + d.toNat := by
  simp [beVal]; ring

theorem beVal_append : ∀ xs ys : Bytes, beVal (xs ++ ys) = beVal xs * 256 ^ ys.length + beVal ys
  | [], ys => by simp [beVal]
  | x :: xs, ys => by
    simp only [cons_append, beVal, beVal_append xs ys, length_append, Nat.pow_add]
    ring

theorem toNat_shift_or_two (a b : Byte) :
    ((a.setWidth 16 <<< 8) ||| b.setWidth 16).toNat = beVal [a, b] := by
  have ha := a.isLt
  have hb := b.isLt
  rw [beVal_two, BitVec.toNat_or, BitVec.toNat_shiftLeft, BitVec.toNat_setWidth,
    BitVec.toNat_setWidth, Nat.mod_eq_of_lt (by omega), Nat.mod_eq_of_lt (by omega),
    Nat.shiftLeft_eq, Nat.mod_eq_of_lt (by omega), ← Nat.shiftLeft_eq,
    ← Nat.shiftLeft_add_eq_or_of_lt (by omega), Nat.shiftLeft_eq]

theorem toNat_shift_or_four (a b c d : Byte) :
    ((a.setWidth 32 <<< 24) ||| (b.setWidth 32 <<< 16) ||| (c.setWidth 32 <<< 8) |||
      d.setWidth 32).toNat = beVal [a, b, c, d] := by
  have ha := a.isLt
  have hb := b.isLt
  have hc := c.isLt
  have hd := d.isLt
  have hs : ∀ (x : Byte) (k : Nat), k ≤ 24 →
      ((x.setWidth 32 : BitVec 32) <<< k).toNat = x.toNat <<< k := by
    intro x k hk
    have hx := x.isLt
    have hp : 2 ^ k ≤ 2 ^ 24 := Nat.pow_le_pow_right (by decide) hk
    have hm : x.toNat * 2 ^ k < 2 ^ 32 := by
      calc x.toNat * 2 ^ k ≤ x.toNat * 2 ^ 24 := Nat.mul_le_mul_left _ hp
        _ < 2 ^ 32 := by omega
    have hx' : x.toNat % 2 ^ 32 = x.toNat := Nat.mod_eq_of_lt (by omega)
    rw [BitVec.toNat_shiftLeft, BitVec.toNat_setWidth, hx', Nat.shiftLeft_eq, Nat.mod_eq_of_lt hm]
  have hd' : (d.setWidth 32 : BitVec 32).toNat = d.toNat := by
    rw [BitVec.toNat_setWidth, Nat.mod_eq_of_lt (by omega)]
  -- the summands occupy disjoint bits, so `|||` is `+`, one byte at a time from the right
  have e1 : a.toNat <<< 24 ||| b.toNat <<< 16 = (a.toNat * 256 + b.toNat) <<< 16 := by
    rw [show a.toNat <<< 24 = (a.toNat <<< 8) <<< 16 by rw [← Nat.shiftLeft_add],
      ← Nat.shiftLeft_or_distrib, ← Nat.shiftLeft_add_eq_or_of_lt (by omega),
      Nat.shiftLeft_eq a.toNat]
  have e2 : (a.toNat * 256 + b.toNat) <<< 16 ||| c.toNat <<< 8 =
      ((a.toNat * 256 + b.toNat) * 256 + c.toNat) <<< 8 := by
    rw [show (a.toNat * 256 + b.toNat) <<< 16 = ((a.toNat * 256 + b.toNat) <<< 8) <<< 8 by
        rw [← Nat.shiftLeft_add],
      ← Nat.shiftLeft_or_distrib, ← Nat.shiftLeft_add_eq_or_of_lt (by omega),
      Nat.shiftLeft_eq (a.toNat * 256 + b.toNat)]
  rw [beVal_four, BitVec.toNat_or, BitVec.toNat_or, BitVec.toNat_or, hs a 24 (by omega),
    hs b 16 (by omega), hs c 8 (by omega), hd', e1, e2,
    ← Nat.shiftLeft_add_eq_or_of_lt (by omega), Nat.shiftLeft_eq]
  ring

theorem shift_two (v : BitVec 16) :
    [(v >>> 8).setWidth 8, v.setWidth 8] = beBytes 2 v.toNat := by
  simp only [beBytes, List.cons.injEq, and_true]
  constructor <;> apply BitVec.eq_of_toNat_eq <;>
    simp [BitVec.toNat_ushiftRight, Nat.shiftRight_eq_div_pow]

theorem shift_four (v : BitVec 32) :
    [(v >>> 24).setWidth 8, (v >>> 16).setWidth 8, (v >>> 8).setWidth 8, v.setWidth 8] =
      beBytes 4 v.toNat := by
  simp only [beBytes, List.cons.injEq, and_true]
  refine ⟨?_, ?_, ?_, ?_⟩ <;> apply BitVec.eq_of_toNat_eq <;>
    simp [BitVec.toNat_ushiftRight, Nat.shiftRight_eq_div_pow]

theorem shift_mask_four (n : Nat) :
    [BitVec.ofNat 8 ((n >>> 24) &&& 0xFF), BitVec.ofNat 8 ((n >>> 16) &&& 0xFF),
      BitVec.ofNat 8 ((n >>> 8) &&& 0xFF), BitVec.ofNat 8 (n &&& 0xFF)] = beBytes 4 n := by
  have h : ∀ k, BitVec.ofNat 8 ((n >>> k) &&& 0xFF) = BitVec.ofNat 8 (n / 2 ^ k) := by
    intro k
    apply BitVec.eq_of_toNat_eq
    rw [BitVec.toNat_ofNat, BitVec.toNat_ofNat, Nat.shiftRight_eq_div_pow,
      show (0xFF : Nat) = 2 ^ 8 - 1 from rfl, Nat.and_two_pow_sub_one_eq_mod, Nat.mod_mod]
  have h0 := h 0
  rw [Nat.shiftRight_zero] at h0
  rw [h 24, h 16, h 8, h0]
  rfl

/-- Eight bytes as two halves of four. -/
theorem beBytes_eight (n : Nat) : beBytes 8 n = beBytes 4 (n / 2 ^ 32) ++ beBytes 4 n := by
  simp [beBytes, Nat.div_div_eq_div_mul]

end Lib
