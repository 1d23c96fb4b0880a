/-
`WordSums.lean` -- the sum of the 16-bit words of a byte string.

An internet checksum is the complement of such a sum, with the carries folded in. The sum
itself is a natural number here: it adds up over concatenations behind an even offset, and
replacing a range at an even offset changes it by what the range has summed up to before and
after. An odd last byte is the high byte of a word.
-/
import Xpf.ByteBuffer

set_option autoImplicit false

namespace Xpf.WordSums

open Xpf.ByteBuffer

/-- The sum of the big-endian words of a byte string. -/
def wordSum : Bytes → ℕ
  | hi :: lo :: rest => (fromBe hi lo).toNat + wordSum rest
  | [last] => last.toNat * 256
  | [] => 0

@[simp] theorem wordSum_nil : wordSum [] = 0 := rfl

theorem wordSum_cons_cons (hi lo : UInt8) (rest : Bytes) :
    wordSum (hi :: lo :: rest) = (fromBe hi lo).toNat + wordSum rest := rfl

/-- Sums add up behind an even number of bytes. -/
theorem wordSum_append {a b : Bytes} (h : a.length % 2 = 0) :
    wordSum (a ++ b) = wordSum a + wordSum b := by
  induction a using wordSum.induct with
  | case1 hi lo rest ih =>
    have hrest : rest.length % 2 = 0 := by
      simp only [List.length_cons] at h
      omega
    rw [List.cons_append, List.cons_append, wordSum_cons_cons, wordSum_cons_cons, ih hrest]
    omega
  | case2 last => simp at h
  | case3 => rw [List.nil_append, wordSum_nil, Nat.zero_add]

theorem wordSum_ne_zero {b : Bytes} (h : byteAt b 0 ≠ 0) : wordSum b ≠ 0 := by
  have hpos : 0 < (byteAt b 0).toNat := by
    apply Nat.pos_of_ne_zero
    exact fun h0 => h (UInt8.toNat_inj.mp h0)
  match b with
  | [] => exact absurd rfl h
  | [last] =>
    change 0 < last.toNat at hpos
    rw [wordSum]
    omega
  | hi :: lo :: rest =>
    change 0 < hi.toNat at hpos
    rw [wordSum_cons_cons, fromBe_toNat]
    omega

/-- No word is over `0xFFFF`. -/
theorem wordSum_le (b : Bytes) : 2 * wordSum b ≤ 65535 * (b.length + 1) := by
  induction b using wordSum.induct with
  | case1 hi lo rest ih =>
    have hw := UInt16.toNat_lt (fromBe hi lo)
    simp only [wordSum_cons_cons, List.length_cons]
    omega
  | case2 last =>
    have hlast := UInt8.toNat_lt last
    simp only [wordSum, List.length_singleton]
    omega
  | case3 => simp

theorem wordSum_toBe (v : UInt16) : wordSum (toBe v) = v.toNat := by
  have h := fromBe_toBe v
  rw [toBe] at h ⊢
  rw [wordSum_cons_cons, wordSum_nil, Nat.add_zero]
  exact congrArg UInt16.toNat h

theorem sub_eq_pair {b : Bytes} {i : ℕ} (h : i + 2 ≤ b.length) :
    sub b i 2 = [byteAt b i, byteAt b (i + 1)] := by
  apply ext
  · rw [length_sub h]
    rfl
  · intro j hj
    rw [length_sub h] at hj
    rw [byteAt_sub b i hj]
    rcases (show j = 0 ∨ j = 1 by omega) with rfl | rfl <;> rfl

theorem wordSum_sub_two {b : Bytes} {i : ℕ} (h : i + 2 ≤ b.length) :
    wordSum (sub b i 2) = (get16 b i).toNat := by
  rw [sub_eq_pair h, wordSum_cons_cons, wordSum_nil, Nat.add_zero]
  rfl

theorem sub_append_sub (b : Bytes) (i n m : ℕ) :
    sub b i (n + m) = sub b i n ++ sub b (i + n) m := by
  rw [sub, sub, sub, List.take_add, List.drop_drop]

/-- A buffer around a range. -/
theorem eq_around {b : Bytes} (i n : ℕ) : b = b.take i ++ (sub b i n ++ b.drop (i + n)) := by
  rw [sub, ← List.drop_drop, List.take_append_drop, List.take_append_drop]

theorem writeAt_eq_around {b xs : Bytes} {i : ℕ} (h : i + xs.length ≤ b.length) :
    writeAt b i xs = b.take i ++ (xs ++ b.drop (i + xs.length)) := by
  have hxs : xs.take (b.length - i) = xs := List.take_of_length_le (by omega)
  rw [writeAt, hxs, List.append_assoc]

/-- **A write at an even offset** changes the sum by what it replaces. -/
theorem wordSum_writeAt {b : Bytes} (xs : Bytes) {i : ℕ} (hi : i % 2 = 0) (hxs : xs.length % 2 = 0)
    (h : i + xs.length ≤ b.length) :
    wordSum (writeAt b i xs) + wordSum (sub b i xs.length) = wordSum b + wordSum xs := by
  have htake : (b.take i).length % 2 = 0 := by
    rw [List.length_take, Nat.min_eq_left (by omega)]
    exact hi
  have hsub : (sub b i xs.length).length % 2 = 0 := by rwa [length_sub h]
  have hb : wordSum b = wordSum (b.take i) + (wordSum (sub b i xs.length)
      + wordSum (b.drop (i + xs.length))) := by
    conv_lhs => rw [eq_around (b := b) i xs.length]
    rw [wordSum_append htake, wordSum_append hsub]
  rw [writeAt_eq_around h, wordSum_append htake, wordSum_append hxs, hb]
  omega

theorem wordSum_put16 {b : Bytes} {i : ℕ} (v : UInt16) (hi : i % 2 = 0) (h : i + 2 ≤ b.length) :
    wordSum (put16 b i v) + (get16 b i).toNat = wordSum b + v.toNat := by
  have hlen : (toBe v).length % 2 = 0 := by rw [length_toBe]
  have hw := wordSum_writeAt _ hi hlen h
  rw [length_toBe, wordSum_toBe, wordSum_sub_two h] at hw
  exact hw

end Xpf.WordSums
