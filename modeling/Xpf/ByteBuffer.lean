/-
`ByteBuffer.lean` -- byte buffers of a fixed length that are read and written by offset.

A packet is a buffer whose fields stand at offsets. A write never changes the length, so
a write is clipped to the buffer here; where a program checks its bounds first the clip
does nothing. Two buffers are compared byte by byte (`ext`), and what a write does to a
later read, or to another write, depends only on whether the two ranges meet
(`get16_writeAt_of_disjoint`, `writeAt_comm`). The last section moves all this into the
tail of a buffer, for a program that is handed a packet behind a header.
-/
import Mathlib.Data.List.GetD
import Mathlib.Data.List.TakeDrop
import Mathlib.Tactic.Common

set_option autoImplicit false

namespace Xpf.ByteBuffer

abbrev Bytes := List UInt8

/-- The byte at an offset, zero behind the end. -/
def byteAt (b : Bytes) (i : ℕ) : UInt8 := b.getD i 0

/-- `u16::from_be_bytes`. -/
def fromBe (hi lo : UInt8) : UInt16 := UInt16.ofNat (hi.toNat * 256 + lo.toNat)

/-- `u16::to_be_bytes`. -/
def toBe (v : UInt16) : Bytes := [UInt8.ofNat (v.toNat / 256), UInt8.ofNat v.toNat]

/-- The 16-bit word at an offset. -/
def get16 (b : Bytes) (i : ℕ) : UInt16 := fromBe (byteAt b i) (byteAt b (i + 1))

/-- `b[i..i + xs.len()].copy_from_slice(xs)`, clipped to the buffer. -/
def writeAt (b : Bytes) (i : ℕ) (xs : Bytes) : Bytes :=
  b.take i ++ xs.take (b.length - i) ++ b.drop (i + xs.length)

def put16 (b : Bytes) (i : ℕ) (v : UInt16) : Bytes := writeAt b i (toBe v)

/-- The `n` bytes at an offset. -/
def sub (b : Bytes) (i n : ℕ) : Bytes := (b.drop i).take n

/-- `b.get(i..i + n)`. -/
def getRange (b : Bytes) (i n : ℕ) : Option Bytes :=
  if i + n ≤ b.length then some (sub b i n) else none

/-! ## Bytes -/

theorem ext {b c : Bytes} (hlen : b.length = c.length)
    (h : ∀ j < b.length, byteAt b j = byteAt c j) : b = c := by
  apply List.ext_getElem hlen
  intro j hb hc
  have hj := h j hb
  simpa only [byteAt, List.getD_eq_getElem _ _ hb, List.getD_eq_getElem _ _ hc] using hj

theorem byteAt_of_le {b : Bytes} {i : ℕ} (h : b.length ≤ i) : byteAt b i = 0 :=
  List.getD_eq_default _ _ h

theorem byteAt_append_left {a b : Bytes} {i : ℕ} (h : i < a.length) :
    byteAt (a ++ b) i = byteAt a i :=
  List.getD_append _ _ _ _ h

@[simp] theorem byteAt_append_right (a b : Bytes) (i : ℕ) :
    byteAt (a ++ b) (a.length + i) = byteAt b i := by
  rw [byteAt, List.getD_append_right _ _ _ _ (Nat.le_add_right _ _), Nat.add_sub_cancel_left]
  rfl

theorem byteAt_drop (b : Bytes) (k i : ℕ) : byteAt (b.drop k) i = byteAt b (k + i) := by
  simp only [byteAt, List.getD_eq_getElem?_getD, List.getElem?_drop]

theorem byteAt_take {b : Bytes} {k i : ℕ} (h : i < k) : byteAt (b.take k) i = byteAt b i := by
  simp only [byteAt, List.getD_eq_getElem?_getD, List.getElem?_take_of_lt h]

/-! ## Slices -/

theorem length_sub {b : Bytes} {i n : ℕ} (h : i + n ≤ b.length) : (sub b i n).length = n := by
  rw [sub, List.length_take, List.length_drop]
  omega

theorem byteAt_sub (b : Bytes) (i : ℕ) {n j : ℕ} (h : j < n) :
    byteAt (sub b i n) j = byteAt b (i + j) := by
  rw [sub, byteAt_take h, byteAt_drop]

theorem getRange_of_le {b : Bytes} {i n : ℕ} (h : i + n ≤ b.length) :
    getRange b i n = some (sub b i n) :=
  if_pos h

theorem getRange_eq_some {b c : Bytes} {i n : ℕ} (h : getRange b i n = some c) :
    i + n ≤ b.length ∧ c = sub b i n := by
  unfold getRange at h
  split_ifs at h with hle
  exact ⟨hle, (Option.some.inj h).symm⟩

theorem sub_sub (b : Bytes) {i n j m : ℕ} (h : j + m ≤ n) :
    sub (sub b i n) j m = sub b (i + j) m := by
  rw [sub, sub, sub, List.drop_take, List.take_take, List.drop_drop, Nat.min_eq_left (by omega)]

/-! ## Writes -/

@[simp] theorem length_writeAt (b : Bytes) (i : ℕ) (xs : Bytes) :
    (writeAt b i xs).length = b.length := by
  simp only [writeAt, List.length_append, List.length_take, List.length_drop]
  omega

@[simp] theorem length_put16 (b : Bytes) (i : ℕ) (v : UInt16) :
    (put16 b i v).length = b.length :=
  length_writeAt b i _

@[simp] theorem length_toBe (v : UInt16) : (toBe v).length = 2 := rfl

/-- **What a write does**: inside its range its bytes, elsewhere the old ones. -/
theorem byteAt_writeAt (b : Bytes) (i : ℕ) (xs : Bytes) (j : ℕ) :
    byteAt (writeAt b i xs) j
      = if i ≤ j ∧ j < i + xs.length ∧ j < b.length then byteAt xs (j - i) else byteAt b j := by
  have hti : (b.take i).length = min i b.length := List.length_take
  rcases Nat.lt_or_ge j b.length with hj | hj
  · rcases Nat.lt_or_ge j i with hlt | hge
    · rw [if_neg (by omega), writeAt, List.append_assoc, byteAt_append_left (by omega),
        byteAt_take hlt]
    · have hti' : (b.take i).length = i := by omega
      rcases Nat.lt_or_ge j (i + xs.length) with hin | hout
      · rw [if_pos ⟨hge, hin, hj⟩, writeAt, List.append_assoc]
        have hsplit : j = (b.take i).length + (j - i) := by omega
        rw [hsplit, byteAt_append_right, byteAt_append_left
          (by rw [List.length_take]; omega), byteAt_take (by omega)]
        congr 1
        omega
      · have hxs : (xs.take (b.length - i)).length = xs.length := by
          rw [List.length_take]
          omega
        rw [if_neg (by omega), writeAt]
        have hsplit : j = (b.take i ++ xs.take (b.length - i)).length + (j - (i + xs.length)) := by
          rw [List.length_append]
          omega
        rw [hsplit, byteAt_append_right, byteAt_drop]
        congr 1
        rw [List.length_append]
        omega
  · rw [if_neg (by omega), byteAt_of_le (by rw [length_writeAt]; exact hj), byteAt_of_le hj]

theorem byteAt_writeAt_of_disjoint {b xs : Bytes} {i j : ℕ} (h : j < i ∨ i + xs.length ≤ j) :
    byteAt (writeAt b i xs) j = byteAt b j := by
  rw [byteAt_writeAt, if_neg (by omega)]

theorem byteAt_put16_of_disjoint {b : Bytes} {i j : ℕ} {v : UInt16} (h : j < i ∨ i + 2 ≤ j) :
    byteAt (put16 b i v) j = byteAt b j :=
  byteAt_writeAt_of_disjoint (by rwa [length_toBe])

theorem writeAt_comm (b : Bytes) {i j : ℕ} {xs ys : Bytes}
    (h : i + xs.length ≤ j ∨ j + ys.length ≤ i) :
    writeAt (writeAt b i xs) j ys = writeAt (writeAt b j ys) i xs := by
  apply ext (by simp)
  intro k _
  simp only [byteAt_writeAt, length_writeAt]
  split_ifs <;> first | rfl | omega

theorem writeAt_writeAt (b : Bytes) (i : ℕ) {xs ys : Bytes} (h : xs.length = ys.length) :
    writeAt (writeAt b i xs) i ys = writeAt b i ys := by
  apply ext (by simp)
  intro k _
  simp only [byteAt_writeAt, length_writeAt, h]
  split_ifs <;> rfl

/-- Writing back what is there changes nothing. -/
theorem writeAt_self {b xs : Bytes} {i : ℕ}
    (h : ∀ k < xs.length, byteAt xs k = byteAt b (i + k)) : writeAt b i xs = b := by
  apply ext (by simp)
  intro j _
  rw [byteAt_writeAt]
  split_ifs with hj
  · rw [h (j - i) (by omega)]
    congr 1
    omega
  · rfl

/-- A write in front of or behind a slice leaves it. -/
theorem sub_writeAt_of_disjoint {b xs : Bytes} {i n j : ℕ} (h : i + n ≤ j ∨ j + xs.length ≤ i) :
    sub (writeAt b j xs) i n = sub b i n := by
  apply ext
  · rw [sub, sub, List.length_take, List.length_take, List.length_drop, List.length_drop,
      length_writeAt]
  · intro k hk
    have hkn : k < n := Nat.lt_of_lt_of_le hk (List.length_take_le _ _)
    rw [byteAt_sub _ _ hkn, byteAt_sub _ _ hkn, byteAt_writeAt_of_disjoint (by omega)]

theorem drop_writeAt_of_le {b xs : Bytes} {i k : ℕ} (h : i + xs.length ≤ k) :
    (writeAt b i xs).drop k = b.drop k := by
  apply ext
  · rw [List.length_drop, List.length_drop, length_writeAt]
  · intro j _
    rw [byteAt_drop, byteAt_drop, byteAt_writeAt_of_disjoint (by omega)]

/-- A write in the tail is a write to the tail. -/
theorem drop_writeAt {b xs : Bytes} {i k : ℕ} (h : k ≤ i) :
    (writeAt b i xs).drop k = writeAt (b.drop k) (i - k) xs := by
  apply ext
  · rw [List.length_drop, length_writeAt, length_writeAt, List.length_drop]
  · intro j _
    rw [byteAt_drop, byteAt_writeAt, byteAt_writeAt, List.length_drop, byteAt_drop]
    have hiff : (i ≤ k + j ∧ k + j < i + xs.length ∧ k + j < b.length)
        ↔ (i - k ≤ j ∧ j < i - k + xs.length ∧ j < b.length - k) := by omega
    simp only [hiff]
    split_ifs
    · congr 1
      omega
    · rfl

theorem take_writeAt_of_le {b xs : Bytes} {i k : ℕ} (h : k ≤ i) :
    (writeAt b i xs).take k = b.take k := by
  apply ext
  · rw [List.length_take, List.length_take, length_writeAt]
  · intro j hj
    have hjk : j < k := Nat.lt_of_lt_of_le hj (List.length_take_le _ _)
    rw [byteAt_take hjk, byteAt_take hjk, byteAt_writeAt_of_disjoint (by omega)]

/-- A write in the head is a write to the head. -/
theorem take_writeAt {b xs : Bytes} {i k : ℕ} (h : i + xs.length ≤ k) :
    (writeAt b i xs).take k = writeAt (b.take k) i xs := by
  apply ext
  · rw [List.length_take, length_writeAt, length_writeAt, List.length_take]
  · intro j hj
    have hjk : j < k := Nat.lt_of_lt_of_le hj (List.length_take_le _ _)
    rw [byteAt_take hjk, byteAt_writeAt, byteAt_writeAt, List.length_take, byteAt_take hjk]
    have hiff : (i ≤ j ∧ j < i + xs.length ∧ j < b.length)
        ↔ (i ≤ j ∧ j < i + xs.length ∧ j < min k b.length) := by omega
    simp only [hiff]

/-- A write inside a slice is a write to the slice. -/
theorem sub_writeAt {b xs : Bytes} {i n j : ℕ} (hi : i ≤ j) (h : j + xs.length ≤ i + n) :
    sub (writeAt b j xs) i n = writeAt (sub b i n) (j - i) xs := by
  rw [sub, drop_writeAt hi, take_writeAt (by omega), sub]

/-! ## Words -/

theorem fromBe_toNat (hi lo : UInt8) : (fromBe hi lo).toNat = hi.toNat * 256 + lo.toNat := by
  have h1 := UInt8.toNat_lt hi
  have h2 := UInt8.toNat_lt lo
  rw [fromBe, UInt16.toNat_ofNat', Nat.mod_eq_of_lt (by omega)]

theorem fromBe_toBe (v : UInt16) : fromBe (byteAt (toBe v) 0) (byteAt (toBe v) 1) = v := by
  apply UInt16.toNat_inj.mp
  have hv := UInt16.toNat_lt v
  rw [fromBe_toNat]
  change (UInt8.ofNat (v.toNat / 256)).toNat * 256 + (UInt8.ofNat v.toNat).toNat = v.toNat
  rw [UInt8.toNat_ofNat', UInt8.toNat_ofNat']
  omega

theorem toBe_fromBe (hi lo : UInt8) : toBe (fromBe hi lo) = [hi, lo] := by
  have h1 := UInt8.toNat_lt hi
  have h2 := UInt8.toNat_lt lo
  rw [toBe, fromBe_toNat]
  congr 1
  · apply UInt8.toNat_inj.mp
    rw [UInt8.toNat_ofNat']
    omega
  · congr 1
    apply UInt8.toNat_inj.mp
    rw [UInt8.toNat_ofNat']
    omega

theorem get16_put16 {b : Bytes} {i : ℕ} (v : UInt16) (h : i + 2 ≤ b.length) :
    get16 (put16 b i v) i = v := by
  rw [get16, put16, byteAt_writeAt, byteAt_writeAt, length_toBe, if_pos (by omega),
    if_pos (by omega), Nat.sub_self, Nat.add_sub_cancel_left]
  exact fromBe_toBe v

theorem get16_writeAt_of_disjoint {b xs : Bytes} {i j : ℕ} (h : j + 2 ≤ i ∨ i + xs.length ≤ j) :
    get16 (writeAt b i xs) j = get16 b j := by
  rw [get16, byteAt_writeAt_of_disjoint (by omega), byteAt_writeAt_of_disjoint (by omega)]
  rfl

theorem get16_put16_of_disjoint {b : Bytes} {i j : ℕ} {v : UInt16} (h : j + 2 ≤ i ∨ i + 2 ≤ j) :
    get16 (put16 b i v) j = get16 b j :=
  get16_writeAt_of_disjoint (by rwa [length_toBe])

@[simp] theorem put16_get16 (b : Bytes) (i : ℕ) : put16 b i (get16 b i) = b := by
  apply writeAt_self
  intro k hk
  rw [length_toBe] at hk
  rw [get16, toBe_fromBe]
  rcases (show k = 0 ∨ k = 1 by omega) with rfl | rfl <;> rfl

@[simp] theorem put16_put16 (b : Bytes) (i : ℕ) (v w : UInt16) :
    put16 (put16 b i v) i w = put16 b i w :=
  writeAt_writeAt b i rfl

/-- A word at one place and a write at another, in either order. -/
theorem writeAt_put16_comm {b xs : Bytes} {i j : ℕ} {v : UInt16}
    (h : j + xs.length ≤ i ∨ i + 2 ≤ j) :
    writeAt (put16 b i v) j xs = put16 (writeAt b j xs) i v :=
  writeAt_comm b (by rw [length_toBe]; omega)

theorem put16_put16_comm {b : Bytes} {i j : ℕ} {v w : UInt16} (h : j + 2 ≤ i ∨ i + 2 ≤ j) :
    put16 (put16 b i v) j w = put16 (put16 b j w) i v :=
  writeAt_put16_comm (by rwa [length_toBe])

/-! ## The tail of a buffer -/

@[simp] theorem get16_append_right (a b : Bytes) (i : ℕ) :
    get16 (a ++ b) (a.length + i) = get16 b i := by
  rw [get16, byteAt_append_right, Nat.add_assoc, byteAt_append_right]
  rfl

theorem sub_append_right (a b : Bytes) (i n : ℕ) : sub (a ++ b) (a.length + i) n = sub b i n := by
  rw [sub, List.drop_length_add_append]
  rfl

@[simp] theorem getRange_append_right (a b : Bytes) (i n : ℕ) :
    getRange (a ++ b) (a.length + i) n = getRange b i n := by
  rw [getRange, getRange, sub_append_right, List.length_append]
  congr 1
  exact propext (by omega)

@[simp] theorem writeAt_append_right (a b : Bytes) (i : ℕ) (xs : Bytes) :
    writeAt (a ++ b) (a.length + i) xs = a ++ writeAt b i xs := by
  have hdrop : a.length + i + xs.length = a.length + (i + xs.length) := by omega
  rw [writeAt, List.take_length_add_append, hdrop, List.drop_length_add_append,
    List.length_append, Nat.add_sub_add_left, writeAt]
  simp only [List.append_assoc]

@[simp] theorem put16_append_right (a b : Bytes) (i : ℕ) (v : UInt16) :
    put16 (a ++ b) (a.length + i) v = a ++ put16 b i v :=
  writeAt_append_right a b i _

end Xpf.ByteBuffer
