/-
Little-endian numbers in byte strings: the encoding of a number in a fixed count of bytes,
its inverse, and the two widths of `encoding/binary` that wire formats use.
-/
import Mathlib.Data.Nat.Basic
import Mathlib.Tactic

set_option autoImplicit false

namespace Xpf.LittleEndian

/-- The `count` low bytes of a number, lowest first. -/
def encode : ℕ → ℕ → List UInt8
  | 0, _ => []
  | count + 1, v => UInt8.ofNat v :: encode count (v / 256)

/-- The number that bytes spell, lowest first. -/
def decode : List UInt8 → ℕ
  | [] => 0
  | b :: bs => b.toNat + 256 * decode bs

@[simp] theorem length_encode (count v : ℕ) : (encode count v).length = count := by
  induction count generalizing v with
  | zero => rfl
  | succ count ih => simp only [encode, List.length_cons, ih]

theorem decode_encode (count v : ℕ) (h : v < 256 ^ count) : decode (encode count v) = v := by
  induction count generalizing v with
  | zero =>
    have hv : v = 0 := by simpa using h
    subst hv
    rfl
  | succ count ih =>
    have hdiv : v / 256 < 256 ^ count := by
      rw [Nat.div_lt_iff_lt_mul (by decide)]
      simpa only [pow_succ] using h
    have hlow : (UInt8.ofNat v).toNat = v % 256 := UInt8.toNat_ofNat'
    simp only [encode, decode, ih _ hdiv, hlow]
    omega

theorem decode_take_encode_append (count v : ℕ) (rest : List UInt8) (h : v < 256 ^ count) :
    decode ((encode count v ++ rest).take count) = v := by
  rw [List.take_append_of_le_length (by simp), List.take_of_length_le (by simp), decode_encode count v h]

/-- The number in the first `count` bytes, and the bytes after it; nothing when there are
fewer. -/
def read (count : ℕ) (b : List UInt8) : Option (ℕ × List UInt8) :=
  if count ≤ b.length then some (decode (b.take count), b.drop count) else none

theorem read_encode_append (count v : ℕ) (rest : List UInt8) (h : v < 256 ^ count) :
    read count (encode count v ++ rest) = some (v, rest) := by
  have hle : count ≤ (encode count v ++ rest).length := by simp
  have hdrop : (encode count v ++ rest).drop count = rest := by
    rw [List.drop_append_of_le_length (by simp), List.drop_of_length_le (by simp), List.nil_append]
  unfold read
  rw [if_pos hle, decode_take_encode_append count v rest h, hdrop]

theorem length_of_read {count v : ℕ} {b rest : List UInt8} (h : read count b = some (v, rest)) :
    b.length = count + rest.length := by
  unfold read at h
  split_ifs at h with hle
  obtain ⟨-, rfl⟩ := Prod.mk.inj (Option.some.inj h)
  rw [List.length_drop]
  omega

/-! ## The widths of `encoding/binary` -/

/-- `LittleEndian.PutUint16`. -/
def putUint16 (v : UInt16) : List UInt8 := encode 2 v.toNat

/-- `LittleEndian.Uint16`. -/
def uint16 (b : List UInt8) : UInt16 := UInt16.ofNat (decode (b.take 2))

/-- `LittleEndian.PutUint32`. -/
def putUint32 (v : UInt32) : List UInt8 := encode 4 v.toNat

/-- `LittleEndian.Uint32`. -/
def uint32 (b : List UInt8) : UInt32 := UInt32.ofNat (decode (b.take 4))

/-- `LittleEndian.PutUint64`. -/
def putUint64 (v : UInt64) : List UInt8 := encode 8 v.toNat

/-- `LittleEndian.Uint64`. -/
def uint64 (b : List UInt8) : UInt64 := UInt64.ofNat (decode (b.take 8))

@[simp] theorem length_putUint16 (v : UInt16) : (putUint16 v).length = 2 := length_encode 2 _

@[simp] theorem length_putUint32 (v : UInt32) : (putUint32 v).length = 4 := length_encode 4 _

@[simp] theorem length_putUint64 (v : UInt64) : (putUint64 v).length = 8 := length_encode 8 _

@[simp] theorem uint16_putUint16_append (v : UInt16) (rest : List UInt8) : uint16 (putUint16 v ++ rest) = v := by
  unfold uint16 putUint16
  rw [decode_take_encode_append 2 _ rest v.toNat_lt, UInt16.ofNat_toNat]

@[simp] theorem uint32_putUint32_append (v : UInt32) (rest : List UInt8) : uint32 (putUint32 v ++ rest) = v := by
  unfold uint32 putUint32
  rw [decode_take_encode_append 4 _ rest v.toNat_lt, UInt32.ofNat_toNat]

@[simp] theorem uint64_putUint64_append (v : UInt64) (rest : List UInt8) : uint64 (putUint64 v ++ rest) = v := by
  unfold uint64 putUint64
  rw [decode_take_encode_append 8 _ rest v.toNat_lt, UInt64.ofNat_toNat]

end Xpf.LittleEndian
