/-
Updates of a checksum field, composed.

Every incremental update of `frame/checksum.rs` adds a sum of words to the complement of the
field, folds the carries and complements again (`upd`); they differ in how they get the sum.
Updates add up, also over the two rules for zero: a field that must not be zero and came out
zero is `0xFFFF`, which the next update starts from as well as it would from zero
(`upd_upd`). A word that is replaced by itself adds `0xFFFF`, and that changes a field only
where there is nothing to change (`upd_turn`).
-/
import Xpf.FrameChecksum

set_option autoImplicit false

namespace Xpf.Frames

open Xpf.ByteBuffer Xpf.OnesComplement

/-! ## Complements -/

theorem compl16_le (w : UInt16) : compl16 w ≤ 0xFFFF := Nat.sub_le _ _

theorem compl16_add (w : UInt16) : compl16 w + w.toNat = 0xFFFF := by
  have := UInt16.toNat_lt w
  rw [compl16]
  omega

theorem compl16_eq_zero {w : UInt16} : compl16 w = 0 ↔ w = 0xFFFF := by
  have hw := compl16_add w
  constructor
  · intro h
    exact UInt16.toNat_inj.mp (show w.toNat = 0xFFFF by omega)
  · rintro rfl
    rfl

theorem checksum16Finish_toNat (s : ℕ) : (checksum16Finish s).toNat = 0xFFFF - foldAll s := by
  rw [checksum16Finish, UInt16.toNat_ofNat', Nat.mod_eq_of_lt (by omega)]

/-- The complement of a finished sum is the folded sum. -/
theorem compl16_finish (s : ℕ) : compl16 (checksum16Finish s) = foldAll s := by
  obtain ⟨hle, -, -⟩ := foldAll_spec s
  rw [compl16, checksum16Finish_toNat]
  omega

theorem checksum16Finish_congr {s t : ℕ} (h : foldAll s = foldAll t) :
    checksum16Finish s = checksum16Finish t := by
  rw [checksum16Finish, checksum16Finish, h]

theorem finish_eq_zero {s : ℕ} : checksum16Finish s = 0 ↔ foldAll s = 0xFFFF := by
  obtain ⟨hle, -, -⟩ := foldAll_spec s
  rw [← UInt16.toNat_inj, checksum16Finish_toNat, UInt16.toNat_zero]
  omega

/-- Finishing in two steps. -/
theorem finish_compl_finish (s d : ℕ) :
    checksum16Finish (compl16 (checksum16Finish s) + d) = checksum16Finish (s + d) := by
  apply checksum16Finish_congr
  rw [compl16_finish, foldAll_add]

/-! ## Updates -/

/-- The field of `protocol` with a sum of words added. -/
def bump (protocol : UInt8) (family : ChecksumFamily) (d : ℕ) (c : UInt16) : UInt16 :=
  canonicalChecksum protocol family (checksum16Finish (compl16 c + d))

/-- The same where an IPv4 UDP datagram without a checksum gets none. -/
def upd (protocol : UInt8) (family : ChecksumFamily) (d : ℕ) (c : UInt16) : UInt16 :=
  if l4UdpChecksumOptional protocol family && c == 0 then c else bump protocol family d c

section

variable {protocol : UInt8} {family : ChecksumFamily} {c : UInt16} {d e : ℕ}

/-- Where a zero is optional it is also illegal to compute one. -/
theorem zeroIllegal_of_optional (h : l4UdpChecksumOptional protocol family = true) :
    adjustZeroChecksumIllegal protocol family = true := by
  cases family with
  | v4 => simpa [l4UdpChecksumOptional, adjustZeroChecksumIllegal] using h
  | v6 => simp [l4UdpChecksumOptional] at h

theorem canonicalChecksum_of_legal (h : adjustZeroChecksumIllegal protocol family = false)
    (w : UInt16) : canonicalChecksum protocol family w = w := by
  rw [canonicalChecksum, h]
  rfl

theorem canonicalChecksum_of_ne {w : UInt16} (h : w ≠ 0) :
    canonicalChecksum protocol family w = w := by
  rw [canonicalChecksum, if_neg]
  simp [h]

theorem canonicalChecksum_zero (h : adjustZeroChecksumIllegal protocol family = true) :
    canonicalChecksum protocol family 0 = 0xFFFF := by
  rw [canonicalChecksum, h]
  rfl

theorem canonicalChecksum_ne_zero (h : adjustZeroChecksumIllegal protocol family = true)
    (w : UInt16) : canonicalChecksum protocol family w ≠ 0 := by
  by_cases hw : w = 0
  · rw [hw, canonicalChecksum_zero h]
    decide
  · rwa [canonicalChecksum_of_ne hw]

/-- A sum finished, sent and updated is the longer sum finished and sent. -/
theorem bump_canonical (s d : ℕ) :
    bump protocol family d (canonicalChecksum protocol family (checksum16Finish s))
      = canonicalChecksum protocol family (checksum16Finish (s + d)) := by
  by_cases hz : adjustZeroChecksumIllegal protocol family = true ∧ checksum16Finish s = 0
  · -- sent as `0xFFFF`, whose complement is zero instead of `0xFFFF`
    obtain ⟨hill, hzero⟩ := hz
    have hfold := finish_eq_zero.mp hzero
    obtain ⟨-, hmod, -⟩ := foldAll_spec s
    rw [hzero, canonicalChecksum_zero hill, bump, compl16_eq_zero.mpr rfl, Nat.zero_add]
    rcases Nat.eq_zero_or_pos d with rfl | hd
    · have h0 : checksum16Finish 0 = 0xFFFF := by
        apply UInt16.toNat_inj.mp
        rw [checksum16Finish_toNat, foldAll_of_le (Nat.zero_le _)]
        rfl
      rw [Nat.add_zero, hzero, h0, canonicalChecksum_zero hill, canonicalChecksum_of_ne (by decide)]
    · congr 1
      apply checksum16Finish_congr
      rw [← foldAll_add, hfold, Nat.add_comm, ← Nat.mul_one 0xFFFF]
      exact (foldAll_add_turn (by omega)).symm
  · have hsame : canonicalChecksum protocol family (checksum16Finish s) = checksum16Finish s := by
      by_cases hill : adjustZeroChecksumIllegal protocol family = true
      · exact canonicalChecksum_of_ne fun h => hz ⟨hill, h⟩
      · exact canonicalChecksum_of_legal (by simpa using hill) _
    rw [hsame, bump, finish_compl_finish]

theorem bump_bump (d e : ℕ) (c : UInt16) :
    bump protocol family e (bump protocol family d c) = bump protocol family (d + e) c := by
  rw [bump.eq_def _ _ d, bump_canonical, Nat.add_assoc]
  rfl

theorem bump_ne_zero (h : adjustZeroChecksumIllegal protocol family = true) (d : ℕ) (c : UInt16) :
    bump protocol family d c ≠ 0 :=
  canonicalChecksum_ne_zero h _

/-- **Updates add up.** -/
theorem upd_upd (d e : ℕ) (c : UInt16) :
    upd protocol family e (upd protocol family d c) = upd protocol family (d + e) c := by
  by_cases h : l4UdpChecksumOptional protocol family && c == 0
  · rw [upd.eq_def _ _ d, if_pos h, upd, if_pos h, upd, if_pos h]
  · rw [upd.eq_def _ _ d, if_neg h, upd.eq_def _ _ (d + e), if_neg h, upd, if_neg, bump_bump]
    intro h'
    rw [Bool.and_eq_true, beq_iff_eq] at h'
    exact bump_ne_zero (zeroIllegal_of_optional h'.1) d c h'.2

/-- The update by nothing sends the field again. -/
theorem bump_zero (c : UInt16) : bump protocol family 0 c = canonicalChecksum protocol family c := by
  have hc : checksum16Finish (compl16 c + 0) = c := by
    apply UInt16.toNat_inj.mp
    have := compl16_add c
    rw [checksum16Finish_toNat, Nat.add_zero, foldAll_of_le (compl16_le c)]
    omega
  rw [bump, hc]

/-- Full turns change a field that is not the zero they would turn over. -/
theorem bump_turn (k : ℕ) (h : compl16 c + d ≠ 0 ∨ adjustZeroChecksumIllegal protocol family = true) :
    bump protocol family (d + 65535 * k) c = bump protocol family d c := by
  rcases Nat.eq_zero_or_pos (compl16 c + d) with h0 | hpos
  · have hill := h.resolve_left (by omega)
    rcases Nat.eq_zero_or_pos k with rfl | hk
    · rw [Nat.mul_zero, Nat.add_zero]
    · have hfold : foldAll (compl16 c + (d + 65535 * k)) = 0xFFFF :=
        foldAll_eq_of le_rfl (by omega) (by omega)
      rw [bump, finish_eq_zero.mpr hfold, canonicalChecksum_zero hill, bump, h0]
      have h1 : checksum16Finish 0 = 0xFFFF := by
        apply UInt16.toNat_inj.mp
        rw [checksum16Finish_toNat, foldAll_of_le (Nat.zero_le _)]
        rfl
      rw [h1, canonicalChecksum_of_ne (by decide)]
  · rw [bump, bump, ← Nat.add_assoc, checksum16Finish_congr (foldAll_add_turn (by omega))]

theorem upd_turn (k : ℕ) (h : compl16 c + d ≠ 0 ∨ adjustZeroChecksumIllegal protocol family = true) :
    upd protocol family (d + 65535 * k) c = upd protocol family d c := by
  rw [upd, upd, bump_turn k h]

end

end Xpf.Frames
