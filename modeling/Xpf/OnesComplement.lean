/-
`OnesComplement.lean` -- 16-bit ones'-complement arithmetic on natural numbers.

Internet checksums and the address translations that keep them unchanged add
16-bit words with an end-around carry. Such a sum is only ever determined modulo
`0xFFFF`, and the two words that are congruent to zero (`0x0000` and `0xFFFF`) are
what every argument about it turns on. This file has the one carry fold, the loop
that repeats it, and the facts the callers use: folding keeps the residue, a word
other than `0xFFFF` is its own residue, and a folded sum is zero only for the empty
sum. The last two make folding additive (`foldAll_add`), so that an update applied in
several steps is the update applied at once.
-/
import Xpf.Loop
import Mathlib.Tactic.Common

set_option autoImplicit false

namespace Xpf.OnesComplement

open Xpf.Loop

/-- One end-around carry: `(s & 0xFFFF) + (s >> 16)`. -/
def fold (s : ℕ) : ℕ := (s &&& 0xFFFF) + (s >>> 16)

theorem fold_eq (s : ℕ) : fold s = s % 65536 + s / 65536 := by
  rw [fold, Nat.shiftRight_eq_div_pow, show (0xFFFF : ℕ) = 2 ^ 16 - 1 from rfl,
    Nat.and_two_pow_sub_one_eq_mod]

/-- A carry fold keeps the residue. -/
theorem fold_mod (s : ℕ) : fold s % 65535 = s % 65535 := by
  rw [fold_eq]; omega

/-- `while s > 0xFFFF { s = fold s }`. -/
def foldAll : ℕ → ℕ :=
  run (fun s => if 0xFFFF < s then .inl (fold s) else .inr s) id id

/-- **What the loop computes**: a word with the residue of the sum, which is zero for the
sum zero only. -/
theorem foldAll_spec (s : ℕ) :
    foldAll s ≤ 0xFFFF ∧ foldAll s % 65535 = s % 65535 ∧ (foldAll s = 0 ↔ s = 0) := by
  rw [foldAll]
  refine run_induct (motive := fun s b => b ≤ 0xFFFF ∧ b % 65535 = s % 65535 ∧ (b = 0 ↔ s = 0))
    ?_ ?_ ?_ s
  · intro s s' h
    split_ifs at h with hs
    · obtain rfl := Sum.inl.inj h
      simp only [id, fold_eq]
      omega
  · intro s b h
    split_ifs at h with hs
    obtain rfl := Sum.inr.inj h
    exact ⟨by omega, rfl, Iff.rfl⟩
  · intro s s' b h ⟨hle, hmod, hzero⟩
    split_ifs at h with hs
    obtain rfl := Sum.inl.inj h
    refine ⟨hle, hmod.trans (fold_mod s), hzero.trans ?_⟩
    rw [fold_eq]
    omega

/-- The three facts determine the folded sum. -/
theorem foldAll_eq_of {s w : ℕ} (hle : w ≤ 0xFFFF) (hmod : w % 65535 = s % 65535)
    (hzero : w = 0 ↔ s = 0) : foldAll s = w := by
  obtain ⟨h1, h2, h3⟩ := foldAll_spec s
  omega

/-- A word is folded already. -/
theorem foldAll_of_le {w : ℕ} (h : w ≤ 0xFFFF) : foldAll w = w :=
  foldAll_eq_of h rfl Iff.rfl

/-- **Folding is additive**: a sum can be folded on the way. -/
theorem foldAll_add (a b : ℕ) : foldAll (foldAll a + b) = foldAll (a + b) := by
  obtain ⟨h1, h2, h3⟩ := foldAll_spec (a + b)
  obtain ⟨h4, h5, h6⟩ := foldAll_spec a
  exact foldAll_eq_of h1 (by omega) (by omega)

/-- A full turn changes a sum that is not zero in nothing. -/
theorem foldAll_add_turn {s k : ℕ} (h : s ≠ 0) : foldAll (s + 65535 * k) = foldAll s := by
  obtain ⟨h1, h2, h3⟩ := foldAll_spec s
  exact foldAll_eq_of h1 (by omega) (by omega)

/-- A word that is not `0xFFFF` is the residue it stands for. -/
theorem residue_of_ne {w : ℕ} (hw : w ≤ 0xFFFF) (hne : w ≠ 0xFFFF) : w % 65535 = w := by
  omega

/-- Adding a word and then its complement is a full turn: it gives the residue back. -/
theorem add_compl_mod (w a : ℕ) (ha : a ≤ 0xFFFF) :
    ((w + a) % 65535 + (0xFFFF - a)) % 65535 = w % 65535 := by
  omega

end Xpf.OnesComplement
