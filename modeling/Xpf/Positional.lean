/-
`Positional.lean` -- digit strings with the most significant digit in front.

A wire format that writes a number "in as many digits as it needs" does it with one
loop: while something is left, put the low bits in front of what has been written and
shift. The reader does the opposite, one shift and one `or` for each digit. The loop
is Mathlib's `Nat.digits` read backwards, which is where its properties come from.
-/
import Xpf.Loop
import Mathlib.Data.Nat.Digits.Lemmas
import Mathlib.Tactic.Ring

set_option autoImplicit false

namespace Xpf.Positional

open Xpf.Loop

/-! ## Writing -/

/-- One round: the state is what is left of the number and the digits in front of which
the next one goes. -/
def digitsStep (width : ℕ) (s : ℕ × List ℕ) : (ℕ × List ℕ) ⊕ List ℕ :=
  if 0 < s.1 then .inl (s.1 >>> width, (s.1 &&& (2 ^ width - 1)) :: s.2) else .inr s.2

/-- The digits of `width` bits of a number, none for zero. -/
def bigEndian (width v : ℕ) : List ℕ := run (digitsStep width) (·.2) (·.1) (v, [])

theorem digitsStep_dec {width : ℕ} (hw : 0 < width) (s s' : ℕ × List ℕ) (h : digitsStep width s = .inl s') :
    s'.1 < s.1 := by
  rw [digitsStep] at h
  split_ifs at h with hpos
  obtain rfl := Sum.inl.inj h
  dsimp only
  rw [Nat.shiftRight_eq_div_pow]
  exact Nat.div_lt_self hpos (Nat.one_lt_two_pow hw.ne')

theorem bigEndian_eq {width : ℕ} (hw : 0 < width) (v : ℕ) :
    bigEndian width v = (Nat.digits (2 ^ width) v).reverse := by
  have hrun : ∀ s : ℕ × List ℕ, run (digitsStep width) (·.2) (·.1) s
      = (Nat.digits (2 ^ width) s.1).reverse ++ s.2 := by
    refine run_induct (motive := fun s b => b = (Nat.digits (2 ^ width) s.1).reverse ++ s.2)
      (digitsStep_dec hw) ?_ ?_
    · intro s b h
      rw [digitsStep] at h
      split_ifs at h with hpos
      obtain rfl := Sum.inr.inj h
      rw [Nat.eq_zero_of_not_pos hpos, Nat.digits_zero, List.reverse_nil, List.nil_append]
    · intro s s' b h ih
      rw [digitsStep] at h
      split_ifs at h with hpos
      obtain rfl := Sum.inl.inj h
      dsimp only at ih
      rw [ih, Nat.shiftRight_eq_div_pow, Nat.and_two_pow_sub_one_eq_mod,
        Nat.digits_def' (Nat.one_lt_two_pow hw.ne') hpos, List.reverse_cons, List.append_assoc,
        List.singleton_append]
  rw [bigEndian, hrun, List.append_nil]

theorem bigEndian_lt {width v d : ℕ} (hw : 0 < width) (h : d ∈ bigEndian width v) : d < 2 ^ width := by
  rw [bigEndian_eq hw, List.mem_reverse] at h
  exact Nat.digits_lt_base (Nat.one_lt_two_pow hw.ne') h

theorem bigEndian_ne_nil {width v : ℕ} (hw : 0 < width) (hv : v ≠ 0) : bigEndian width v ≠ [] := by
  rw [bigEndian_eq hw]
  simpa only [ne_eq, List.reverse_eq_nil_iff] using Nat.digits_ne_nil_iff_ne_zero.mpr hv

/-- A number below `2 ^ (width * k)` takes at most `k` digits. -/
theorem length_bigEndian_le {width k v : ℕ} (hw : 0 < width) (hv : v < (2 ^ width) ^ k) :
    (bigEndian width v).length ≤ k := by
  rw [bigEndian_eq hw, List.length_reverse]
  exact (Nat.digits_length_le_iff (Nat.one_lt_two_pow hw.ne') v).mpr hv

/-- A larger number takes no fewer digits. -/
theorem length_bigEndian_mono {width u v : ℕ} (hw : 0 < width) (h : u ≤ v) :
    (bigEndian width u).length ≤ (bigEndian width v).length := by
  rw [bigEndian_eq hw, bigEndian_eq hw, List.length_reverse, List.length_reverse]
  exact Nat.le_length_digits_le _ u v h

/-! ## Reading -/

/-- The number that digits spell behind a number that has been read. -/
def valueFrom (base start : ℕ) (ds : List ℕ) : ℕ := ds.foldl (fun acc d => acc * base + d) start

theorem valueFrom_cons (base start d : ℕ) (ds : List ℕ) :
    valueFrom base start (d :: ds) = valueFrom base (start * base + d) ds := rfl

theorem valueFrom_append (base start : ℕ) (ds es : List ℕ) :
    valueFrom base start (ds ++ es) = valueFrom base (valueFrom base start ds) es := List.foldl_append

theorem valueFrom_eq (base start : ℕ) (ds : List ℕ) :
    valueFrom base start ds = start * base ^ ds.length + valueFrom base 0 ds := by
  induction ds generalizing start with
  | nil => simp [valueFrom]
  | cons d ds ih =>
    rw [valueFrom_cons, valueFrom_cons, ih, ih (0 * base + d), List.length_cons]
    ring

/-- **The digits of a number spell it.** -/
theorem valueFrom_bigEndian {width : ℕ} (hw : 0 < width) (v : ℕ) :
    valueFrom (2 ^ width) 0 (bigEndian width v) = v := by
  have hdigits : ∀ ds : List ℕ, valueFrom (2 ^ width) 0 ds.reverse = Nat.ofDigits (2 ^ width) ds := by
    intro ds
    rw [valueFrom, List.foldl_reverse, Nat.ofDigits_eq_foldr]
    congr 1
    funext d acc
    rw [Nat.cast_id, Nat.add_comm, Nat.mul_comm]
  rw [bigEndian_eq hw, hdigits, Nat.ofDigits_digits]

/-- A shift and an `or` append one digit. -/
theorem shiftLeft_or {width v d : ℕ} (h : d < 2 ^ width) : v <<< width ||| d = v * 2 ^ width + d := by
  rw [← Nat.shiftLeft_add_eq_or_of_lt h, Nat.shiftLeft_eq]

end Xpf.Positional
