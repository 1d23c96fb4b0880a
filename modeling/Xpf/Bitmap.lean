/-
Bitmaps in 64-bit words: testing, setting and clearing one bit with a mask, and the count
of the bits that are set, summed over the words. Bit `i` is bit `i % 64` of word `i / 64`.
-/
import Mathlib.Data.Nat.Count
import Mathlib.Tactic

set_option autoImplicit false

namespace Xpf.Bitmap

abbrev Word := BitVec 64

def mask (i : ℕ) : Word := 1#64 <<< (i % 64)

def test (ws : List Word) (i : ℕ) : Bool := ws.getD (i / 64) 0 &&& mask i ≠ 0

def set (ws : List Word) (i : ℕ) : List Word := ws.modify (i / 64) (· ||| mask i)

def clear (ws : List Word) (i : ℕ) : List Word := ws.modify (i / 64) (· &&& ~~~ mask i)

/-- The population count. -/
def count (ws : List Word) : ℕ := (ws.map fun w => w.cpop.toNat).sum

@[simp] theorem length_set (ws : List Word) (i : ℕ) : (set ws i).length = ws.length := by
  unfold set
  exact List.length_modify ..

@[simp] theorem length_clear (ws : List Word) (i : ℕ) : (clear ws i).length = ws.length := by
  unfold clear
  exact List.length_modify ..

/-! ## One bit -/

theorem mask_getLsbD (i j : ℕ) : (mask i).getLsbD j = decide (j = i % 64) := by
  have hi : i % 64 < 64 := Nat.mod_lt _ (by decide)
  unfold mask
  rw [← BitVec.twoPow_eq, BitVec.getLsbD_twoPow]
  simp only [hi, decide_true, Bool.true_and]
  by_cases h : j = i % 64
  · simp [h]
  · have h' : ¬ i % 64 = j := fun e => h e.symm
    simp [h, h']

theorem test_eq (ws : List Word) (i : ℕ) : test ws i = (ws.getD (i / 64) 0).getLsbD (i % 64) := by
  unfold test
  rw [Bool.eq_iff_iff, decide_eq_true_eq]
  constructor
  · intro h
    by_contra hbit
    have hclear : (ws.getD (i / 64) 0).getLsbD (i % 64) = false := Bool.eq_false_of_not_eq_true hbit
    apply h
    apply BitVec.eq_of_getLsbD_eq
    intro j hj
    rw [BitVec.getLsbD_and, mask_getLsbD i j]
    by_cases hji : j = i % 64
    · rw [hji, hclear]
      simp
    · simp [hji]
  · intro hbit h
    have hand := congrArg (·.getLsbD (i % 64)) h
    simp only [BitVec.getLsbD_and, mask_getLsbD i (i % 64), hbit] at hand
    simp at hand

theorem test_zeros (n i : ℕ) : test (List.replicate n 0) i = false := by
  rw [test_eq]
  rw [List.getD_eq_getElem?_getD, List.getElem?_replicate]
  split_ifs <;> simp

theorem test_modify (ws : List Word) (i j : ℕ) (f : Word → Word) (hi : i / 64 < ws.length) :
    test (ws.modify (i / 64) f) j
      = if i / 64 = j / 64 then (f (ws.getD (j / 64) 0)).getLsbD (j % 64) else test ws j := by
  rw [test_eq, test_eq]
  by_cases h : i / 64 = j / 64
  · rw [if_pos h, h]
    rw [h] at hi
    simp [List.getD_eq_getElem?_getD, List.getElem?_eq_getElem hi]
  · rw [if_neg h]
    simp [List.getD_eq_getElem?_getD, h]

theorem test_set {ws : List Word} {i : ℕ} (hi : i / 64 < ws.length) (j : ℕ) :
    test (set ws i) j = (decide (j = i) || test ws j) := by
  unfold set
  rw [test_modify ws i j _ hi, BitVec.getLsbD_or, mask_getLsbD i _, ← test_eq]
  by_cases h : i / 64 = j / 64
  · have hiff : (j % 64 = i % 64) ↔ j = i := by omega
    simp only [if_pos h, hiff, Bool.or_comm]
  · have hne : j ≠ i := fun e => h (by rw [e])
    simp [h, hne]

theorem test_clear (ws : List Word) (i j : ℕ) : test (clear ws i) j = (decide (j ≠ i) && test ws j) := by
  have hj : j % 64 < 64 := Nat.mod_lt _ (by decide)
  by_cases hi : i / 64 < ws.length
  · unfold clear
    rw [test_modify ws i j _ hi, BitVec.getLsbD_and, BitVec.getLsbD_not, mask_getLsbD i _, ← test_eq]
    by_cases h : i / 64 = j / 64
    · have hiff : (j % 64 = i % 64) ↔ j = i := by omega
      simp only [if_pos h, hiff, hj, decide_true, Bool.true_and, Bool.and_comm, ne_eq, decide_not]
    · have hne : j ≠ i := fun e => h (by rw [e])
      simp [h, hne]
  · -- no such word: nothing changes, and the bit reads as clear
    have hsame : clear ws i = ws := List.modify_eq_self (Nat.not_lt.1 hi)
    rw [hsame]
    by_cases hji : j = i
    · rw [hji, test_eq, List.getD_eq_getElem?_getD, List.getElem?_eq_none (Nat.not_lt.1 hi)]
      simp
    · simp [hji]

/-- A modification that keeps the word it is applied to. -/
theorem modify_eq_self_of {ws : List Word} {k : ℕ} {f : Word → Word} (h : ∀ w, ws[k]? = some w → f w = w) :
    ws.modify k f = ws := by
  apply List.ext_getElem?
  intro n
  rw [List.getElem?_modify]
  cases hword : ws[n]? with
  | none => rfl
  | some w =>
    by_cases hk : k = n
    · subst hk
      simp [h w hword]
    · simp [hk]

/-- Setting a bit that is set changes nothing. -/
theorem set_eq_self {ws : List Word} {i : ℕ} (h : test ws i = true) : set ws i = ws := by
  apply modify_eq_self_of
  intro w hword
  rw [test_eq, List.getD_eq_getElem?_getD, hword, Option.getD_some] at h
  apply BitVec.eq_of_getLsbD_eq
  intro j _
  rw [BitVec.getLsbD_or, mask_getLsbD]
  by_cases hj : j = i % 64
  · rw [hj, h, Bool.true_or]
  · simp [hj]

/-- Clearing a bit that is clear changes nothing. -/
theorem clear_eq_self {ws : List Word} {i : ℕ} (h : test ws i = false) : clear ws i = ws := by
  apply modify_eq_self_of
  intro w hword
  rw [test_eq, List.getD_eq_getElem?_getD, hword, Option.getD_some] at h
  apply BitVec.eq_of_getLsbD_eq
  intro j hbound
  rw [BitVec.getLsbD_and, BitVec.getLsbD_not, mask_getLsbD]
  by_cases hj : j = i % 64
  · rw [hj, h, Bool.false_and]
  · simp [hj, hbound]

/-! ## The count -/

theorem cpopNatRec_eq_count (w : Word) (n : ℕ) : w.cpopNatRec n 0 = Nat.count (fun i => w.getLsbD i = true) n := by
  induction n with
  | zero => rfl
  | succ n ih =>
    rw [BitVec.cpopNatRec_succ, BitVec.cpopNatRec_eq, ih, Nat.count_succ]
    cases w.getLsbD n <;> rfl

theorem cpop_eq_count (w : Word) : w.cpop.toNat = Nat.count (fun i => w.getLsbD i = true) 64 := by
  have hle : w.cpopNatRec 64 0 ≤ 64 := BitVec.cpopNatRec_zero_le w 64
  unfold BitVec.cpop
  rw [BitVec.toNat_ofNat, Nat.mod_eq_of_lt (by omega), cpopNatRec_eq_count]

/-- The population count is the number of positions that test as set. -/
theorem count_eq (ws : List Word) : count ws = Nat.count (fun i => test ws i = true) (64 * ws.length) := by
  induction ws with
  | nil => rfl
  | cons w ws ih =>
    have hfirst : Nat.count (fun i => test (w :: ws) i = true) 64 = w.cpop.toNat := by
      rw [cpop_eq_count, Nat.count_eq_card_filter_range, Nat.count_eq_card_filter_range]
      congr 1
      apply Finset.filter_congr
      intro i hi
      have hi : i < 64 := Finset.mem_range.1 hi
      rw [test_eq, Nat.div_eq_of_lt hi, Nat.mod_eq_of_lt hi]
      rfl
    have hrest : ∀ i, test (w :: ws) (64 + i) = test ws i := by
      intro i
      rw [test_eq, test_eq]
      have hdiv : (64 + i) / 64 = i / 64 + 1 := by omega
      have hmod : (64 + i) % 64 = i % 64 := by omega
      rw [hdiv, hmod]
      rfl
    rw [List.length_cons, show 64 * (ws.length + 1) = 64 + 64 * ws.length by ring, Nat.count_add, hfirst]
    simp only [hrest, ← ih]
    rfl

/-- The set positions as a finite set. -/
def ones (ws : List Word) : Finset ℕ := (Finset.range (64 * ws.length)).filter fun i => test ws i = true

theorem count_eq_card (ws : List Word) : count ws = (ones ws).card := by
  rw [count_eq, Nat.count_eq_card_filter_range]
  rfl

theorem mem_ones {ws : List Word} {i : ℕ} (hi : i / 64 < ws.length) : i ∈ ones ws ↔ test ws i = true := by
  have : i < 64 * ws.length := by omega
  simp [ones, this]

theorem count_set {ws : List Word} {i : ℕ} (hi : i / 64 < ws.length) (hbit : test ws i = false) :
    count (set ws i) = count ws + 1 := by
  have hinsert : ones (set ws i) = insert i (ones ws) := by
    ext j
    simp only [ones, length_set, Finset.mem_filter, Finset.mem_range, Finset.mem_insert, test_set hi,
      Bool.or_eq_true, decide_eq_true_eq]
    constructor
    · rintro ⟨hj, rfl | h⟩
      · exact .inl rfl
      · exact .inr ⟨hj, h⟩
    · rintro (rfl | ⟨hj, h⟩)
      · exact ⟨by omega, .inl rfl⟩
      · exact ⟨hj, .inr h⟩
  rw [count_eq_card, count_eq_card, hinsert, Finset.card_insert_of_notMem]
  rw [mem_ones hi, hbit]
  exact Bool.false_ne_true

theorem count_clear {ws : List Word} {i : ℕ} (hi : i / 64 < ws.length) (hbit : test ws i = true) :
    count (clear ws i) = count ws - 1 := by
  have herase : ones (clear ws i) = (ones ws).erase i := by
    ext j
    simp only [ones, length_clear, Finset.mem_filter, Finset.mem_range, Finset.mem_erase, test_clear,
      Bool.and_eq_true, decide_eq_true_eq]
    tauto
  rw [count_eq_card, count_eq_card, herase, Finset.card_erase_of_mem ((mem_ones hi).2 hbit)]

/-- A count that reaches the number of positions that can be set leaves none of them
clear. -/
theorem test_of_le_count {ws : List Word} {n i : ℕ} (hones : ∀ j, test ws j = true → j < n) (h : n ≤ count ws)
    (hi : i < n) : test ws i = true := by
  have hsub : ones ws ⊆ Finset.range n := by
    intro j hj
    exact Finset.mem_range.2 (hones j (Finset.mem_filter.1 hj).2)
  have hall : ones ws = Finset.range n := by
    apply Finset.eq_of_subset_of_card_le hsub
    rw [Finset.card_range, ← count_eq_card]
    exact h
  have hmem : i ∈ ones ws := by
    rw [hall]
    exact Finset.mem_range.2 hi
  exact (Finset.mem_filter.1 hmem).2

end Xpf.Bitmap
