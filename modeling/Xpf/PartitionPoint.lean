/-
`PartitionPoint.lean` -- binary search for the end of a front part.

`slice::partition_point`: how many items in front satisfy a predicate, when those that do
all stand in front of those that do not. The loop halves a window `base, …, base + size`
and keeps two facts: in front of the window and at its start the predicate holds (unless
the window starts the list), and at its end it does not (unless it ends the list).
-/
import Xpf.Loop
import Mathlib.Data.List.Basic

set_option autoImplicit false

namespace Xpf.PartitionPoint

open Xpf.Loop

variable {α : Type*}

/-- The predicate at an index. -/
def holdsAt (pred : α → Bool) (xs : List α) (i : ℕ) : Bool := xs[i]?.any pred

/-- One round: the state is the size of the window and its start. -/
def searchStep (pred : α → Bool) (xs : List α) (s : ℕ × ℕ) : (ℕ × ℕ) ⊕ ℕ :=
  if 1 < s.1 then
    let half := s.1 / 2
    let mid := s.2 + half
    .inl (s.1 - half, if holdsAt pred xs mid then mid else s.2)
  else .inr s.2

/-- `partition_point`. -/
def partitionPoint (pred : α → Bool) (xs : List α) : ℕ :=
  if xs.length = 0 then 0
  else
    let base := run (searchStep pred xs) (·.2) (·.1) (xs.length, 0)
    base + if holdsAt pred xs base then 1 else 0

/-- The items that satisfy the predicate stand in front of those that do not. -/
def Partitioned (pred : α → Bool) (xs : List α) : Prop :=
  xs.Pairwise fun a b => pred b = true → pred a = true

variable {pred : α → Bool} {xs : List α}

theorem Partitioned.holdsAt_mono (h : Partitioned pred xs) {i j : ℕ} (hij : i ≤ j)
    (hj : holdsAt pred xs j = true) : holdsAt pred xs i = true := by
  obtain ⟨b, hb, hpred⟩ := Option.any_eq_true _ _ |>.mp hj
  obtain ⟨hlt, rfl⟩ := List.getElem?_eq_some_iff.mp hb
  rcases Nat.lt_or_eq_of_le hij with hij | rfl
  · rw [holdsAt, List.getElem?_eq_getElem (Nat.lt_trans hij hlt), Option.any_some]
    exact List.pairwise_iff_getElem.mp h i j _ hlt hij hpred
  · exact hj

theorem searchStep_dec (s s' : ℕ × ℕ) (h : searchStep pred xs s = .inl s') : s'.1 < s.1 := by
  rw [searchStep] at h
  split_ifs at h with hsize
  obtain rfl := Sum.inl.inj h
  dsimp only
  omega

/-- The loop ends on an index where the predicate holds, unless it is the first, and
behind which it does not. -/
theorem search_spec (hpart : Partitioned pred xs) (s : ℕ × ℕ) (hpos : 0 < s.1)
    (hlow : s.2 = 0 ∨ holdsAt pred xs s.2 = true) (hhigh : ∀ i, s.2 + s.1 ≤ i → holdsAt pred xs i = false) :
    (run (searchStep pred xs) (·.2) (·.1) s = 0
        ∨ holdsAt pred xs (run (searchStep pred xs) (·.2) (·.1) s) = true)
      ∧ ∀ i, run (searchStep pred xs) (·.2) (·.1) s < i → holdsAt pred xs i = false := by
  refine run_induct (motive := fun s b => 0 < s.1 → (s.2 = 0 ∨ holdsAt pred xs s.2 = true) →
    (∀ i, s.2 + s.1 ≤ i → holdsAt pred xs i = false) →
    (b = 0 ∨ holdsAt pred xs b = true) ∧ ∀ i, b < i → holdsAt pred xs i = false) searchStep_dec ?_ ?_ s
    hpos hlow hhigh
  · intro s b h hpos hlow hhigh
    rw [searchStep] at h
    split_ifs at h with hsize
    obtain rfl := Sum.inr.inj h
    exact ⟨hlow, fun i hi => hhigh i (by omega)⟩
  · intro s s' b h ih hpos hlow hhigh
    rw [searchStep] at h
    split_ifs at h with hsize
    obtain rfl := Sum.inl.inj h
    dsimp only at ih
    by_cases hmid : holdsAt pred xs (s.2 + s.1 / 2) = true
    · rw [if_pos hmid] at ih
      exact ih (by omega) (.inr hmid) fun i hi => hhigh i (by omega)
    · -- the middle fails, and with it everything behind
      rw [if_neg hmid] at ih
      refine ih (by omega) hlow fun i hi => ?_
      by_contra hne
      exact hmid (hpart.holdsAt_mono (by omega) (Bool.not_eq_false _ |>.mp hne))

/-- **The partition point** separates the indices where the predicate holds. -/
theorem lt_partitionPoint_iff (hpart : Partitioned pred xs) (i : ℕ) :
    i < partitionPoint pred xs ↔ holdsAt pred xs i = true := by
  rw [partitionPoint]
  by_cases hnil : xs.length = 0
  · rw [if_pos hnil, holdsAt, List.getElem?_eq_none (by omega)]
    simp
  · rw [if_neg hnil]
    dsimp only
    obtain ⟨hlow, hhigh⟩ := search_spec hpart (xs.length, 0) (by dsimp only; omega) (.inl rfl)
      fun i hi => by rw [holdsAt, List.getElem?_eq_none (by omega), Option.any_none]
    generalize run (searchStep pred xs) (·.2) (·.1) (xs.length, 0) = base at hlow hhigh
    by_cases hbase : holdsAt pred xs base = true
    · rw [if_pos hbase]
      constructor
      · exact fun hi => hpart.holdsAt_mono (by omega) hbase
      · intro hi
        by_contra hlt
        rw [hhigh i (by omega)] at hi
        exact Bool.false_ne_true hi
    · rw [if_neg hbase]
      obtain rfl := hlow.resolve_right hbase
      constructor
      · exact fun hi => absurd hi (Nat.not_lt_zero i)
      · intro hi
        exact absurd (hpart.holdsAt_mono (Nat.zero_le i) hi) hbase

end Xpf.PartitionPoint
