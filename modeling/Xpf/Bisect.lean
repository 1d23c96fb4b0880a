/-
`Bisect.lean` -- binary search over indices, in the two forms the Go half uses.

`sort.Search` finds the first index below `n` at which a predicate holds, when it goes on
holding from there; a hand-written search narrows `lo, hi` with the predicate true at
`lo` and false at `hi` until they are neighbours. In both the loop keeps what is known of
the two ends and the window between them shrinks.
-/
import Xpf.Loop
import Mathlib.Tactic.SplitIfs
import Mathlib.Tactic.ByContra

set_option autoImplicit false

namespace Xpf.Bisect

open Xpf.Loop

/-! ## The first index at which a predicate holds -/

/-- One round of `sort.Search`: the state is `i, j`. -/
def searchStep (f : ℕ → Bool) (s : ℕ × ℕ) : (ℕ × ℕ) ⊕ ℕ :=
  if s.1 < s.2 then
    let h := (s.1 + s.2) / 2
    .inl (if f h then (s.1, h) else (h + 1, s.2))
  else .inr s.1

/-- `sort.Search`. -/
def search (n : ℕ) (f : ℕ → Bool) : ℕ := run (searchStep f) (·.1) (fun s => s.2 - s.1) (0, n)

theorem searchStep_dec (f : ℕ → Bool) (s s' : ℕ × ℕ) (h : searchStep f s = .inl s') :
    s'.2 - s'.1 < s.2 - s.1 := by
  rw [searchStep] at h
  split_ifs at h with hlt
  obtain rfl := Sum.inl.inj h
  split_ifs
  · dsimp only
    omega
  · dsimp only
    omega

/-- **The index of `sort.Search`**: below it the predicate fails, and from it on to `n`
it holds. -/
theorem search_spec {n : ℕ} {f : ℕ → Bool} (hmono : ∀ i j, i ≤ j → j < n → f i = true → f j = true) :
    search n f ≤ n ∧ (∀ i, i < search n f → f i = false)
      ∧ ∀ i, search n f ≤ i → i < n → f i = true := by
  refine run_induct (motive := fun s b => s.1 ≤ s.2 → s.2 ≤ n → (∀ i, i < s.1 → f i = false) →
    (∀ i, s.2 ≤ i → i < n → f i = true) →
    b ≤ n ∧ (∀ i, i < b → f i = false) ∧ ∀ i, b ≤ i → i < n → f i = true) (searchStep_dec f) ?_ ?_ (0, n)
    (Nat.zero_le _) (Nat.le_refl _) (fun i hi => absurd hi (Nat.not_lt_zero i)) fun i hn hi => by
      dsimp only at hn
      omega
  · intro s b h hle hn hlow hhigh
    rw [searchStep] at h
    split_ifs at h with hlt
    obtain rfl := Sum.inr.inj h
    exact ⟨by omega, hlow, fun i hi => hhigh i (by omega)⟩
  · intro s s' b h ih hle hn hlow hhigh
    rw [searchStep] at h
    split_ifs at h with hlt
    obtain rfl := Sum.inl.inj h
    by_cases hmid : f ((s.1 + s.2) / 2) = true
    · -- it holds in the middle, so from there on
      rw [if_pos hmid] at ih
      apply ih
      · dsimp only
        omega
      · dsimp only
        omega
      · exact hlow
      · exact fun i hi hin => hmono _ i hi hin hmid
    · rw [if_neg hmid] at ih
      apply ih
      · dsimp only
        omega
      · exact hn
      · intro i hi
        dsimp only at hi
        by_contra hne
        exact hmid (hmono i _ (by omega) (by omega) (Bool.not_eq_false _ |>.mp hne))
      · exact hhigh

/-! ## Two neighbours between which a predicate ends -/

/-- One round: the state is `lo, hi`. -/
def bisectStep (p : ℕ → Bool) (s : ℕ × ℕ) : (ℕ × ℕ) ⊕ ℕ :=
  if s.1 + 1 < s.2 then
    let mid := (s.1 + s.2) / 2
    .inl (if p mid then (mid, s.2) else (s.1, mid))
  else .inr s.1

/-- The lower of the neighbours that `lo, hi` end as. -/
def bisect (p : ℕ → Bool) (lo hi : ℕ) : ℕ := run (bisectStep p) (·.1) (fun s => s.2 - s.1) (lo, hi)

theorem bisectStep_dec (p : ℕ → Bool) (s s' : ℕ × ℕ) (h : bisectStep p s = .inl s') :
    s'.2 - s'.1 < s.2 - s.1 := by
  rw [bisectStep] at h
  split_ifs at h with hlt
  obtain rfl := Sum.inl.inj h
  split_ifs
  · dsimp only
    omega
  · dsimp only
    omega

/-- **The last index at which the predicate holds**, when it holds at `lo` and fails
at `hi`. -/
theorem bisect_spec {p : ℕ → Bool} {lo hi : ℕ} (hlt : lo < hi) (hlo : p lo = true) (hhi : p hi = false) :
    bisect p lo hi < hi ∧ p (bisect p lo hi) = true ∧ p (bisect p lo hi + 1) = false := by
  refine run_induct (motive := fun s b => s.1 < s.2 → p s.1 = true → p s.2 = false →
    b < s.2 ∧ p b = true ∧ p (b + 1) = false) (bisectStep_dec p) ?_ ?_ (lo, hi) hlt hlo hhi
  · intro s b h hlt hlo hhi
    rw [bisectStep] at h
    split_ifs at h with hgap
    obtain rfl := Sum.inr.inj h
    have hnext : s.1 + 1 = s.2 := by omega
    exact ⟨hlt, hlo, by rw [hnext]; exact hhi⟩
  · intro s s' b h ih hlt hlo hhi
    rw [bisectStep] at h
    split_ifs at h with hgap
    obtain rfl := Sum.inl.inj h
    by_cases hmid : p ((s.1 + s.2) / 2) = true
    · rw [if_pos hmid] at ih
      exact ih (by dsimp only; omega) hmid hhi
    · rw [if_neg hmid] at ih
      obtain ⟨hb, hpb, hpb'⟩ := ih (by dsimp only; omega) hlo (Bool.not_eq_true _ |>.mp hmid)
      exact ⟨by dsimp only at hb; omega, hpb, hpb'⟩

end Xpf.Bisect
