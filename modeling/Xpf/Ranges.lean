/-
`Ranges.lean` -- sets of numbers as lists of ranges.

A range is half open: `(a, b)` holds `a, …, b - 1`. `Normal` is the one way to write a
set: the ranges are not empty, and from each to the next a number is left out, so they
are sorted, disjoint and not even adjacent. `coalesce` brings ranges that are sorted by
their start into that form. Nothing here mentions a program.
-/
import Mathlib.Data.Finset.Card
import Mathlib.Data.List.Basic
import Mathlib.Data.List.Sort
import Mathlib.Order.Basic

set_option autoImplicit false

namespace Xpf.Ranges

/-- The numbers from the first up to, not including, the second. -/
abbrev Range := ℕ × ℕ

/-- A range of the list holds `x`. -/
def Covers (rs : List Range) (x : ℕ) : Prop := ∃ r ∈ rs, r.1 ≤ x ∧ x < r.2

/-- Sorted, disjoint, not adjacent, none empty. -/
structure Normal (rs : List Range) : Prop where
  nonempty : ∀ r ∈ rs, r.1 < r.2
  apart : rs.Pairwise fun a b => a.2 < b.1

/-- `cur`, grown by what touches it, and the ranges behind it. -/
def coalesce : Range → List Range → List Range
  | cur, [] => [cur]
  | cur, nxt :: rest =>
    if nxt.1 ≤ cur.2 then coalesce (cur.1, max cur.2 nxt.2) rest else cur :: coalesce nxt rest

/-- The one way to write what ranges in any order cover. -/
def normalized (rs : List Range) : List Range :=
  match rs.insertionSort (fun a b => a.1 ≤ b.1) with
  | [] => []
  | cur :: rest => coalesce cur rest

/-! ## Covering -/

theorem covers_cons {r : Range} {rs : List Range} {x : ℕ} :
    Covers (r :: rs) x ↔ (r.1 ≤ x ∧ x < r.2) ∨ Covers rs x := by
  simp only [Covers, List.mem_cons, or_and_right, exists_or, exists_eq_left]

theorem covers_nil {x : ℕ} : ¬Covers [] x := by
  rintro ⟨r, hr, -⟩
  exact absurd hr List.not_mem_nil

theorem covers_append {rs ss : List Range} {x : ℕ} :
    Covers (rs ++ ss) x ↔ Covers rs x ∨ Covers ss x := by
  simp only [Covers, List.mem_append, or_and_right, exists_or]

theorem covers_perm {rs ss : List Range} (h : rs.Perm ss) (x : ℕ) : Covers rs x ↔ Covers ss x := by
  simp only [Covers, h.mem_iff]

/-! ## Coalescing -/

theorem coalesce_covers {x : ℕ} : ∀ {rest : List Range} {cur : Range}, cur.1 < cur.2 →
    (∀ r ∈ rest, r.1 < r.2) → (cur :: rest).Pairwise (fun a b => a.1 ≤ b.1) →
    (Covers (coalesce cur rest) x ↔ Covers (cur :: rest) x) := by
  intro rest
  induction rest with
  | nil => exact fun _ _ _ => Iff.rfl
  | cons nxt rest ih =>
    intro cur hcur hrest hsorted
    obtain ⟨hfirst, hsorted'⟩ := List.pairwise_cons.mp hsorted
    have hnxt := hrest nxt List.mem_cons_self
    have hrest' := fun r hr => hrest r (List.mem_cons_of_mem _ hr)
    rw [coalesce]
    split_ifs with htouch
    · have hgrown : ((cur.1, max cur.2 nxt.2) :: rest).Pairwise fun a b => a.1 ≤ b.1 :=
        List.pairwise_cons.mpr
          ⟨fun r hr => hfirst r (List.mem_cons_of_mem _ hr), (List.pairwise_cons.mp hsorted').2⟩
      rw [ih (by dsimp only; omega) hrest' hgrown, covers_cons, covers_cons,
        covers_cons]
      -- the two ranges touch, so together they are one
      have hle := hfirst nxt List.mem_cons_self
      have hunion : (cur.1 ≤ x ∧ x < max cur.2 nxt.2)
          ↔ (cur.1 ≤ x ∧ x < cur.2) ∨ (nxt.1 ≤ x ∧ x < nxt.2) := by
        omega
      rw [← or_assoc, ← hunion]
    · rw [covers_cons, covers_cons, ih hnxt hrest' hsorted']

/-- Coalescing keeps the first start. -/
theorem coalesce_start : ∀ (rest : List Range) (cur : Range),
    ∃ hi tail, coalesce cur rest = (cur.1, hi) :: tail := by
  intro rest
  induction rest with
  | nil => exact fun cur => ⟨cur.2, [], rfl⟩
  | cons nxt rest ih =>
    intro cur
    rw [coalesce]
    split_ifs
    · exact ih (cur.1, max cur.2 nxt.2)
    · exact ⟨cur.2, _, rfl⟩

theorem coalesce_starts {lo : ℕ} : ∀ {rest : List Range} {cur : Range}, lo ≤ cur.1 →
    (∀ r ∈ rest, lo ≤ r.1) → ∀ r ∈ coalesce cur rest, lo ≤ r.1 := by
  intro rest
  induction rest with
  | nil =>
    intro cur hcur _ r hr
    rw [List.mem_singleton.mp hr]
    exact hcur
  | cons nxt rest ih =>
    intro cur hcur hrest
    have hrest' := fun r hr => hrest r (List.mem_cons_of_mem _ hr)
    rw [coalesce]
    split_ifs
    · exact ih hcur hrest'
    · intro r hr
      rcases List.mem_cons.mp hr with rfl | hr
      · exact hcur
      · exact ih (hrest nxt List.mem_cons_self) hrest' r hr

theorem coalesce_normal : ∀ {rest : List Range} {cur : Range}, cur.1 < cur.2 →
    (∀ r ∈ rest, r.1 < r.2) → (cur :: rest).Pairwise (fun a b => a.1 ≤ b.1) →
    Normal (coalesce cur rest) := by
  intro rest
  induction rest with
  | nil =>
    intro cur hcur _ _
    refine ⟨fun r hr => ?_, List.pairwise_singleton _ _⟩
    rw [List.mem_singleton.mp hr]
    exact hcur
  | cons nxt rest ih =>
    intro cur hcur hrest hsorted
    obtain ⟨hfirst, hsorted'⟩ := List.pairwise_cons.mp hsorted
    have hnxt := hrest nxt List.mem_cons_self
    have hrest' := fun r hr => hrest r (List.mem_cons_of_mem _ hr)
    rw [coalesce]
    split_ifs with htouch
    · refine ih (by dsimp only; omega) hrest' (List.pairwise_cons.mpr ⟨?_, ?_⟩)
      · exact fun r hr => hfirst r (List.mem_cons_of_mem _ hr)
      · exact (List.pairwise_cons.mp hsorted').2
    · have hnormal := ih hnxt hrest' hsorted'
      refine ⟨fun r hr => ?_, List.pairwise_cons.mpr ⟨fun r hr => ?_, hnormal.apart⟩⟩
      · rcases List.mem_cons.mp hr with rfl | hr
        · exact hcur
        · exact hnormal.nonempty r hr
      · have hstart := coalesce_starts (Nat.le_refl nxt.1) (List.pairwise_cons.mp hsorted').1 r hr
        omega

/-- Every end of a coalesced range is an end of one of the ranges. -/
theorem coalesce_ends : ∀ {rest : List Range} {cur : Range}, ∀ r ∈ coalesce cur rest,
    (∃ a ∈ cur :: rest, r.1 = a.1) ∧ ∃ b ∈ cur :: rest, r.2 = b.2 := by
  intro rest
  induction rest with
  | nil =>
    intro cur r hr
    rw [List.mem_singleton.mp hr]
    exact ⟨⟨cur, List.mem_cons_self, rfl⟩, cur, List.mem_cons_self, rfl⟩
  | cons nxt rest ih =>
    intro cur r hr
    have hin : ∀ a ∈ nxt :: rest, a ∈ cur :: nxt :: rest := fun a ha => List.mem_cons_of_mem _ ha
    rw [coalesce] at hr
    split_ifs at hr
    · obtain ⟨⟨a, ha, hstart⟩, b, hb, hstop⟩ := ih r hr
      refine ⟨?_, ?_⟩
      · rcases List.mem_cons.mp ha with rfl | ha
        · exact ⟨cur, List.mem_cons_self, hstart⟩
        · exact ⟨a, hin a (List.mem_cons_of_mem _ ha), hstart⟩
      · rcases List.mem_cons.mp hb with rfl | hb
        · rcases max_choice cur.2 nxt.2 with hmax | hmax
          · exact ⟨cur, List.mem_cons_self, hstop.trans hmax⟩
          · exact ⟨nxt, hin nxt List.mem_cons_self, hstop.trans hmax⟩
        · exact ⟨b, hin b (List.mem_cons_of_mem _ hb), hstop⟩
    · rcases List.mem_cons.mp hr with rfl | hr
      · exact ⟨⟨r, List.mem_cons_self, rfl⟩, r, List.mem_cons_self, rfl⟩
      · obtain ⟨⟨a, ha, hstart⟩, b, hb, hstop⟩ := ih r hr
        exact ⟨⟨a, hin a ha, hstart⟩, b, hin b hb, hstop⟩

/-! ## The normal form -/

section Normalize

variable {rs : List Range}

theorem normalized_eq (rs : List Range) : (rs = [] ∧ normalized rs = [])
    ∨ ∃ cur rest, rs.Perm (cur :: rest) ∧ (cur :: rest).Pairwise (fun a b => a.1 ≤ b.1)
      ∧ normalized rs = coalesce cur rest := by
  have hperm := List.perm_insertionSort (fun a b : Range => a.1 ≤ b.1) rs
  have hsorted : (rs.insertionSort fun a b => a.1 ≤ b.1).Pairwise fun a b => a.1 ≤ b.1 :=
    have : Std.Total fun a b : Range => a.1 ≤ b.1 := ⟨fun a b => Nat.le_total a.1 b.1⟩
    have : IsTrans Range fun a b => a.1 ≤ b.1 := ⟨fun _ _ _ => Nat.le_trans⟩
    List.pairwise_insertionSort _ rs
  unfold normalized
  cases hsort : rs.insertionSort fun a b => a.1 ≤ b.1 with
  | nil =>
    rw [hsort] at hperm
    exact .inl ⟨hperm.symm.eq_nil, rfl⟩
  | cons cur rest =>
    rw [hsort] at hperm hsorted
    exact .inr ⟨cur, rest, hperm.symm, hsorted, rfl⟩

theorem normalized_normal (h : ∀ r ∈ rs, r.1 < r.2) : Normal (normalized rs) := by
  rcases normalized_eq rs with ⟨-, heq⟩ | ⟨cur, rest, hperm, hsorted, heq⟩
  · rw [heq]
    exact ⟨fun r hr => absurd hr List.not_mem_nil, List.Pairwise.nil⟩
  · rw [heq]
    refine coalesce_normal (h cur (hperm.mem_iff.2 List.mem_cons_self)) (fun r hr => ?_) hsorted
    exact h r (hperm.mem_iff.2 (List.mem_cons_of_mem _ hr))

theorem covers_normalized (h : ∀ r ∈ rs, r.1 < r.2) (x : ℕ) : Covers (normalized rs) x ↔ Covers rs x := by
  rcases normalized_eq rs with ⟨rfl, heq⟩ | ⟨cur, rest, hperm, hsorted, heq⟩
  · rw [heq]
  · rw [heq, covers_perm hperm]
    refine coalesce_covers (h cur (hperm.mem_iff.2 List.mem_cons_self)) (fun r hr => ?_) hsorted
    exact h r (hperm.mem_iff.2 (List.mem_cons_of_mem _ hr))

theorem normalized_ends : ∀ r ∈ normalized rs, (∃ a ∈ rs, r.1 = a.1) ∧ ∃ b ∈ rs, r.2 = b.2 := by
  intro r hr
  rcases normalized_eq rs with ⟨-, heq⟩ | ⟨cur, rest, hperm, -, heq⟩
  · rw [heq] at hr
    exact absurd hr List.not_mem_nil
  · rw [heq] at hr
    obtain ⟨⟨a, ha, hstart⟩, b, hb, hstop⟩ := coalesce_ends r hr
    exact ⟨⟨a, hperm.mem_iff.2 ha, hstart⟩, b, hperm.mem_iff.2 hb, hstop⟩

/-- The ends of normal ranges are all different, so `n` of them need `2 * n` points. -/
theorem Normal.two_mul_length_le (h : Normal rs) {points : Finset ℕ}
    (hpoints : ∀ r ∈ rs, r.1 ∈ points ∧ r.2 ∈ points) : 2 * rs.length ≤ points.card := by
  have hlength : ∀ rs : List Range, (rs.flatMap fun r => [r.1, r.2]).length = 2 * rs.length := by
    intro rs
    induction rs with
    | nil => rfl
    | cons r rs ih =>
      rw [List.flatMap_cons, List.length_append, ih, List.length_cons]
      simp only [List.length_cons, List.length_nil]
      omega
  have hsorted : (rs.flatMap fun r => [r.1, r.2]).Pairwise (· < ·) := by
    clear hpoints
    induction rs with
    | nil => exact List.Pairwise.nil
    | cons r rs ih =>
      obtain ⟨hfirst, hapart⟩ := List.pairwise_cons.mp h.apart
      have hr := h.nonempty r List.mem_cons_self
      have hrest := ih ⟨fun s hs => h.nonempty s (List.mem_cons_of_mem _ hs), hapart⟩
      have hbehind : ∀ x ∈ rs.flatMap fun r => [r.1, r.2], r.2 < x := by
        intro x hx
        obtain ⟨s, hs, hxs⟩ := List.mem_flatMap.mp hx
        have hrs := hfirst s hs
        have hs' := h.nonempty s (List.mem_cons_of_mem _ hs)
        simp only [List.mem_cons, List.not_mem_nil, or_false] at hxs
        omega
      rw [List.flatMap_cons, List.cons_append, List.cons_append, List.nil_append]
      refine List.pairwise_cons.mpr ⟨?_, List.pairwise_cons.mpr ⟨hbehind, hrest⟩⟩
      intro x hx
      rcases List.mem_cons.mp hx with rfl | hx
      · exact hr
      · exact hr.trans (hbehind x hx)
  have hnodup : (rs.flatMap fun r => [r.1, r.2]).Nodup := hsorted.imp Nat.ne_of_lt
  rw [← hlength, ← List.toFinset_card_of_nodup hnodup]
  apply Finset.card_le_card
  intro x hx
  obtain ⟨r, hr, hxr⟩ := List.mem_flatMap.mp (List.mem_toFinset.mp hx)
  have := hpoints r hr
  simp only [List.mem_cons, List.not_mem_nil, or_false] at hxr
  rcases hxr with rfl | rfl
  · exact this.1
  · exact this.2

/-- Normal ranges that cover the numbers below `n` and no others are one range. -/
theorem Normal.eq_singleton (h : Normal rs) {n : ℕ} (hn : 0 < n) (hcovers : ∀ x, Covers rs x ↔ x < n) :
    rs = [(0, n)] := by
  cases rs with
  | nil => exact absurd ((hcovers 0).2 hn) covers_nil
  | cons r rs =>
    obtain ⟨hfirst, -⟩ := List.pairwise_cons.mp h.apart
    have hr := h.nonempty r List.mem_cons_self
    -- nothing behind the first range holds a number as small as its stop
    have hout : ∀ x, x ≤ r.2 → Covers (r :: rs) x → r.1 ≤ x ∧ x < r.2 := by
      intro x hx hcov
      rcases covers_cons.mp hcov with hin | ⟨s, hs, hsx⟩
      · exact hin
      · have := hfirst s hs
        omega
    have hstart : r.1 = 0 := by
      have := hout 0 (Nat.zero_le _) ((hcovers 0).2 hn)
      omega
    have hstop : r.2 = n := by
      have hge : ¬ r.2 < n := fun hlt => by
        have := hout r.2 (Nat.le_refl _) ((hcovers r.2).2 hlt)
        omega
      have hle : r.2 - 1 < n := (hcovers (r.2 - 1)).1 (covers_cons.mpr (.inl (by omega)))
      omega
    have hnone : rs = [] := by
      cases rs with
      | nil => rfl
      | cons s rs =>
        have hs := h.nonempty s (List.mem_cons_of_mem _ List.mem_cons_self)
        have hrs := hfirst s List.mem_cons_self
        have : s.1 < n := (hcovers s.1).1 (covers_cons.mpr (.inr (covers_cons.mpr (.inl ⟨Nat.le_refl _, hs⟩))))
        omega
    rw [hnone, ← hstop, ← hstart]

end Normalize

end Xpf.Ranges
