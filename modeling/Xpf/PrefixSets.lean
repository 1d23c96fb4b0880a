/-
Prefix sets: `userspace-dp/src/prefix_set.rs` over the prefixes of `prefix.rs`.

A set of at most sixteen prefixes is scanned. A larger one is turned into ranges that are
sorted, merged and searched. The file is written once for both families: `w` is the number
of address bits, 32 or 128, and an address is a `BitVec w`.

That the answer is exact takes three steps: a prefix is a range (`contains_iff_range`),
the merge loop is `Ranges.coalesce` on the sorted ranges (`mergedRanges_coalesce`), and on
ranges in normal form the partition point finds the one that can hold an address
(`contains_ranges`).
-/
import Xpf.Ranges
import Xpf.PartitionPoint
import Mathlib.Data.List.Sort
import Mathlib.Data.List.Dedup
import Mathlib.Data.BitVec

set_option autoImplicit false

namespace Xpf.PrefixSets

open Xpf.Ranges Xpf.PartitionPoint

variable {w : ℕ}

/-! ## Prefixes -/

/-- `mask_v4` and `mask_v6`. -/
def maskOf (w prefixLen : ℕ) : BitVec w :=
  if prefixLen = 0 then 0 else BitVec.allOnes w <<< (w - prefixLen)

/-- `PrefixV4` and `PrefixV6`; the fields are private and the constructors below mask the
address. -/
structure Prefix (w : ℕ) where
  network : BitVec w
  mask : BitVec w
  prefixLen : ℕ
  len_le : prefixLen ≤ w
  mask_eq : mask = maskOf w prefixLen
  network_eq : network &&& mask = network
deriving DecidableEq

/-- `from_net`, and `from_addr_len` of the IPv6 type. -/
def Prefix.fromNet (addr : BitVec w) (prefixLen : ℕ) (h : prefixLen ≤ w) : Prefix w where
  network := addr &&& maskOf w prefixLen
  mask := maskOf w prefixLen
  prefixLen := prefixLen
  len_le := h
  mask_eq := rfl
  network_eq := by rw [BitVec.and_assoc, BitVec.and_self]

/-- `contains` of a prefix. -/
def Prefix.contains (p : Prefix w) (ip : BitVec w) : Bool := (ip &&& p.mask) == p.network

/-- The address starts with the bits of the prefix. -/
def Prefix.Covers (p : Prefix w) (ip : BitVec w) : Prop :=
  ip.toNat / 2 ^ (w - p.prefixLen) = p.network.toNat / 2 ^ (w - p.prefixLen)

/-! ## Sets -/

/-- `PREFIX_SET_LINEAR_MAX`. -/
def prefixSetLinearMax : ℕ := 16

/-- `MAX_PREFIX_SET_RANGES`. -/
def maxPrefixSetRanges : ℕ := 2 ^ 20

/-- `PrefixSetBudgetExceeded`. -/
structure PrefixSetBudgetExceeded where
  ranges : ℕ
  limit : ℕ
deriving DecidableEq

/-- `host_mask`. -/
def hostMask (w prefixLen : ℕ) : BitVec w :=
  if prefixLen = 0 then BitVec.allOnes w
  else if w ≤ prefixLen then 0
  else (1#w <<< (w - prefixLen)) - 1#w

/-- `saturating_add_one`. -/
def saturatingAddOne (x : BitVec w) : BitVec w := if x = BitVec.allOnes w then x else x + 1#w

/-- `PrefixSet`. -/
inductive PrefixSet (w : ℕ) where
  | matchAny
  | matchNone
  | linear (prefixes : List (Prefix w))
  | ranges (ranges : List (BitVec w × BitVec w)) (distinct : ℕ)
deriving DecidableEq

/-- The order of `sort_unstable` on pairs. -/
def pairLe (a b : BitVec w × BitVec w) : Prop := a.1 < b.1 ∨ a.1 = b.1 ∧ a.2 ≤ b.2

instance : DecidableRel (pairLe (w := w)) := fun a b =>
  inferInstanceAs (Decidable (a.1 < b.1 ∨ a.1 = b.1 ∧ a.2 ≤ b.2))

/-- The inclusive range of a prefix. -/
def rangeOf (p : Prefix w) : BitVec w × BitVec w := (p.network, p.network + hostMask w p.prefixLen)

/-- `out.push`, with the budget. -/
def pushRange (out : List (BitVec w × BitVec w)) (r : BitVec w × BitVec w) :
    Except PrefixSetBudgetExceeded (List (BitVec w × BitVec w)) :=
  if maxPrefixSetRanges < out.length + 1 then .error ⟨out.length + 1, maxPrefixSetRanges⟩
  else .ok (r :: out)

/-- One round of the merge loop; `out` has its last range in front. -/
def mergeRange (out : List (BitVec w × BitVec w)) (r : BitVec w × BitVec w) :
    Except PrefixSetBudgetExceeded (List (BitVec w × BitVec w)) :=
  match out with
  | (prevLo, prevHi) :: rest =>
    if r.1 ≤ saturatingAddOne prevHi then
      .ok ((prevLo, if prevHi < r.2 then r.2 else prevHi) :: rest)
    else pushRange out r
  | [] => pushRange out r

/-- `merged_ranges`. -/
def mergedRanges (prefixes : List (Prefix w)) :
    Except PrefixSetBudgetExceeded (List (BitVec w × BitVec w) × ℕ) := do
  let out ← ((prefixes.map rangeOf).insertionSort pairLe).foldlM mergeRange []
  return (out.reverse, (prefixes.map fun p => (p.network, p.prefixLen)).dedup.length)

/-- The two factories, which differ in the set of the empty list. -/
def build (empty : PrefixSet w) (prefixes : List (Prefix w)) :
    Except PrefixSetBudgetExceeded (PrefixSet w) :=
  if prefixes.isEmpty then .ok empty
  else if prefixes.any fun p => p.prefixLen == 0 then .ok .matchAny
  else if prefixes.length ≤ prefixSetLinearMax then .ok (.linear prefixes)
  else do
    let (r, n) ← mergedRanges prefixes
    return .ranges r n

/-- `try_from_prefixes`. -/
def tryFromPrefixes (prefixes : List (Prefix w)) : Except PrefixSetBudgetExceeded (PrefixSet w) :=
  build .matchAny prefixes

/-- `try_from_v3_literals`. -/
def tryFromV3Literals (prefixes : List (Prefix w)) : Except PrefixSetBudgetExceeded (PrefixSet w) :=
  build .matchNone prefixes

/-- `from_prefixes`. -/
def fromPrefixes (prefixes : List (Prefix w)) : PrefixSet w :=
  (tryFromPrefixes prefixes).toOption.getD .matchNone

/-- `from_v3_literals`. -/
def fromV3Literals (prefixes : List (Prefix w)) : PrefixSet w :=
  (tryFromV3Literals prefixes).toOption.getD .matchNone

/-- `contains`. -/
def PrefixSet.contains (s : PrefixSet w) (ip : BitVec w) : Bool :=
  match s with
  | .matchAny => true
  | .matchNone => false
  | .linear v => v.any fun p => p.contains ip
  | .ranges r _ =>
    let idx := partitionPoint (fun t => decide (t.2 < ip)) r
    r[idx]?.any fun t => decide (t.1 ≤ ip)

/-- The stored ranges are sorted, disjoint and not adjacent. -/
def PrefixSet.WellFormed (s : PrefixSet w) : Prop :=
  match s with
  | .ranges r _ => (∀ t ∈ r, t.1 ≤ t.2) ∧ r.Pairwise fun a b => a.2.toNat + 1 < b.1.toNat
  | _ => True

/-! ## A prefix is a range -/

theorem and_maskOf_toNat (x : BitVec w) {prefixLen : ℕ} :
    (x &&& maskOf w prefixLen).toNat = x.toNat / 2 ^ (w - prefixLen) * 2 ^ (w - prefixLen) := by
  rw [maskOf]
  split_ifs with hzero
  · subst hzero
    rw [Nat.sub_zero, Nat.div_eq_of_lt x.isLt, Nat.zero_mul]
    simp
  · have hmask : x &&& BitVec.allOnes w <<< (w - prefixLen)
        = (x >>> (w - prefixLen)) <<< (w - prefixLen) := by
      refine BitVec.eq_of_getLsbD_eq fun i hi => ?_
      rw [BitVec.getLsbD_and, BitVec.getLsbD_shiftLeft, BitVec.getLsbD_shiftLeft,
        BitVec.getLsbD_ushiftRight, BitVec.getLsbD_allOnes]
      by_cases hlow : i < w - prefixLen
      · simp [hlow]
      · rw [show w - prefixLen + (i - (w - prefixLen)) = i by omega]
        simp [hlow, hi]
        omega
    have hle := Nat.div_mul_le_self x.toNat (2 ^ (w - prefixLen))
    have hlt := x.isLt
    rw [hmask, BitVec.toNat_shiftLeft, BitVec.toNat_ushiftRight, Nat.shiftLeft_eq,
      Nat.shiftRight_eq_div_pow, Nat.mod_eq_of_lt (by omega)]

theorem hostMask_toNat {prefixLen : ℕ} :
    (hostMask w prefixLen).toNat = 2 ^ (w - prefixLen) - 1 := by
  rw [hostMask]
  split_ifs with hzero hfull
  · rw [hzero, BitVec.toNat_allOnes, Nat.sub_zero]
  · rw [Nat.sub_eq_zero_of_le hfull]
    rfl
  · have hpow : 2 ^ (w - prefixLen) < 2 ^ w := Nat.pow_lt_pow_right (by omega) (by omega)
    have hpos : 0 < 2 ^ (w - prefixLen) := Nat.two_pow_pos _
    have hone : (1#w).toNat = 1 := BitVec.toNat_one (by omega)
    have hshift : (1#w <<< (w - prefixLen)).toNat = 2 ^ (w - prefixLen) := by
      rw [BitVec.toNat_shiftLeft, hone, Nat.one_shiftLeft, Nat.mod_eq_of_lt hpow]
    rw [BitVec.toNat_sub, hshift, hone,
      show 2 ^ w - 1 + 2 ^ (w - prefixLen) = 2 ^ w + (2 ^ (w - prefixLen) - 1) by omega,
      Nat.add_mod_left, Nat.mod_eq_of_lt (by omega)]

/-- The network address has no bits behind the prefix. -/
theorem network_toNat (p : Prefix w) :
    p.network.toNat / 2 ^ (w - p.prefixLen) * 2 ^ (w - p.prefixLen) = p.network.toNat := by
  rw [← and_maskOf_toNat, ← p.mask_eq, p.network_eq]

theorem contains_iff_covers (p : Prefix w) (ip : BitVec w) : p.contains ip = true ↔ p.Covers ip := by
  rw [Prefix.contains, beq_iff_eq, ← BitVec.toNat_inj, p.mask_eq, and_maskOf_toNat, ← network_toNat p,
    Nat.mul_left_inj (Nat.two_pow_pos _).ne', Prefix.Covers]

/-- The last address of a prefix; the sum does not wrap. -/
theorem rangeOf_toNat (p : Prefix w) :
    (rangeOf p).2.toNat = p.network.toNat + (2 ^ (w - p.prefixLen) - 1) := by
  have hnet := network_toNat p
  have hlt := p.network.isLt
  -- the network is a multiple of the size of the prefix, which divides `2 ^ w`
  have hsplit : 2 ^ w = 2 ^ p.prefixLen * 2 ^ (w - p.prefixLen) := by
    rw [← Nat.pow_add, Nat.add_sub_cancel' p.len_le]
  have hquot : p.network.toNat / 2 ^ (w - p.prefixLen) + 1 ≤ 2 ^ p.prefixLen := by
    refine Nat.lt_of_mul_lt_mul_right (a := 2 ^ (w - p.prefixLen)) ?_
    rw [hnet, ← hsplit]
    exact hlt
  have hroom := Nat.mul_le_mul_right (2 ^ (w - p.prefixLen)) hquot
  rw [Nat.add_mul, hnet, Nat.one_mul, ← hsplit] at hroom
  have hpos := Nat.two_pow_pos (w - p.prefixLen)
  rw [rangeOf, BitVec.toNat_add, hostMask_toNat, Nat.mod_eq_of_lt (by omega)]

/-! ## Ranges of addresses -/

/-- An inclusive range of addresses as a half-open one of numbers. -/
def halfOpen (t : BitVec w × BitVec w) : Range := (t.1.toNat, t.2.toNat + 1)

/-- **A prefix is a range.** -/
theorem covers_iff_range (p : Prefix w) (ip : BitVec w) :
    p.Covers ip ↔ (halfOpen (rangeOf p)).1 ≤ ip.toNat ∧ ip.toNat < (halfOpen (rangeOf p)).2 := by
  have hpos := Nat.two_pow_pos (w - p.prefixLen)
  have hlo : (halfOpen (rangeOf p)).1 = p.network.toNat := rfl
  have hhi : (halfOpen (rangeOf p)).2 = p.network.toNat + 2 ^ (w - p.prefixLen) := by
    rw [halfOpen, rangeOf_toNat]
    omega
  rw [hlo, hhi, Prefix.Covers, Nat.div_eq_iff hpos, network_toNat]
  omega

/-! ## Merging -/

theorem le_saturatingAddOne (x y : BitVec w) : x ≤ saturatingAddOne y ↔ x.toNat ≤ y.toNat + 1 := by
  have hx := x.isLt
  have hy := y.isLt
  rw [saturatingAddOne]
  split_ifs with htop
  · have htop' : y.toNat = 2 ^ w - 1 := by rw [htop, BitVec.toNat_allOnes]
    rw [BitVec.le_def]
    omega
  · have hne : y.toNat ≠ 2 ^ w - 1 := by
      intro h
      exact htop (BitVec.eq_of_toNat_eq (by rw [h, BitVec.toNat_allOnes]))
    have hpos : 0 < w := by
      rcases Nat.eq_zero_or_pos w with rfl | hpos
      · omega
      · exact hpos
    have hone : (1#w).toNat = 1 := BitVec.toNat_one hpos
    rw [BitVec.le_def, BitVec.toNat_add, hone, Nat.mod_eq_of_lt (by omega)]

/-- **The merge loop is `coalesce`.** -/
theorem foldlM_mergeRange : ∀ (todo : List (BitVec w × BitVec w)) (cur : BitVec w × BitVec w)
    (rest out : List (BitVec w × BitVec w)), todo.foldlM mergeRange (cur :: rest) = .ok out →
    out.reverse.map halfOpen
      = rest.reverse.map halfOpen ++ coalesce (halfOpen cur) (todo.map halfOpen) := by
  intro todo
  induction todo with
  | nil =>
    intro cur rest out h
    obtain rfl := Except.ok.inj h
    rw [List.reverse_cons, List.map_append]
    rfl
  | cons r todo ih =>
    intro cur rest out h
    rw [List.foldlM_cons] at h
    rw [List.map_cons, coalesce]
    by_cases htouch : r.1 ≤ saturatingAddOne cur.2
    · have hmerge : mergeRange (cur :: rest) r
          = .ok ((cur.1, if cur.2 < r.2 then r.2 else cur.2) :: rest) := by
        rw [mergeRange]
        exact if_pos htouch
      rw [hmerge] at h
      have htouch' : (halfOpen r).1 ≤ (halfOpen cur).2 := (le_saturatingAddOne _ _).mp htouch
      rw [ih _ _ _ h, if_pos htouch']
      refine congrArg (fun c => rest.reverse.map halfOpen ++ coalesce c (todo.map halfOpen)) ?_
      refine Prod.ext rfl ?_
      dsimp only [halfOpen]
      split_ifs with hgrow
      · rw [BitVec.lt_def] at hgrow
        omega
      · rw [BitVec.lt_def] at hgrow
        omega
    · have hmerge : mergeRange (cur :: rest) r = pushRange (cur :: rest) r := by
        rw [mergeRange]
        exact if_neg htouch
      rw [hmerge, pushRange] at h
      split_ifs at h
      · cases h
      · have htouch' : ¬(halfOpen r).1 ≤ (halfOpen cur).2 := mt (le_saturatingAddOne _ _).mpr htouch
        rw [ih _ _ _ h, if_neg htouch', List.reverse_cons, List.map_append, List.append_assoc]
        rfl

theorem pairLe_total (a b : BitVec w × BitVec w) : pairLe a b ∨ pairLe b a := by
  simp only [pairLe, BitVec.lt_def, BitVec.le_def, ← BitVec.toNat_inj]
  omega

theorem pairLe_trans {a b c : BitVec w × BitVec w} (hab : pairLe a b) (hbc : pairLe b c) :
    pairLe a c := by
  simp only [pairLe, BitVec.lt_def, BitVec.le_def, ← BitVec.toNat_inj] at *
  omega

/-- The ranges of the prefixes as the merge loop sees them. -/
def sortedRanges (prefixes : List (Prefix w)) : List (BitVec w × BitVec w) :=
  (prefixes.map rangeOf).insertionSort pairLe

theorem sortedRanges_starts (prefixes : List (Prefix w)) :
    ((sortedRanges prefixes).map halfOpen).Pairwise fun a b => a.1 ≤ b.1 := by
  have : Std.Total (pairLe (w := w)) := ⟨pairLe_total⟩
  have : IsTrans (BitVec w × BitVec w) pairLe := ⟨fun _ _ _ => pairLe_trans⟩
  refine List.pairwise_map.mpr ((List.pairwise_insertionSort pairLe _).imp fun {a b} h => ?_)
  simp only [pairLe, BitVec.lt_def, ← BitVec.toNat_inj] at h
  dsimp only [halfOpen]
  omega

theorem sortedRanges_nonempty (prefixes : List (Prefix w)) :
    ∀ r ∈ (sortedRanges prefixes).map halfOpen, r.1 < r.2 := by
  intro r hr
  obtain ⟨t, ht, rfl⟩ := List.mem_map.mp hr
  obtain ⟨p, -, rfl⟩ := List.mem_map.mp ((List.mem_insertionSort pairLe).mp ht)
  have h := rangeOf_toNat p
  have hlo : (rangeOf p).1.toNat = p.network.toNat := rfl
  dsimp only [halfOpen]
  omega

theorem sortedRanges_covers (prefixes : List (Prefix w)) (ip : BitVec w) :
    Covers ((sortedRanges prefixes).map halfOpen) ip.toNat ↔ ∃ p ∈ prefixes, p.Covers ip := by
  rw [sortedRanges, covers_perm ((List.perm_insertionSort pairLe _).map halfOpen), Covers]
  simp only [List.mem_map, exists_exists_and_eq_and, covers_iff_range]

/-- **The merged ranges** are in normal form and hold what the prefixes cover. -/
theorem mergedRanges_spec {prefixes : List (Prefix w)} (hne : prefixes ≠ [])
    {r : List (BitVec w × BitVec w)} {n : ℕ} (h : mergedRanges prefixes = .ok (r, n)) :
    Normal (r.map halfOpen)
      ∧ ∀ ip : BitVec w, Covers (r.map halfOpen) ip.toNat ↔ ∃ p ∈ prefixes, p.Covers ip := by
  have hstarts := sortedRanges_starts prefixes
  have hnonempty := sortedRanges_nonempty prefixes
  have hcovers := sortedRanges_covers prefixes
  rw [mergedRanges, ← sortedRanges] at h
  cases hsorted : sortedRanges prefixes with
  | nil =>
    have hlen := congrArg List.length hsorted
    rw [sortedRanges, List.length_insertionSort, List.length_map] at hlen
    exact absurd (List.length_eq_zero_iff.mp hlen) hne
  | cons t rest =>
    rw [hsorted] at h hstarts hnonempty hcovers
    cases hfold : (t :: rest).foldlM mergeRange [] with
    | error e => rw [hfold] at h; cases h
    | ok out =>
      rw [hfold] at h
      obtain ⟨hr, -⟩ := Prod.mk.inj (Except.ok.inj h)
      -- the first range is pushed, and the loop goes on with it as the last one
      have hfirst : rest.foldlM mergeRange [t] = .ok out := by
        rw [List.foldlM_cons] at hfold
        exact hfold
      have hmerged := foldlM_mergeRange rest t [] out hfirst
      rw [hr] at hmerged
      rw [List.map_cons] at hstarts hnonempty hcovers
      have ht := hnonempty _ List.mem_cons_self
      have hrest := fun s hs => hnonempty s (List.mem_cons_of_mem _ hs)
      rw [hmerged]
      refine ⟨coalesce_normal ht hrest hstarts, fun ip => ?_⟩
      exact (coalesce_covers ht hrest hstarts).trans (hcovers ip)

/-! ## Membership -/

/-- **The search** finds the range that holds an address. -/
theorem contains_ranges {r : List (BitVec w × BitVec w)} (hnormal : Normal (r.map halfOpen)) (n : ℕ)
    (ip : BitVec w) :
    (PrefixSet.ranges r n).contains ip = true ↔ Covers (r.map halfOpen) ip.toNat := by
  have hapart := List.pairwise_map.mp hnormal.apart
  have hlohi : ∀ t ∈ r, t.1.toNat ≤ t.2.toNat := by
    intro t ht
    have := hnormal.nonempty _ (List.mem_map_of_mem ht)
    dsimp only [halfOpen] at this
    omega
  have hpart : Partitioned (fun t : BitVec w × BitVec w => decide (t.2 < ip)) r := by
    refine hapart.imp_of_mem fun {a b} _ hb h => ?_
    have := hlohi b hb
    simp only [decide_eq_true_eq, BitVec.lt_def]
    dsimp only [halfOpen] at h
    omega
  have hpoint := lt_partitionPoint_iff hpart
  rw [PrefixSet.contains]
  generalize partitionPoint (fun t : BitVec w × BitVec w => decide (t.2 < ip)) r = idx at hpoint
  rw [Option.any_eq_true]
  simp only [Covers, List.mem_map, exists_exists_and_eq_and, decide_eq_true_eq, halfOpen]
  constructor
  · rintro ⟨t, ht, hle⟩
    refine ⟨t, List.mem_of_getElem? ht, ?_⟩
    have hnot : holdsAt (fun t : BitVec w × BitVec w => decide (t.2 < ip)) r idx ≠ true :=
      fun h => Nat.lt_irrefl idx ((hpoint idx).mpr h)
    rw [holdsAt, ht, Option.any_some, ne_eq, decide_eq_true_eq, BitVec.lt_def] at hnot
    rw [BitVec.le_def] at hle
    omega
  · rintro ⟨t, ht, hlo, hhi⟩
    obtain ⟨i, hi⟩ := List.mem_iff_getElem?.mp ht
    -- the ranges in front end below the address, this one does not
    have hnot : ¬i < idx := by
      rw [hpoint, holdsAt, hi, Option.any_some, decide_eq_true_eq, BitVec.lt_def]
      omega
    have hat : i = idx := by
      by_contra hne
      have hidx : idx < i := by omega
      have hlt := (List.getElem?_eq_some_iff.mp hi).1
      have hbefore := List.pairwise_iff_getElem.mp hapart idx i (by omega) hlt hidx
      have hti : r[i] = t := (List.getElem?_eq_some_iff.mp hi).2
      have hfail := mt (hpoint idx).mpr (Nat.lt_irrefl idx)
      rw [holdsAt, List.getElem?_eq_getElem (by omega), Option.any_some, decide_eq_true_eq,
        BitVec.lt_def] at hfail
      rw [hti] at hbefore
      dsimp only [halfOpen] at hbefore
      omega
    exact ⟨t, hat ▸ hi, by rw [BitVec.le_def]; exact hlo⟩

/-- **What a factory builds** holds exactly the addresses its prefixes cover; what it holds
without prefixes is the factory's own choice. -/
theorem build_spec {empty s : PrefixSet w} {prefixes : List (Prefix w)}
    (hempty : empty = .matchAny ∨ empty = .matchNone) (h : build empty prefixes = .ok s) :
    (∀ ip, s.contains ip = true
        ↔ (prefixes = [] ∧ empty = .matchAny) ∨ ∃ p ∈ prefixes, p.Covers ip)
      ∧ s.WellFormed := by
  rw [build] at h
  split_ifs at h with hnil hzero hfew
  · obtain rfl := Except.ok.inj h
    rw [List.isEmpty_iff] at hnil
    subst hnil
    rcases hempty with rfl | rfl
    · exact ⟨fun ip => ⟨fun _ => .inl ⟨rfl, rfl⟩, fun _ => rfl⟩, trivial⟩
    · refine ⟨fun ip => ⟨fun hf => absurd hf Bool.false_ne_true, ?_⟩, trivial⟩
      rintro (⟨-, h⟩ | ⟨p, hp, -⟩)
      · cases h
      · exact absurd hp List.not_mem_nil
  · -- a prefix of length zero covers every address
    obtain rfl := Except.ok.inj h
    refine ⟨fun ip => ⟨fun _ => .inr ?_, fun _ => rfl⟩, trivial⟩
    obtain ⟨p, hp, hlen⟩ := List.any_eq_true.mp hzero
    refine ⟨p, hp, ?_⟩
    rw [Prefix.Covers, beq_iff_eq.mp hlen, Nat.sub_zero, Nat.div_eq_of_lt ip.isLt,
      Nat.div_eq_of_lt p.network.isLt]
  · obtain rfl := Except.ok.inj h
    rw [List.isEmpty_iff] at hnil
    refine ⟨fun ip => ?_, trivial⟩
    rw [PrefixSet.contains, List.any_eq_true]
    simp only [contains_iff_covers, hnil, false_and, false_or]
  · rw [List.isEmpty_iff] at hnil
    cases hmerged : mergedRanges prefixes with
    | error e => rw [hmerged] at h; cases h
    | ok rn =>
      obtain ⟨r, n⟩ := rn
      rw [hmerged] at h
      obtain rfl := Except.ok.inj h
      obtain ⟨hnormal, hcovers⟩ := mergedRanges_spec hnil hmerged
      refine ⟨fun ip => ?_, fun t ht => ?_, ?_⟩
      · rw [contains_ranges hnormal n, hcovers]
        simp only [hnil, false_and, false_or]
      · have := hnormal.nonempty _ (List.mem_map_of_mem ht)
        dsimp only [halfOpen] at this
        rw [BitVec.le_def]
        omega
      · exact List.pairwise_map.mp hnormal.apart

/-- **Membership is exact.** A set that builds holds an address if and only if one of its
prefixes covers it; without prefixes the legacy factory's holds every address and the
other one's none. Its ranges are sorted, disjoint and not adjacent. -/
theorem contains_exact (prefixes : List (Prefix w)) (s : PrefixSet w) :
    (tryFromPrefixes prefixes = .ok s → fromPrefixes prefixes = s
      ∧ (∀ ip, s.contains ip = true ↔ prefixes = [] ∨ ∃ p ∈ prefixes, p.Covers ip) ∧ s.WellFormed)
    ∧ (tryFromV3Literals prefixes = .ok s → fromV3Literals prefixes = s
      ∧ (∀ ip, s.contains ip = true ↔ ∃ p ∈ prefixes, p.Covers ip) ∧ s.WellFormed) := by
  constructor
  · intro h
    obtain ⟨hcontains, hwf⟩ := build_spec (.inl rfl) h
    refine ⟨by rw [fromPrefixes, h]; rfl, fun ip => ?_, hwf⟩
    rw [hcontains]
    simp only [and_true]
  · intro h
    obtain ⟨hcontains, hwf⟩ := build_spec (.inr rfl) h
    refine ⟨by rw [fromV3Literals, h]; rfl, fun ip => ?_, hwf⟩
    rw [hcontains]
    simp only [reduceCtorEq, and_false, false_or]

/-- Sixteen adjacent /28 and the last address of the family. -/
def manyNets : List (Prefix 32) :=
  Prefix.fromNet 0xFFFFFFFF 32 (by decide)
    :: (List.range 16).map fun i => Prefix.fromNet (BitVec.ofNat 32 (0x0A000000 + 16 * i)) 28 (by decide)

theorem contains_exact_manyNets :
    ∃ s, tryFromPrefixes manyNets = .ok s ∧ s.WellFormed
      ∧ s = .ranges [(0x0A000000, 0x0A0000FF), (0xFFFFFFFF, 0xFFFFFFFF)] 17
      ∧ s.contains 0xFFFFFFFF = true := by
  have hset : tryFromPrefixes manyNets
      = .ok (.ranges [(0x0A000000, 0x0A0000FF), (0xFFFFFFFF, 0xFFFFFFFF)] 17) := by decide +kernel
  obtain ⟨-, hcontains, hwf⟩ := (contains_exact manyNets _).1 hset
  refine ⟨_, hset, hwf, rfl, (hcontains _).mpr (.inr ⟨_, List.mem_cons_self, ?_⟩)⟩
  rfl

end Xpf.PrefixSets
