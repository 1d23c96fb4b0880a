/-
`Nptv6Neutral.lean` -- NPTv6 leaves the ones'-complement sum of an address unchanged.

A transport checksum covers both addresses, so a translation that keeps the sum of their
words modulo `0xFFFF` needs no look at the transport header. The precomputed adjustment is
the difference of the two prefix sums (`computeAdjustment_mod`), the rewrite adds it to one
word behind the prefix, and skips the word where the difference is zero anyway. What the
rewrite does to an address is collected in `NeutralRewrite`; an accepted list has no rule
with another adjustment than its own prefixes'.
-/
import Xpf.Nptv6Order
import Mathlib.Algebra.BigOperators.Fin

set_option autoImplicit false

namespace Xpf.Nptv6

open Xpf.OnesComplement

/-! ## Sums of words -/

/-- The sum of the eight words of an address. -/
def wordSum (words : Words) : ℕ := ∑ i, (words i).toNat

theorem wordSum_update (words : Words) (j : Fin 8) (w : UInt16) :
    wordSum (Function.update words j w) + (words j).toNat = wordSum words + w.toNat := by
  have hupd : (fun i => (Function.update words j w i).toNat)
      = Function.update (fun i => (words i).toNat) j w.toNat := by
    funext i
    rcases eq_or_ne i j with rfl | hij
    · simp only [Function.update_self]
    · simp only [Function.update_of_ne hij]
  have hold := Finset.add_sum_erase Finset.univ (fun i => (words i).toNat) (Finset.mem_univ j)
  have hnew := Finset.sum_update_of_mem (Finset.mem_univ j) (fun i => (words i).toNat) w.toNat
  rw [Finset.sdiff_singleton_eq_erase] at hnew
  simp only [wordSum]
  rw [hupd, hnew]
  omega

theorem sumWords_three (p : PrefixWords) :
    sumWords p 3 = (p 0).toNat + (p 1).toNat + (p 2).toNat := by
  simp only [sumWords, show (List.finRange 4).filter (fun i => i.val < 3) = [0, 1, 2] from by decide,
    List.foldl_cons, List.foldl_nil, Nat.zero_add]

theorem sumWords_four (p : PrefixWords) :
    sumWords p 4 = (p 0).toNat + (p 1).toNat + (p 2).toNat + (p 3).toNat := by
  simp only [sumWords, show (List.finRange 4).filter (fun i => i.val < 4) = [0, 1, 2, 3] from by decide,
    List.foldl_cons, List.foldl_nil, Nat.zero_add]

/-- Replacing a prefix changes the sum by the difference of the two prefix sums. -/
theorem wordSum_setPrefix {words : Words} {source : PrefixWords} (target : PrefixWords) {n : ℕ}
    (hn : n = 3 ∨ n = 4) (hsrc : prefixMatches words source n = true) :
    wordSum (setPrefix words target n) + sumWords source n
      = wordSum words + sumWords target n := by
  have hm := prefixMatches_iff.mp hsrc
  have hge : ∀ i : Fin 8, 4 ≤ i.val → setPrefix words target n i = words i :=
    fun i hi => setPrefix_of_ge (by omega)
  have h4 := hge 4 (by decide)
  have h5 := hge 5 (by decide)
  have h6 := hge 6 (by decide)
  have h7 := hge 7 (by decide)
  have h0 : setPrefix words target n 0 = target 0 := setPrefix_of_lt (by decide) (by simp; omega)
  have h1 : setPrefix words target n 1 = target 1 := setPrefix_of_lt (by decide) (by simp; omega)
  have h2 : setPrefix words target n 2 = target 2 := setPrefix_of_lt (by decide) (by simp; omega)
  have w0 : words 0 = source 0 := hm 0 (by simp; omega)
  have w1 : words 1 = source 1 := hm 1 (by simp; omega)
  have w2 : words 2 = source 2 := hm 2 (by simp; omega)
  simp only [wordSum, Fin.sum_univ_eight, h0, h1, h2, h4, h5, h6, h7, w0, w1, w2]
  rcases hn with rfl | rfl
  · have h3 : setPrefix words target 3 3 = words 3 := setPrefix_of_ge (by decide)
    rw [h3, sumWords_three, sumWords_three]
    omega
  · have h3 : setPrefix words target 4 3 = target 3 := setPrefix_of_lt (by decide) (by decide)
    have w3 : words 3 = source 3 := hm 3 (by decide)
    rw [h3, w3, sumWords_four, sumWords_four]
    omega

/-! ## The adjustment -/

/-- **What the adjustment is**: the internal sum less the external one. -/
theorem computeAdjustment_mod (internal external : PrefixWords) (n : ℕ) :
    (sumWords external n + (computeAdjustment internal external n).toNat) % 65535
      = sumWords internal n % 65535 := by
  obtain ⟨hi, himod, -⟩ := foldAll_spec (sumWords internal n)
  obtain ⟨he, hemod, -⟩ := foldAll_spec (sumWords external n)
  obtain ⟨ha, hamod, -⟩ :=
    foldAll_spec (foldAll (sumWords internal n) + (0xFFFF - foldAll (sumWords external n)))
  simp only [computeAdjustment, UInt16.toNat_ofNat']
  omega

/-- A neutral adjustment is a multiple of `0xFFFF`. -/
theorem isZeroAdjustment_mod {adj : UInt16} (h : isZeroAdjustment adj = true) :
    adj.toNat % 65535 = 0 := by
  simp only [isZeroAdjustment, Bool.or_eq_true, beq_iff_eq] at h
  rcases h with rfl | rfl <;> rfl

/-! ## The rewritten address -/

theorem four_le_eight : 4 ≤ 8 := by decide

/-- What a translation does to the words of an address: the matched prefix is replaced, one
word behind it takes the adjustment, every other word stays, and so does the sum. -/
structure NeutralRewrite (source target : PrefixWords) (n : ℕ) (words words' : Words) : Prop where
  matched : ∀ i : Fin 4, i.val < n → words (i.castLE four_le_eight) = source i
  replaced : ∀ i : Fin 4, i.val < n → words' (i.castLE four_le_eight) = target i
  preserved : ∃ j : Fin 8, n ≤ j.val ∧ ∀ i : Fin 8, n ≤ i.val → i ≠ j → words' i = words i
  sum : wordSum words' % 65535 = wordSum words % 65535

/-- **A rewrite with the difference of the prefix sums is neutral.** -/
theorem rewrite_neutral {source target : PrefixWords} {neutral : Bool} {adj : UInt16} {n : ℕ}
    {words words' : Words} (hn : n = 3 ∨ n = 4) (hsrc : prefixMatches words source n = true)
    (hadj : (sumWords target n + adj.toNat) % 65535 = sumWords source n % 65535)
    (hneutral : neutral = true → adj.toNat % 65535 = 0)
    (h : rewrite target neutral adj n words = some words') :
    NeutralRewrite source target n words words' := by
  obtain ⟨-, -, -, j, hj, rfl⟩ := rewrite_eq_some h
  obtain ⟨hjn, -, -⟩ := firstNonFfffIidWord_spec hn hj
  have hother : ∀ i : Fin 8, i ≠ j →
      fixWord neutral adj j (setPrefix words target n) i = setPrefix words target n i := by
    intro i hi
    rw [fixWord]
    split_ifs
    · rfl
    · rw [Function.update_of_ne hi]
  refine ⟨prefixMatches_iff.mp hsrc, ?_, ⟨j, hjn, ?_⟩, ?_⟩
  · intro i hi
    have hij : (i.castLE (by omega) : Fin 8) ≠ j := by
      intro heq
      have : i.val = j.val := congrArg Fin.val heq
      omega
    rw [hother _ hij, setPrefix_of_lt (by simp) (by simpa using hi)]
    rfl
  · intro i hi hij
    rw [hother i hij, setPrefix_of_ge hi]
  · have hprefix := wordSum_setPrefix target hn hsrc
    rw [fixWord]
    split_ifs with hneu
    · -- the two prefixes have one sum, and nothing is left to repair
      have := hneutral hneu
      omega
    · have hupd := wordSum_update (setPrefix words target n) j
        (adjustWord (setPrefix words target n j) adj)
      rw [adjustWord_toNat] at hupd
      omega

/-! ## Every accepted rule -/

/-- A rule carries the adjustment of its own prefixes. -/
theorem ruleOf_adjustment {snap : Nptv6RuleSnapshot} {rule : Nptv6Rule}
    (h : ruleOf snap = some rule) :
    rule.adjustment = computeAdjustment rule.internalPrefix rule.externalPrefix rule.prefixWords := by
  rw [ruleOf.eq_def] at h
  split at h
  · split_ifs at h
    obtain rfl := Option.some.inj h
    rfl
  · cases h

theorem accepted_adjustment {snaps : List Nptv6RuleSnapshot} {st : Nptv6State}
    (h : tryFromSnapshots snaps = .ok st) {rule : Nptv6Rule} (hr : rule ∈ st.inbound) :
    rule.adjustment = computeAdjustment rule.internalPrefix rule.externalPrefix rule.prefixWords := by
  obtain ⟨rules, hmap, -, rfl⟩ := (tryFromSnapshots_ok_iff snaps st).mp h
  have hmem : some rule ∈ snaps.map ruleOf := by
    rw [hmap]
    exact List.mem_map_of_mem hr
  obtain ⟨snap, -, hsnap⟩ := List.mem_map.mp hmem
  exact ruleOf_adjustment hsnap

/-- **NPTv6 is checksum neutral.** For every accepted rule list and zone, an address that
either direction translates has the sum of its words modulo `0xFFFF` unchanged; only the
prefix words of the rule that matched and one adjustment word behind them differ. -/
theorem translate_checksum_neutral {snaps : List Nptv6RuleSnapshot} {st : Nptv6State}
    (h : tryFromSnapshots snaps = .ok st) (zone : String) (addr addr' : Ipv6Addr) :
    (st.translateInboundResult addr zone = (.translated, addr') →
      ∃ rule ∈ st.inbound, rule.zoneMatches zone = true
        ∧ NeutralRewrite rule.externalPrefix rule.internalPrefix rule.prefixWords
            (ipv6ToWords addr) (ipv6ToWords addr'))
    ∧ (st.translateOutboundResult addr zone = (.translated, addr') →
      ∃ rule ∈ st.outbound, rule.zoneMatches zone = true
        ∧ NeutralRewrite rule.internalPrefix rule.externalPrefix rule.prefixWords
            (ipv6ToWords addr) (ipv6ToWords addr')) := by
  have hwf := tryFromSnapshots_spec h
  constructor
  · intro ht
    obtain ⟨rule, hmem, hz, hm, hrw⟩ := lookup_translated ht
    have hsum := computeAdjustment_mod rule.internalPrefix rule.externalPrefix rule.prefixWords
    rw [← accepted_adjustment h hmem] at hsum
    have hnot : (~~~rule.adjustment).toNat = 0xFFFF - rule.adjustment.toNat :=
      UInt16.toNat_not rule.adjustment
    have hlt := UInt16.toNat_lt rule.adjustment
    refine ⟨rule, hmem, hz, rewrite_neutral (hwf.words rule hmem) hm ?_ ?_ hrw⟩
    · rw [hnot]
      omega
    · intro hneu
      have := isZeroAdjustment_mod hneu
      rw [hnot]
      omega
  · intro ht
    obtain ⟨rule, hmem, hz, hm, hrw⟩ := lookup_translated ht
    have hmem' : rule ∈ st.inbound := hwf.same ▸ hmem
    have hsum := computeAdjustment_mod rule.internalPrefix rule.externalPrefix rule.prefixWords
    rw [← accepted_adjustment h hmem'] at hsum
    exact ⟨rule, hmem, hz,
      rewrite_neutral (hwf.words rule hmem') hm hsum isZeroAdjustment_mod hrw⟩

theorem translate_checksum_neutral_oneRule :
    ∃ (st : Nptv6State) (rule : Nptv6Rule), tryFromSnapshots oneRule = .ok st
      ∧ NeutralRewrite rule.internalPrefix rule.externalPrefix rule.prefixWords
          (ipv6ToWords insideHost) (ipv6ToWords outsideHost) := by
  have hout : (match tryFromSnapshots oneRule with
      | .ok st => decide (st.translateOutboundResult insideHost "untrust"
          = (.translated, outsideHost))
      | .error _ => false) = true := by decide +kernel
  cases h : tryFromSnapshots oneRule with
  | error e => rw [h] at hout; cases hout
  | ok st =>
    rw [h] at hout
    obtain ⟨rule, -, -, hrw⟩ := (translate_checksum_neutral h "untrust" insideHost outsideHost).2
      (of_decide_eq_true hout)
    exact ⟨st, rule, rfl, hrw⟩

end Xpf.Nptv6
