/-
What a NAT decision adds to a full sum.

Every field of a decision is a run of words in one of the sums of `FrameSums.lean`, so
writing it adds, up to full turns, what the leaf's update for it adds. The updates of a leaf
make one sum as well, when they start from a checksum that is a finished sum
(`natL4Checksum_canonical`).
-/
import Xpf.FrameSums

set_option autoImplicit false

namespace Xpf.Frames

open Xpf.ByteBuffer Xpf.Edits Xpf.Edits.Edit Xpf.OnesComplement Xpf.WordSums

/-! ## What a field adds to a sum -/

section

variable {b : Bytes}

/-- An IPv4 address field in a string that is summed up word by word. -/
theorem wordSum_setAddr4 {i : ℕ} (hi : i % 2 = 0) (h : i + 4 ≤ b.length) (addr : Option Ipv4Addr) :
    Adds wordSum b (setAddr i addr b) ((addrDelta4 b i addr).getD 0) := by
  cases addr with
  | none => exact Adds.refl wordSum b
  | some a =>
    have hlen : (List.ofFn a).length = 4 := List.length_ofFn
    have hw := wordSum_writeAt (b := b) (List.ofFn a) hi (by rw [hlen]) (by omega)
    rw [hlen, ← ofFn_byteAt h] at hw
    have hd := wordsDelta_add (ipv4Words (ipv4At b i)) (ipv4Words a)
    rw [sum_ipv4Words, sum_ipv4Words] at hd
    refine ⟨2, ?_⟩
    change wordSum (writeAt b i (List.ofFn a)) + 65535 * 2
      = wordSum b + wordsDelta (ipv4Words (ipv4At b i)) (ipv4Words a)
    change _ + wordSum (List.ofFn (ipv4At b i)) = _ at hw
    change _ = _ + 65535 * 2 at hd
    omega

/-- The same for IPv6. -/
theorem wordSum_setAddr6 {i : ℕ} (hi : i % 2 = 0) (h : i + 16 ≤ b.length) (addr : Option Ipv6Addr) :
    Adds wordSum b (setAddr i addr b) ((addrDelta6 b i addr).getD 0) := by
  cases addr with
  | none => exact Adds.refl wordSum b
  | some a =>
    have hlen : (List.ofFn a).length = 16 := List.length_ofFn
    have hw := wordSum_writeAt (b := b) (List.ofFn a) hi (by rw [hlen]) (by omega)
    rw [hlen, ← ofFn_byteAt h] at hw
    have hd := wordsDelta_add (ipv6WordsFromOctets (ipv6At b i)) (ipv6WordsFromOctets a)
    rw [sum_ipv6Words, sum_ipv6Words] at hd
    refine ⟨8, ?_⟩
    change wordSum (writeAt b i (List.ofFn a)) + 65535 * 8
      = wordSum b + wordsDelta (ipv6WordsFromOctets (ipv6At b i)) (ipv6WordsFromOctets a)
    change _ + wordSum (List.ofFn (ipv6At b i)) = _ at hw
    change _ = _ + 65535 * 8 at hd
    omega

/-- A word. -/
theorem wordSum_setWord {i : ℕ} (hi : i % 2 = 0) (h : i + 2 ≤ b.length) (v : Option UInt16) :
    Adds wordSum b (setWord i v b) ((wordDelta (get16 b i) v).getD 0) := by
  cases v with
  | none => exact Adds.refl wordSum b
  | some new =>
    rw [wordDelta]
    split_ifs with hne
    · have hw := wordSum_put16 new hi h
      have hd := wordsDelta_add [get16 b i] [new]
      simp only [List.map_cons, List.map_nil, List.sum_cons, List.sum_nil, Nat.add_zero,
        List.length_singleton, Nat.mul_one] at hd
      refine ⟨1, ?_⟩
      change wordSum (put16 b i new) + 65535 * 1 = wordSum b + wordsDelta [get16 b i] [new]
      omega
    · rw [not_not] at hne
      rw [setWord, ← hne, put16_get16]
      exact Adds.refl wordSum b

/-! ### In the packet -/

theorem ipv4At_sub {i n j : ℕ} (h : j + 4 ≤ n) : ipv4At (sub b i n) j = ipv4At b (i + j) := by
  funext k
  have hk := k.isLt
  rw [ipv4At, ipv4At, byteAt_sub _ _ (by omega), Nat.add_assoc]

theorem ipv6At_sub {i n j : ℕ} (h : j + 16 ≤ n) : ipv6At (sub b i n) j = ipv6At b (i + j) := by
  funext k
  have hk := k.isLt
  rw [ipv6At, ipv6At, byteAt_sub _ _ (by omega), Nat.add_assoc]

theorem setAddr_of_sub {m i n j : ℕ} (addr : Option (Fin m → UInt8)) (h : j + m ≤ n) :
    sub (setAddr (i + j) addr b) i n = setAddr j addr (sub b i n) := by
  cases addr with
  | none => rfl
  | some a =>
    have hw : sub (writeAt b (i + j) (List.ofFn a)) i n
        = writeAt (sub b i n) (i + j - i) (List.ofFn a) :=
      sub_writeAt (Nat.le_add_right _ _) (by rw [List.length_ofFn]; omega)
    rw [Nat.add_sub_cancel_left] at hw
    exact hw

theorem drop_setAddr {m i k : ℕ} (addr : Option (Fin m → UInt8)) (h : i + m ≤ k) :
    (setAddr i addr b).drop k = b.drop k := by
  cases addr with
  | none => rfl
  | some a => exact drop_writeAt_of_le (by rw [List.length_ofFn]; exact h)

theorem l4Sum4_eq (protocol : UInt8) (ihl : ℕ) (h : 20 ≤ b.length) :
    l4Sum4 protocol ihl b = wordSum (sub b 12 8)
      + (protocol.toNat + (saturateLen16 (b.length - ihl)).toNat + wordSum (b.drop ihl)) := by
  have hlen : (sub b 12 4).length % 2 = 0 := by rw [length_sub (by omega)]
  rw [l4Sum4, show (8 : ℕ) = 4 + 4 from rfl, sub_append_sub, wordSum_append hlen,
    show 12 + 4 = 16 from rfl]
  omega

theorem l4Sum6_eq (protocol : UInt8) (relL4 : ℕ) (h : 40 ≤ b.length) :
    l4Sum6 protocol relL4 b = wordSum (sub b 8 32)
      + (wordSum (lenWords (b.length - relL4)) + protocol.toNat + wordSum (b.drop relL4)) := by
  have hlen : (sub b 8 16).length % 2 = 0 := by rw [length_sub (by omega)]
  rw [l4Sum6, show (32 : ℕ) = 16 + 16 from rfl, sub_append_sub, wordSum_append hlen,
    show 8 + 16 = 24 from rfl]
  omega

/-- An address in the IPv4 pseudo-header; `j` is its place in the pair. -/
theorem l4Sum4_setAddr (protocol : UInt8) {ihl j : ℕ} (hihl : 20 ≤ ihl) (h : ihl ≤ b.length)
    (hj : j = 0 ∨ j = 4) (addr : Option Ipv4Addr) :
    Adds (l4Sum4 protocol ihl) b (setAddr (12 + j) addr b)
      ((addrDelta4 b (12 + j) addr).getD 0) := by
  have hsub : (sub b 12 8).length = 8 := length_sub (by omega)
  obtain ⟨k, hk⟩ := wordSum_setAddr4 (b := sub b 12 8) (i := j) (by omega) (by omega) addr
  refine ⟨k, ?_⟩
  have hdelta : addrDelta4 (sub b 12 8) j addr = addrDelta4 b (12 + j) addr := by
    rw [addrDelta4, ipv4At_sub (by omega), addrDelta4]
  rw [l4Sum4_eq _ _ (by rw [length_setAddr]; omega), l4Sum4_eq _ _ (by omega), length_setAddr,
    setAddr_of_sub addr (by omega), drop_setAddr addr (by omega), ← hdelta]
  omega

/-- An address in the IPv6 pseudo-header. -/
theorem l4Sum6_setAddr (protocol : UInt8) {relL4 j : ℕ} (hrel : 40 ≤ relL4)
    (h : relL4 ≤ b.length) (hj : j = 0 ∨ j = 16) (addr : Option Ipv6Addr) :
    Adds (l4Sum6 protocol relL4) b (setAddr (8 + j) addr b)
      ((addrDelta6 b (8 + j) addr).getD 0) := by
  have hsub : (sub b 8 32).length = 32 := length_sub (by omega)
  obtain ⟨k, hk⟩ := wordSum_setAddr6 (b := sub b 8 32) (i := j) (by omega) (by omega) addr
  refine ⟨k, ?_⟩
  have hdelta : addrDelta6 (sub b 8 32) j addr = addrDelta6 b (8 + j) addr := by
    rw [addrDelta6, ipv6At_sub (by omega), addrDelta6]
  rw [l4Sum6_eq _ _ (by rw [length_setAddr]; omega), l4Sum6_eq _ _ (by omega), length_setAddr,
    setAddr_of_sub addr (by omega), drop_setAddr addr (by omega), ← hdelta]
  omega

theorem drop_setWord {i k : ℕ} (v : Option UInt16) (h : k ≤ i) :
    (setWord i v b).drop k = setWord (i - k) v (b.drop k) := by
  cases v with
  | none => rfl
  | some w => exact drop_writeAt h

theorem sub_setWord {i j n : ℕ} (v : Option UInt16) (h : j + n ≤ i) :
    sub (setWord i v b) j n = sub b j n := by
  cases v with
  | none => rfl
  | some w => exact sub_writeAt_of_disjoint (.inl h)

theorem get16_drop (b : Bytes) (k i : ℕ) : get16 (b.drop k) i = get16 b (k + i) := by
  rw [get16, get16, byteAt_drop, byteAt_drop, Nat.add_assoc]

/-- A word of the segment. -/
theorem wordSum_drop_setWord {l4 j : ℕ} (hj : j % 2 = 0) (h : l4 + j + 2 ≤ b.length)
    (v : Option UInt16) :
    Adds (fun b => wordSum (b.drop l4)) b (setWord (l4 + j) v b)
      ((wordDelta (get16 b (l4 + j)) v).getD 0) := by
  obtain ⟨k, hk⟩ := wordSum_setWord (b := b.drop l4) hj (by rw [List.length_drop]; omega) v
  refine ⟨k, ?_⟩
  dsimp only
  rw [drop_setWord v (Nat.le_add_right _ _), Nat.add_sub_cancel_left, hk, get16_drop]

theorem l4Sum4_setWord (protocol : UInt8) {ihl j : ℕ} (hihl : 20 ≤ ihl) (hj : j % 2 = 0)
    (h : ihl + j + 2 ≤ b.length) (v : Option UInt16) :
    Adds (l4Sum4 protocol ihl) b (setWord (ihl + j) v b)
      ((wordDelta (get16 b (ihl + j)) v).getD 0) := by
  obtain ⟨k, hk⟩ := wordSum_drop_setWord hj h v
  refine ⟨k, ?_⟩
  dsimp only at hk
  rw [l4Sum4_eq _ _ (by rw [length_setWord]; omega), l4Sum4_eq _ _ (by omega), length_setWord,
    sub_setWord v (by omega)]
  omega

theorem l4Sum6_setWord (protocol : UInt8) {relL4 j : ℕ} (hrel : 40 ≤ relL4) (hj : j % 2 = 0)
    (h : relL4 + j + 2 ≤ b.length) (v : Option UInt16) :
    Adds (l4Sum6 protocol relL4) b (setWord (relL4 + j) v b)
      ((wordDelta (get16 b (relL4 + j)) v).getD 0) := by
  obtain ⟨k, hk⟩ := wordSum_drop_setWord hj h v
  refine ⟨k, ?_⟩
  dsimp only at hk
  rw [l4Sum6_eq _ _ (by rw [length_setWord]; omega), l4Sum6_eq _ _ (by omega), length_setWord,
    sub_setWord v (by omega)]
  omega

end

/-! ## The chain of updates -/

section

variable {protocol : UInt8} {family : ChecksumFamily} {b : Bytes}

theorem updOpt_canonical (s : ℕ) (o : Option ℕ) :
    updOpt protocol family o (canonicalChecksum protocol family (checksum16Finish s))
      = canonicalChecksum protocol family (checksum16Finish (s + o.getD 0)) := by
  cases o with
  | none => rfl
  | some d =>
    have hopt : (l4UdpChecksumOptional protocol family
        && canonicalChecksum protocol family (checksum16Finish s) == 0) = false := by
      rw [Bool.and_eq_false_iff]
      by_cases h : l4UdpChecksumOptional protocol family = true
      · exact .inr (by simpa using canonicalChecksum_ne_zero (zeroIllegal_of_optional h) _)
      · exact .inl (by simpa using h)
    rw [updOpt, upd_of_not_optional hopt, bump_canonical]
    rfl

theorem parity_canonical (nat : NatDecision) (w : UInt16) :
    parity protocol family nat (canonicalChecksum protocol family w)
      = canonicalChecksum protocol family w := by
  rw [parity, if_neg]
  rintro ⟨rfl, rfl, -, h⟩
  exact canonicalChecksum_ne_zero rfl w h

/-- What the L4 fields of a decision add. -/
def natL4Delta (protocol : UInt8) (nat : NatDecision) (l4 : ℕ) (b : Bytes) : ℕ :=
  if hasL4Ports protocol then
    (wordDelta (get16 b l4) nat.rewriteSrcPort).getD 0
      + (wordDelta (get16 b (l4 + 2)) nat.rewriteDstPort).getD 0
  else (wordDelta (get16 b (l4 + 4)) (natIdent nat l4 b)).getD 0

/-- **The chain as one sum**, started from a finished sum. -/
theorem natL4Checksum_canonical (nat : NatDecision) (l4 s : ℕ) :
    natL4Checksum protocol family nat l4 b (canonicalChecksum protocol family (checksum16Finish s))
      = canonicalChecksum protocol family
          (checksum16Finish (s + natL4Delta protocol nat l4 b)) := by
  rw [natL4Checksum, natL4Delta]
  split_ifs
  · rw [natPortsChecksum, updOpt_canonical, updOpt_canonical, parity_canonical, Nat.add_assoc]
  · rw [updOpt_canonical]

theorem natAddrsChecksum_canonical (src dst : Option ℕ) (s : ℕ) :
    natAddrsChecksum protocol family src dst
        (canonicalChecksum protocol family (checksum16Finish s))
      = canonicalChecksum protocol family
          (checksum16Finish (s + (src.getD 0 + dst.getD 0))) := by
  rw [natAddrsChecksum, updOpt_canonical, updOpt_canonical, Nat.add_assoc]

/-- The L4 fields in any sum over the segment. -/
theorem adds_natL4Fields (protocol : UInt8) {F : Bytes → ℕ} {l4 : ℕ}
    (hF : ∀ (b : Bytes) (j : ℕ) (v : Option UInt16), j % 2 = 0 → l4 + j + 2 ≤ b.length →
      Adds F b (setWord (l4 + j) v b) ((wordDelta (get16 b (l4 + j)) v).getD 0))
    (nat : NatDecision) (hlen : l4 + 4 ≤ b.length) :
    Adds F b (natL4Fields protocol nat l4 b) (natL4Delta protocol nat l4 b) := by
  rw [natL4Fields, natL4Delta]
  split_ifs
  · have hsrc := hF b 0 nat.rewriteSrcPort rfl (by omega)
    have hdst := hF (setWord l4 nat.rewriteSrcPort b) 2 nat.rewriteDstPort rfl
      (by rw [length_setWord]; omega)
    rw [get16_setWord_of_disjoint _ (by omega)] at hdst
    exact hsrc.trans hdst
  · cases hident : natIdent nat l4 b with
    | none => exact Adds.refl F b
    | some v =>
      rw [natIdent] at hident
      split_ifs at hident with h
      exact hF b 4 (some v) rfl (by omega)

/-- The L4 fields are behind the addresses. -/
theorem natL4Delta_setAddr {n i l4 : ℕ} (nat : NatDecision) (addr : Option (Fin n → UInt8))
    (h : i + n ≤ l4) :
    natL4Delta protocol nat l4 (setAddr i addr b) = natL4Delta protocol nat l4 b := by
  rw [natL4Delta, natL4Delta, natIdent, natIdent, get16_setAddr_of_disjoint addr (by omega),
    get16_setAddr_of_disjoint addr (by omega), get16_setAddr_of_disjoint addr (by omega),
    byteAt_setAddr_of_disjoint addr (by omega), length_setAddr]

theorem addrDelta4_setAddr {n i j : ℕ} (addr : Option (Fin n → UInt8)) (new : Option Ipv4Addr)
    (h : j + 4 ≤ i ∨ i + n ≤ j) : addrDelta4 (setAddr i addr b) j new = addrDelta4 b j new := by
  have hat : ipv4At (setAddr i addr b) j = ipv4At b j := by
    funext k
    have hk := k.isLt
    exact byteAt_setAddr_of_disjoint addr (by omega)
  rw [addrDelta4, addrDelta4, hat]

theorem addrDelta6_setAddr {n i j : ℕ} (addr : Option (Fin n → UInt8)) (new : Option Ipv6Addr)
    (h : j + 16 ≤ i ∨ i + n ≤ j) : addrDelta6 (setAddr i addr b) j new = addrDelta6 b j new := by
  have hat : ipv6At (setAddr i addr b) j = ipv6At b j := by
    funext k
    have hk := k.isLt
    exact byteAt_setAddr_of_disjoint addr (by omega)
  rw [addrDelta6, addrDelta6, hat]

/-! ### The checksum field is none of the fields -/

variable {d : ℕ}

theorem natIdent_put16 {l4 off : ℕ} {c : UInt16} (nat : NatDecision) (h : l4 < off) :
    natIdent nat l4 (put16 b off c) = natIdent nat l4 b := by
  rw [natIdent, natIdent, length_put16, byteAt_put16_of_disjoint (.inl h)]

theorem natL4Fields_put16 {l4 : ℕ} (hd : l4ChecksumFieldDeltaV6 protocol = some d)
    (nat : NatDecision) (c : UInt16) :
    natL4Fields protocol nat l4 (put16 b (l4 + d) c)
      = put16 (natL4Fields protocol nat l4 b) (l4 + d) c := by
  rw [natL4Fields, natL4Fields]
  rcases fieldDeltaV6_cases hd with h | ⟨rfl, rfl⟩
  · have hports : hasL4Ports protocol = true := by
      rcases fieldDeltaV4_cases h with ⟨rfl, -⟩ | ⟨rfl, -⟩ <;> rfl
    have hge : 6 ≤ d := by
      rcases fieldDeltaV4_cases h with ⟨-, rfl⟩ | ⟨-, rfl⟩ <;> omega
    rw [if_pos hports, if_pos hports, natPorts, setWord_put16 _ (by omega),
      setWord_put16 _ (by omega), natPorts]
  · rw [if_neg (by decide), if_neg (by decide), natIdent_put16 _ (by omega),
      setWord_put16 _ (by omega)]

theorem natL4Delta_put16 {l4 : ℕ} (hd : l4ChecksumFieldDeltaV6 protocol = some d)
    (nat : NatDecision) (c : UInt16) :
    natL4Delta protocol nat l4 (put16 b (l4 + d) c) = natL4Delta protocol nat l4 b := by
  rw [natL4Delta, natL4Delta]
  rcases fieldDeltaV6_cases hd with h | ⟨rfl, rfl⟩
  · have hports : hasL4Ports protocol = true := by
      rcases fieldDeltaV4_cases h with ⟨rfl, -⟩ | ⟨rfl, -⟩ <;> rfl
    have hge : 6 ≤ d := by
      rcases fieldDeltaV4_cases h with ⟨-, rfl⟩ | ⟨-, rfl⟩ <;> omega
    rw [if_pos hports, if_pos hports, get16_put16_of_disjoint (by omega),
      get16_put16_of_disjoint (by omega)]
  · rw [if_neg (by decide), if_neg (by decide), natIdent_put16 _ (by omega),
      get16_put16_of_disjoint (by omega)]

end

end Xpf.Frames
