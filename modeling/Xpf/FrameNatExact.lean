/-
NAT keeps checksums exact.

The NAT leaves never look at a payload: they update both checksums by the words they
replace. Here the updates are compared with what a full recomputation over the rewritten
packet gives. A packet whose checksums are the standard ones, which is to say that
recomputing them changes nothing, is rewritten to the packet with the new fields and both
checksums recomputed. That packet is a standard one again, so the decision that puts the old
fields back gives the old packet, byte for byte.
-/
import Xpf.FrameNatSums
import Xpf.FrameWalk
import Xpf.FrameRewrite

set_option autoImplicit false

namespace Xpf.Frames

open Xpf.ByteBuffer Xpf.Edits Xpf.Edits.Edit Xpf.OnesComplement Xpf.WordSums

/-! ## Recomputation -/

/-- The length of the L4 header without options. -/
def l4HeaderLen (protocol : UInt8) : ℕ :=
  if protocol = PROTO_TCP then 20 else if protocol = PROTO_UDP then 8 else 4

/-- The IPv4 header checksum in full. -/
def recomputeIpv4HeaderChecksum (ihl : ℕ) : Edit Bytes Unit := do
  modify fun b => put16 b 10 0
  let sum ← read fun b => checksum16 (b.take ihl)
  modify fun b => put16 b 10 sum

/-- Both checksums of an IPv4 packet in full. -/
def recomputeBoth4 (protocol : UInt8) : Edit Bytes Unit := do
  let ihl ← read fun b => ipv4Ihl b 0
  recomputeL4ChecksumIpv4 ihl protocol true
  recomputeIpv4HeaderChecksum ihl

/-- The L4 checksum of an IPv4 packet, for the field at `off`. -/
def fullL4Checksum4 (protocol : UInt8) (ihl off : ℕ) (b : Bytes) : UInt16 :=
  canonicalChecksum protocol .v4 (checksum16Finish (l4Sum4 protocol ihl (put16 b off 0)))

/-- The header checksum of an IPv4 packet. -/
def fullHeaderChecksum (ihl : ℕ) (b : Bytes) : UInt16 :=
  checksum16Finish (wordSum ((put16 b 10 0).take ihl))

/-- The L4 checksum of an IPv6 packet, for the field at `off`. -/
def fullL4Checksum6 (protocol : UInt8) (relL4 off : ℕ) (b : Bytes) : UInt16 :=
  canonicalChecksum protocol .v6 (checksum16Finish (l4Sum6 protocol relL4 (put16 b off 0)))

section

variable {protocol : UInt8} {b : Bytes} {d : ℕ}

/-- A recomputed field. -/
theorem recomputeField_run {l4 field headerLen : ℕ} (zeroIllegal : Bool) (sum : Bytes → UInt16)
    (h : headerLen ≤ b.length - l4) (hfield : l4 + field + 2 ≤ b.length) :
    (recomputeField l4 field headerLen zeroIllegal sum).run b
      = (some (), put16 b (l4 + field)
          (if zeroIllegal && sum (put16 b (l4 + field) 0) == 0 then 0xFFFF
            else sum (put16 b (l4 + field) 0))) := by
  rw [recomputeField, require_bind_run, if_pos h, bind_run_some (writeWord_run 0 hfield),
    read_bind_run, writeWord_run _ (by rwa [length_put16]), put16_put16]

theorem recomputeL4ChecksumIpv4_run {ihl : ℕ} (hd : l4ChecksumFieldDeltaV4 protocol = some d)
    (hlen : ihl + l4HeaderLen protocol ≤ b.length) (hmax : b.length ≤ 65575) :
    (recomputeL4ChecksumIpv4 ihl protocol true).run b
      = (some (), put16 b (ihl + d) (fullL4Checksum4 protocol ihl (ihl + d) b)) := by
  have hsum : ∀ off, checksum16Ipv4 (sub (put16 b off 0) 12 4) (sub (put16 b off 0) 16 4) protocol
      ((put16 b off 0).drop ihl) = checksum16Finish (l4Sum4 protocol ihl (put16 b off 0)) :=
    fun off => checksum16Ipv4_eq protocol (by rwa [length_put16])
  rw [recomputeL4ChecksumIpv4, require_bind_run, if_pos (by omega)]
  dsimp only
  rcases fieldDeltaV4_cases hd with ⟨rfl, rfl⟩ | ⟨rfl, rfl⟩
  · change ihl + 20 ≤ b.length at hlen
    rw [if_pos rfl, recomputeField_run _ _ (by omega) (by omega), hsum, fullL4Checksum4]
    rfl
  · change ihl + 8 ≤ b.length at hlen
    rw [if_neg (by decide), if_pos rfl, recomputeField_run _ _ (by omega) (by omega), hsum,
      fullL4Checksum4]
    rfl

theorem recomputeL4ChecksumIpv6_run {relL4 : ℕ} (hd : l4ChecksumFieldDeltaV6 protocol = some d)
    (hrel : 40 ≤ relL4) (hlen : relL4 + l4HeaderLen protocol ≤ b.length) (hmax : b.length ≤ 65575) :
    (recomputeL4ChecksumIpv6 relL4 protocol).run b
      = (some (), put16 b (relL4 + d) (fullL4Checksum6 protocol relL4 (relL4 + d) b)) := by
  have hsum : ∀ i, checksum16Ipv6 (sub b 8 16) (sub b 24 16) protocol
      ((put16 b (relL4 + i) 0).drop relL4)
        = checksum16Finish (l4Sum6 protocol relL4 (put16 b (relL4 + i) 0)) := by
    intro i
    rw [← checksum16Ipv6_eq protocol (by rwa [length_put16]), put16,
      sub_writeAt_of_disjoint (.inl (by omega)), sub_writeAt_of_disjoint (.inl (by omega))]
  rw [recomputeL4ChecksumIpv6, require_bind_run, if_pos (by omega),
    check_bind_run (f := fun b => getRange b 8 16) (getRange_of_le (by omega)),
    check_bind_run (f := fun b => getRange b 24 16) (getRange_of_le (by omega))]
  dsimp only
  rcases fieldDeltaV6_cases hd with h | ⟨rfl, rfl⟩
  · rcases fieldDeltaV4_cases h with ⟨rfl, rfl⟩ | ⟨rfl, rfl⟩
    · change relL4 + 20 ≤ b.length at hlen
      rw [if_pos rfl, recomputeField_run _ _ (by omega) (by omega), hsum, fullL4Checksum6]
      rfl
    · change relL4 + 8 ≤ b.length at hlen
      rw [if_neg (by decide), if_pos rfl, recomputeField_run _ _ (by omega) (by omega), hsum,
        fullL4Checksum6]
      rfl
  · change relL4 + 4 ≤ b.length at hlen
    rw [if_neg (by decide), if_neg (by decide), if_pos rfl,
      recomputeField_run _ _ (by omega) (by omega), hsum, fullL4Checksum6]
    rfl

theorem recomputeIpv4HeaderChecksum_run {ihl : ℕ} (hmax : b.length ≤ 65575) :
    (recomputeIpv4HeaderChecksum ihl).run b
      = (some (), put16 b 10 (fullHeaderChecksum ihl b)) := by
  have hlen : ((put16 b 10 0).take ihl).length ≤ 65575 := by
    rw [List.length_take, length_put16]
    omega
  rw [recomputeIpv4HeaderChecksum, modify_bind_run, read_bind_run, modify_run, put16_put16,
    checksum16_eq hlen, fullHeaderChecksum]

/-! ### What the full checksums do not depend on -/

theorem fullL4Checksum4_put16_self (ihl off : ℕ) (c : UInt16) :
    fullL4Checksum4 protocol ihl off (put16 b off c) = fullL4Checksum4 protocol ihl off b := by
  rw [fullL4Checksum4, put16_put16, fullL4Checksum4]

theorem fullL4Checksum6_put16_self (relL4 off : ℕ) (c : UInt16) :
    fullL4Checksum6 protocol relL4 off (put16 b off c) = fullL4Checksum6 protocol relL4 off b := by
  rw [fullL4Checksum6, put16_put16, fullL4Checksum6]

/-- The L4 checksum does not cover the header checksum. -/
theorem fullL4Checksum4_put16_header {ihl off : ℕ} (hihl : 20 ≤ ihl) (hoff : ihl ≤ off) (c : UInt16) :
    fullL4Checksum4 protocol ihl off (put16 b 10 c) = fullL4Checksum4 protocol ihl off b := by
  rw [fullL4Checksum4, fullL4Checksum4, put16_put16_comm (by omega), l4Sum4, l4Sum4, length_put16,
    put16.eq_def _ 10, sub_writeAt_of_disjoint (.inr (by simp)),
    sub_writeAt_of_disjoint (.inr (by simp)), drop_writeAt_of_le (by simp; omega)]

/-- The header checksum covers the header only. -/
theorem fullHeaderChecksum_put16 {ihl off : ℕ} (h : off = 10 ∨ (12 ≤ off ∧ ihl ≤ off)) (c : UInt16) :
    fullHeaderChecksum ihl (put16 b off c) = fullHeaderChecksum ihl b := by
  rw [fullHeaderChecksum, fullHeaderChecksum]
  rcases h with rfl | h
  · rw [put16_put16]
  · rw [put16_put16_comm (by omega), put16.eq_def _ off, take_writeAt_of_le h.2]

end

/-! ## IPv4 -/

/-- A TCP or UDP packet whose checksums are the standard ones: recomputing them leaves it as
it is. -/
structure Standard4 (protocol : UInt8) (b : Bytes) : Prop where
  len : b.length ≤ 65535
  ihl : 20 ≤ ipv4Ihl b 0
  l4 : ipv4Ihl b 0 + l4HeaderLen protocol ≤ b.length
  checksum : (recomputeL4ChecksumIpv4 (ipv4Ihl b 0) protocol true).run b = (some (), b)
  header : (recomputeIpv4HeaderChecksum (ipv4Ihl b 0)).run b = (some (), b)

/-- `apply_nat_ipv4` followed by the header adjustment, as in `rewrite_apply_v4`. -/
def natAndHeader4 (protocol : UInt8) (nat : NatDecision) : Edit Bytes Unit := do
  let ihl ← read fun b => ipv4Ihl b 0
  let oldTtl ← read fun b => byteAt b 8
  let oldSrc ← read fun b => ipv4At b 12
  let oldDst ← read fun b => ipv4At b 16
  applyNatIpv4 protocol nat false
  onHead ihl (adjustIpv4HeaderChecksum oldSrc oldDst oldTtl)

section

variable {protocol : UInt8} {b : Bytes} {d : ℕ}

theorem fieldDelta_le_headerLen (hd : l4ChecksumFieldDeltaV6 protocol = some d) :
    d + 2 ≤ l4HeaderLen protocol ∧ 4 ≤ l4HeaderLen protocol ∧ 2 ≤ d := by
  rcases fieldDeltaV6_cases hd with h | ⟨rfl, rfl⟩
  · rcases fieldDeltaV4_cases h with ⟨rfl, rfl⟩ | ⟨rfl, rfl⟩ <;> decide
  · decide

theorem fieldDeltaV6_of_v4 (hd : l4ChecksumFieldDeltaV4 protocol = some d) :
    l4ChecksumFieldDeltaV6 protocol = some d := by
  rcases fieldDeltaV4_cases hd with ⟨rfl, rfl⟩ | ⟨rfl, rfl⟩ <;> rfl

/-- A standard packet holds its full checksums. -/
theorem Standard4.get16_eq (h : Standard4 protocol b) (hd : l4ChecksumFieldDeltaV4 protocol = some d) :
    get16 b (ipv4Ihl b 0 + d) = fullL4Checksum4 protocol (ipv4Ihl b 0) (ipv4Ihl b 0 + d) b
      ∧ get16 b 10 = fullHeaderChecksum (ipv4Ihl b 0) b := by
  obtain ⟨hle, -, -⟩ := fieldDelta_le_headerLen (fieldDeltaV6_of_v4 hd)
  have hlen := h.len
  have hl4 := h.l4
  have hihl := h.ihl
  constructor
  · have hrun := h.checksum
    rw [recomputeL4ChecksumIpv4_run hd hl4 (by omega)] at hrun
    have heq := congrArg (fun x => get16 x (ipv4Ihl b 0 + d)) (Prod.mk.inj hrun).2
    rw [get16_put16 _ (by omega)] at heq
    exact heq.symm
  · have hrun := h.header
    rw [recomputeIpv4HeaderChecksum_run (by omega)] at hrun
    have heq := congrArg (fun x => get16 x 10) (Prod.mk.inj hrun).2
    rw [get16_put16 _ (by omega)] at heq
    exact heq.symm

/-- A packet that holds its full checksums is a standard one. -/
theorem Standard4.of_get16 (hlen : b.length ≤ 65535) (hihl : 20 ≤ ipv4Ihl b 0)
    (hl4 : ipv4Ihl b 0 + l4HeaderLen protocol ≤ b.length)
    (hd : l4ChecksumFieldDeltaV4 protocol = some d)
    (hc : get16 b (ipv4Ihl b 0 + d) = fullL4Checksum4 protocol (ipv4Ihl b 0) (ipv4Ihl b 0 + d) b)
    (hh : get16 b 10 = fullHeaderChecksum (ipv4Ihl b 0) b) : Standard4 protocol b := by
  refine ⟨hlen, hihl, hl4, ?_, ?_⟩
  · rw [recomputeL4ChecksumIpv4_run hd hl4 (by omega), ← hc, put16_get16]
  · rw [recomputeIpv4HeaderChecksum_run (by omega), ← hh, put16_get16]

/-! ### The packet with the new fields -/

@[simp] theorem length_natL4Fields (nat : NatDecision) (l4 : ℕ) :
    (natL4Fields protocol nat l4 b).length = b.length := by
  rw [natL4Fields, natPorts]
  split_ifs <;> simp

@[simp] theorem length_natFields4 (nat : NatDecision) :
    (natFields4 protocol nat b).length = b.length := by
  rw [natFields4, length_natL4Fields, length_setAddr, length_setAddr]

theorem byteAt_natL4Fields {nat : NatDecision} {l4 i : ℕ} (h : i < l4) :
    byteAt (natL4Fields protocol nat l4 b) i = byteAt b i := by
  rw [natL4Fields, natPorts]
  split_ifs
  · rw [byteAt_setWord_of_disjoint _ (by omega), byteAt_setWord_of_disjoint _ (by omega)]
  · rw [byteAt_setWord_of_disjoint _ (by omega)]

/-- The bytes of the header other than the addresses stay. -/
theorem byteAt_natFields4 {nat : NatDecision} {i : ℕ} (hihl : 20 ≤ ipv4Ihl b 0)
    (h : i < 12 ∨ (20 ≤ i ∧ i < ipv4Ihl b 0)) :
    byteAt (natFields4 protocol nat b) i = byteAt b i := by
  rw [natFields4, byteAt_natL4Fields (by omega), byteAt_setAddr_of_disjoint _ (by omega),
    byteAt_setAddr_of_disjoint _ (by omega)]

theorem ipv4Ihl_natFields4 {nat : NatDecision} (hihl : 20 ≤ ipv4Ihl b 0) :
    ipv4Ihl (natFields4 protocol nat b) 0 = ipv4Ihl b 0 := by
  rw [ipv4Ihl.eq_def (natFields4 protocol nat b), byteAt_natFields4 hihl (.inl (by omega)), ipv4Ihl]

theorem ipv4Ihl_put16 {off : ℕ} {c : UInt16} (h : 0 < off) :
    ipv4Ihl (put16 b off c) 0 = ipv4Ihl b 0 := by
  rw [ipv4Ihl, ipv4Ihl, byteAt_put16_of_disjoint (.inl h)]

/-- The fields next to a checksum. -/
theorem natFields4_put16 {off : ℕ} {c : UInt16} (hd : l4ChecksumFieldDeltaV4 protocol = some d)
    (hihl : 20 ≤ ipv4Ihl b 0) (hoff : off = 10 ∨ off = ipv4Ihl b 0 + d) (nat : NatDecision) :
    natFields4 protocol nat (put16 b off c) = put16 (natFields4 protocol nat b) off c := by
  have hd6 := fieldDeltaV6_of_v4 hd
  obtain ⟨-, -, hge⟩ := fieldDelta_le_headerLen hd6
  rw [natFields4, ipv4Ihl_put16 (by omega), setAddr_put16 _ (by omega), setAddr_put16 _ (by omega),
    natFields4]
  rcases hoff with rfl | rfl
  · have hdisj : ∀ (x : Bytes), natL4Fields protocol nat (ipv4Ihl b 0) (put16 x 10 c)
        = put16 (natL4Fields protocol nat (ipv4Ihl b 0) x) 10 c := by
      intro x
      rw [natL4Fields, natL4Fields]
      have hports : hasL4Ports protocol = true := by
        rcases fieldDeltaV4_cases hd with ⟨rfl, -⟩ | ⟨rfl, -⟩ <;> rfl
      rw [if_pos hports, if_pos hports, natPorts, setWord_put16 _ (by omega),
        setWord_put16 _ (by omega), natPorts]
    exact hdisj _
  · exact natL4Fields_put16 hd6 nat c

/-! ### The L4 checksum -/

/-- The whole decision adds to the sum what the leaf's updates add. -/
theorem adds_natFields4 (hd : l4ChecksumFieldDeltaV4 protocol = some d) (hihl : 20 ≤ ipv4Ihl b 0)
    (hlen : ipv4Ihl b 0 + 4 ≤ b.length) (nat : NatDecision) :
    Adds (l4Sum4 protocol (ipv4Ihl b 0)) b (natFields4 protocol nat b)
      ((addrDelta4 b 12 (ipv4Of nat.rewriteSrc)).getD 0
        + (addrDelta4 b 16 (ipv4Of nat.rewriteDst)).getD 0
        + natL4Delta protocol nat (ipv4Ihl b 0) b) := by
  have hsrc := l4Sum4_setAddr (b := b) protocol hihl (by omega) (.inl rfl) (ipv4Of nat.rewriteSrc)
  have hdst := l4Sum4_setAddr (b := setAddr 12 (ipv4Of nat.rewriteSrc) b) protocol hihl
    (by rw [length_setAddr]; omega) (.inr rfl) (ipv4Of nat.rewriteDst)
  have hl4 := adds_natL4Fields protocol
    (b := setAddr 16 (ipv4Of nat.rewriteDst) (setAddr 12 (ipv4Of nat.rewriteSrc) b))
    (fun b j v hj h => l4Sum4_setWord protocol hihl hj h v) nat (by simpa using hlen)
  rw [addrDelta4_setAddr _ _ (.inr (by omega))] at hdst
  rw [natL4Delta_setAddr _ _ (by omega), natL4Delta_setAddr _ _ (by omega)] at hl4
  exact (hsrc.trans hdst).trans hl4

/-- The deltas next to a checksum. -/
theorem addrDelta4_put16 {off j : ℕ} {c : UInt16} (new : Option Ipv4Addr)
    (h : j + 4 ≤ off ∨ off + 2 ≤ j) : addrDelta4 (put16 b off c) j new = addrDelta4 b j new := by
  rw [addrDelta4, addrDelta4, ipv4At_put16_of_disjoint h]

/-- No segment sums up to zero: its protocol is in the sum. -/
theorem l4Sum4_ne_zero (hd : l4ChecksumFieldDeltaV4 protocol = some d) (ihl : ℕ) :
    l4Sum4 protocol ihl b ≠ 0 := by
  have hp : 0 < protocol.toNat := by
    rcases fieldDeltaV4_cases hd with ⟨rfl, -⟩ | ⟨rfl, -⟩ <;> decide
  rw [l4Sum4]
  omega

/-- **The updated L4 checksum is the recomputed one.** -/
theorem natChecksum4_exact (h : Standard4 protocol b)
    (hd : l4ChecksumFieldDeltaV4 protocol = some d) (nat : NatDecision) :
    natChecksum4 protocol nat (ipv4Ihl b 0 + d) b
      = fullL4Checksum4 protocol (ipv4Ihl b 0) (ipv4Ihl b 0 + d) (natFields4 protocol nat b) := by
  have hihl := h.ihl
  have hl4 := h.l4
  have hd6 := fieldDeltaV6_of_v4 hd
  obtain ⟨-, hfour, hge⟩ := fieldDelta_le_headerLen hd6
  -- the sums are over the packet with its checksum field zeroed
  have hadds := adds_natFields4 (b := put16 b (ipv4Ihl b 0 + d) 0) hd
    (by rw [ipv4Ihl_put16 (by omega)]; exact hihl)
    (by rw [ipv4Ihl_put16 (by omega), length_put16]; omega) nat
  rw [ipv4Ihl_put16 (by omega), natFields4_put16 hd hihl (.inr rfl), addrDelta4_put16 _ (by omega),
    addrDelta4_put16 _ (by omega), natL4Delta_put16 hd6] at hadds
  rw [natChecksum4, (h.get16_eq hd).1, fullL4Checksum4, natAddrsChecksum_canonical,
    natL4Checksum_canonical, Nat.add_assoc, hadds.finish (l4Sum4_ne_zero hd _), fullL4Checksum4]

/-! ### The header checksum -/

theorem adjustIpv4HeaderChecksum_run (oldSrc oldDst : Ipv4Addr) (oldTtl : UInt8)
    (hlen : 20 ≤ b.length) :
    (adjustIpv4HeaderChecksum oldSrc oldDst oldTtl).run b
      = (some (), put16 b 10 (checksum16Finish (compl16 (get16 b 10)
          + (wordsDelta (ipv4Words oldSrc) (ipv4Words (ipv4At b 12))
            + wordsDelta (ipv4Words oldDst) (ipv4Words (ipv4At b 16))
            + wordsDelta [fromBe oldTtl (byteAt b 9)] [get16 b 8])))) := by
  rw [adjustIpv4HeaderChecksum, require_bind_run, if_pos hlen, read_bind_run, read_bind_run,
    read_bind_run, read_bind_run, read_bind_run, writeWord_run _ (by omega), checksum16Adjust_eq,
    checksum16Adjust_eq, checksum16Adjust_eq, finish_compl_finish, Nat.add_assoc,
    finish_compl_finish, Nat.add_assoc]
  simp only [Nat.add_assoc]

/-- The header of a packet with its checksum on top. -/
theorem onHead_put16_run {ihl : ℕ} {m : Edit Bytes Unit} {v : UInt16} (hihl : 12 ≤ ihl)
    (h : ihl ≤ b.length) (hm : m.run (b.take ihl) = (some (), put16 (b.take ihl) 10 v)) :
    (onHead ihl m).run b = (some (), put16 b 10 v) := by
  have htake : put16 (b.take ihl) 10 v = (put16 b 10 v).take ihl :=
    (take_writeAt (by rw [length_toBe]; omega)).symm
  have hdrop : b.drop ihl = (put16 b 10 v).drop ihl :=
    (drop_writeAt_of_le (by rw [length_toBe]; omega)).symm
  rw [onHead_run m h, hm, htake, hdrop, List.take_append_drop]

/-- The header with two addresses in it. -/
theorem header_eq {ihl : ℕ} {w : Bytes} (hihl : 20 ≤ ihl) (hlen : ihl ≤ b.length)
    (hw : w.length = b.length) (hsame : ∀ i, i < 12 ∨ (20 ≤ i ∧ i < ihl) → byteAt w i = byteAt b i) :
    (put16 w 10 0).take ihl
      = setAddr 16 (some (ipv4At w 16)) (setAddr 12 (some (ipv4At w 12))
          ((put16 b 10 0).take ihl)) := by
  have hbyte : ∀ {off j : ℕ} {x : Bytes}, off ≤ j → j < off + 4 → j < x.length →
      byteAt (writeAt x off (List.ofFn (ipv4At w off))) j = byteAt w j := by
    intro off j x h1 h2 h3
    have hj4 : j - off < 4 := by omega
    rw [byteAt_writeAt, if_pos ⟨h1, by rw [List.length_ofFn]; exact h2, h3⟩, byteAt,
      List.getD_eq_getElem _ _ (by rw [List.length_ofFn]; exact hj4), List.getElem_ofFn, ipv4At]
    congr 1
    dsimp only
    omega
  have hlenb : ((put16 b 10 0).take ihl).length = ihl := by
    rw [List.length_take, length_put16]
    omega
  apply ext
  · rw [length_setAddr, length_setAddr, List.length_take, List.length_take, length_put16,
      length_put16, hw]
  · intro j hj
    rw [List.length_take, length_put16, hw] at hj
    rw [byteAt_take (by omega)]
    by_cases h16 : 16 ≤ j ∧ j < 20
    · rw [setAddr, hbyte h16.1 h16.2 (by rw [length_setAddr, hlenb]; omega),
        byteAt_put16_of_disjoint (by omega)]
    rw [byteAt_setAddr_of_disjoint _ (by omega)]
    by_cases h12 : 12 ≤ j ∧ j < 16
    · rw [setAddr, hbyte h12.1 h12.2 (by rw [hlenb]; omega), byteAt_put16_of_disjoint (by omega)]
    rw [byteAt_setAddr_of_disjoint _ (by omega), byteAt_take (by omega)]
    by_cases h10 : 10 ≤ j ∧ j < 12
    · rw [put16, put16, byteAt_writeAt, byteAt_writeAt, length_toBe, if_pos (by omega),
        if_pos (by omega)]
    · rw [byteAt_put16_of_disjoint (by omega), byteAt_put16_of_disjoint (by omega),
        hsame j (by omega)]

/-- **The adjusted header checksum is the recomputed one.** -/
theorem headerChecksum_exact {ihl : ℕ} {w : Bytes} (hihl : 20 ≤ ihl) (hlen : ihl ≤ b.length)
    (hfirst : byteAt b 0 ≠ 0) (hw : w.length = b.length)
    (hsame : ∀ i, i < 12 ∨ (20 ≤ i ∧ i < ihl) → byteAt w i = byteAt b i) :
    checksum16Finish (compl16 (fullHeaderChecksum ihl b)
        + (wordsDelta (ipv4Words (ipv4At b 12)) (ipv4Words (ipv4At w 12))
          + wordsDelta (ipv4Words (ipv4At b 16)) (ipv4Words (ipv4At w 16))
          + wordsDelta [get16 b 8] [get16 b 8]))
      = fullHeaderChecksum ihl w := by
  have hhead := header_eq hihl hlen hw hsame
  have hlenb : ((put16 b 10 0).take ihl).length = ihl := by
    rw [List.length_take, length_put16]
    omega
  have hat : ∀ i, i = 12 ∨ i = 16 → ipv4At ((put16 b 10 0).take ihl) i = ipv4At b i := by
    intro i hi
    funext k
    have hk := k.isLt
    rw [ipv4At, ipv4At, byteAt_take (by omega), byteAt_put16_of_disjoint (by omega)]
  have hsrc := wordSum_setAddr4 (b := (put16 b 10 0).take ihl) (i := 12) rfl (by omega)
    (some (ipv4At w 12))
  have hdst := wordSum_setAddr4 (b := setAddr 12 (some (ipv4At w 12)) ((put16 b 10 0).take ihl))
    (i := 16) rfl (by rw [length_setAddr]; omega) (some (ipv4At w 16))
  rw [addrDelta4_setAddr _ _ (.inr (by omega))] at hdst
  rw [← hhead] at hdst
  have hadds := hsrc.trans hdst
  simp only [addrDelta4, Option.map_some, Option.getD_some, hat 12 (.inl rfl), hat 16 (.inr rfl)]
    at hadds
  -- the TTL word is replaced by itself, which is one turn more
  have hturn : Adds wordSum ((put16 w 10 0).take ihl) ((put16 w 10 0).take ihl)
      (wordsDelta [get16 b 8] [get16 b 8]) := by
    refine ⟨1, ?_⟩
    have hd := wordsDelta_add [get16 b 8] [get16 b 8]
    simp only [List.map_cons, List.map_nil, List.sum_cons, List.sum_nil, Nat.add_zero,
      List.length_singleton, Nat.mul_one] at hd
    omega
  have hne : wordSum ((put16 w 10 0).take ihl) ≠ 0 := by
    apply wordSum_ne_zero
    rw [byteAt_take (by omega), byteAt_put16_of_disjoint (by omega), hsame 0 (by omega)]
    exact hfirst
  rw [fullHeaderChecksum, finish_compl_finish, (hadds.trans hturn).finish hne, fullHeaderChecksum]

/-- The result of the leaf and the header adjustment. -/
theorem natAndHeader4_run (h : Standard4 protocol b)
    (hd : l4ChecksumFieldDeltaV4 protocol = some d) (nat : NatDecision) :
    (natAndHeader4 protocol nat).run b
      = (some (), put16 (put16 (natFields4 protocol nat b) (ipv4Ihl b 0 + d)
            (fullL4Checksum4 protocol (ipv4Ihl b 0) (ipv4Ihl b 0 + d) (natFields4 protocol nat b))) 10
          (fullHeaderChecksum (ipv4Ihl b 0) (natFields4 protocol nat b))) := by
  have hihl := h.ihl
  have hl4 := h.l4
  obtain ⟨hle, -, hge⟩ := fieldDelta_le_headerLen (fieldDeltaV6_of_v4 hd)
  have hleaf := applyNatIpv4_form (b := b) hd hihl (by omega) nat
  rw [natChecksum4_exact h hd] at hleaf
  rw [natAndHeader4, read_bind_run, read_bind_run, read_bind_run, read_bind_run, bind_run_some hleaf]
  set w := natFields4 protocol nat b with hwdef
  have hwlen : w.length = b.length := length_natFields4 nat
  have hsame : ∀ i, i < 12 ∨ (20 ≤ i ∧ i < ipv4Ihl b 0) → byteAt w i = byteAt b i :=
    fun i hi => byteAt_natFields4 hihl hi
  have hfirst : byteAt b 0 ≠ 0 := by
    intro h0
    rw [ipv4Ihl, h0] at hihl
    revert hihl
    decide
  apply onHead_put16_run (by omega) (by rw [length_put16]; omega)
  set c := fullL4Checksum4 protocol (ipv4Ihl b 0) (ipv4Ihl b 0 + d) w with hcdef
  have hhead : (put16 w (ipv4Ihl b 0 + d) c).take (ipv4Ihl b 0) = w.take (ipv4Ihl b 0) :=
    take_writeAt_of_le (by omega)
  have hwtake : ∀ i, i < ipv4Ihl b 0 → byteAt (w.take (ipv4Ihl b 0)) i = byteAt w i :=
    fun i hi => byteAt_take hi
  have hat : ∀ i, i + 4 ≤ ipv4Ihl b 0 → ipv4At (w.take (ipv4Ihl b 0)) i = ipv4At w i := by
    intro i hi
    funext k
    have hk := k.isLt
    exact hwtake _ (by omega)
  rw [hhead, adjustIpv4HeaderChecksum_run _ _ _ (by rw [List.length_take]; omega), hat 12 (by omega),
    hat 16 (by omega), hwtake 9 (by omega), hsame 9 (by omega)]
  have hw10 : get16 (w.take (ipv4Ihl b 0)) 10 = get16 b 10 := by
    rw [get16, hwtake _ (by omega), hwtake _ (by omega), hsame _ (by omega), hsame _ (by omega)]
    rfl
  have hw8 : get16 (w.take (ipv4Ihl b 0)) 8 = get16 b 8 := by
    rw [get16, hwtake _ (by omega), hwtake _ (by omega), hsame _ (by omega), hsame _ (by omega)]
    rfl
  rw [hw10, hw8, (h.get16_eq hd).2]
  have hexact := headerChecksum_exact hihl (by omega) hfirst hwlen hsame
  rw [show fromBe (byteAt b 8) (byteAt b 9) = get16 b 8 from rfl, hexact]

/-- What recomputing both checksums gives. -/
theorem recomputeBoth4_run (hd : l4ChecksumFieldDeltaV4 protocol = some d)
    (hihl : 20 ≤ ipv4Ihl b 0) (hlen : ipv4Ihl b 0 + l4HeaderLen protocol ≤ b.length)
    (hmax : b.length ≤ 65535) :
    (recomputeBoth4 protocol).run b
      = (some (), put16 (put16 b (ipv4Ihl b 0 + d)
            (fullL4Checksum4 protocol (ipv4Ihl b 0) (ipv4Ihl b 0 + d) b)) 10
          (fullHeaderChecksum (ipv4Ihl b 0) b)) := by
  rw [recomputeBoth4, read_bind_run,
    bind_run_some (recomputeL4ChecksumIpv4_run hd hlen (by omega)),
    recomputeIpv4HeaderChecksum_run (by rw [length_put16]; omega),
    fullHeaderChecksum_put16 (.inr (by omega))]

/-- Recomputing leaves a standard packet. -/
theorem standard4_recomputed (hd : l4ChecksumFieldDeltaV4 protocol = some d)
    (hihl : 20 ≤ ipv4Ihl b 0) (hlen : ipv4Ihl b 0 + l4HeaderLen protocol ≤ b.length)
    (hmax : b.length ≤ 65535) {out : Bytes} (hout : (recomputeBoth4 protocol).run b = (some (), out)) :
    Standard4 protocol out ∧ ipv4Ihl out 0 = ipv4Ihl b 0 := by
  obtain ⟨hle, -, -⟩ := fieldDelta_le_headerLen (fieldDeltaV6_of_v4 hd)
  rw [recomputeBoth4_run hd hihl hlen hmax] at hout
  obtain rfl := (Prod.mk.inj hout).2
  have hihl' : ∀ c h, ipv4Ihl (put16 (put16 b (ipv4Ihl b 0 + d) c) 10 h) 0 = ipv4Ihl b 0 := by
    intro c h
    rw [ipv4Ihl_put16 (by omega), ipv4Ihl_put16 (by omega)]
  refine ⟨Standard4.of_get16 (d := d) ?_ ?_ ?_ hd ?_ ?_, hihl' _ _⟩
  · rwa [length_put16, length_put16]
  · rwa [hihl']
  · rwa [hihl', length_put16, length_put16]
  · rw [hihl', get16_put16_of_disjoint (by omega), get16_put16 _ (by omega),
      fullL4Checksum4_put16_header hihl (by omega), fullL4Checksum4_put16_self]
  · rw [hihl', get16_put16 _ (by rw [length_put16]; omega), fullHeaderChecksum_put16 (.inl rfl),
      fullHeaderChecksum_put16 (.inr (by omega))]

end

/-! ## IPv6 -/

/-- A TCP, UDP or ICMPv6 packet behind any extension headers whose checksum is the standard
one. -/
structure Standard6 (relL4 : ℕ) (protocol : UInt8) (b : Bytes) : Prop where
  len : b.length ≤ 65575
  walk : (walkIpv6ExtChain b 0).outcome = .l4 relL4 protocol
  l4 : relL4 + l4HeaderLen protocol ≤ b.length
  checksum : (recomputeL4ChecksumIpv6 relL4 protocol).run b = (some (), b)

section

variable {protocol : UInt8} {b : Bytes} {d relL4 : ℕ}

/-- The L4 header is behind the IPv6 header. -/
theorem walk_l4_ge (h : (walkIpv6ExtChain b 0).outcome = .l4 relL4 protocol) : 40 ≤ relL4 := by
  unfold walkIpv6ExtChain at h
  split_ifs at h
  have := walkExtHeaders_offset_le _ _ _ _ _ h
  omega

theorem Standard6.get16_eq (h : Standard6 relL4 protocol b)
    (hd : l4ChecksumFieldDeltaV6 protocol = some d) :
    get16 b (relL4 + d) = fullL4Checksum6 protocol relL4 (relL4 + d) b := by
  obtain ⟨hle, -, -⟩ := fieldDelta_le_headerLen hd
  have hl4 := h.l4
  have hrun := h.checksum
  rw [recomputeL4ChecksumIpv6_run hd (walk_l4_ge h.walk) hl4 h.len] at hrun
  have heq := congrArg (fun x => get16 x (relL4 + d)) (Prod.mk.inj hrun).2
  rw [get16_put16 _ (by omega)] at heq
  exact heq.symm

@[simp] theorem length_natFields6 (nat : NatDecision) :
    (natFields6 relL4 protocol nat b).length = b.length := by
  rw [natFields6, length_natL4Fields, length_setAddr, length_setAddr]

/-- The header bytes other than the addresses stay, and so do the extension headers. -/
theorem byteAt_natFields6 {nat : NatDecision} {i : ℕ} (hrel : 40 ≤ relL4)
    (h : i < 8 ∨ (40 ≤ i ∧ i < relL4)) :
    byteAt (natFields6 relL4 protocol nat b) i = byteAt b i := by
  rw [natFields6, byteAt_natL4Fields (by omega), byteAt_setAddr_of_disjoint _ (by omega),
    byteAt_setAddr_of_disjoint _ (by omega)]

theorem natFields6_put16 {c : UInt16} (hd : l4ChecksumFieldDeltaV6 protocol = some d)
    (hrel : 40 ≤ relL4) (nat : NatDecision) :
    natFields6 relL4 protocol nat (put16 b (relL4 + d) c)
      = put16 (natFields6 relL4 protocol nat b) (relL4 + d) c := by
  rw [natFields6, setAddr_put16 _ (by omega), setAddr_put16 _ (by omega), natL4Fields_put16 hd,
    natFields6]

/-- The whole decision adds to the sum what the leaf's updates add. -/
theorem adds_natFields6 (protocol : UInt8) (hrel : 40 ≤ relL4) (hlen : relL4 + 4 ≤ b.length)
    (nat : NatDecision) :
    Adds (l4Sum6 protocol relL4) b (natFields6 relL4 protocol nat b)
      ((addrDelta6 b 8 (ipv6Of nat.rewriteSrc)).getD 0
        + (addrDelta6 b 24 (ipv6Of nat.rewriteDst)).getD 0
        + natL4Delta protocol nat relL4 b) := by
  have hsrc := l4Sum6_setAddr (b := b) protocol hrel (by omega) (.inl rfl) (ipv6Of nat.rewriteSrc)
  have hdst := l4Sum6_setAddr (b := setAddr 8 (ipv6Of nat.rewriteSrc) b) protocol hrel
    (by rw [length_setAddr]; omega) (.inr rfl) (ipv6Of nat.rewriteDst)
  have hl4 := adds_natL4Fields protocol
    (b := setAddr 24 (ipv6Of nat.rewriteDst) (setAddr 8 (ipv6Of nat.rewriteSrc) b))
    (fun b j v hj h => l4Sum6_setWord protocol hrel hj h v) nat (by simpa using hlen)
  rw [addrDelta6_setAddr _ _ (.inr (by omega))] at hdst
  rw [natL4Delta_setAddr _ _ (by omega), natL4Delta_setAddr _ _ (by omega)] at hl4
  exact (hsrc.trans hdst).trans hl4

theorem addrDelta6_put16 {off j : ℕ} {c : UInt16} (new : Option Ipv6Addr)
    (h : j + 16 ≤ off ∨ off + 2 ≤ j) : addrDelta6 (put16 b off c) j new = addrDelta6 b j new := by
  rw [addrDelta6, addrDelta6, ipv6At_put16_of_disjoint h]

theorem l4Sum6_ne_zero (hd : l4ChecksumFieldDeltaV6 protocol = some d) (relL4 : ℕ) :
    l4Sum6 protocol relL4 b ≠ 0 := by
  have hp : 0 < protocol.toNat := by
    rcases fieldDeltaV6_cases hd with h | ⟨rfl, -⟩
    · rcases fieldDeltaV4_cases h with ⟨rfl, -⟩ | ⟨rfl, -⟩ <;> decide
    · decide
  rw [l4Sum6]
  omega

/-- **The updated checksum is the recomputed one**, NPTv6 apart. -/
theorem natChecksum6_exact (h : Standard6 relL4 protocol b)
    (hd : l4ChecksumFieldDeltaV6 protocol = some d) {nat : NatDecision} (hnat : nat.nptv6 = false) :
    natChecksum6 relL4 protocol nat (relL4 + d) b
      = fullL4Checksum6 protocol relL4 (relL4 + d) (natFields6 relL4 protocol nat b) := by
  have hrel := walk_l4_ge h.walk
  have hl4 := h.l4
  obtain ⟨-, hfour, hge⟩ := fieldDelta_le_headerLen hd
  have hfolds : natFoldsL4Checksum nat = true := by rw [natFoldsL4Checksum, hnat]; rfl
  have hadds := adds_natFields6 (b := put16 b (relL4 + d) 0) protocol hrel
    (by rw [length_put16]; omega) nat
  rw [natFields6_put16 hd hrel, addrDelta6_put16 _ (by omega), addrDelta6_put16 _ (by omega),
    natL4Delta_put16 hd] at hadds
  rw [natChecksum6, hfolds, Bool.not_true, if_neg Bool.false_ne_true, h.get16_eq hd,
    fullL4Checksum6, natAddrsChecksum_canonical, natL4Checksum_canonical, Nat.add_assoc,
    hadds.finish (l4Sum6_ne_zero hd _), fullL4Checksum6]

/-- A packet with the same header bytes is walked to the same place. -/
theorem walk_of_same (h : (walkIpv6ExtChain b 0).outcome = .l4 relL4 protocol)
    {w : Bytes} (hlen : w.length = b.length)
    (hsame : ∀ i, i < 8 ∨ (40 ≤ i ∧ i < relL4) → byteAt w i = byteAt b i) :
    (walkIpv6ExtChain w 0).outcome = .l4 relL4 protocol
      ∧ ipv6AhSighted w AF_INET6 0 = ipv6AhSighted b AF_INET6 0 := by
  have hwalk := walkIpv6ExtChain_shift (s := 0) h hlen (hsame 6 (.inl (by omega)))
    fun i h1 h2 => hsame i (.inr ⟨by omega, h2⟩)
  refine ⟨hwalk.1, ?_⟩
  have hah : (walkIpv6ExtChain w 0).ahPresent = (walkIpv6ExtChain b 0).ahPresent := hwalk.2.1
  rw [ipv6AhSighted, ipv6AhSighted, hlen, hsame (0 + 6) (.inl (by omega)), hah]

/-- The result of the leaf, for the decision it applies. -/
theorem applyNatIpv6_run (h : Standard6 relL4 protocol b)
    (hd : l4ChecksumFieldDeltaV6 protocol = some d) {nat nat' : NatDecision}
    (hnat : nat.nptv6 = false) (hnat' : nat' = stripPorts (ipv6AhSighted b AF_INET6 0) nat) :
    (applyNatIpv6 relL4 protocol nat false).run b
      = (some (), put16 (natFields6 relL4 protocol nat' b) (relL4 + d)
          (fullL4Checksum6 protocol relL4 (relL4 + d) (natFields6 relL4 protocol nat' b))) := by
  obtain ⟨hle, -, -⟩ := fieldDelta_le_headerLen hd
  have hl4 := h.l4
  have hflag : nat'.nptv6 = false := by
    rw [hnat', stripPorts]
    split_ifs <;> exact hnat
  rw [applyNatIpv6_form hd (walk_l4_ge h.walk) (by omega) hnat', natChecksum6_exact h hd hflag]

/-- Recomputing leaves a standard packet. -/
theorem standard6_recomputed (hd : l4ChecksumFieldDeltaV6 protocol = some d)
    (hmax : b.length ≤ 65575) (hwalk : (walkIpv6ExtChain b 0).outcome = .l4 relL4 protocol)
    (hlen : relL4 + l4HeaderLen protocol ≤ b.length) {out : Bytes}
    (hout : (recomputeL4ChecksumIpv6 relL4 protocol).run b = (some (), out)) :
    Standard6 relL4 protocol out
      ∧ ipv6AhSighted out AF_INET6 0 = ipv6AhSighted b AF_INET6 0 := by
  have hrel := walk_l4_ge hwalk
  rw [recomputeL4ChecksumIpv6_run hd hrel hlen hmax] at hout
  obtain rfl := (Prod.mk.inj hout).2
  obtain ⟨hwalk', hah⟩ := walk_of_same hwalk
    (w := put16 b (relL4 + d) (fullL4Checksum6 protocol relL4 (relL4 + d) b)) (length_put16 _ _ _)
    fun i hi => byteAt_put16_of_disjoint (by omega)
  refine ⟨⟨by rwa [length_put16], hwalk', by rwa [length_put16], ?_⟩, hah⟩
  rw [recomputeL4ChecksumIpv6_run hd hrel (by rwa [length_put16]) (by rwa [length_put16]),
    put16_put16, fullL4Checksum6_put16_self]

end

end Xpf.Frames
