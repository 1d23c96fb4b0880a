/-
Decoding what was encoded: block by block through the fixed part, then the variable tail,
whose fields the decoder tells apart by how many bytes there are and by the tag of a call-id
pair, and last the markers, which it must not see where none was written.
-/
import Mathlib.Tactic.Common
import Xpf.SessionCodec

set_option autoImplicit false

namespace Xpf.SessionSync

open Xpf.LittleEndian (uint16 uint32 uint64 putUint16 putUint32 putUint64)

variable {w s : ℕ}

/-! ## Blocks -/

@[simp] theorem next8_cons (v : UInt8) (rest : Bytes) : next8 (v :: rest) = (v, rest) := rfl

@[simp] theorem next16_append (v : UInt16) (rest : Bytes) : next16 (putUint16 v ++ rest) = (v, rest) := by
  unfold next16
  rw [LittleEndian.uint16_putUint16_append, List.drop_left' (LittleEndian.length_putUint16 v)]

@[simp] theorem next32_append (v : UInt32) (rest : Bytes) : next32 (putUint32 v ++ rest) = (v, rest) := by
  unfold next32
  rw [LittleEndian.uint32_putUint32_append, List.drop_left' (LittleEndian.length_putUint32 v)]

@[simp] theorem next64_append (v : UInt64) (rest : Bytes) : next64 (putUint64 v ++ rest) = (v, rest) := by
  unfold next64
  rw [LittleEndian.uint64_putUint64_append, List.drop_left' (LittleEndian.length_putUint64 v)]

@[simp] theorem nextVec_append {n : ℕ} (v : Vector UInt8 n) (rest : Bytes) : nextVec n (v.toList ++ rest) = (v, rest) := by
  have hread : (Vector.ofFn fun i : Fin n => (v.toList ++ rest).getD i 0) = v := by
    ext i hi
    rw [Vector.getElem_ofFn, List.getD_eq_getElem?_getD, List.getElem?_append_left (by simpa using hi)]
    simp [hi]
  unfold nextVec
  rw [hread, List.drop_left' (by simp)]

/-- A key as the wire carries it: its padding stays behind. -/
def SessionKey.carried (k : SessionKey w) : SessionKey w := { k with pad := .replicate 3 0 }

@[simp] theorem decodeKey_append (k : SessionKey w) (rest : Bytes) : decodeKey (encodeKey k ++ rest) = (k.carried, rest) := by
  unfold decodeKey encodeKey
  simp only [List.append_assoc, nextVec_append, next16_append, List.singleton_append]
  rfl

@[simp] theorem length_encodeKey (k : SessionKey w) : (encodeKey k).length = 2 * w + 8 := by
  simp [encodeKey, zeros]
  omega

@[simp] theorem length_encodeState (v : SessionValue w s) : (encodeState v).length = 8 := rfl

@[simp] theorem length_encodeMeaning (v : SessionValue w s) : (encodeMeaning v).length = 40 + 2 * w := by
  simp [encodeMeaning]
  omega

@[simp] theorem length_encodeCounters (v : SessionValue w s) : (encodeCounters v).length = 32 := by
  simp [encodeCounters]

@[simp] theorem length_encodeALG (v : SessionValue w s) : (encodeALG v).length = 4 := rfl

@[simp] theorem length_encodeFib (v : SessionValue w s) : (encodeFib v).length = 20 := by
  simp [encodeFib]

@[simp] theorem length_encodeSessionTailPreNat64 (t : SessionTail) : (encodeSessionTailPreNat64 t).length = 16 := by
  simp [encodeSessionTailPreNat64]

@[simp] theorem length_encodeSessionTailFixed (t : SessionTail) : (encodeSessionTailFixed t).length = 45 := by
  simp [encodeSessionTailFixed]

@[simp] theorem decodeState_append (v₀ v : SessionValue w s) (rest : Bytes) :
    decodeState v₀ (encodeState v ++ rest)
      = ({ v₀ with state := v.state, flags := v.flags.toUInt8.toUInt16, tcpState := v.tcpState, isReverse := v.isReverse },
          rest) := rfl

@[simp] theorem decodeMeaning_append (v₀ v : SessionValue w s) (rest : Bytes) :
    decodeMeaning v₀ (encodeMeaning v ++ rest)
      = ({ v₀ with
            sessionID := v.sessionID, created := v.created, lastSeen := v.lastSeen, timeout := v.timeout
            policyID := v.policyID, ingressZone := v.ingressZone, egressZone := v.egressZone, natSrcIP := v.natSrcIP
            natDstIP := v.natDstIP, natSrcPort := v.natSrcPort, natDstPort := v.natDstPort }, rest) := by
  unfold decodeMeaning encodeMeaning
  simp only [List.append_assoc, next64_append, next32_append, next16_append, nextVec_append]

@[simp] theorem decodeCounters_append (v₀ v : SessionValue w s) (rest : Bytes) :
    decodeCounters v₀ (encodeCounters v ++ rest)
      = ({ v₀ with fwdPackets := v.fwdPackets, fwdBytes := v.fwdBytes, revPackets := v.revPackets, revBytes := v.revBytes },
          rest) := by
  unfold decodeCounters encodeCounters
  simp only [List.append_assoc, next64_append]

theorem takeIf_pos {τ : Type} {n : ℕ} {b : Bytes} (h : n ≤ b.length) (take : τ → Bytes → τ × Bytes) (t : τ) :
    takeIf n take t b = take t b := if_pos h

theorem takeIf_neg {τ : Type} {n : ℕ} {b : Bytes} (h : b.length < n) (take : τ → Bytes → τ × Bytes) (t : τ) :
    takeIf n take t b = (t, b) := if_neg (by omega)

section

variable {τ : Type} (take : τ → Bytes → τ × Bytes) (t : τ) (rest : Bytes)

@[simp] theorem takeIf_putUint64 (v : UInt64) : takeIf 8 take t (putUint64 v ++ rest) = take t (putUint64 v ++ rest) :=
  takeIf_pos (by simp) take t

@[simp] theorem takeIf_putUint32 (v : UInt32) : takeIf 4 take t (putUint32 v ++ rest) = take t (putUint32 v ++ rest) :=
  takeIf_pos (by simp) take t

@[simp] theorem takeIf_putUint32_pair (v v' : UInt32) :
    takeIf 8 take t (putUint32 v ++ (putUint32 v' ++ rest)) = take t (putUint32 v ++ (putUint32 v' ++ rest)) := by
  refine takeIf_pos ?_ take t
  simp only [List.length_append, LittleEndian.length_putUint32]
  omega

@[simp] theorem takeIf_cons (v : UInt8) : takeIf 1 take t (v :: rest) = take t (v :: rest) := takeIf_pos (by simp) take t

@[simp] theorem takeIf_cons_three (v v' v'' : UInt8) :
    takeIf 3 take t (v :: v' :: v'' :: rest) = take t (v :: v' :: v'' :: rest) := takeIf_pos (by simp) take t

end

@[simp] theorem decodeReverseKey_append (v₀ : SessionValue w s) (k : SessionKey w) (rest : Bytes) :
    decodeReverseKey v₀ (encodeKey k ++ rest) = ({ v₀ with reverseKey := k.carried }, rest) := by
  unfold decodeReverseKey
  rw [takeIf_pos (by simp), decodeKey_append]

@[simp] theorem decodeALG_append (key : SessionKey w) (v₀ v : SessionValue w s) (rest : Bytes) :
    decodeALG key v₀ (encodeALG v ++ rest)
      = ({ v₀ with
            algType := keepSyncedALGTypeConsistent key.protocol key.srcPort key.dstPort v₀.isReverse v.algType
            logFlags := v.logFlags }, rest) := by
  unfold decodeALG
  rw [takeIf_pos (by rw [List.length_append, length_encodeALG]; omega)]
  rfl

@[simp] theorem decodeFib_append (v₀ v : SessionValue w s) (rest : Bytes) :
    decodeFib v₀ (encodeFib v ++ rest)
      = ({ v₀ with
            fibIfindex := v.fibIfindex, fibVlanID := v.fibVlanID, fibDmac := v.fibDmac, fibSmac := v.fibSmac
            fibGen := v.fibGen }, rest) := by
  unfold decodeFib
  rw [takeIf_pos (by simp)]
  unfold encodeFib
  simp only [List.append_assoc, next32_append, next16_append, nextVec_append]

@[simp] theorem decodeSessionTailPreNat64_append (t₀ t : SessionTail) (rest : Bytes) :
    decodeSessionTailPreNat64 t₀ (encodeSessionTailPreNat64 t ++ rest)
      = ({ t₀ with generation := t.generation, appTimeout := t.appTimeout, policyCounterIdx := t.policyCounterIdx },
          rest) := by
  unfold decodeSessionTailPreNat64 encodeSessionTailPreNat64
  simp only [List.append_assoc, takeIf_putUint64, next64_append, takeIf_putUint32, next32_append]

/-- The fixed fields after the NAT64 slot, over what was there before. -/
def SessionTail.withFixed (t₀ t : SessionTail) : SessionTail :=
  { t₀ with
    configEpoch := t.configEpoch, rtFlowSessionID := t.rtFlowSessionID, ingressIfaceFold := t.ingressIfaceFold
    tunnelDiscriminator := t.tunnelDiscriminator, routingDomain := t.routingDomain, tcpCloseClass := t.tcpCloseClass
    installTableDomain := t.installTableDomain, installTableCheck := t.installTableCheck, flagsHigh := t.flagsHigh
    sourceNatICMPValid := t.sourceNatICMPValid, sourceNatICMPType := t.sourceNatICMPType
    sourceNatICMPCode := t.sourceNatICMPCode }

@[simp] theorem decodeSessionTailFixed_append (t₀ t : SessionTail) (rest : Bytes) :
    decodeSessionTailFixed t₀ (encodeSessionTailFixed t ++ rest) = (t₀.withFixed t, rest) := by
  unfold decodeSessionTailFixed encodeSessionTailFixed SessionTail.withFixed decodeInstallTable decodeSourceNatICMP
  simp only [List.append_assoc, takeIf_putUint64, next64_append, takeIf_putUint32, next32_append, List.cons_append,
    List.nil_append, takeIf_cons, next8_cons, takeIf_putUint32_pair, takeIf_cons_three]
  -- the valid byte is one or zero
  cases t.sourceNatICMPValid <;> rfl

/-! ## The variable tail -/

/-- The pair is absent, or tagged under a PPTP discriminator. -/
def SessionTail.PairTagged (t : SessionTail) : Prop :=
  t.pptpCallIDs = 0 ∨ (t.pptpCallIDs >>> 32 = 1 ∧ t.tunnelDiscriminator >>> 32 = 2)

/-- The tail without its pair. -/
def metadataWithoutPair (t : SessionTail) : Bytes :=
  appendSessionSyncMetadataTail t.policyRuleID t.tcpHandshakeState t.egressIfaceFold 0 t.natScopeFold

/-- Where there is no pair, the tail does not end as if there were one. -/
def SessionTail.NoPairLookalike (t : SessionTail) : Prop :=
  t.pptpCallIDs = 0 → t.tunnelDiscriminator >>> 32 = 2 → 8 ≤ (metadataWithoutPair t).length →
    uint64 ((metadataWithoutPair t).drop ((metadataWithoutPair t).length - 8)) >>> 32 ≠ 1

theorem sessionMetadata_eq (t : SessionTail) :
    sessionMetadata t = metadataWithoutPair t ++ appendPptpCallIDs t.pptpCallIDs := by
  unfold sessionMetadata metadataWithoutPair appendSessionSyncMetadataTail
  split_ifs <;> simp [appendPptpCallIDs]

theorem decodePptpCallIDs_sessionMetadata {t₀ t : SessionTail} (hzero : t₀.pptpCallIDs = 0)
    (hdisc : t₀.tunnelDiscriminator = t.tunnelDiscriminator) (htag : t.PairTagged) (hlook : t.NoPairLookalike) :
    decodePptpCallIDs t₀ (sessionMetadata t) = ({ t₀ with pptpCallIDs := t.pptpCallIDs }, metadataWithoutPair t) := by
  rw [sessionMetadata_eq]
  unfold decodePptpCallIDs
  by_cases hpair : t.pptpCallIDs = 0
  · have hempty : appendPptpCallIDs t.pptpCallIDs = [] := if_pos hpair
    rw [hempty, List.append_nil, hpair, ← hzero]
    by_cases hlen : t₀.tunnelDiscriminator >>> 32 = 2 ∧ 8 ≤ (metadataWithoutPair t).length
    · rw [if_pos hlen]
      simp only
      rw [if_neg (hlook hpair (hdisc ▸ hlen.1) hlen.2)]
    · rw [if_neg hlen]
  · obtain ⟨htag, hdisc'⟩ := htag.resolve_left hpair
    have happ : appendPptpCallIDs t.pptpCallIDs = putUint64 t.pptpCallIDs := if_neg hpair
    have hlen : (metadataWithoutPair t ++ putUint64 t.pptpCallIDs).length - 8 = (metadataWithoutPair t).length := by
      simp
    have hread : uint64 (putUint64 t.pptpCallIDs) = t.pptpCallIDs := by
      simpa using LittleEndian.uint64_putUint64_append t.pptpCallIDs []
    rw [happ, if_pos ⟨hdisc ▸ hdisc', by simp⟩]
    simp only [hlen, List.drop_left, List.take_left, hread]
    rw [if_pos htag]

/-- A tail with a rule id: its length, the id, and what follows. -/
theorem decodeRuleID_append {t₀ : SessionTail} {ruleID : Bytes} (hlen : ruleID.length ≤ sessionRuleIDMaxLen)
    (hempty : t₀.policyRuleID = []) (more : Bytes) :
    decodeRuleID t₀ (putUint16 (UInt16.ofNat ruleID.length) ++ (ruleID ++ more))
      = decodeFolds { t₀ with policyRuleID := ruleID } more := by
  have hread : (UInt16.ofNat ruleID.length).toNat = ruleID.length := by
    unfold sessionRuleIDMaxLen at hlen
    rw [UInt16.toNat_ofNat', Nat.mod_eq_of_lt (by omega)]
  unfold decodeRuleID
  rw [if_pos (by simp)]
  simp only [LittleEndian.uint16_putUint16_append, hread, List.drop_left' (LittleEndian.length_putUint16 _), List.take_left,
    List.drop_left]
  rw [if_pos (by simp)]
  by_cases hnil : ruleID = []
  · have hsame : { t₀ with policyRuleID := [] } = t₀ := by rw [← hempty]
    subst hnil
    rw [if_neg (by simp), hsame]
  · rw [if_pos (by simpa using hnil)]

/-- The rule id and what follows it are read back. -/
theorem decodeRuleID_metadata {t₀ t : SessionTail} (hrule : t.policyRuleID.length ≤ sessionRuleIDMaxLen)
    (h₁ : t₀.policyRuleID = []) (h₂ : t₀.tcpHandshakeState = 0) (h₃ : t₀.egressIfaceFold = 0) (h₄ : t₀.natScopeFold = 0) :
    decodeRuleID t₀ (metadataWithoutPair t)
      = { t₀ with
          policyRuleID := t.policyRuleID, tcpHandshakeState := normalizeTCPHandshakeState t.tcpHandshakeState
          egressIfaceFold := t.egressIfaceFold, natScopeFold := t.natScopeFold } := by
  have hkeep : (if sessionRuleIDMaxLen < t.policyRuleID.length then [] else t.policyRuleID) = t.policyRuleID :=
    if_neg (by omega)
  have hnopair : appendPptpCallIDs 0 = [] := rfl
  unfold metadataWithoutPair appendSessionSyncMetadataTail
  simp only [hkeep, hnopair, List.append_nil]
  by_cases hfold : t.egressIfaceFold ≠ 0 ∨ t.natScopeFold ≠ 0
  · rw [if_pos hfold, decodeRuleID_append hrule h₁]
    by_cases hscope : t.natScopeFold = 0
    · have hread : uint32 (putUint32 t.egressIfaceFold) = t.egressIfaceFold := by
        simpa using LittleEndian.uint32_putUint32_append t.egressIfaceFold []
      simp [decodeFolds, hread, hscope, h₄]
    · have hread : uint32 (putUint32 t.natScopeFold) = t.natScopeFold := by
        simpa using LittleEndian.uint32_putUint32_append t.natScopeFold []
      simp [decodeFolds, hscope, List.drop_left' (LittleEndian.length_putUint32 _), hread]
  · rw [if_neg hfold]
    obtain ⟨hegress, hscope⟩ := not_or.mp hfold
    rw [not_not] at hegress hscope
    by_cases hstate : t.tcpHandshakeState = 0
    · rw [if_neg (not_not.mpr hstate), List.append_nil]
      by_cases hid : t.policyRuleID = []
      · have hnone : decodeRuleID t₀ [] = t₀ := if_neg (by simp)
        have hsame : { t₀ with policyRuleID := [], tcpHandshakeState := normalizeTCPHandshakeState 0
                               egressIfaceFold := 0, natScopeFold := 0 } = t₀ := by
          cases t₀
          simp_all [normalizeTCPHandshakeState]
        rw [hid, if_neg (by simp [hstate]), hnone, hegress, hscope, hstate, hsame]
      · have hpos := List.length_pos_of_ne_nil hid
        have happend := decodeRuleID_append hrule h₁ []
        rw [List.append_nil] at happend
        rw [if_pos (Or.inl (by omega)), happend]
        simp [decodeFolds, hstate, hegress, hscope, h₃, h₄, h₂, normalizeTCPHandshakeState]
    · rw [if_pos (Or.inr hstate), if_pos hstate, List.append_assoc, decodeRuleID_append hrule h₁]
      simp [decodeFolds, hegress, hscope, h₃, h₄]

/-- **The variable tail is read back.** -/
theorem decodeMetadata_sessionMetadata {t₀ t : SessionTail} (hdisc : t₀.tunnelDiscriminator = t.tunnelDiscriminator)
    (h₀ : t₀.pptpCallIDs = 0) (h₁ : t₀.policyRuleID = []) (h₂ : t₀.tcpHandshakeState = 0) (h₃ : t₀.egressIfaceFold = 0)
    (h₄ : t₀.natScopeFold = 0) (hrule : t.policyRuleID.length ≤ sessionRuleIDMaxLen) (htag : t.PairTagged)
    (hlook : t.NoPairLookalike) :
    decodeMetadata t₀ (sessionMetadata t)
      = { t₀ with
          policyRuleID := t.policyRuleID, tcpHandshakeState := normalizeTCPHandshakeState t.tcpHandshakeState
          egressIfaceFold := t.egressIfaceFold, natScopeFold := t.natScopeFold, pptpCallIDs := t.pptpCallIDs } := by
  unfold decodeMetadata
  rw [decodePptpCallIDs_sessionMetadata h₀ hdisc htag hlook]
  exact decodeRuleID_metadata hrule h₁ h₂ h₃ h₄

/-! ## The markers -/

/-- The payload ends as a marker does: the magic and one more byte. -/
def EndsMarked (magic payload : Bytes) : Prop := ∃ front flag, payload = front ++ (magic ++ [flag])

theorem endsMarked_of_take {magic payload : Bytes} (hlen : 9 ≤ payload.length)
    (h : (payload.drop (payload.length - 9)).take 8 = magic) : EndsMarked magic payload := by
  obtain ⟨flag, hflag⟩ : ∃ flag, (payload.drop (payload.length - 9)).drop 8 = [flag] :=
    List.length_eq_one_iff.mp (by simp; omega)
  refine ⟨payload.take (payload.length - 9), flag, ?_⟩
  rw [← h, ← hflag, List.take_append_drop, List.take_append_drop]

@[simp] theorem stripAppTimeoutLogStatedMarker_append (payload : Bytes) :
    stripAppTimeoutLogStatedMarker (payload ++ (appTimeoutLogStatedTailMagic ++ [1])) = (payload, true) := by
  have hstart : (payload ++ (appTimeoutLogStatedTailMagic ++ [1])).length - 9 = payload.length := by
    simp [appTimeoutLogStatedTailMagic]
  unfold stripAppTimeoutLogStatedMarker
  rw [if_neg (by simp [appTimeoutLogStatedTailMagic])]
  simp only [hstart, List.drop_left, List.take_left, List.drop_length_add_append]
  rfl

theorem stripAppTimeoutLogStatedMarker_unmarked {payload : Bytes} (h : ¬ EndsMarked appTimeoutLogStatedTailMagic payload) :
    stripAppTimeoutLogStatedMarker payload = (payload, false) := by
  unfold stripAppTimeoutLogStatedMarker
  by_cases hlen : payload.length < 9
  · rw [if_pos hlen]
  · rw [if_neg hlen]
    exact if_pos fun hmagic => h (endsMarked_of_take (by omega) hmagic)

@[simp] theorem stripPrimaryLivenessMarker_append (payload : Bytes) :
    stripPrimaryLivenessMarker (payload ++ (primaryLivenessTailMagic ++ [1])) = (payload, true, true) := by
  have hstart : (payload ++ (primaryLivenessTailMagic ++ [1])).length - 9 = payload.length := by
    simp [primaryLivenessTailMagic]
  unfold stripPrimaryLivenessMarker
  rw [if_neg (by simp [primaryLivenessTailMagic])]
  simp only [hstart, List.drop_left, List.take_left, List.drop_length_add_append]
  rfl

theorem stripPrimaryLivenessMarker_unmarked {payload : Bytes} (h : ¬ EndsMarked primaryLivenessTailMagic payload) :
    stripPrimaryLivenessMarker payload = (payload, false, true) := by
  unfold stripPrimaryLivenessMarker
  by_cases hlen : payload.length < 9
  · rw [if_pos hlen]
  · rw [if_neg hlen]
    exact if_pos fun hmagic => h (endsMarked_of_take (by omega) hmagic)

/-- A magic: eight bytes, of which only the first is a small number. -/
def IsMagic (magic : Bytes) : Prop := magic.length = 8 ∧ ∀ b ∈ magic.tail, 4 < b

theorem isMagic_of_all {magic : Bytes} (hlen : magic.length = 8)
    (hall : (magic.tail.all fun b => decide (4 < b.toNat)) = true) : IsMagic magic := by
  refine ⟨hlen, fun b hb => ?_⟩
  have hb4 := of_decide_eq_true (List.all_eq_true.mp hall b hb)
  exact UInt8.lt_iff_toNat_lt.mpr hb4

theorem appTimeoutLogStatedTailMagic_isMagic : IsMagic appTimeoutLogStatedTailMagic :=
  isMagic_of_all rfl rfl

theorem primaryLivenessTailMagic_isMagic : IsMagic primaryLivenessTailMagic :=
  isMagic_of_all rfl rfl

/-- In a payload that ends marked, the bytes of the magic but its first are not small. -/
theorem EndsMarked.large {magic payload : Bytes} (hm : IsMagic magic) (h : EndsMarked magic payload) {k i : ℕ} {b : UInt8}
    (hk : k + 9 = payload.length + i) (h₁ : 1 ≤ i) (h₇ : i ≤ 7) (hb : payload[k]? = some b) : 4 < b := by
  obtain ⟨front, flag, rfl⟩ := h
  obtain ⟨hlen, hlarge⟩ := hm
  simp only [List.length_append, List.length_singleton, hlen] at hk
  obtain ⟨first, tail, rfl⟩ : ∃ first tail, magic = first :: tail := List.exists_cons_of_length_pos (by omega)
  simp only [List.length_cons] at hlen
  rw [List.getElem?_append_right (by omega), List.getElem?_append_left (by simp; omega),
    show k - front.length = i - 1 + 1 by omega, List.getElem?_cons_succ] at hb
  exact hlarge b (List.mem_of_getElem? hb)

/-- The second byte of the length of a rule id. -/
theorem ruleID_length_small {n : ℕ} (hn : n ≤ sessionRuleIDMaxLen) (rest : Bytes) :
    ∃ b, (putUint16 (UInt16.ofNat n) ++ rest)[1]? = some b ∧ b ≤ 4 := by
  unfold sessionRuleIDMaxLen at hn
  have hread : (UInt16.ofNat n).toNat = n := by rw [UInt16.toNat_ofNat', Nat.mod_eq_of_lt (by omega)]
  refine ⟨UInt8.ofNat (n / 256), ?_, ?_⟩
  · rw [List.getElem?_append_left (by simp)]
    simp [putUint16, LittleEndian.encode, hread]
  · rw [UInt8.le_iff_toNat_le, UInt8.toNat_ofNat', Nat.mod_eq_of_lt (by omega)]
    show n / 256 ≤ 4
    omega

/-- The fifth byte of a tagged pair is its tag. -/
theorem pair_tag_small {pair : UInt64} (htag : pair >>> 32 = 1) : ∃ b, (putUint64 pair)[4]? = some b ∧ b ≤ 4 := by
  have hhigh : pair.toNat / 2 ^ 32 = 1 := by
    have h := congrArg UInt64.toNat htag
    rwa [UInt64.toNat_shiftRight, Nat.shiftRight_eq_div_pow] at h
  refine ⟨UInt8.ofNat (pair.toNat / 256 / 256 / 256 / 256), by simp [putUint64, LittleEndian.encode], ?_⟩
  rw [Nat.div_div_eq_div_mul, Nat.div_div_eq_div_mul, Nat.div_div_eq_div_mul]
  rw [show 256 * (256 * (256 * 256)) = 2 ^ 32 by rfl, hhigh]
  decide

/-- How a variable tail starts: it is empty, or it starts with the length of a rule id, whose
high byte is small, or it is a call-id pair alone, with its tag. -/
theorem sessionMetadata_shape {t : SessionTail} (hrule : t.policyRuleID.length ≤ sessionRuleIDMaxLen) (htag : t.PairTagged) :
    sessionMetadata t = [] ∨ (∃ b, (sessionMetadata t)[1]? = some b ∧ b ≤ 4) ∨
      ((sessionMetadata t).length = 8 ∧ ∃ b, (sessionMetadata t)[4]? = some b ∧ b ≤ 4) := by
  have hkeep : (if sessionRuleIDMaxLen < t.policyRuleID.length then [] else t.policyRuleID) = t.policyRuleID :=
    if_neg (by omega)
  unfold sessionMetadata appendSessionSyncMetadataTail
  simp only [hkeep]
  by_cases hfold : t.egressIfaceFold ≠ 0 ∨ t.natScopeFold ≠ 0
  · rw [if_pos hfold]
    exact Or.inr (Or.inl (ruleID_length_small hrule _))
  rw [if_neg hfold]
  by_cases hid : t.policyRuleID.length ≠ 0 ∨ t.tcpHandshakeState ≠ 0
  · rw [if_pos hid, List.append_assoc]
    exact Or.inr (Or.inl (ruleID_length_small hrule _))
  · obtain ⟨-, hstate⟩ := not_or.mp hid
    rw [if_neg hid, if_neg hstate, List.nil_append, List.nil_append]
    by_cases hpair : t.pptpCallIDs = 0
    · exact Or.inl (if_pos hpair)
    · have happ : appendPptpCallIDs t.pptpCallIDs = putUint64 t.pptpCallIDs := if_neg hpair
      rw [happ]
      exact Or.inr (Or.inr ⟨LittleEndian.length_putUint64 _, pair_tag_small (htag.resolve_left hpair).1⟩)

/-- The fixed part ends in a byte that is zero or one and two more, so that no marker is seen
where the variable tail has none inside. -/
theorem not_endsMarked {magic front tail : Bytes} {valid type code : UInt8} (hm : IsMagic magic)
    (hvalid : valid ≤ 4)
    (hshape : tail = [] ∨ (∃ b, tail[1]? = some b ∧ b ≤ 4) ∨ (tail.length = 8 ∧ ∃ b, tail[4]? = some b ∧ b ≤ 4))
    (hno : ¬ magic <:+: tail) : ¬ EndsMarked magic (front ++ ([valid, type, code] ++ tail)) := by
  intro h
  have hlen : (front ++ ([valid, type, code] ++ tail)).length = front.length + 3 + tail.length := by
    simp
    omega
  have hnth : ∀ k, (front ++ ([valid, type, code] ++ tail))[front.length + 3 + k]? = tail[k]? := fun k => by
    rw [List.getElem?_append_right (by omega), List.getElem?_append_right (by simp; omega)]
    congr 1
    simp
    omega
  by_cases hlong : 9 ≤ tail.length
  -- the whole marker lies in the tail
  · obtain ⟨before, flag, heq⟩ := h
    have hsuffix : magic ++ [flag] <:+ tail := by
      have htail : tail <:+ before ++ (magic ++ [flag]) := ⟨front ++ [valid, type, code], by rw [List.append_assoc, heq]⟩
      exact List.suffix_of_suffix_length_le ⟨before, rfl⟩ htail (by simp [hm.1]; omega)
    exact hno ((List.prefix_append magic [flag]).isInfix.trans hsuffix.isInfix)
  by_cases hshort : tail.length ≤ 5
  -- the byte that is zero or one lies in the magic
  · have hfirst : (front ++ ([valid, type, code] ++ tail))[front.length]? = some valid := by
      rw [List.getElem?_append_right (le_refl _)]
      simp
    exact absurd (h.large hm (i := 6 - tail.length) (by omega) (by omega) (by omega) hfirst) (UInt8.not_lt.mpr hvalid)
  -- the start of the tail does
  · rcases hshape with rfl | ⟨b, hb, hsmall⟩ | ⟨hpair, b, hb, hsmall⟩
    · simp at hshort
    · exact absurd (h.large hm (i := 10 - tail.length) (by omega) (by omega) (by omega) ((hnth 1).trans hb))
        (UInt8.not_lt.mpr hsmall)
    · exact absurd (h.large hm (i := 5) (by omega) (by omega) (by omega) ((hnth 4).trans hb)) (UInt8.not_lt.mpr hsmall)

/-- A tail that the codec carries: a rule id that fits, a pair that is tagged, nothing that
looks like one where there is none, and no magic inside. -/
structure SessionTail.Carriable (t : SessionTail) : Prop where
  ruleID : t.policyRuleID.length ≤ sessionRuleIDMaxLen
  tagged : t.PairTagged
  lookalike : t.NoPairLookalike
  noAppTimeoutMagic : ¬ appTimeoutLogStatedTailMagic <:+: sessionMetadata t
  noLivenessMagic : ¬ primaryLivenessTailMagic <:+: sessionMetadata t

theorem fixed_not_endsMarked {magic : Bytes} (hm : IsMagic magic) {t : SessionTail} (ht : t.Carriable)
    (hno : ¬ magic <:+: sessionMetadata t) (front : Bytes) :
    ¬ EndsMarked magic (front ++ (encodeSessionTailFixed t ++ sessionMetadata t)) := by
  obtain ⟨before, hbefore⟩ : ∃ before, encodeSessionTailFixed t
      = before ++ [if t.sourceNatICMPValid then 1 else 0, t.sourceNatICMPType, t.sourceNatICMPCode] :=
    ⟨putUint64 t.configEpoch ++ (putUint64 t.rtFlowSessionID ++ (putUint32 t.ingressIfaceFold ++
      (putUint64 t.tunnelDiscriminator ++ (putUint32 t.routingDomain ++ ([t.tcpCloseClass] ++
      (putUint32 t.installTableDomain ++ (putUint32 t.installTableCheck ++ [t.flagsHigh]))))))),
      by simp [encodeSessionTailFixed]⟩
  have hvalid : (if t.sourceNatICMPValid then 1 else 0 : UInt8) ≤ 4 := by
    split <;> decide
  rw [hbefore, List.append_assoc, ← List.append_assoc]
  exact not_endsMarked hm hvalid (sessionMetadata_shape ht.ruleID ht.tagged) hno

/-- A tail as the wire carries it: unknown handshake states become established. -/
def SessionTail.carried (t : SessionTail) : SessionTail :=
  { t with tcpHandshakeState := normalizeTCPHandshakeState t.tcpHandshakeState }

/-- The fields before the NAT64 slot, over an empty tail. -/
def SessionTail.preNat64 (t : SessionTail) : SessionTail :=
  { SessionTail.zero with
    generation := t.generation, appTimeout := t.appTimeout, policyCounterIdx := t.policyCounterIdx }

theorem decodeSessionTailPostNat64_encode {t : SessionTail} (ht : t.Carriable) (front : Bytes) :
    decodeSessionTailPostNat64 (front ++ encodeSessionTailPostNat64 t) front.length t.preNat64 = t.carried := by
  have hstrip : stripAppTimeoutLogStatedMarker (front ++ encodeSessionTailPostNat64 t)
      = (front ++ (encodeSessionTailFixed t ++ sessionMetadata t), t.appTimeoutLogStated) := by
    unfold encodeSessionTailPostNat64
    cases hstated : t.appTimeoutLogStated
    · have hunmarked := fixed_not_endsMarked appTimeoutLogStatedTailMagic_isMagic ht ht.noAppTimeoutMagic front
      simpa [appendAppTimeoutLogStatedMarker] using stripAppTimeoutLogStatedMarker_unmarked hunmarked
    · have hmarked := stripAppTimeoutLogStatedMarker_append (front ++ (encodeSessionTailFixed t ++ sessionMetadata t))
      simpa [appendAppTimeoutLogStatedMarker] using hmarked
  unfold decodeSessionTailPostNat64
  simp only [hstrip, List.drop_left, decodeSessionTailFixed_append]
  exact decodeMetadata_sessionMetadata rfl rfl rfl rfl rfl rfl ht.ruleID ht.tagged ht.lookalike

/-! ## The whole payload -/

/-- A value as the wire carries it for a key. The interface indexes of the sender and the
application id stay behind, the ALG tag is kept where it fits the ports, and unknown
handshake states become established. -/
def SessionValue.carried (key : SessionKey w) (v : SessionValue w s) : SessionValue w s :=
  { v with
    reverseKey := v.reverseKey.carried
    algType := keepSyncedALGTypeConsistent key.protocol key.srcPort key.dstPort v.isReverse v.algType
    tcpHandshakeState := normalizeTCPHandshakeState v.tcpHandshakeState
    appID := 0
    ingressIfindex := 0
    ingressVlanID := 0
    natScopeIfindex := 0 }

/-- Flags from their two bytes. -/
theorem toNat_flags (low : UInt16) (high : UInt8) :
    ((low &&& (0x00FF : UInt16)) ||| (high.toUInt16 <<< 8)).toNat = 256 * high.toNat + low.toNat % 256 := by
  have hhigh := high.toNat_lt
  have hlow : low.toNat &&& 255 = low.toNat % 256 := Nat.and_two_pow_sub_one_eq_mod low.toNat 8
  have hor := Nat.two_pow_add_eq_or_of_lt (i := 8) (b := low.toNat % 256) (by omega) high.toNat
  simp only [UInt16.toNat_or, UInt16.toNat_and, UInt8.toNat_toUInt16, UInt16.toNat_shiftLeft, Nat.shiftLeft_eq,
    UInt16.reduceToNat, Nat.reduceMod, Nat.reducePow, hlow]
  rw [Nat.or_comm, Nat.mod_eq_of_lt (by omega), Nat.mul_comm]
  exact hor.symm

/-- The low byte of the flags and their high byte, each from its own place. -/
theorem flags_recombine (flags : UInt16) :
    (flags.toUInt8.toUInt16 &&& (0x00FF : UInt16)) ||| ((flags >>> 8).toUInt8.toUInt16 <<< 8) = flags := by
  have hlt := flags.toNat_lt
  apply UInt16.toNat_inj.mp
  rw [toNat_flags]
  simp only [UInt8.toNat_toUInt16, UInt16.toNat_toUInt8, UInt16.toNat_shiftRight, Nat.shiftRight_eq_div_pow,
    UInt16.reduceToNat, Nat.reduceMod, Nat.reducePow]
  omega

/-- The payload up to the NAT64 slot. -/
def encodeFront (key : SessionKey w) (v : SessionValue w s) : Bytes :=
  encodeKey key ++ (encodeState v ++ (encodeMeaning v ++ (encodeCounters v ++ (encodeKey v.reverseKey ++
    (encodeALG v ++ (encodeFib v ++ (encodeSessionTailPreNat64 v.sessionTail ++ v.nat64SnatV4.toList)))))))

theorem encodeSessionPayload_eq (key : SessionKey w) (v : SessionValue w s) :
    encodeSessionPayload key v = (encodeFront key v ++ encodeSessionTailPostNat64 v.sessionTail) ++
      (if v.primaryLiveness then appendPrimaryLivenessMarker else []) := by
  simp [encodeSessionPayload, encodeFront]

theorem stripPrimaryLivenessMarker_encode {key : SessionKey w} {v : SessionValue w s} (ht : v.sessionTail.Carriable) :
    stripPrimaryLivenessMarker (encodeSessionPayload key v)
      = (encodeFront key v ++ encodeSessionTailPostNat64 v.sessionTail, v.primaryLiveness, true) := by
  rw [encodeSessionPayload_eq]
  cases v.primaryLiveness
  · have hunmarked : ¬ EndsMarked primaryLivenessTailMagic (encodeFront key v ++ encodeSessionTailPostNat64 v.sessionTail) := by
      unfold encodeSessionTailPostNat64
      cases v.sessionTail.appTimeoutLogStated
      · simpa [appendAppTimeoutLogStatedMarker] using
          fixed_not_endsMarked primaryLivenessTailMagic_isMagic ht ht.noLivenessMagic (encodeFront key v)
      · -- the other marker is at the end, and the two magics differ
        rintro ⟨before, flag, heq⟩
        simp only [appendAppTimeoutLogStatedMarker, if_true, ← List.append_assoc] at heq
        have hends := (List.append_inj' (List.append_inj' heq rfl).1 rfl).2
        exact absurd hends (by decide)
    simpa using stripPrimaryLivenessMarker_unmarked hunmarked
  · exact stripPrimaryLivenessMarker_append _

/-- A payload whose tail is cut off, or replaced, still yields all fields before it. -/
theorem decodeOptional_append (payload : Bytes) (live : Bool) (key : SessionKey w) (v₀ v : SessionValue w s) (tail : Bytes) :
    decodeOptional payload live key v₀
        (encodeKey v.reverseKey ++ (encodeALG v ++ (encodeFib v ++ (encodeSessionTailPreNat64 v.sessionTail ++
          (v.nat64SnatV4.toList ++ tail)))))
      = { (({ v₀ with
              reverseKey := v.reverseKey.carried
              algType := keepSyncedALGTypeConsistent key.protocol key.srcPort key.dstPort v₀.isReverse v.algType
              logFlags := v.logFlags
              fibIfindex := v.fibIfindex, fibVlanID := v.fibVlanID, fibDmac := v.fibDmac, fibSmac := v.fibSmac
              fibGen := v.fibGen
              nat64SnatV4 := v.nat64SnatV4 } : SessionValue w s).setSessionTail
            (decodeSessionTailPostNat64 payload (payload.length - tail.length) v.sessionTail.preNat64)) with
          primaryLiveness := live } := by
  unfold decodeOptional
  simp only [decodeReverseKey_append, decodeALG_append, decodeFib_append, decodeSessionTailPreNat64_append]
  rw [takeIf_pos (by simp)]
  simp only [nextVec_append]
  rfl

/-- **Round trip.** Decoding an encoded session succeeds and gives the session back, as the
wire carries it, whatever combination of optional parts its tail has. -/
theorem decodeSessionPayload_encode (key : SessionKey w) (v : SessionValue w s) (ht : v.sessionTail.Carriable) :
    decodeSessionPayload (encodeSessionPayload key v) = some (key.carried, v.carried key) := by
  have hoff : (encodeFront key v ++ encodeSessionTailPostNat64 v.sessionTail).length
      - (encodeSessionTailPostNat64 v.sessionTail).length = (encodeFront key v).length := by
    rw [List.length_append, Nat.add_sub_cancel]
  have htail := decodeSessionTailPostNat64_encode ht (encodeFront key v)
  unfold decodeSessionPayload
  simp only [stripPrimaryLivenessMarker_encode ht]
  rw [← hoff] at htail
  unfold encodeFront at htail ⊢
  simp only [List.append_assoc] at htail ⊢
  simp only [Bool.not_true, Bool.false_eq_true, if_false, decodeKey_append, decodeState_append, decodeMeaning_append,
    decodeCounters_append, decodeOptional_append]
  rw [if_neg (by simp), if_neg (by simp), if_neg (by simp), if_neg (by simp), htail]
  simp only [SessionValue.setSessionTail, SessionTail.carried, SessionValue.sessionTail, flags_recombine]
  rfl

/-- **The session codec round trips**, for both families: every session whose rule id fits,
whose pair is tagged or absent and whose tail looks like nothing else comes back with every
field the wire carries. -/
theorem session_codec_round_trip :
    (∀ (key : SessionKey 4) (v : SessionValue 4 0), v.sessionTail.Carriable →
      decodeSessionV4Payload (encodeSessionV4Payload key v) = some (key.carried, v.carried key)) ∧
    ∀ (key : SessionKey 16) (v : SessionValue 16 4), v.sessionTail.Carriable →
      decodeSessionV6Payload (encodeSessionV6Payload key v) = some (key.carried, v.carried key) :=
  ⟨fun key v ht => decodeSessionPayload_encode key v ht, fun key v ht => decodeSessionPayload_encode key v ht⟩

/-- An established GRE session with a rule, both folds, a call-id pair and both markers. -/
def pptpSession (w s : ℕ) : SessionValue w s :=
  { SessionValue.zero with
    flags := 0x1203
    tcpHandshakeState := 4
    policyRuleID := [0x72, 0x31]
    egressIfaceFold := 7
    natScopeFold := 9
    tunnelDiscriminator := 0x200000005
    pptpCallIDs := 0x100020003
    primaryLiveness := true
    appTimeoutLogStated := true }

theorem pptpSession_carriable : (pptpSession 4 0).sessionTail.Carriable where
  ruleID := by decide
  tagged := Or.inr (by decide)
  lookalike := fun h => absurd h (by decide)
  noAppTimeoutMagic := by decide
  noLivenessMagic := by decide

theorem session_codec_round_trip_pptp :
    decodeSessionV4Payload (encodeSessionV4Payload .zero (pptpSession 4 0)) = some (.zero, pptpSession 4 0) ∧
      decodeSessionV6Payload (encodeSessionV6Payload .zero (pptpSession 16 4)) = some (.zero, pptpSession 16 4) :=
  ⟨session_codec_round_trip.1 .zero _ pptpSession_carriable,
    session_codec_round_trip.2 .zero (pptpSession 16 4) pptpSession_carriable⟩

/-- A session whose interface index is the sender's own. -/
def localSession : SessionValue 4 0 := { SessionValue.zero with ingressIfindex := 3, natScopeIfindex := 3 }

theorem localSession_carriable : localSession.sessionTail.Carriable where
  ruleID := by decide
  tagged := Or.inl rfl
  lookalike := fun _ h => absurd h (by decide)
  noAppTimeoutMagic := by decide
  noLivenessMagic := by decide

/-- Not every field comes back: the interface indexes of the sender do not. -/
theorem session_codec_drops_local_fields :
    ¬ ∀ (key : SessionKey 4) (v : SessionValue 4 0), v.policyRuleID.length ≤ sessionRuleIDMaxLen →
      v.sessionTail.PairTagged → ¬ appTimeoutLogStatedTailMagic <:+: sessionMetadata v.sessionTail →
      ¬ primaryLivenessTailMagic <:+: sessionMetadata v.sessionTail →
      decodeSessionV4Payload (encodeSessionV4Payload key v) = some (key,
        { v with
          algType := keepSyncedALGTypeConsistent key.protocol key.srcPort key.dstPort v.isReverse v.algType }) := by
  intro h
  have hcarried := decodeSessionPayload_encode .zero localSession localSession_carriable
  have hsame := h .zero localSession localSession_carriable.ruleID localSession_carriable.tagged
    localSession_carriable.noAppTimeoutMagic localSession_carriable.noLivenessMagic
  have hvalue := congrArg (fun r => r.map fun p => p.2.ingressIfindex) (hcarried.symm.trans hsame)
  exact absurd hvalue (by decide)

end Xpf.SessionSync
