/-
What a decoder makes of the start of a session payload.

A block that does not fit is skipped and decoding goes on at the same place. Where a payload
ends at the end of a block, as the payloads of older peers do, nothing is left for the blocks
behind it and they keep their defaults. Where it ends inside a block, the bytes of that block
are offered to the blocks behind it, and a smaller one takes them.
-/
import Mathlib.Tactic.Common
import Xpf.SessionRoundTrip

set_option autoImplicit false

namespace Xpf.SessionSync

open Xpf.LittleEndian (uint16 uint32 uint64 putUint16 putUint32 putUint64)

variable {w s : ℕ}

/-! ## Fields that are what was sent, or absent -/

/-- What was decoded is what was sent, or the default of the absent field. -/
def SentOr {α : Type} (sent default got : α) : Prop := got = sent ∨ got = default

theorem SentOr.sent {α : Type} {sent default : α} : SentOr sent default sent := Or.inl rfl

theorem SentOr.absent {α : Type} {sent default : α} : SentOr sent default default := Or.inr rfl

/-- Every field of the tail is what was sent, or absent. -/
structure SessionTail.PartOf (sent got : SessionTail) : Prop where
  generation : SentOr sent.generation 0 got.generation
  appTimeout : SentOr sent.appTimeout 0 got.appTimeout
  policyCounterIdx : SentOr sent.policyCounterIdx 0 got.policyCounterIdx
  configEpoch : SentOr sent.configEpoch 0 got.configEpoch
  rtFlowSessionID : SentOr sent.rtFlowSessionID 0 got.rtFlowSessionID
  ingressIfaceFold : SentOr sent.ingressIfaceFold 0 got.ingressIfaceFold
  tunnelDiscriminator : SentOr sent.tunnelDiscriminator 0 got.tunnelDiscriminator
  routingDomain : SentOr sent.routingDomain 0 got.routingDomain
  tcpCloseClass : SentOr sent.tcpCloseClass 0 got.tcpCloseClass
  installTableDomain : SentOr sent.installTableDomain 0 got.installTableDomain
  installTableCheck : SentOr sent.installTableCheck 0 got.installTableCheck
  flagsHigh : SentOr sent.flagsHigh 0 got.flagsHigh
  sourceNatICMPValid : SentOr sent.sourceNatICMPValid false got.sourceNatICMPValid
  sourceNatICMPType : SentOr sent.sourceNatICMPType 0 got.sourceNatICMPType
  sourceNatICMPCode : SentOr sent.sourceNatICMPCode 0 got.sourceNatICMPCode
  policyRuleID : SentOr sent.policyRuleID [] got.policyRuleID
  tcpHandshakeState : SentOr sent.tcpHandshakeState 0 got.tcpHandshakeState
  egressIfaceFold : SentOr sent.egressIfaceFold 0 got.egressIfaceFold
  pptpCallIDs : SentOr sent.pptpCallIDs 0 got.pptpCallIDs
  natScopeFold : SentOr sent.natScopeFold 0 got.natScopeFold
  appTimeoutLogStated : SentOr sent.appTimeoutLogStated false got.appTimeoutLogStated

/-- Every field of the value is what was sent, or absent. The two bytes of the flags have
their own places on the wire and are two fields here. -/
structure SessionValue.PartOf (sent got : SessionValue w s) : Prop where
  state : SentOr sent.state 0 got.state
  flagsLow : SentOr sent.flags.toUInt8 0 got.flags.toUInt8
  tcpState : SentOr sent.tcpState 0 got.tcpState
  isReverse : SentOr sent.isReverse 0 got.isReverse
  sessionID : SentOr sent.sessionID 0 got.sessionID
  created : SentOr sent.created 0 got.created
  lastSeen : SentOr sent.lastSeen 0 got.lastSeen
  timeout : SentOr sent.timeout 0 got.timeout
  policyID : SentOr sent.policyID 0 got.policyID
  ingressZone : SentOr sent.ingressZone 0 got.ingressZone
  egressZone : SentOr sent.egressZone 0 got.egressZone
  natSrcIP : SentOr sent.natSrcIP (.replicate w 0) got.natSrcIP
  natDstIP : SentOr sent.natDstIP (.replicate w 0) got.natDstIP
  natSrcPort : SentOr sent.natSrcPort 0 got.natSrcPort
  natDstPort : SentOr sent.natDstPort 0 got.natDstPort
  fwdPackets : SentOr sent.fwdPackets 0 got.fwdPackets
  fwdBytes : SentOr sent.fwdBytes 0 got.fwdBytes
  revPackets : SentOr sent.revPackets 0 got.revPackets
  revBytes : SentOr sent.revBytes 0 got.revBytes
  reverseKey : SentOr sent.reverseKey .zero got.reverseKey
  algType : SentOr sent.algType 0 got.algType
  logFlags : SentOr sent.logFlags 0 got.logFlags
  appID : SentOr sent.appID 0 got.appID
  fibIfindex : SentOr sent.fibIfindex 0 got.fibIfindex
  fibVlanID : SentOr sent.fibVlanID 0 got.fibVlanID
  fibDmac : SentOr sent.fibDmac (.replicate 6 0) got.fibDmac
  fibSmac : SentOr sent.fibSmac (.replicate 6 0) got.fibSmac
  fibGen : SentOr sent.fibGen 0 got.fibGen
  ingressIfindex : SentOr sent.ingressIfindex 0 got.ingressIfindex
  ingressVlanID : SentOr sent.ingressVlanID 0 got.ingressVlanID
  natScopeIfindex : SentOr sent.natScopeIfindex 0 got.natScopeIfindex
  nat64SnatV4 : SentOr sent.nat64SnatV4 (.replicate s 0) got.nat64SnatV4
  primaryLiveness : SentOr sent.primaryLiveness false got.primaryLiveness
  tail : sent.sessionTail.PartOf got.sessionTail

/-- **Not misread.** Decoding the first `n` bytes of a session fails, or gives its key and
nothing but fields that are what was sent or absent. -/
def NotMisread (key : SessionKey w) (v : SessionValue w s) (n : ℕ) : Prop :=
  ∀ k got, decodeSessionPayload ((encodeSessionPayload key v).take n) = some (k, got) →
    k = key.carried ∧ (v.carried key).PartOf got

/-! ## One block -/

/-- What a block makes of a start of its own encoding and of what follows. -/
structure Took {τ : Type} (inv : τ → Prop) (rest b : Bytes) (n : ℕ) (r : τ × Bytes) : Prop where
  inv : inv r.1
  starts : r.2 <+: rest
  drop : r.2 = b.drop n

theorem prefix_append_iff {b block rest : Bytes} (h : b <+: block ++ rest) (hlen : block.length ≤ b.length) :
    ∃ b', b = block ++ b' ∧ b' <+: rest := by
  obtain ⟨b', rfl⟩ := List.prefix_of_prefix_length_le (List.prefix_append block rest) h hlen
  exact ⟨b', rfl, (List.prefix_append_right_inj block).mp h⟩

/-- A block of fixed size, at the end of the payload or with all its bytes there. -/
theorem takeIf_took {τ : Type} {inv : τ → Prop} {take : τ → Bytes → τ × Bytes} {block rest b : Bytes} {t : τ} {n : ℕ}
    (hn : block.length = n) (hb : b <+: block ++ rest) (hcut : b.length = 0 ∨ n ≤ b.length) (ht : inv t)
    (htake : ∀ b', inv (take t (block ++ b')).1 ∧ (take t (block ++ b')).2 = b') : Took inv rest b n (takeIf n take t b) := by
  by_cases hfit : n ≤ b.length
  · obtain ⟨b', rfl, hb'⟩ := prefix_append_iff hb (by omega)
    obtain ⟨hinv, hrest⟩ := htake b'
    rw [takeIf_pos hfit]
    refine ⟨hinv, ?_, ?_⟩
    · rw [hrest]
      exact hb'
    · rw [hrest, List.drop_left' hn]
  · have hnil : b = [] := List.eq_nil_of_length_eq_zero (by omega)
    subst hnil
    rw [takeIf_neg (not_le.mp hfit)]
    exact ⟨ht, List.nil_prefix, List.drop_nil.symm⟩

theorem Took.length {τ : Type} {inv : τ → Prop} {rest b : Bytes} {n : ℕ} {r : τ × Bytes} (h : Took inv rest b n r) :
    r.2.length = b.length - n := by
  rw [h.drop, List.length_drop]

theorem Took.exists_eq {τ : Type} {inv : τ → Prop} {rest b : Bytes} {n : ℕ} {r : τ × Bytes} (h : Took inv rest b n r) :
    ∃ t b', r = (t, b') ∧ inv t ∧ b' <+: rest ∧ b' = b.drop n ∧ b'.length = b.length - n :=
  ⟨r.1, r.2, rfl, h.inv, h.starts, h.drop, h.length⟩

/-! ## The blocks before the NAT64 slot -/

theorem decodeReverseKey_took {sent v : SessionValue w s} {k : SessionKey w} {rest b : Bytes} (hk : sent.reverseKey = k.carried)
    (hv : sent.PartOf v) (hb : b <+: encodeKey k ++ rest) (hcut : b.length = 0 ∨ 2 * w + 8 ≤ b.length) :
    Took sent.PartOf rest b (2 * w + 8) (decodeReverseKey v b) := by
  refine takeIf_took (length_encodeKey k) hb hcut hv fun b' => ?_
  rw [decodeKey_append]
  exact ⟨{ hv with reverseKey := Or.inl hk.symm }, rfl⟩

/-- Two bytes of the ALG block are enough, and the two behind them are skipped as far as they
are there. -/
theorem decodeALG_took {key : SessionKey w} {v₀ v : SessionValue w s} {rest b : Bytes}
    (hrev : v₀.isReverse = v.isReverse) (hv : (v.carried key).PartOf v₀) (hb : b <+: encodeALG v ++ rest)
    (hcut : b.length = 0 ∨ 2 ≤ b.length) : Took (v.carried key).PartOf rest b 4 (decodeALG key v₀ b) := by
  by_cases hfit : 2 ≤ b.length
  · obtain ⟨b', rfl, hb'⟩ : ∃ b', b = [v.algType, v.logFlags] ++ b' ∧ b' <+: [0, 0] ++ rest := prefix_append_iff hb hfit
    have htake : decodeALG key v₀ ([v.algType, v.logFlags] ++ b')
        = ({ v₀ with
              algType := keepSyncedALGTypeConsistent key.protocol key.srcPort key.dstPort v₀.isReverse v.algType
              logFlags := v.logFlags }, b'.drop 2) := takeIf_pos (by simp) _ _
    have htag : SentOr (v.carried key).algType 0
        (keepSyncedALGTypeConsistent key.protocol key.srcPort key.dstPort v₀.isReverse v.algType) := by
      rw [hrev]
      exact SentOr.sent
    rw [htake]
    refine ⟨{ hv with algType := htag, logFlags := SentOr.sent }, ?_, ?_⟩
    · simpa using hb'.drop 2
    · rfl
  · have hnil : b = [] := List.eq_nil_of_length_eq_zero (by omega)
    subst hnil
    exact ⟨hv, List.nil_prefix, rfl⟩

theorem decodeFib_took {key : SessionKey w} {v₀ v : SessionValue w s} {rest b : Bytes} (hv : (v.carried key).PartOf v₀)
    (hb : b <+: encodeFib v ++ rest) (hcut : b.length = 0 ∨ 20 ≤ b.length) :
    Took (v.carried key).PartOf rest b 20 (decodeFib v₀ b) := by
  refine takeIf_took (length_encodeFib v) hb hcut hv fun b' => ?_
  have htake := decodeFib_append v₀ v b'
  unfold decodeFib at htake
  rw [takeIf_pos (by simp)] at htake
  rw [htake]
  exact ⟨{ hv with fibIfindex := SentOr.sent, fibVlanID := SentOr.sent, fibDmac := SentOr.sent
                   fibSmac := SentOr.sent, fibGen := SentOr.sent }, rfl⟩

theorem decodeNat64_took {key : SessionKey w} {v₀ v : SessionValue w s} {rest b : Bytes} (hv : (v.carried key).PartOf v₀)
    (hb : b <+: v.nat64SnatV4.toList ++ rest) (hcut : b.length = 0 ∨ s ≤ b.length) :
    Took (v.carried key).PartOf rest b s
      (takeIf s (fun v b => ({ v with nat64SnatV4 := (nextVec s b).1 }, (nextVec s b).2)) v₀ b) := by
  refine takeIf_took (by simp) hb hcut hv fun b' => ?_
  rw [nextVec_append]
  exact ⟨{ hv with nat64SnatV4 := SentOr.sent }, rfl⟩

/-- A number of the tail, in a block of its own. -/
theorem takeIf_next64_took {inv : SessionTail → Prop} {t : SessionTail} {rest b : Bytes} {n : UInt64}
    (set : SessionTail → UInt64 → SessionTail) (hb : b <+: putUint64 n ++ rest) (hcut : b.length = 0 ∨ 8 ≤ b.length)
    (ht : inv t) (hset : inv (set t n)) :
    Took inv rest b 8 (takeIf 8 (fun t b => (set t (next64 b).1, (next64 b).2)) t b) :=
  takeIf_took (LittleEndian.length_putUint64 n) hb hcut ht fun b' => by
    rw [next64_append]
    exact ⟨hset, rfl⟩

theorem takeIf_next32_took {inv : SessionTail → Prop} {t : SessionTail} {rest b : Bytes} {n : UInt32}
    (set : SessionTail → UInt32 → SessionTail) (hb : b <+: putUint32 n ++ rest) (hcut : b.length = 0 ∨ 4 ≤ b.length)
    (ht : inv t) (hset : inv (set t n)) :
    Took inv rest b 4 (takeIf 4 (fun t b => (set t (next32 b).1, (next32 b).2)) t b) :=
  takeIf_took (LittleEndian.length_putUint32 n) hb hcut ht fun b' => by
    rw [next32_append]
    exact ⟨hset, rfl⟩

theorem takeIf_next8_took {sent t : SessionTail} {rest b : Bytes} {n : UInt8} (set : SessionTail → UInt8 → SessionTail)
    (hb : b <+: [n] ++ rest) (ht : sent.PartOf t) (hset : sent.PartOf (set t n)) :
    Took sent.PartOf rest b 1 (takeIf 1 (fun t b => (set t (next8 b).1, (next8 b).2)) t b) :=
  takeIf_took rfl hb (by omega) ht fun _ => ⟨hset, rfl⟩

theorem tail_zero_partOf (sent : SessionTail) : sent.PartOf .zero := by
  constructor <;> exact SentOr.absent

/-- A part of the tail in which the rule id is still to come. -/
def SessionTail.StartOf (t got : SessionTail) : Prop := t.carried.PartOf got ∧ got.policyRuleID = []

theorem decodeSessionTailPreNat64_took {t₀ t : SessionTail} {rest b : Bytes} (ht : t.StartOf t₀)
    (hb : b <+: encodeSessionTailPreNat64 t ++ rest)
    (hcut : b.length = 0 ∨ b.length = 8 ∨ b.length = 12 ∨ 16 ≤ b.length) :
    Took t.StartOf rest b 16 (decodeSessionTailPreNat64 t₀ b) := by
  unfold encodeSessionTailPreNat64 at hb
  simp only [List.append_assoc] at hb
  obtain ⟨t₁, b₁, hr₁, h₁, hb₁, hdrop₁, hlen₁⟩ := (takeIf_next64_took (fun t n => { t with generation := n }) hb (by omega)
    ht ⟨{ ht.1 with generation := SentOr.sent }, ht.2⟩).exists_eq
  obtain ⟨t₂, b₂, hr₂, h₂, hb₂, hdrop₂, hlen₂⟩ := (takeIf_next32_took (fun t n => { t with appTimeout := n }) hb₁ (by omega)
    h₁ ⟨{ h₁.1 with appTimeout := SentOr.sent }, h₁.2⟩).exists_eq
  obtain ⟨h₃, hb₃, hdrop₃⟩ := takeIf_next32_took (fun t n => { t with policyCounterIdx := n }) hb₂ (by omega) h₂
    ⟨{ h₂.1 with policyCounterIdx := SentOr.sent }, h₂.2⟩
  unfold decodeSessionTailPreNat64
  simp only [hr₁, hr₂]
  refine ⟨h₃, hb₃, hdrop₃.trans ?_⟩
  rw [hdrop₂, hdrop₁, List.drop_drop, List.drop_drop]

/-! ## The fixed fields after it -/

/-- A rule id that does not fit is not read. -/
theorem decodeRuleID_unfit {t : SessionTail} {b : Bytes} (h : b.length ≤ 2 ∨ b.length - 2 < (uint16 b).toNat) :
    decodeRuleID t b = t := by
  unfold decodeRuleID
  by_cases hlen : 2 ≤ b.length
  · rw [if_pos hlen]
    by_cases hfit : (uint16 b).toNat ≤ (b.drop 2).length
    · rw [List.length_drop] at hfit
      have hzero : (uint16 b).toNat = 0 := by omega
      have hnil : b.drop 2 = [] := List.drop_of_length_le (by omega)
      simp [hzero, hnil, decodeFolds]
    · exact if_neg hfit
  · rw [if_neg hlen]

theorem decodeMetadata_short {t : SessionTail} {b : Bytes} (h : b.length ≤ 2) : decodeMetadata t b = t := by
  have hpair : decodePptpCallIDs t b = (t, b) := if_neg (by omega)
  unfold decodeMetadata
  rw [hpair]
  exact decodeRuleID_unfit (Or.inl h)

/-- The sizes at which the fixed part may end. Besides the ends of its fields, one or two bytes
of the table identity or of the ICMP identity are too few for any field behind them. -/
def FixedCut (n : ℕ) : Prop := n ∈ [0, 8, 16, 20, 28, 32, 33, 34, 35, 41, 42, 43, 44]

/-- Nothing is left that a field behind could take. -/
def Ended (t : SessionTail) (r : SessionTail × Bytes) : Prop := t.carried.PartOf r.1 ∧ r.2.length ≤ 2

theorem decodeInstallTable_ended {t₀ t : SessionTail} {rest b : Bytes} (ht : t.carried.PartOf t₀)
    (hb : b <+: putUint32 t.installTableDomain ++ (putUint32 t.installTableCheck ++ ([t.flagsHigh] ++ rest)))
    (hcut : b.length ≤ 2 ∨ (8 ≤ b.length ∧ b.length ≤ 11)) : Ended t (decodeInstallTable t₀ b) := by
  unfold decodeInstallTable
  by_cases hfit : 8 ≤ b.length
  · have hsplit : (putUint32 t.installTableDomain ++ putUint32 t.installTableCheck).length = 8 := by simp
    rw [← List.append_assoc] at hb
    obtain ⟨b', rfl, hb'⟩ := prefix_append_iff hb (by omega)
    rw [takeIf_pos hfit]
    simp only [List.append_assoc, next32_append]
    rw [List.length_append, hsplit] at hcut
    have h' : t.carried.PartOf { t₀ with
        installTableDomain := t.installTableDomain, installTableCheck := t.installTableCheck } :=
      { ht with installTableDomain := SentOr.sent, installTableCheck := SentOr.sent }
    have htook := takeIf_next8_took (fun t n => { t with flagsHigh := n }) hb' h' { h' with flagsHigh := SentOr.sent }
    exact ⟨htook.inv, htook.length.trans_le (by omega)⟩
  · rw [takeIf_neg (not_le.mp hfit)]
    exact ⟨ht, hcut.resolve_right fun h => hfit h.1⟩

theorem decodeSessionTailFixed_ended {t₀ t : SessionTail} {rest b : Bytes} (ht : t.carried.PartOf t₀)
    (hb : b <+: encodeSessionTailFixed t ++ rest) (hcut : FixedCut b.length) : Ended t (decodeSessionTailFixed t₀ b) := by
  unfold encodeSessionTailFixed at hb
  simp only [List.append_assoc] at hb
  simp only [FixedCut, List.mem_cons, List.not_mem_nil, or_false] at hcut
  obtain ⟨t₁, b₁, hr₁, h₁, hb₁, -, hlen₁⟩ := (takeIf_next64_took (fun t n => { t with configEpoch := n }) hb (by omega) ht
    { ht with configEpoch := SentOr.sent }).exists_eq
  obtain ⟨t₂, b₂, hr₂, h₂, hb₂, -, hlen₂⟩ := (takeIf_next64_took (fun t n => { t with rtFlowSessionID := n }) hb₁ (by omega)
    h₁ { h₁ with rtFlowSessionID := SentOr.sent }).exists_eq
  obtain ⟨t₃, b₃, hr₃, h₃, hb₃, -, hlen₃⟩ := (takeIf_next32_took (fun t n => { t with ingressIfaceFold := n }) hb₂ (by omega)
    h₂ { h₂ with ingressIfaceFold := SentOr.sent }).exists_eq
  obtain ⟨t₄, b₄, hr₄, h₄, hb₄, -, hlen₄⟩ := (takeIf_next64_took (fun t n => { t with tunnelDiscriminator := n }) hb₃ (by omega)
    h₃ { h₃ with tunnelDiscriminator := SentOr.sent }).exists_eq
  obtain ⟨t₅, b₅, hr₅, h₅, hb₅, -, hlen₅⟩ := (takeIf_next32_took (fun t n => { t with routingDomain := n }) hb₄ (by omega)
    h₄ { h₄ with routingDomain := SentOr.sent }).exists_eq
  obtain ⟨t₆, b₆, hr₆, h₆, hb₆, -, hlen₆⟩ := (takeIf_next8_took (fun t n => { t with tcpCloseClass := n }) hb₅
    h₅ { h₅ with tcpCloseClass := SentOr.sent }).exists_eq
  have hended := decodeInstallTable_ended h₆ hb₆ (by omega)
  have hskip : decodeSourceNatICMP (decodeInstallTable t₆ b₆).1 (decodeInstallTable t₆ b₆).2 = decodeInstallTable t₆ b₆ :=
    takeIf_neg (by have := hended.2; omega) _ _
  unfold decodeSessionTailFixed
  simp only [hr₁, hr₂, hr₃, hr₄, hr₅, hr₆, hskip]
  exact hended

/-! ## The metadata -/

/-- The rule id as it goes on the wire. -/
def SessionTail.wireRuleID (t : SessionTail) : Bytes :=
  if sessionRuleIDMaxLen < t.policyRuleID.length then [] else t.policyRuleID

/-- What goes behind the rule id: the handshake state and the folds. -/
def folds (t : SessionTail) : Bytes :=
  if t.egressIfaceFold ≠ 0 ∨ t.natScopeFold ≠ 0 then
    [t.tcpHandshakeState] ++ (putUint32 t.egressIfaceFold ++ (if t.natScopeFold ≠ 0 then putUint32 t.natScopeFold else []))
  else if t.tcpHandshakeState ≠ 0 then [t.tcpHandshakeState] else []

theorem metadataWithoutPair_eq (t : SessionTail) :
    metadataWithoutPair t = [] ∨
      metadataWithoutPair t = putUint16 (UInt16.ofNat t.wireRuleID.length) ++ (t.wireRuleID ++ folds t) := by
  unfold metadataWithoutPair appendSessionSyncMetadataTail folds
  have hnopair : appendPptpCallIDs 0 = [] := rfl
  simp only [hnopair, List.append_nil]
  change _ ∨ _
  by_cases hfold : t.egressIfaceFold ≠ 0 ∨ t.natScopeFold ≠ 0
  · rw [if_pos hfold, if_pos hfold]
    exact Or.inr rfl
  rw [if_neg hfold, if_neg hfold]
  by_cases hid : t.wireRuleID.length ≠ 0 ∨ t.tcpHandshakeState ≠ 0
  · have hid' := hid
    unfold SessionTail.wireRuleID at hid' ⊢
    rw [if_pos hid', List.append_assoc]
    exact Or.inr rfl
  · obtain ⟨-, hstate⟩ := not_or.mp hid
    unfold SessionTail.wireRuleID at hid
    rw [if_neg hid, if_neg hstate]
    exact Or.inl rfl

/-- How many of the three fields behind the rule id are read from `n` bytes. -/
def foldLevel (n : ℕ) : ℕ := if 9 ≤ n then 3 else if 5 ≤ n then 2 else if 0 < n then 1 else 0

theorem folds_shape (t : SessionTail) :
    (9 ≤ (folds t).length → folds t = [t.tcpHandshakeState] ++ (putUint32 t.egressIfaceFold ++ putUint32 t.natScopeFold)) ∧
    (5 ≤ (folds t).length → ∃ more, folds t = [t.tcpHandshakeState] ++ (putUint32 t.egressIfaceFold ++ more)) ∧
    (0 < (folds t).length → ∃ more, folds t = [t.tcpHandshakeState] ++ more) := by
  unfold folds
  split_ifs <;> simp

/-- Behind the rule id nothing is read that was not written there, as long as no further field
seems to be there. -/
theorem decodeFolds_partOf {t₀ t : SessionTail} {b rest : Bytes} (ht : t.carried.PartOf t₀) (hb : b <+: folds t ++ rest)
    (hlevel : foldLevel b.length ≤ foldLevel (folds t).length) : t.carried.PartOf (decodeFolds t₀ b) := by
  obtain ⟨h₉, h₅, h₁⟩ := folds_shape t
  unfold decodeFolds
  unfold foldLevel at hlevel
  by_cases hnine : 9 ≤ b.length
  · have hfolds := h₉ (by split_ifs at hlevel <;> omega)
    rw [hfolds] at hb
    obtain ⟨b', rfl, -⟩ := prefix_append_iff hb (by simp; omega)
    have hscope : uint32 (([t.tcpHandshakeState] ++ (putUint32 t.egressIfaceFold ++ putUint32 t.natScopeFold) ++ b').drop 5)
        = t.natScopeFold := by
      simp [List.drop_left' (LittleEndian.length_putUint32 _)]
    rw [if_pos hnine, hscope]
    refine { ht with tcpHandshakeState := SentOr.sent, egressIfaceFold := Or.inl ?_, natScopeFold := SentOr.sent }
    simp [SessionTail.carried]
  rw [if_neg hnine]
  by_cases hfive : 5 ≤ b.length
  · obtain ⟨more, hfolds⟩ := h₅ (by split_ifs at hlevel <;> omega)
    rw [hfolds, List.append_assoc, List.append_assoc, ← List.append_assoc] at hb
    obtain ⟨b', rfl, -⟩ := prefix_append_iff hb (by simp; omega)
    rw [if_pos hfive]
    refine { ht with tcpHandshakeState := SentOr.sent, egressIfaceFold := Or.inl ?_ }
    simp [SessionTail.carried]
  rw [if_neg hfive]
  by_cases hone : 0 < b.length
  · obtain ⟨more, hfolds⟩ := h₁ (by split_ifs at hlevel <;> omega)
    rw [hfolds, List.append_assoc] at hb
    obtain ⟨b', rfl, -⟩ := prefix_append_iff hb hone
    rw [if_pos hone]
    exact { ht with tcpHandshakeState := SentOr.sent }
  · rw [if_neg hone]
    exact ht

/-- The metadata up to any place behind which no further field seems to follow. -/
theorem decodeRuleID_partOf {t₀ t : SessionTail} {b rest : Bytes} (ht : t.carried.PartOf t₀) (hempty : t₀.policyRuleID = [])
    (hmeta : metadataWithoutPair t = putUint16 (UInt16.ofNat t.wireRuleID.length) ++ (t.wireRuleID ++ folds t))
    (hb : b <+: metadataWithoutPair t ++ rest)
    (hlevel : foldLevel (b.length - 2 - t.wireRuleID.length)
      ≤ foldLevel ((metadataWithoutPair t).length - 2 - t.wireRuleID.length)) :
    t.carried.PartOf (decodeRuleID t₀ b) := by
  have hrule : t.wireRuleID.length ≤ sessionRuleIDMaxLen := by
    unfold SessionTail.wireRuleID
    split_ifs with hlong
    · exact Nat.zero_le _
    · exact not_lt.mp hlong
  have hread : (UInt16.ofNat t.wireRuleID.length).toNat = t.wireRuleID.length := by
    unfold sessionRuleIDMaxLen at hrule
    rw [UInt16.toNat_ofNat', Nat.mod_eq_of_lt (by omega)]
  rw [hmeta, List.append_assoc, List.append_assoc] at hb
  rw [hmeta] at hlevel
  by_cases hlen : 2 ≤ b.length
  · obtain ⟨b', rfl, hb'⟩ := prefix_append_iff hb (by simpa using hlen)
    by_cases hfit : t.wireRuleID.length ≤ b'.length
    · obtain ⟨f, rfl, hf⟩ := prefix_append_iff hb' hfit
      rw [decodeRuleID_append hrule hempty]
      simp only [List.length_append, LittleEndian.length_putUint16, Nat.add_sub_cancel_left] at hlevel
      refine decodeFolds_partOf { ht with policyRuleID := ?_ } hf hlevel
      unfold SessionTail.wireRuleID
      split_ifs
      · exact SentOr.absent
      · exact SentOr.sent
    · rw [decodeRuleID_unfit (Or.inr (by simp [hread]; omega))]
      exact ht
  · rw [decodeRuleID_unfit (Or.inl (by omega))]
    exact ht

/-- The last eight bytes are taken for a call-id pair. -/
def PairSeen (t : SessionTail) (b : Bytes) : Prop :=
  t.tunnelDiscriminator >>> 32 = 2 ∧ 8 ≤ b.length ∧ uint64 (b.drop (b.length - 8)) >>> 32 = 1

instance (t : SessionTail) (b : Bytes) : Decidable (PairSeen t b) := instDecidableAnd

/-- Where the metadata may end: a pair is seen only where it was written, and what remains is
not taken for a rule id nor for a field behind the rule id that was not written. -/
def MetadataCut (t : SessionTail) (b : Bytes) : Prop :=
  if PairSeen t b then b = sessionMetadata t ∧ t.pptpCallIDs ≠ 0
  else if metadataWithoutPair t = [] then b.length ≤ 2 ∨ b.length - 2 < (uint16 b).toNat
  else foldLevel (b.length - 2 - t.wireRuleID.length)
    ≤ foldLevel ((metadataWithoutPair t).length - 2 - t.wireRuleID.length)

instance (t : SessionTail) (b : Bytes) : Decidable (MetadataCut t b) := by
  unfold MetadataCut
  infer_instance

theorem decodePptpCallIDs_eq {t₀ t : SessionTail} (hdisc : t₀.tunnelDiscriminator = t.tunnelDiscriminator) (b : Bytes) :
    decodePptpCallIDs t₀ b =
      if PairSeen t b then ({ t₀ with pptpCallIDs := uint64 (b.drop (b.length - 8)) }, b.take (b.length - 8))
      else (t₀, b) := by
  unfold decodePptpCallIDs
  by_cases hlong : t₀.tunnelDiscriminator >>> 32 = 2 ∧ 8 ≤ b.length
  · rw [if_pos hlong]
    by_cases htag : uint64 (b.drop (b.length - 8)) >>> 32 = 1
    · have hseen : PairSeen t b := ⟨hdisc ▸ hlong.1, hlong.2, htag⟩
      rw [if_pos hseen]
      exact if_pos htag
    · have hseen : ¬ PairSeen t b := fun h => htag h.2.2
      rw [if_neg hseen]
      exact if_neg htag
  · have hseen : ¬ PairSeen t b := fun h => hlong ⟨hdisc ▸ h.1, h.2.1⟩
    rw [if_neg hlong, if_neg hseen]

theorem decodeMetadata_partOf {t₀ t : SessionTail} {b rest : Bytes} (ht : t.carried.PartOf t₀)
    (hdisc : t₀.tunnelDiscriminator = t.tunnelDiscriminator) (hempty : t₀.policyRuleID = [])
    (hb : b <+: metadataWithoutPair t ++ rest) (hcut : MetadataCut t b) : t.carried.PartOf (decodeMetadata t₀ b) := by
  unfold MetadataCut at hcut
  unfold decodeMetadata
  rw [decodePptpCallIDs_eq hdisc]
  by_cases hseen : PairSeen t b
  · rw [if_pos hseen] at hcut ⊢
    obtain ⟨rfl, hpair⟩ := hcut
    have happ : appendPptpCallIDs t.pptpCallIDs = putUint64 t.pptpCallIDs := if_neg hpair
    have hread : uint64 (putUint64 t.pptpCallIDs) = t.pptpCallIDs := by
      simpa using LittleEndian.uint64_putUint64_append t.pptpCallIDs []
    have hlen : (metadataWithoutPair t ++ putUint64 t.pptpCallIDs).length - 8 = (metadataWithoutPair t).length := by
      simp
    simp only [sessionMetadata_eq, happ, hlen, List.drop_left, List.take_left, hread]
    have ht' : t.carried.PartOf { t₀ with pptpCallIDs := t.pptpCallIDs } := { ht with pptpCallIDs := SentOr.sent }
    rcases metadataWithoutPair_eq t with hnone | hmeta
    · rw [hnone, decodeRuleID_unfit (Or.inl (by simp))]
      exact ht'
    · exact decodeRuleID_partOf ht' hempty hmeta (List.prefix_append _ []) (le_refl _)
  · rw [if_neg hseen] at hcut ⊢
    by_cases hnone : metadataWithoutPair t = []
    · rw [if_pos hnone] at hcut
      show t.carried.PartOf (decodeRuleID t₀ b)
      rw [decodeRuleID_unfit hcut]
      exact ht
    · rw [if_neg hnone] at hcut
      exact decodeRuleID_partOf ht hempty ((metadataWithoutPair_eq t).resolve_left hnone) hb hcut

/-! ## The tail -/

theorem SessionTail.PartOf.withFixed {t₀ t : SessionTail} (ht : t.carried.PartOf t₀) :
    t.carried.PartOf (t₀.withFixed t) :=
  { ht with
    configEpoch := SentOr.sent, rtFlowSessionID := SentOr.sent, ingressIfaceFold := SentOr.sent
    tunnelDiscriminator := SentOr.sent, routingDomain := SentOr.sent, tcpCloseClass := SentOr.sent
    installTableDomain := SentOr.sent, installTableCheck := SentOr.sent, flagsHigh := SentOr.sent
    sourceNatICMPValid := SentOr.sent, sourceNatICMPType := SentOr.sent, sourceNatICMPCode := SentOr.sent }

/-- The tail where no marker is at the end. -/
theorem decodeSessionTailPostNat64_cut {t₀ t : SessionTail} {payload b live : Bytes} {off : ℕ} (ht : t.carried.PartOf t₀)
    (hempty : t₀.policyRuleID = []) (hoff : payload.drop off = b)
    (hunmarked : ¬ EndsMarked appTimeoutLogStatedTailMagic payload)
    (hb : b <+: encodeSessionTailPostNat64 t ++ live)
    (hcut : FixedCut b.length ∨ (45 ≤ b.length ∧ MetadataCut t (b.drop 45))) :
    t.carried.PartOf (decodeSessionTailPostNat64 payload off t₀) := by
  unfold decodeSessionTailPostNat64
  rw [stripAppTimeoutLogStatedMarker_unmarked hunmarked]
  simp only [hoff]
  have ht' : t.carried.PartOf { t₀ with appTimeoutLogStated := false } := { ht with appTimeoutLogStated := SentOr.absent }
  unfold encodeSessionTailPostNat64 at hb
  rw [List.append_assoc] at hb
  rcases hcut with hfixed | ⟨hlen, hmeta⟩
  · obtain ⟨hpart, hshort⟩ := decodeSessionTailFixed_ended ht' hb hfixed
    rw [decodeMetadata_short hshort]
    exact hpart
  · obtain ⟨b', rfl, hb'⟩ := prefix_append_iff hb (by simpa using hlen)
    rw [List.drop_left' (length_encodeSessionTailFixed t)] at hmeta
    rw [decodeSessionTailFixed_append]
    rw [sessionMetadata_eq, List.append_assoc, List.append_assoc] at hb'
    exact decodeMetadata_partOf ht'.withFixed rfl hempty hb' hmeta

/-- The tail complete with its own marker, where the liveness marker is cut off. -/
theorem decodeSessionTailPostNat64_stated {t₀ t : SessionTail} {front : Bytes} (ht : t.carried.PartOf t₀)
    (hempty : t₀.policyRuleID = []) (hstated : t.appTimeoutLogStated = true) (hcut : MetadataCut t (sessionMetadata t)) :
    t.carried.PartOf (decodeSessionTailPostNat64 (front ++ encodeSessionTailPostNat64 t) front.length t₀) := by
  have hstrip := stripAppTimeoutLogStatedMarker_append (front ++ (encodeSessionTailFixed t ++ sessionMetadata t))
  have happ : front ++ encodeSessionTailPostNat64 t
      = front ++ (encodeSessionTailFixed t ++ sessionMetadata t) ++ (appTimeoutLogStatedTailMagic ++ [1]) := by
    simp [encodeSessionTailPostNat64, appendAppTimeoutLogStatedMarker, hstated]
  unfold decodeSessionTailPostNat64
  rw [happ, hstrip]
  simp only [List.drop_left, decodeSessionTailFixed_append]
  have hmeta : sessionMetadata t <+: metadataWithoutPair t ++ appendPptpCallIDs t.pptpCallIDs := by
    rw [sessionMetadata_eq]
  have ht' : t.carried.PartOf { t₀ with appTimeoutLogStated := true } :=
    { ht with appTimeoutLogStated := Or.inl hstated.symm }
  exact decodeMetadata_partOf ht'.withFixed rfl hempty hmeta hcut

/-! ## The whole payload -/

theorem SessionValue.PartOf.setSessionTail {sent v : SessionValue w s} {t : SessionTail} (hv : sent.PartOf v)
    (ht : sent.sessionTail.PartOf t) : sent.PartOf (v.setSessionTail t) := by
  have hflags := toNat_flags v.flags t.flagsHigh
  have hlow : (v.setSessionTail t).flags.toUInt8 = v.flags.toUInt8 := by
    apply UInt8.toNat_inj.mp
    rw [UInt16.toNat_toUInt8, UInt16.toNat_toUInt8]
    show ((v.flags &&& (0x00FF : UInt16)) ||| (t.flagsHigh.toUInt16 <<< 8)).toNat % 256 = _
    omega
  have hhigh : ((v.setSessionTail t).flags >>> 8).toUInt8 = t.flagsHigh := by
    have hlt := t.flagsHigh.toNat_lt
    apply UInt8.toNat_inj.mp
    rw [UInt16.toNat_toUInt8, UInt16.toNat_shiftRight, Nat.shiftRight_eq_div_pow]
    show ((v.flags &&& (0x00FF : UInt16)) ||| (t.flagsHigh.toUInt16 <<< 8)).toNat / 256 % 256 = _
    omega
  have htail : (v.setSessionTail t).sessionTail = t := by
    unfold SessionValue.sessionTail
    rw [hhigh]
    rfl
  refine { hv with flagsLow := ?_, tail := ?_ }
  · rw [hlow]
    exact hv.flagsLow
  · rw [htail]
    exact ht

theorem SessionValue.PartOf.withoutLiveness {sent v : SessionValue w s} (hv : sent.PartOf v) :
    sent.PartOf { v with primaryLiveness := false } :=
  { hv with primaryLiveness := SentOr.absent }

/-- The sizes at which a payload may end between the counters and the NAT64 slot, counted from
the counters. The ALG block may end early: its last two bytes carry nothing. -/
def OptionalCut (w n : ℕ) : Prop :=
  n ∈ [0, 2 * w + 8, 2 * w + 10, 2 * w + 11, 2 * w + 12, 2 * w + 32, 2 * w + 40, 2 * w + 44, 2 * w + 48]

theorem takeIf_keeps {τ β : Type} {n : ℕ} {take : τ → Bytes → τ × Bytes} (field : τ → β)
    (h : ∀ t b, field (take t b).1 = field t) (t : τ) (b : Bytes) : field (takeIf n take t b).1 = field t := by
  unfold takeIf
  split
  · exact h t b
  · rfl

theorem decodeReverseKey_isReverse (v : SessionValue w s) (b : Bytes) : (decodeReverseKey v b).1.isReverse = v.isReverse :=
  takeIf_keeps SessionValue.isReverse (fun _ _ => rfl) v b

/-- Everything behind the counters, for every way in which the tail is decoded. -/
theorem decodeOptional_partOf {key : SessionKey w} {v₀ v : SessionValue w s} {payload b rest : Bytes}
    (hrev : v₀.isReverse = v.isReverse) (hv : (v.carried key).PartOf v₀)
    (hb : b <+: encodeKey v.reverseKey ++ (encodeALG v ++ (encodeFib v ++ (encodeSessionTailPreNat64 v.sessionTail ++
      (v.nat64SnatV4.toList ++ rest)))))
    (hcut : OptionalCut w b.length ∨ 2 * w + 48 + s ≤ b.length)
    (htail : ∀ t, v.sessionTail.carried.PartOf t → t.policyRuleID = [] → b.drop (2 * w + 48 + s) <+: rest →
      v.sessionTail.carried.PartOf
        (decodeSessionTailPostNat64 payload (payload.length - (b.length - (2 * w + 48 + s))) t)) :
    (v.carried key).PartOf (decodeOptional payload false key v₀ b) := by
  simp only [OptionalCut, List.mem_cons, List.not_mem_nil, or_false] at hcut
  obtain ⟨v₁, b₁, hr₁, h₁, hb₁, hdrop₁, hlen₁⟩ := (decodeReverseKey_took rfl hv hb (by omega)).exists_eq
  have hrev₁ : v₁.isReverse = v.isReverse := by
    rw [← hrev, ← decodeReverseKey_isReverse v₀ b, hr₁]
  obtain ⟨v₂, b₂, hr₂, h₂, hb₂, hdrop₂, hlen₂⟩ := (decodeALG_took hrev₁ h₁ hb₁ (by omega)).exists_eq
  obtain ⟨v₃, b₃, hr₃, h₃, hb₃, hdrop₃, hlen₃⟩ := (decodeFib_took h₂ hb₂ (by omega)).exists_eq
  obtain ⟨t₄, b₄, hr₄, ⟨h₄, hempty⟩, hb₄, hdrop₄, hlen₄⟩ :=
    (decodeSessionTailPreNat64_took ⟨tail_zero_partOf _, rfl⟩ hb₃ (by omega)).exists_eq
  obtain ⟨v₅, b₅, hr₅, h₅, hb₅, hdrop₅, hlen₅⟩ := (decodeNat64_took h₃ hb₄ (by omega)).exists_eq
  have hdrop : b₅ = b.drop (2 * w + 48 + s) := by
    rw [hdrop₅, hdrop₄, hdrop₃, hdrop₂, hdrop₁, List.drop_drop, List.drop_drop, List.drop_drop, List.drop_drop]
    congr 1
    omega
  have hlen : b₅.length = b.length - (2 * w + 48 + s) := by
    rw [hdrop, List.length_drop]
  have htail' := htail t₄ h₄ hempty (hdrop ▸ hb₅)
  rw [← hlen] at htail'
  have hvalue := (h₅.setSessionTail htail').withoutLiveness
  unfold decodeOptional
  simp only [hr₁, hr₂, hr₃, hr₄, hr₅]
  exact hvalue

/-- A payload without its liveness marker. -/
def decodeUnmarked (payload : Bytes) (primaryLiveness : Bool) : Option (SessionKey w × SessionValue w s) :=
  if payload.length < 2 * w + 8 then none
  else
    let (key, b) := decodeKey payload
    if b.length < 8 then none
    else
      let (v, b) := decodeState (.zero : SessionValue w s) b
      if b.length < 40 + 2 * w then none
      else
        let (v, b) := decodeMeaning v b
        if b.length < 32 then some (key, v)
        else
          let (v, b) := decodeCounters v b
          some (key, decodeOptional payload primaryLiveness key v b)

theorem decodeSessionPayload_eq (payload : Bytes) :
    decodeSessionPayload (w := w) (s := s) payload =
      if (stripPrimaryLivenessMarker payload).2.2 then
        decodeUnmarked (stripPrimaryLivenessMarker payload).1 (stripPrimaryLivenessMarker payload).2.1
      else none := by
  unfold decodeSessionPayload decodeUnmarked
  obtain ⟨payload', live, valid⟩ := stripPrimaryLivenessMarker payload
  cases valid <;> rfl

/-- What is decoded before the counters. -/
def SessionValue.meaning (v : SessionValue w s) : SessionValue w s :=
  { SessionValue.zero with
    state := v.state, flags := v.flags.toUInt8.toUInt16, tcpState := v.tcpState, isReverse := v.isReverse
    sessionID := v.sessionID, created := v.created, lastSeen := v.lastSeen, timeout := v.timeout, policyID := v.policyID
    ingressZone := v.ingressZone, egressZone := v.egressZone, natSrcIP := v.natSrcIP, natDstIP := v.natDstIP
    natSrcPort := v.natSrcPort, natDstPort := v.natDstPort }

/-- What is decoded up to the counters. -/
def SessionValue.counted (v : SessionValue w s) : SessionValue w s :=
  { v.meaning with
    fwdPackets := v.fwdPackets, fwdBytes := v.fwdBytes, revPackets := v.revPackets, revBytes := v.revBytes }

theorem zero_partOf (sent : SessionValue w s) : sent.PartOf .zero := by
  have hhigh : ((0 : UInt16) >>> 8).toUInt8 = 0 := by decide
  constructor
  case tail =>
    unfold SessionValue.sessionTail SessionValue.zero
    rw [hhigh]
    exact tail_zero_partOf _
  all_goals exact SentOr.absent

theorem meaning_partOf (key : SessionKey w) (v : SessionValue w s) : (v.carried key).PartOf v.meaning := by
  have hlow : v.flags.toUInt8.toUInt16.toUInt8 = v.flags.toUInt8 := UInt8.toUInt8_toUInt16 _
  have hhigh : (v.flags.toUInt8.toUInt16 >>> 8).toUInt8 = 0 := by
    have hlt := v.flags.toUInt8.toNat_lt
    apply UInt8.toNat_inj.mp
    rw [UInt16.toNat_toUInt8, UInt16.toNat_shiftRight, Nat.shiftRight_eq_div_pow, UInt8.toNat_toUInt16]
    show v.flags.toUInt8.toNat / 256 % 256 = 0
    omega
  have htail : v.meaning.sessionTail = .zero := by
    unfold SessionValue.sessionTail SessionValue.meaning
    rw [hhigh]
    rfl
  exact { zero_partOf (v.carried key) with
    state := SentOr.sent, flagsLow := Or.inl hlow, tcpState := SentOr.sent, isReverse := SentOr.sent
    sessionID := SentOr.sent, created := SentOr.sent, lastSeen := SentOr.sent, timeout := SentOr.sent
    policyID := SentOr.sent, ingressZone := SentOr.sent, egressZone := SentOr.sent, natSrcIP := SentOr.sent
    natDstIP := SentOr.sent, natSrcPort := SentOr.sent, natDstPort := SentOr.sent
    tail := htail.symm ▸ tail_zero_partOf _ }

theorem counted_partOf (key : SessionKey w) (v : SessionValue w s) : (v.carried key).PartOf v.counted :=
  { meaning_partOf key v with
    fwdPackets := SentOr.sent, fwdBytes := SentOr.sent, revPackets := SentOr.sent, revBytes := SentOr.sent }

/-- What follows the counters on the wire. -/
def encodeOptional (v : SessionValue w s) : Bytes :=
  encodeKey v.reverseKey ++ (encodeALG v ++ (encodeFib v ++ (encodeSessionTailPreNat64 v.sessionTail ++
    (v.nat64SnatV4.toList ++ (encodeSessionTailPostNat64 v.sessionTail ++
    if v.primaryLiveness then appendPrimaryLivenessMarker else [])))))

/-- What is on the wire up to the counters. -/
def encodeMandatory (key : SessionKey w) (v : SessionValue w s) : Bytes :=
  encodeKey key ++ (encodeState v ++ (encodeMeaning v ++ encodeCounters v))

@[simp] theorem length_encodeMandatory (key : SessionKey w) (v : SessionValue w s) :
    (encodeMandatory key v).length = 4 * w + 88 := by
  simp [encodeMandatory]
  omega

theorem encodeSessionPayload_eq_mandatory (key : SessionKey w) (v : SessionValue w s) :
    encodeSessionPayload key v = encodeMandatory key v ++ encodeOptional v := by
  simp [encodeSessionPayload, encodeMandatory, encodeOptional]

/-- Nothing is misread before the end of the counters. -/
theorem decodeUnmarked_short {key : SessionKey w} {v : SessionValue w s} {payload : Bytes}
    (hcutoff : payload <+: encodeSessionPayload key v) (hlen : payload.length < 4 * w + 88) (live : Bool) {k : SessionKey w}
    {got : SessionValue w s} (h : decodeUnmarked payload live = some (k, got)) :
    k = key.carried ∧ (v.carried key).PartOf got := by
  unfold decodeUnmarked at h
  unfold encodeSessionPayload at hcutoff
  by_cases hkey : payload.length < 2 * w + 8
  · rw [if_pos hkey] at h
    cases h
  obtain ⟨b, rfl, hb⟩ := prefix_append_iff hcutoff (by simpa using hkey)
  rw [if_neg hkey, decodeKey_append] at h
  simp only [List.length_append, length_encodeKey] at hlen h
  by_cases hstate : b.length < 8
  · rw [if_pos hstate] at h
    cases h
  obtain ⟨b', rfl, hb'⟩ := prefix_append_iff hb (by simpa using hstate)
  rw [if_neg hstate, decodeState_append] at h
  simp only [List.length_append, length_encodeState] at hlen h
  by_cases hmeaning : b'.length < 40 + 2 * w
  · rw [if_pos hmeaning] at h
    cases h
  obtain ⟨b'', rfl, -⟩ := prefix_append_iff hb' (by simpa using hmeaning)
  rw [if_neg hmeaning, decodeMeaning_append] at h
  simp only [List.length_append, length_encodeMeaning] at hlen h
  rw [if_pos (by omega)] at h
  obtain ⟨rfl, rfl⟩ := Prod.mk.inj (Option.some.inj h)
  exact ⟨rfl, meaning_partOf key v⟩

/-- Behind the counters it is up to the optional blocks. -/
theorem decodeUnmarked_append (key : SessionKey w) (v : SessionValue w s) (b : Bytes) (live : Bool) :
    decodeUnmarked (encodeMandatory key v ++ b) live
      = some (key.carried, decodeOptional (encodeMandatory key v ++ b) live key.carried v.counted b) := by
  have happ : encodeMandatory key v ++ b
      = encodeKey key ++ (encodeState v ++ (encodeMeaning v ++ (encodeCounters v ++ b))) := by
    simp [encodeMandatory]
  unfold decodeUnmarked
  rw [happ]
  simp only [decodeKey_append, decodeState_append, decodeMeaning_append, decodeCounters_append]
  rw [if_neg (by simp), if_neg (by simp), if_neg (by simp), if_neg (by simp)]
  rfl

/-- Where the fields after the NAT64 slot start. -/
def tailOffset (w s : ℕ) : ℕ := 6 * w + 136 + s

/-- **The cuts that do no harm.** Before the end of the counters every cut is one. Behind it, the
payload must not end by chance as a marker does, and it must end where a block ends, or where
too little of a block is left for any block behind it. -/
def SafeCut (key : SessionKey w) (v : SessionValue w s) (n : ℕ) : Prop :=
  n < 4 * w + 88 ∨
  (¬ EndsMarked primaryLivenessTailMagic ((encodeSessionPayload key v).take n) ∧
    ((v.appTimeoutLogStated = true ∧ n = tailOffset w s + (encodeSessionTailPostNat64 v.sessionTail).length ∧
        MetadataCut v.sessionTail (sessionMetadata v.sessionTail)) ∨
      (¬ EndsMarked appTimeoutLogStatedTailMagic ((encodeSessionPayload key v).take n) ∧
        (OptionalCut w (n - (4 * w + 88)) ∨
          (tailOffset w s ≤ n ∧ FixedCut (n - tailOffset w s)) ∨
          (tailOffset w s + 45 ≤ n ∧
            MetadataCut v.sessionTail (((encodeSessionPayload key v).take n).drop (tailOffset w s + 45)))))))

theorem stripPrimaryLivenessMarker_prefix (payload : Bytes) : (stripPrimaryLivenessMarker payload).1 <+: payload := by
  unfold stripPrimaryLivenessMarker
  split_ifs
  · exact List.prefix_rfl
  · simp only
    split_ifs
    · exact List.prefix_rfl
    · exact List.take_prefix _ _

theorem notMisread_short {key : SessionKey w} {v : SessionValue w s} {n : ℕ} (hn : n < 4 * w + 88) : NotMisread key v n := by
  intro k got h
  have hstrip := stripPrimaryLivenessMarker_prefix ((encodeSessionPayload key v).take n)
  have hlen := hstrip.length_le
  rw [List.length_take] at hlen
  rw [decodeSessionPayload_eq] at h
  split at h
  · exact decodeUnmarked_short (hstrip.trans (List.take_prefix _ _)) (by omega) _ h
  · cases h

/-- A start of the payload that goes beyond the counters. -/
theorem take_encodeSessionPayload {key : SessionKey w} {v : SessionValue w s} {n : ℕ} (hn : 4 * w + 88 ≤ n) :
    (encodeSessionPayload key v).take n = encodeMandatory key v ++ (encodeOptional v).take (n - (4 * w + 88)) := by
  rw [encodeSessionPayload_eq_mandatory, List.take_append, length_encodeMandatory,
    List.take_of_length_le (by rw [length_encodeMandatory]; exact hn)]

/-- Where no marker is seen, it is enough that the tail is not misread. -/
theorem notMisread_of_tail {key : SessionKey w} {v : SessionValue w s} {n : ℕ} (hn : 4 * w + 88 ≤ n) {b : Bytes}
    (hb : b = (encodeOptional v).take (n - (4 * w + 88)))
    (hunmarked : ¬ EndsMarked primaryLivenessTailMagic ((encodeSessionPayload key v).take n))
    (hcut : OptionalCut w b.length ∨ 2 * w + 48 + s ≤ b.length)
    (htail : ∀ t, v.sessionTail.carried.PartOf t → t.policyRuleID = [] → v.sessionTail.carried.PartOf
      (decodeSessionTailPostNat64 (encodeMandatory key v ++ b)
        ((encodeMandatory key v ++ b).length - (b.length - (2 * w + 48 + s))) t)) : NotMisread key v n := by
  intro k got h
  rw [decodeSessionPayload_eq, stripPrimaryLivenessMarker_unmarked hunmarked, take_encodeSessionPayload hn, ← hb] at h
  simp only [if_true, decodeUnmarked_append] at h
  obtain ⟨hk, hgot⟩ := Prod.mk.inj (Option.some.inj h)
  have hcutoff : b <+: encodeOptional v := hb ▸ List.take_prefix _ _
  -- the padding of the key plays no part in what the value carries
  have hsame : v.carried key.carried = v.carried key := rfl
  have hrev : v.counted.isReverse = v.isReverse := rfl
  have hpart := decodeOptional_partOf hrev (counted_partOf key.carried v) hcutoff hcut fun t ht hempty _ => htail t ht hempty
  rw [hgot, hsame] at hpart
  exact ⟨hk.symm, hpart⟩

theorem length_encodeOptional (v : SessionValue w s) : 2 * w + 93 + s ≤ (encodeOptional v).length := by
  simp [encodeOptional, encodeSessionTailPostNat64]
  omega

theorem drop_encodeOptional (v : SessionValue w s) :
    (encodeOptional v).drop (2 * w + 48 + s)
      = encodeSessionTailPostNat64 v.sessionTail ++ if v.primaryLiveness then appendPrimaryLivenessMarker else [] := by
  have hsplit : encodeOptional v = (encodeKey v.reverseKey ++ (encodeALG v ++ (encodeFib v ++
      (encodeSessionTailPreNat64 v.sessionTail ++ v.nat64SnatV4.toList)))) ++ (encodeSessionTailPostNat64 v.sessionTail ++
      if v.primaryLiveness then appendPrimaryLivenessMarker else []) := by
    simp [encodeOptional]
  rw [hsplit]
  refine List.drop_left' ?_
  simp
  omega

theorem drop_mandatory {key : SessionKey w} {v : SessionValue w s} (b : Bytes) :
    (encodeMandatory key v ++ b).drop ((encodeMandatory key v ++ b).length - (b.length - (2 * w + 48 + s)))
      = b.drop (2 * w + 48 + s) := by
  by_cases hlen : 2 * w + 48 + s ≤ b.length
  · rw [List.drop_append, List.drop_of_length_le (by simp; omega), List.nil_append]
    congr 1
    simp
    omega
  · rw [List.drop_of_length_le (by simp; omega), List.drop_of_length_le (by omega)]

/-- The cuts at the end of a block or in its harmless rest. -/
theorem notMisread_of_unmarked {key : SessionKey w} {v : SessionValue w s} {n : ℕ} (hn : 4 * w + 88 ≤ n)
    (hlive : ¬ EndsMarked primaryLivenessTailMagic ((encodeSessionPayload key v).take n))
    (hstated : ¬ EndsMarked appTimeoutLogStatedTailMagic ((encodeSessionPayload key v).take n))
    (hcut : OptionalCut w (n - (4 * w + 88)) ∨ (tailOffset w s ≤ n ∧ FixedCut (n - tailOffset w s)) ∨
      (tailOffset w s + 45 ≤ n ∧
        MetadataCut v.sessionTail (((encodeSessionPayload key v).take n).drop (tailOffset w s + 45)))) :
    NotMisread key v n := by
  have hmore := length_encodeOptional v
  rw [take_encodeSessionPayload hn] at hstated hcut
  generalize hb : (encodeOptional v).take (n - (4 * w + 88)) = b at hstated hcut
  have hlen : b.length = min (n - (4 * w + 88)) (encodeOptional v).length := by
    rw [← hb, List.length_take]
  have hcutoff : b.drop (2 * w + 48 + s) <+: encodeSessionTailPostNat64 v.sessionTail ++
      if v.primaryLiveness then appendPrimaryLivenessMarker else [] := by
    rw [← drop_encodeOptional, ← hb]
    exact (List.take_prefix _ _).drop _
  have hfixed : ∀ m, FixedCut m → m ≤ 44 := by
    simp [FixedCut]
  have hoptional : OptionalCut w (n - (4 * w + 88)) → n - (4 * w + 88) ≤ 2 * w + 48 := by
    simp only [OptionalCut, List.mem_cons, List.not_mem_nil, or_false]
    omega
  unfold tailOffset at hcut
  refine notMisread_of_tail hn hb.symm hlive ?_ fun t ht hempty =>
    decodeSessionTailPostNat64_cut ht hempty (drop_mandatory b) hstated hcutoff ?_
  · rcases hcut with hopt | ⟨hoff, hfix⟩ | ⟨hoff, -⟩
    · have := hoptional hopt
      rw [hlen, min_eq_left (by omega)]
      exact Or.inl hopt
    · exact Or.inr (by omega)
    · exact Or.inr (by omega)
  · rw [List.length_drop]
    rcases hcut with hopt | ⟨hoff, hfix⟩ | ⟨hoff, hmeta⟩
    · have := hoptional hopt
      rw [show b.length - (2 * w + 48 + s) = 0 by omega]
      exact Or.inl (by simp [FixedCut])
    · have := hfixed _ hfix
      rw [show b.length - (2 * w + 48 + s) = n - (6 * w + 136 + s) by omega]
      exact Or.inl hfix
    · refine Or.inr ⟨by omega, ?_⟩
      rw [List.drop_append, List.drop_of_length_le (by simp; omega), List.nil_append, length_encodeMandatory,
        show 6 * w + 136 + s + 45 - (4 * w + 88) = 2 * w + 48 + s + 45 by omega, ← List.drop_drop] at hmeta
      exact hmeta

/-- The cut behind the tail's own marker. -/
theorem notMisread_of_stated {key : SessionKey w} {v : SessionValue w s} {n : ℕ}
    (hlive : ¬ EndsMarked primaryLivenessTailMagic ((encodeSessionPayload key v).take n))
    (hstated : v.appTimeoutLogStated = true)
    (hn : n = tailOffset w s + (encodeSessionTailPostNat64 v.sessionTail).length)
    (hcut : MetadataCut v.sessionTail (sessionMetadata v.sessionTail)) : NotMisread key v n := by
  have hsplit : encodeMandatory key v ++ encodeOptional v = encodeFront key v ++ (encodeSessionTailPostNat64 v.sessionTail ++
      if v.primaryLiveness then appendPrimaryLivenessMarker else []) := by
    simp [encodeMandatory, encodeOptional, encodeFront]
  have hfront : (encodeFront key v).length = tailOffset w s := by
    simp [encodeFront, tailOffset]
    omega
  have hle : 4 * w + 88 ≤ n := by
    unfold tailOffset at hn
    omega
  generalize hb : (encodeOptional v).take (n - (4 * w + 88)) = b
  have hwhole : encodeMandatory key v ++ b = encodeFront key v ++ encodeSessionTailPostNat64 v.sessionTail := by
    rw [← hb, ← take_encodeSessionPayload hle, encodeSessionPayload_eq_mandatory, hsplit, hn, ← hfront,
      ← List.append_assoc, ← List.length_append, List.take_left]
  have hlen := congrArg List.length hwhole
  rw [List.length_append, List.length_append, length_encodeMandatory, hfront, tailOffset] at hlen
  refine notMisread_of_tail hle hb.symm hlive (Or.inr (by omega)) fun t ht hempty => ?_
  have hoff : (encodeMandatory key v ++ b).length - (b.length - (2 * w + 48 + s)) = (encodeFront key v).length := by
    rw [List.length_append, length_encodeMandatory, hfront, tailOffset]
    omega
  rw [hoff, hwhole]
  exact decodeSessionTailPostNat64_stated ht hempty hstated hcut

/-- **A safe cut is not misread.** -/
theorem notMisread_of_safeCut {key : SessionKey w} {v : SessionValue w s} {n : ℕ} (h : SafeCut key v n) :
    NotMisread key v n := by
  rcases Nat.lt_or_ge n (4 * w + 88) with hshort | hlong
  · exact notMisread_short hshort
  · obtain ⟨hlive, ⟨hstated, hn, hcut⟩ | ⟨hstated, hcut⟩⟩ := h.resolve_left (by omega)
    · exact notMisread_of_stated hlive hstated hn hcut
    · exact notMisread_of_unmarked hlong hlive hstated hcut

/-! ## Which places are safe -/

/-- The places between the counters and the metadata at which a payload may end. -/
def PlacedCut (w s n : ℕ) : Prop :=
  OptionalCut w (n - (4 * w + 88)) ∨ (tailOffset w s ≤ n ∧ FixedCut (n - tailOffset w s))

instance (w s n : ℕ) : Decidable (PlacedCut w s n) := by
  unfold PlacedCut OptionalCut FixedCut
  infer_instance

/-- The payload does not end by chance as a marker does. -/
def Unmarked (key : SessionKey w) (v : SessionValue w s) (n : ℕ) : Prop :=
  ¬ EndsMarked primaryLivenessTailMagic ((encodeSessionPayload key v).take n) ∧
    ¬ EndsMarked appTimeoutLogStatedTailMagic ((encodeSessionPayload key v).take n)

/-- Both magics have the byte `0xff`. -/
theorem unmarked_of_not_mem (key : SessionKey w) (v : SessionValue w s) (h : 0xff ∉ encodeSessionPayload key v) (n : ℕ) :
    Unmarked key v n := by
  have hmem : ∀ magic : Bytes, 0xff ∈ magic → ¬ EndsMarked magic ((encodeSessionPayload key v).take n) := by
    rintro magic hff ⟨front, flag, heq⟩
    have htaken : 0xff ∈ (encodeSessionPayload key v).take n := by
      rw [heq]
      simp [hff]
    exact h (List.mem_of_mem_take htaken)
  exact ⟨hmem _ (by decide), hmem _ (by decide)⟩

/-- A session in which every field has a byte of its own. -/
def distinctSession (w s : ℕ) : SessionValue w s :=
  { (SessionValue.zero : SessionValue w s) with
    reverseKey := ⟨.replicate w 0x11, .replicate w 0x12, 0x1313, 0x1414, 0x15, .replicate 3 0⟩
    algType := 0x16, logFlags := 0x17
    fibIfindex := 0x21212121, fibVlanID := 0x2222, fibDmac := .replicate 6 0x23, fibSmac := .replicate 6 0x24
    fibGen := 0x2525, generation := 0x3131313131313131, appTimeout := 0x32323232, policyCounterIdx := 0x33333333
    nat64SnatV4 := .replicate s 0x34, configEpoch := 0x4141414141414141, rtFlowSessionID := 0x4242424242424242
    ingressIfaceFold := 0x43434343, tunnelDiscriminator := 0x4444444444444444, routingDomain := 0x45454545
    tcpCloseClass := 0x46, installTableDomain := 0x47474747, installTableCheck := 0x48484848, flags := 0x4900
    sourceNatICMPValid := true, sourceNatICMPType := 0x4a, sourceNatICMPCode := 0x4b }

instance {α : Type} [DecidableEq α] (sent default got : α) : Decidable (SentOr sent default got) := instDecidableOr

/-- One of the fields that take up the rest of a cut block is filled from it. -/
def takesRest (n : ℕ) (w s : ℕ) : Bool :=
  match decodeSessionPayload (w := w) (s := s) ((encodeSessionPayload .zero (distinctSession w s)).take n) with
  | none => false
  | some (_, got) =>
    let sent := distinctSession w s
    ¬ (SentOr sent.logFlags 0 got.logFlags ∧ SentOr sent.generation 0 got.generation ∧
      SentOr sent.appTimeout 0 got.appTimeout ∧ SentOr sent.ingressIfaceFold 0 got.ingressIfaceFold ∧
      SentOr sent.routingDomain 0 got.routingDomain ∧ SentOr sent.tcpCloseClass 0 got.tcpCloseClass ∧
      SentOr sent.sourceNatICMPType 0 got.sourceNatICMPType)

theorem not_notMisread_of_takesRest {n : ℕ} (h : takesRest n w s = true) :
    ¬ NotMisread (.zero : SessionKey w) (distinctSession w s) n := by
  intro hnot
  unfold takesRest at h
  split at h
  · cases h
  next k got hgot =>
    obtain ⟨-, hpart⟩ := hnot k got hgot
    exact of_decide_eq_true h ⟨hpart.logFlags, hpart.tail.generation, hpart.tail.appTimeout, hpart.tail.ingressIfaceFold,
      hpart.tail.routingDomain, hpart.tail.tcpCloseClass, hpart.tail.sourceNatICMPType⟩

theorem takesRest_v4 : ∀ i < 101, PlacedCut 4 0 (104 + i) ∨ takesRest (104 + i) 4 0 = true := by
  decide +kernel

theorem takesRest_v6 : ∀ i < 129, PlacedCut 16 4 (152 + i) ∨ takesRest (152 + i) 16 4 = true := by
  decide +kernel

/-- A place between the counters and the metadata is safe for every session only if a block
ends there, or too little of one is left. -/
theorem placedCut_iff {n : ℕ}
    (hdistinct : 0xff ∉ encodeSessionPayload .zero (distinctSession w s))
    (hrest : PlacedCut w s n ∨ takesRest n w s = true) :
    (∀ (key : SessionKey w) (v : SessionValue w s), Unmarked key v n → NotMisread key v n) ↔ PlacedCut w s n := by
  constructor
  · intro hall
    refine hrest.resolve_right fun htakes => ?_
    exact not_notMisread_of_takesRest htakes (hall _ _ (unmarked_of_not_mem _ _ hdistinct n))
  · rintro hplaced key v ⟨hlive, hstated⟩
    refine notMisread_of_safeCut (Or.inr ⟨hlive, Or.inr ⟨hstated, ?_⟩⟩)
    rcases hplaced with hopt | hfix
    · exact Or.inl hopt
    · exact Or.inr (Or.inl hfix)

/-- **Truncated sessions.** In both families no field is misread at a safe cut. Between the
counters and the metadata these are all the places that are safe for every session. -/
theorem truncated_session_safe_cuts (n : ℕ) :
    (∀ (key : SessionKey 4) (v : SessionValue 4 0), SafeCut key v n → NotMisread key v n) ∧
    (∀ (key : SessionKey 16) (v : SessionValue 16 4), SafeCut key v n → NotMisread key v n) ∧
    (104 ≤ n → n < 205 →
      ((∀ (key : SessionKey 4) (v : SessionValue 4 0), Unmarked key v n → NotMisread key v n) ↔ PlacedCut 4 0 n)) ∧
    (152 ≤ n → n < 281 →
      ((∀ (key : SessionKey 16) (v : SessionValue 16 4), Unmarked key v n → NotMisread key v n) ↔ PlacedCut 16 4 n)) := by
  refine ⟨fun _ _ => notMisread_of_safeCut, fun _ _ => notMisread_of_safeCut, ?_, ?_⟩
  · intro hfrom hto
    have hrest := takesRest_v4 (n - 104) (by omega)
    rw [Nat.add_sub_cancel' hfrom] at hrest
    exact placedCut_iff (by decide +kernel) hrest
  · intro hfrom hto
    have hrest := takesRest_v6 (n - 152) (by omega)
    rw [Nat.add_sub_cancel' hfrom] at hrest
    exact placedCut_iff (by decide +kernel) hrest

/-- A session cut behind its reverse key. -/
theorem truncated_session_safe_cuts_reverse_key :
    SafeCut .zero localSession 120 ∧ NotMisread .zero localSession 120 := by
  have hunmarked := unmarked_of_not_mem .zero localSession (by decide +kernel) 120
  have hsafe : SafeCut .zero localSession 120 :=
    Or.inr ⟨hunmarked.1, Or.inr ⟨hunmarked.2, Or.inl (by unfold OptionalCut; decide)⟩⟩
  exact ⟨hsafe, (truncated_session_safe_cuts 120).1 _ _ hsafe⟩

/-- A session whose reverse direction comes from 10.0.0.9. -/
def reversedSession : SessionValue 4 0 :=
  { SessionValue.zero with reverseKey := { SessionKey.zero with srcIP := #v[10, 0, 0, 9] } }

/-- Cut behind the first two bytes of the reverse key, the session comes back with the ALG tag
ten: the first byte of the address. -/
theorem truncated_session_misread :
    ¬ ∀ (key : SessionKey 4) (v : SessionValue 4 0) (n : ℕ), n < (encodeSessionV4Payload key v).length → NotMisread key v n := by
  intro h
  have htag : (decodeSessionV4Payload ((encodeSessionV4Payload .zero reversedSession).take 106)).map (·.2.algType) = some 10 := by
    decide +kernel
  obtain ⟨⟨k, got⟩, hgot, halg⟩ := Option.map_eq_some_iff.mp htag
  have hpart := (h .zero reversedSession 106 (by decide +kernel) k got hgot).2.algType
  rw [halg] at hpart
  exact absurd hpart (by decide)

end Xpf.SessionSync
