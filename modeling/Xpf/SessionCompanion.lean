/-
`SessionCompanion.lean` -- the companion of a companion.

A session and its companion name each other: `reverse_session_key` is called on the forward
entry with the forward decision and on the reverse entry with the reversed one, and the
second call has to land on the key the first one started from. The rewrites are optional and
fall back to the tuple, so the file goes end by end: what the reversed decision puts back is
what the decision replaced (`getD_map_getD`), and NAT64 reads the family off an address that
is the original one again.
-/
import Xpf.SessionKeys

set_option autoImplicit false

namespace Xpf.Sessions

/-- `NatDecision::reverse`: a rewritten field goes back to the original of the same end, and
the two ends change places. -/
def NatDecision.reverse (nat : NatDecision) (originalSrc originalDst : IpAddr)
    (originalSrcPort originalDstPort : UInt16) : NatDecision :=
  { rewriteSrc := nat.rewriteDst.map fun _ => originalDst
    rewriteDst := nat.rewriteSrc.map fun _ => originalSrc
    rewriteSrcPort := nat.rewriteDstPort.map fun _ => originalDstPort
    rewriteDstPort := nat.rewriteSrcPort.map fun _ => originalSrcPort
    sourceNatIcmp := nat.sourceNatIcmp
    nat64 := nat.nat64
    nptv6 := nat.nptv6 }

/-- The decision of the companion of `key`. -/
def NatDecision.reverseOf (nat : NatDecision) (key : SessionKey) : NatDecision :=
  nat.reverse key.srcIp key.dstIp key.srcPort key.dstPort

def IpAddr.family : IpAddr → UInt8
  | .v4 _ => afInet
  | .v6 _ => afInet6

def SessionKey.IsIcmp (key : SessionKey) : Prop :=
  key.protocol = protoIcmp ∨ key.protocol = protoIcmpv6

/-- Family and ICMP protocol of a key are those of its addresses. -/
structure SessionKey.MatchesAddrs (key : SessionKey) : Prop where
  src : key.addrFamily = key.srcIp.family
  dst : key.addrFamily = key.dstIp.family
  icmp : key.protocol = protoIcmp → key.addrFamily = afInet
  icmpv6 : key.protocol = protoIcmpv6 → key.addrFamily = afInet6

/-! ## One end -/

/-- Undoing an optional rewrite: what was replaced is put back, what was not is still
there. -/
theorem getD_map_getD {α : Type} (rewrite : Option α) (original : α) :
    (rewrite.map fun _ => original).getD (rewrite.getD original) = original := by
  cases rewrite <;> rfl

/-! ## Family and protocol -/

theorem nat64FamilyProtocol_eq (wireSrc : IpAddr) (protocol fallbackFamily : UInt8) :
    nat64FamilyProtocol true wireSrc protocol fallbackFamily
      = (wireSrc.family,
          if wireSrc.family = afInet ∧ protocol = protoIcmpv6 then protoIcmp
          else if wireSrc.family = afInet6 ∧ protocol = protoIcmp then protoIcmpv6
          else protocol) := by
  cases wireSrc <;> rfl

/-- The translation maps ICMP to ICMP, of either version. -/
theorem nat64FamilyProtocol_icmp_iff (nat64 : Bool) (wireSrc : IpAddr) (protocol family : UInt8) :
    ((nat64FamilyProtocol nat64 wireSrc protocol family).2 = protoIcmp
        ∨ (nat64FamilyProtocol nat64 wireSrc protocol family).2 = protoIcmpv6)
      ↔ (protocol = protoIcmp ∨ protocol = protoIcmpv6) := by
  cases nat64 with
  | false => rfl
  | true =>
    rw [nat64FamilyProtocol_eq]
    dsimp only
    split_ifs with h h'
    · exact iff_of_true (.inl rfl) (.inr h.2)
    · exact iff_of_true (.inr rfl) (.inl h'.2)
    · rfl

/-- **The family comes back** with the address it is read from, and the ICMP version with
it. -/
theorem nat64FamilyProtocol_back {key : SessionKey} (hkey : key.MatchesAddrs) (nat64 : Bool)
    (wireSrc : IpAddr) :
    nat64FamilyProtocol nat64 key.srcIp
        (nat64FamilyProtocol nat64 wireSrc key.protocol key.addrFamily).2
        (nat64FamilyProtocol nat64 wireSrc key.protocol key.addrFamily).1
      = (key.addrFamily, key.protocol) := by
  cases nat64 with
  | false => rfl
  | true =>
    rw [nat64FamilyProtocol_eq, nat64FamilyProtocol_eq, ← hkey.src]
    refine Prod.ext rfl ?_
    dsimp only
    have hne : afInet6 ≠ afInet := by decide
    have hproto : protoIcmpv6 ≠ protoIcmp := by decide
    by_cases h4 : key.protocol = protoIcmp
    · -- an ICMP key is an IPv4 key: the version it may have become is taken back
      simp only [h4, hkey.icmp h4, hproto.symm, hne.symm, and_false, if_false, false_and, true_and]
      split_ifs with h <;> first | rfl | simp_all
    · by_cases h6 : key.protocol = protoIcmpv6
      · simp only [h6, hkey.icmpv6 h6, hproto, hne, and_false, if_false, false_and, true_and, and_true]
        split_ifs with h <;> first | rfl | simp_all
      · simp only [h4, h6, and_false, if_false]

/-! ## Both directions -/

/-- **Session key transforms are mutually inverse.** The companion of the companion, under
the reversed decision, is the session itself; and the wire key of the replies is the
companion's key without its routing domain. -/
theorem reverseSessionKey_reverseOf {key : SessionKey} (hkey : key.MatchesAddrs)
    {nat : NatDecision} (hicmp : key.IsIcmp → nat.rewriteDstPort = none) :
    reverseSessionKey (reverseSessionKey key nat) (nat.reverseOf key) = key
      ∧ reverseWireKey key nat = { reverseSessionKey key nat with routingDomain := 0 } := by
  refine ⟨?_, rfl⟩
  have hback := nat64FamilyProtocol_back hkey nat.nat64 (nat.rewriteDst.getD key.dstIp)
  have hiff := nat64FamilyProtocol_icmp_iff nat.nat64 (nat.rewriteDst.getD key.dstIp)
    key.protocol key.addrFamily
  have hdisc : reverseDirectionDiscriminator (reverseDirectionDiscriminator key.discriminator)
      = key.discriminator := by
    cases key.discriminator <;> rfl
  simp only [reverseSessionKey, natAppliedKey, NatDecision.reverseOf, NatDecision.reverse, hiff,
    getD_map_getD, hback, hdisc]
  by_cases hproto : key.protocol = protoIcmp ∨ key.protocol = protoIcmpv6
  · -- one identifier, never swapped: the reversed decision has it on the other side
    rw [if_pos hproto, if_pos hproto, hicmp hproto]
    simp only [Option.map_none, Option.none_or, Option.or_none, getD_map_getD]
  · rw [if_neg hproto, if_neg hproto]
    simp only [getD_map_getD]

/-- A NAT64 ping from `2001:db8::1`, translated to `192.0.2.1` with a new identifier. -/
def pingKey : SessionKey :=
  ⟨afInet6, protoIcmpv6, .v6 0x20010db8000000000000000000000001, .v6 0x0064ff9b0000000000000000c6336401,
    7, 0, .none, 3⟩

def pingNat : NatDecision :=
  ⟨some (.v4 0xc0000201), some (.v4 0xc6336401), some 4242, none, some (128, 0), true, false⟩

theorem reverseSessionKey_reverseOf_ping :
    reverseSessionKey (reverseSessionKey pingKey pingNat) (pingNat.reverseOf pingKey) = pingKey
      ∧ reverseWireKey pingKey pingNat
        = { reverseSessionKey pingKey pingNat with routingDomain := 0 } :=
  reverseSessionKey_reverseOf ⟨rfl, rfl, by decide, by decide⟩ fun _ => rfl

end Xpf.Sessions
