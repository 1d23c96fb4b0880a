/-
Session sync on the wire: `encodeSessionV4Payload` and `encodeSessionV6Payload` of
`pkg/cluster/sync_protocol.go` and their decoders.

A payload is a fixed part, in the order of the release in which each field was added, a
variable tail (rule id, handshake state, two interface folds, a PPTP call-id pair, each
present only when needed) and up to two markers at the very end. A decoder takes what is
there: a block that does not fit is skipped and decoding goes on at the same place, so that
the payload of an older peer yields the fields it has.

The two address families have the same layout up to the width of an address and the slot
for the NAT64 source, which only IPv6 has; both are parameters here. IPv4 keeps its two NAT
addresses as numbers, whose four bytes in wire order are the address here.
-/
import Mathlib.Tactic.Common
import Xpf.LittleEndian

set_option autoImplicit false

namespace Xpf.SessionSync

open Xpf.LittleEndian (uint16 uint32 uint64 putUint16 putUint32 putUint64)

abbrev Bytes := List UInt8

/-! ## Sessions -/

structure SessionKey (w : ℕ) where
  srcIP : Vector UInt8 w
  dstIP : Vector UInt8 w
  srcPort : UInt16
  dstPort : UInt16
  protocol : UInt8
  pad : Vector UInt8 3
  deriving DecidableEq

/-- A session, for addresses of `w` bytes and a NAT64 source of `s` bytes: four and none for
IPv4, sixteen and four for IPv6. -/
structure SessionValue (w s : ℕ) where
  state : UInt8
  flags : UInt16
  tcpState : UInt8
  isReverse : UInt8
  appTimeout : UInt32
  sessionID : UInt64
  created : UInt64
  lastSeen : UInt64
  timeout : UInt32
  policyID : UInt32
  ingressZone : UInt16
  egressZone : UInt16
  natSrcIP : Vector UInt8 w
  natDstIP : Vector UInt8 w
  natSrcPort : UInt16
  natDstPort : UInt16
  fwdPackets : UInt64
  fwdBytes : UInt64
  revPackets : UInt64
  revBytes : UInt64
  reverseKey : SessionKey w
  algType : UInt8
  logFlags : UInt8
  appID : UInt16
  fibIfindex : UInt32
  fibVlanID : UInt16
  fibDmac : Vector UInt8 6
  fibSmac : Vector UInt8 6
  fibGen : UInt16
  ingressIfindex : UInt32
  ingressVlanID : UInt16
  routingDomain : UInt32
  natScopeIfindex : Int32
  generation : UInt64
  policyCounterIdx : UInt32
  nat64SnatV4 : Vector UInt8 s
  configEpoch : UInt64
  rtFlowSessionID : UInt64
  ingressIfaceFold : UInt32
  egressIfaceFold : UInt32
  natScopeFold : UInt32
  tunnelDiscriminator : UInt64
  pptpCallIDs : UInt64
  tcpCloseClass : UInt8
  tcpHandshakeState : UInt8
  installTableDomain : UInt32
  installTableCheck : UInt32
  sourceNatICMPValid : Bool
  sourceNatICMPType : UInt8
  sourceNatICMPCode : UInt8
  policyRuleID : Bytes
  primaryLiveness : Bool
  appTimeoutLogStated : Bool
  deriving DecidableEq

variable {w s : ℕ}

def SessionKey.zero : SessionKey w := ⟨.replicate w 0, .replicate w 0, 0, 0, 0, .replicate 3 0⟩

/-- The value before anything is decoded. -/
def SessionValue.zero : SessionValue w s where
  state := 0
  flags := 0
  tcpState := 0
  isReverse := 0
  appTimeout := 0
  sessionID := 0
  created := 0
  lastSeen := 0
  timeout := 0
  policyID := 0
  ingressZone := 0
  egressZone := 0
  natSrcIP := .replicate w 0
  natDstIP := .replicate w 0
  natSrcPort := 0
  natDstPort := 0
  fwdPackets := 0
  fwdBytes := 0
  revPackets := 0
  revBytes := 0
  reverseKey := .zero
  algType := 0
  logFlags := 0
  appID := 0
  fibIfindex := 0
  fibVlanID := 0
  fibDmac := .replicate 6 0
  fibSmac := .replicate 6 0
  fibGen := 0
  ingressIfindex := 0
  ingressVlanID := 0
  routingDomain := 0
  natScopeIfindex := 0
  generation := 0
  policyCounterIdx := 0
  nat64SnatV4 := .replicate s 0
  configEpoch := 0
  rtFlowSessionID := 0
  ingressIfaceFold := 0
  egressIfaceFold := 0
  natScopeFold := 0
  tunnelDiscriminator := 0
  pptpCallIDs := 0
  tcpCloseClass := 0
  tcpHandshakeState := 0
  installTableDomain := 0
  installTableCheck := 0
  sourceNatICMPValid := false
  sourceNatICMPType := 0
  sourceNatICMPCode := 0
  policyRuleID := []
  primaryLiveness := false
  appTimeoutLogStated := false

/-- The trailing fields that both families carry past the fixed layout of the map. -/
structure SessionTail where
  generation : UInt64
  appTimeout : UInt32
  policyCounterIdx : UInt32
  configEpoch : UInt64
  rtFlowSessionID : UInt64
  ingressIfaceFold : UInt32
  tunnelDiscriminator : UInt64
  routingDomain : UInt32
  tcpCloseClass : UInt8
  installTableDomain : UInt32
  installTableCheck : UInt32
  flagsHigh : UInt8
  sourceNatICMPValid : Bool
  sourceNatICMPType : UInt8
  sourceNatICMPCode : UInt8
  policyRuleID : Bytes
  tcpHandshakeState : UInt8
  egressIfaceFold : UInt32
  pptpCallIDs : UInt64
  natScopeFold : UInt32
  appTimeoutLogStated : Bool
  deriving DecidableEq

def SessionTail.zero : SessionTail := ⟨0, 0, 0, 0, 0, 0, 0, 0, 0, 0, 0, 0, false, 0, 0, [], 0, 0, 0, 0, false⟩

def SessionValue.sessionTail (v : SessionValue w s) : SessionTail where
  generation := v.generation
  appTimeout := v.appTimeout
  policyCounterIdx := v.policyCounterIdx
  configEpoch := v.configEpoch
  rtFlowSessionID := v.rtFlowSessionID
  ingressIfaceFold := v.ingressIfaceFold
  tunnelDiscriminator := v.tunnelDiscriminator
  routingDomain := v.routingDomain
  tcpCloseClass := v.tcpCloseClass
  installTableDomain := v.installTableDomain
  installTableCheck := v.installTableCheck
  flagsHigh := (v.flags >>> 8).toUInt8
  sourceNatICMPValid := v.sourceNatICMPValid
  sourceNatICMPType := v.sourceNatICMPType
  sourceNatICMPCode := v.sourceNatICMPCode
  policyRuleID := v.policyRuleID
  tcpHandshakeState := v.tcpHandshakeState
  egressIfaceFold := v.egressIfaceFold
  pptpCallIDs := v.pptpCallIDs
  natScopeFold := v.natScopeFold
  appTimeoutLogStated := v.appTimeoutLogStated

def SessionValue.setSessionTail (v : SessionValue w s) (t : SessionTail) : SessionValue w s :=
  { v with
    generation := t.generation
    appTimeout := t.appTimeout
    policyCounterIdx := t.policyCounterIdx
    configEpoch := t.configEpoch
    rtFlowSessionID := t.rtFlowSessionID
    ingressIfaceFold := t.ingressIfaceFold
    tunnelDiscriminator := t.tunnelDiscriminator
    routingDomain := t.routingDomain
    tcpCloseClass := t.tcpCloseClass
    installTableDomain := t.installTableDomain
    installTableCheck := t.installTableCheck
    flags := (v.flags &&& (0x00FF : UInt16)) ||| (t.flagsHigh.toUInt16 <<< 8)
    sourceNatICMPValid := t.sourceNatICMPValid
    sourceNatICMPType := t.sourceNatICMPType
    sourceNatICMPCode := t.sourceNatICMPCode
    policyRuleID := t.policyRuleID
    tcpHandshakeState := t.tcpHandshakeState
    egressIfaceFold := t.egressIfaceFold
    pptpCallIDs := t.pptpCallIDs
    natScopeFold := t.natScopeFold
    appTimeoutLogStated := t.appTimeoutLogStated }

/-! ## Encoding -/

def zeros (n : ℕ) : Bytes := List.replicate n 0

/-- A key: addresses, ports and protocol, and three bytes that stay zero. -/
def encodeKey (k : SessionKey w) : Bytes :=
  k.srcIP.toList ++ (k.dstIP.toList ++ (putUint16 k.srcPort ++ (putUint16 k.dstPort ++ ([k.protocol] ++ zeros 3))))

def encodeState (v : SessionValue w s) : Bytes := [v.state, v.flags.toUInt8, v.tcpState, v.isReverse, 0, 0, 0, 0]

/-- What the session means: its ids, times, policy, zones and translation. -/
def encodeMeaning (v : SessionValue w s) : Bytes :=
  putUint64 v.sessionID ++ (putUint64 v.created ++ (putUint64 v.lastSeen ++ (putUint32 v.timeout ++
    (putUint32 v.policyID ++ (putUint16 v.ingressZone ++ (putUint16 v.egressZone ++ (v.natSrcIP.toList ++
    (v.natDstIP.toList ++ (putUint16 v.natSrcPort ++ putUint16 v.natDstPort)))))))))

def encodeCounters (v : SessionValue w s) : Bytes :=
  putUint64 v.fwdPackets ++ (putUint64 v.fwdBytes ++ (putUint64 v.revPackets ++ putUint64 v.revBytes))

def encodeALG (v : SessionValue w s) : Bytes := [v.algType, v.logFlags, 0, 0]

def encodeFib (v : SessionValue w s) : Bytes :=
  putUint32 v.fibIfindex ++ (putUint16 v.fibVlanID ++ (v.fibDmac.toList ++ (v.fibSmac.toList ++ putUint16 v.fibGen)))

def encodeSessionTailPreNat64 (t : SessionTail) : Bytes :=
  putUint64 t.generation ++ (putUint32 t.appTimeout ++ putUint32 t.policyCounterIdx)

def sessionRuleIDMaxLen : ℕ := 1024

def appendPptpCallIDs (callIDs : UInt64) : Bytes := if callIDs = 0 then [] else putUint64 callIDs

/-- The variable tail. With an interface fold it always has a rule id, a handshake state and
the egress fold; without, only what is not absent. A rule id that is too long is left out. -/
def appendSessionSyncMetadataTail (ruleID : Bytes) (handshakeState : UInt8) (egressFold : UInt32) (pptpCallIDs : UInt64)
    (natScopeFold : UInt32) : Bytes :=
  let ruleID := if sessionRuleIDMaxLen < ruleID.length then [] else ruleID
  if egressFold ≠ 0 ∨ natScopeFold ≠ 0 then
    putUint16 (UInt16.ofNat ruleID.length) ++ (ruleID ++ ([handshakeState] ++ (putUint32 egressFold ++
      ((if natScopeFold ≠ 0 then putUint32 natScopeFold else []) ++ appendPptpCallIDs pptpCallIDs))))
  else
    (if ruleID.length ≠ 0 ∨ handshakeState ≠ 0 then putUint16 (UInt16.ofNat ruleID.length) ++ ruleID else []) ++
      ((if handshakeState ≠ 0 then [handshakeState] else []) ++ appendPptpCallIDs pptpCallIDs)

def appTimeoutLogStatedTailMagic : Bytes := [0x00, 0xff, 0x78, 0x70, 0x66, 0x41, 0x54, 0x4c]

def primaryLivenessTailMagic : Bytes := [0x00, 0xff, 0x78, 0x70, 0x66, 0x50, 0x4c, 0x56]

def appendAppTimeoutLogStatedMarker (stated : Bool) : Bytes :=
  if stated then appTimeoutLogStatedTailMagic ++ [1] else []

def appendPrimaryLivenessMarker : Bytes := primaryLivenessTailMagic ++ [1]

/-- The fixed fields after the NAT64 slot. -/
def encodeSessionTailFixed (t : SessionTail) : Bytes :=
  putUint64 t.configEpoch ++ (putUint64 t.rtFlowSessionID ++ (putUint32 t.ingressIfaceFold ++
    (putUint64 t.tunnelDiscriminator ++ (putUint32 t.routingDomain ++ ([t.tcpCloseClass] ++
    (putUint32 t.installTableDomain ++ (putUint32 t.installTableCheck ++ ([t.flagsHigh] ++
    [if t.sourceNatICMPValid then 1 else 0, t.sourceNatICMPType, t.sourceNatICMPCode]))))))))

def sessionMetadata (t : SessionTail) : Bytes :=
  appendSessionSyncMetadataTail t.policyRuleID t.tcpHandshakeState t.egressIfaceFold t.pptpCallIDs t.natScopeFold

def encodeSessionTailPostNat64 (t : SessionTail) : Bytes :=
  encodeSessionTailFixed t ++ (sessionMetadata t ++ appendAppTimeoutLogStatedMarker t.appTimeoutLogStated)

/-- **The payload of a session.** -/
def encodeSessionPayload (key : SessionKey w) (v : SessionValue w s) : Bytes :=
  encodeKey key ++ (encodeState v ++ (encodeMeaning v ++ (encodeCounters v ++ (encodeKey v.reverseKey ++
    (encodeALG v ++ (encodeFib v ++ (encodeSessionTailPreNat64 v.sessionTail ++ (v.nat64SnatV4.toList ++
    (encodeSessionTailPostNat64 v.sessionTail ++ if v.primaryLiveness then appendPrimaryLivenessMarker else [])))))))))

def encodeSessionV4Payload (key : SessionKey 4) (v : SessionValue 4 0) : Bytes := encodeSessionPayload key v

def encodeSessionV6Payload (key : SessionKey 16) (v : SessionValue 16 4) : Bytes := encodeSessionPayload key v

/-! ## Decoding -/

/-- Remove the application-timeout marker, if the payload ends in one. A marker with an
unknown flag counts as none. -/
def stripAppTimeoutLogStatedMarker (payload : Bytes) : Bytes × Bool :=
  if payload.length < 9 then (payload, false)
  else
    let start := payload.length - 9
    if (payload.drop start).take 8 ≠ appTimeoutLogStatedTailMagic then (payload, false)
    else
      let flag := (payload.drop (start + 8)).headD 0
      if 1 < flag then (payload.take start, false) else (payload.take start, flag = 1)

/-- Remove the liveness marker, if the payload ends in one; the last component tells whether
its flag is known. -/
def stripPrimaryLivenessMarker (payload : Bytes) : Bytes × Bool × Bool :=
  if payload.length < 9 then (payload, false, true)
  else
    let start := payload.length - 9
    if (payload.drop start).take 8 ≠ primaryLivenessTailMagic then (payload, false, true)
    else
      let flag := (payload.drop (start + 8)).headD 0
      (payload.take start, flag = 1, flag ≤ 1)

def next8 (b : Bytes) : UInt8 × Bytes := (b.headD 0, b.drop 1)

def next16 (b : Bytes) : UInt16 × Bytes := (uint16 b, b.drop 2)

def next32 (b : Bytes) : UInt32 × Bytes := (uint32 b, b.drop 4)

def next64 (b : Bytes) : UInt64 × Bytes := (uint64 b, b.drop 8)

def nextVec (n : ℕ) (b : Bytes) : Vector UInt8 n × Bytes := (Vector.ofFn fun i => b.getD i 0, b.drop n)

/-- A block of at least `n` bytes, read if they are there. A block that does not fit is
skipped, and decoding goes on at the same place. -/
def takeIf {τ : Type} (n : ℕ) (take : τ → Bytes → τ × Bytes) (t : τ) (b : Bytes) : τ × Bytes :=
  if n ≤ b.length then take t b else (t, b)

/-- A key block, with its padding skipped. -/
def decodeKey (b : Bytes) : SessionKey w × Bytes :=
  let (srcIP, b) := nextVec w b
  let (dstIP, b) := nextVec w b
  let (srcPort, b) := next16 b
  let (dstPort, b) := next16 b
  let (protocol, b) := next8 b
  (⟨srcIP, dstIP, srcPort, dstPort, protocol, .replicate 3 0⟩, b.drop 3)

def decodeState (v : SessionValue w s) (b : Bytes) : SessionValue w s × Bytes :=
  let (state, b) := next8 b
  let (flags, b) := next8 b
  let (tcpState, b) := next8 b
  let (isReverse, b) := next8 b
  ({ v with state, flags := flags.toUInt16, tcpState, isReverse }, b.drop 4)

def decodeMeaning (v : SessionValue w s) (b : Bytes) : SessionValue w s × Bytes :=
  let (sessionID, b) := next64 b
  let (created, b) := next64 b
  let (lastSeen, b) := next64 b
  let (timeout, b) := next32 b
  let (policyID, b) := next32 b
  let (ingressZone, b) := next16 b
  let (egressZone, b) := next16 b
  let (natSrcIP, b) := nextVec w b
  let (natDstIP, b) := nextVec w b
  let (natSrcPort, b) := next16 b
  let (natDstPort, b) := next16 b
  ({ v with sessionID, created, lastSeen, timeout, policyID, ingressZone, egressZone, natSrcIP, natDstIP, natSrcPort,
            natDstPort }, b)

def decodeCounters (v : SessionValue w s) (b : Bytes) : SessionValue w s × Bytes :=
  let (fwdPackets, b) := next64 b
  let (fwdBytes, b) := next64 b
  let (revPackets, b) := next64 b
  let (revBytes, b) := next64 b
  ({ v with fwdPackets, fwdBytes, revPackets, revBytes }, b)

/-- Keep a transmitted ALG tag only when its service port is where the direction of the
session has it; tags of unknown types are kept. -/
def keepSyncedALGTypeConsistent (protocol : UInt8) (srcPort dstPort : UInt16) (isReverse algType : UInt8) : UInt8 :=
  if algType = 0 ∨ 3 < algType then algType
  else
    let servicePort := if isReverse ≠ 0 then srcPort else dstPort
    if protocol = 17 ∧ servicePort = 53 ∧ algType = 3 then algType
    else if protocol = 6 ∧ servicePort = 21 ∧ algType = 1 then algType
    else if (protocol = 6 ∨ protocol = 17) ∧ servicePort = 5060 ∧ algType = 2 then algType
    else 0

def decodeReverseKey : SessionValue w s → Bytes → SessionValue w s × Bytes :=
  takeIf (2 * w + 8) fun v b =>
    let (reverseKey, b) := decodeKey b
    ({ v with reverseKey }, b)

/-- The ALG tag and the log flags: two bytes are enough, four are skipped. -/
def decodeALG (key : SessionKey w) : SessionValue w s → Bytes → SessionValue w s × Bytes :=
  takeIf 2 fun v b =>
    let (algType, b) := next8 b
    let (logFlags, b) := next8 b
    ({ v with
        algType := keepSyncedALGTypeConsistent key.protocol key.srcPort key.dstPort v.isReverse algType
        logFlags }, b.drop 2)

def decodeFib : SessionValue w s → Bytes → SessionValue w s × Bytes :=
  takeIf 20 fun v b =>
    let (fibIfindex, b) := next32 b
    let (fibVlanID, b) := next16 b
    let (fibDmac, b) := nextVec 6 b
    let (fibSmac, b) := nextVec 6 b
    let (fibGen, b) := next16 b
    ({ v with fibIfindex, fibVlanID, fibDmac, fibSmac, fibGen }, b)

def decodeSessionTailPreNat64 (t : SessionTail) (b : Bytes) : SessionTail × Bytes :=
  let (t, b) := takeIf 8 (fun t b => ({ t with generation := (next64 b).1 }, (next64 b).2)) t b
  let (t, b) := takeIf 4 (fun t b => ({ t with appTimeout := (next32 b).1 }, (next32 b).2)) t b
  takeIf 4 (fun t b => ({ t with policyCounterIdx := (next32 b).1 }, (next32 b).2)) t b

/-- Unknown handshake states count as established. -/
def normalizeTCPHandshakeState (state : UInt8) : UInt8 := if 4 < state then 4 else state

/-- The last eight bytes of the tail are a call-id pair when the session has a PPTP
discriminator and they are tagged as one. -/
def decodePptpCallIDs (t : SessionTail) (b : Bytes) : SessionTail × Bytes :=
  if t.tunnelDiscriminator >>> 32 = 2 ∧ 8 ≤ b.length then
    let callIDs := uint64 (b.drop (b.length - 8))
    if callIDs >>> 32 = 1 then ({ t with pptpCallIDs := callIDs }, b.take (b.length - 8)) else (t, b)
  else (t, b)

/-- What follows the rule id, told apart by its size: a handshake state, and behind it the
egress fold and the NAT scope fold. -/
def decodeFolds (t : SessionTail) (b : Bytes) : SessionTail :=
  if 9 ≤ b.length then
    { t with
      tcpHandshakeState := normalizeTCPHandshakeState (b.headD 0)
      egressIfaceFold := uint32 (b.drop 1)
      natScopeFold := uint32 (b.drop 5) }
  else if 5 ≤ b.length then
    { t with
      tcpHandshakeState := normalizeTCPHandshakeState (b.headD 0)
      egressIfaceFold := uint32 (b.drop 1) }
  else if 0 < b.length then { t with tcpHandshakeState := normalizeTCPHandshakeState (b.headD 0) }
  else t

/-- The rule id and what follows it. -/
def decodeRuleID (t : SessionTail) (b : Bytes) : SessionTail :=
  if 2 ≤ b.length then
    let ruleIDLen := (uint16 b).toNat
    let b := b.drop 2
    if ruleIDLen ≤ b.length then
      decodeFolds (if ruleIDLen ≠ 0 then { t with policyRuleID := b.take ruleIDLen } else t) (b.drop ruleIDLen)
    else t
  else t

def decodeMetadata (t : SessionTail) (b : Bytes) : SessionTail :=
  let (t, b) := decodePptpCallIDs t b
  decodeRuleID t b

/-- The table identity, and the high flags only behind a complete one. -/
def decodeInstallTable : SessionTail → Bytes → SessionTail × Bytes :=
  takeIf 8 fun t b =>
    let (installTableDomain, b) := next32 b
    let (installTableCheck, b) := next32 b
    takeIf 1 (fun t b => ({ t with flagsHigh := (next8 b).1 }, (next8 b).2))
      { t with installTableDomain, installTableCheck } b

def decodeSourceNatICMP : SessionTail → Bytes → SessionTail × Bytes :=
  takeIf 3 fun t b =>
    let (valid, b) := next8 b
    let (sourceNatICMPType, b) := next8 b
    let (sourceNatICMPCode, b) := next8 b
    ({ t with sourceNatICMPValid := valid ≠ 0, sourceNatICMPType, sourceNatICMPCode }, b)

/-- The fixed fields after the NAT64 slot. -/
def decodeSessionTailFixed (t : SessionTail) (b : Bytes) : SessionTail × Bytes :=
  let (t, b) := takeIf 8 (fun t b => ({ t with configEpoch := (next64 b).1 }, (next64 b).2)) t b
  let (t, b) := takeIf 8 (fun t b => ({ t with rtFlowSessionID := (next64 b).1 }, (next64 b).2)) t b
  let (t, b) := takeIf 4 (fun t b => ({ t with ingressIfaceFold := (next32 b).1 }, (next32 b).2)) t b
  let (t, b) := takeIf 8 (fun t b => ({ t with tunnelDiscriminator := (next64 b).1 }, (next64 b).2)) t b
  let (t, b) := takeIf 4 (fun t b => ({ t with routingDomain := (next32 b).1 }, (next32 b).2)) t b
  let (t, b) := takeIf 1 (fun t b => ({ t with tcpCloseClass := (next8 b).1 }, (next8 b).2)) t b
  let (t, b) := decodeInstallTable t b
  decodeSourceNatICMP t b

/-- The fields after the NAT64 slot, from `off` on in the payload less its marker. -/
def decodeSessionTailPostNat64 (payload : Bytes) (off : ℕ) (t : SessionTail) : SessionTail :=
  let (payload, appTimeoutLogStated) := stripAppTimeoutLogStatedMarker payload
  let (t, b) := decodeSessionTailFixed { t with appTimeoutLogStated } (payload.drop off)
  decodeMetadata t b

/-- Everything after the counters, in a payload without its liveness marker. -/
def decodeOptional (payload : Bytes) (primaryLiveness : Bool) (key : SessionKey w) (v : SessionValue w s) (b : Bytes) :
    SessionValue w s :=
  let (v, b) := decodeReverseKey v b
  let (v, b) := decodeALG key v b
  let (v, b) := decodeFib v b
  let (t, b) := decodeSessionTailPreNat64 .zero b
  let (v, b) := takeIf s (fun v b => ({ v with nat64SnatV4 := (nextVec s b).1 }, (nextVec s b).2)) v b
  let t := decodeSessionTailPostNat64 payload (payload.length - b.length) t
  { v.setSessionTail t with primaryLiveness }

/-- **The session of a payload.** The key and what the session means are mandatory; without
the counters nothing further is looked at. -/
def decodeSessionPayload (payload : Bytes) : Option (SessionKey w × SessionValue w s) :=
  let (payload, primaryLiveness, markerValid) := stripPrimaryLivenessMarker payload
  if !markerValid then none
  else if payload.length < 2 * w + 8 then none
  else
    let (key, b) := decodeKey payload
    if b.length < 8 then none
    else
      let (v, b) := decodeState (.zero : SessionValue w s) b
      -- IPv6 checks the 36 bytes of its translation on their own, after the 48 it checks here
      if b.length < 40 + 2 * w then none
      else
        let (v, b) := decodeMeaning v b
        if b.length < 32 then some (key, v)
        else
          let (v, b) := decodeCounters v b
          some (key, decodeOptional payload primaryLiveness key v b)

def decodeSessionV4Payload (payload : Bytes) : Option (SessionKey 4 × SessionValue 4 0) := decodeSessionPayload payload

def decodeSessionV6Payload (payload : Bytes) : Option (SessionKey 16 × SessionValue 16 4) := decodeSessionPayload payload

end Xpf.SessionSync
