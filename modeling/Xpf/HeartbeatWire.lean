/-
The heartbeat wire codec: `pkg/cluster/heartbeat_wire.go`.

A frame is a header, the redundancy groups, a counted run of monitors and a trailer with
the software version, the HA protocol version, and the optional echo and clock sections.
The groups and the trailer are reserved first, and the monitors take what is left of the
frame; an authenticated frame reserves its own tail as well. The decoder is driven by the
lengths it reads and ignores what follows the last section it knows.

The offset `off` into the fixed buffer of the sender is the length of what has been
written, and the offset of the decoder is the part of the frame that is still to be read.
-/
import Xpf.GoStrings
import Xpf.LittleEndian

set_option autoImplicit false

namespace Xpf.HeartbeatWire

open GoStrings LittleEndian

/-! ## Packets -/

/-- `HeartbeatGroup`. -/
structure HeartbeatGroup where
  groupID : UInt8
  priority : UInt16
  weight : UInt8
  state : UInt8
deriving DecidableEq

/-- `HeartbeatMonitor`. -/
structure HeartbeatMonitor where
  rgID : UInt8
  weight : UInt8
  up : Bool
  iface : Bytes
deriving DecidableEq

/-- `HeartbeatPacket`. -/
structure HeartbeatPacket where
  nodeID : UInt8
  clusterID : UInt16
  groups : List HeartbeatGroup
  monitors : List HeartbeatMonitor
  softwareVersion : Bytes
  haProtocolVersion : UInt16
  heartbeatSession : UInt64
  heartbeatSequence : UInt64
  peerHeartbeatSession : UInt64
  peerHeartbeatSequence : UInt64
  wallClockUnixNano : Int64
deriving DecidableEq

def heartbeatMagic : Bytes := bytes "BPFX"
def heartbeatEchoMagic : Bytes := bytes "XPFE"
def heartbeatClockMagic : Bytes := bytes "XPFT"
def heartbeatAuthMagic : Bytes := bytes "XPFA"

def heartbeatVersion : UInt8 := 1
def legacyHAProtocolVersion : UInt16 := 1
def heartbeatEchoProtocolVersion : UInt16 := legacyHAProtocolVersion

def maxHeartbeatSize : ℕ := 1472
def heartbeatHeaderSize : ℕ := 9
def heartbeatGroupSize : ℕ := 5
def heartbeatVersionTrailerSize : ℕ := 1 + 2
def heartbeatEchoTrailerSize : ℕ := 4 + 8 * 4
def heartbeatClockTrailerSize : ℕ := 4 + 8
def heartbeatAuthTrailerSize : ℕ := 4 + 8 + 8 + 32
def heartbeatEpochMarkerSize : ℕ := 8
def heartbeatEpochSectionSize : ℕ := heartbeatEpochMarkerSize + 8

def maxHeartbeatGroups : ℕ := 255
def maxHeartbeatMonitors : ℕ := 255
def maxHeartbeatMonitorNameSize : ℕ := 255
def maxHeartbeatSoftwareVersionSize : ℕ := 255

/-- `normalizeHAProtocolVersion`. -/
def normalizeHAProtocolVersion (version : UInt16) : UInt16 :=
  if version = 0 then legacyHAProtocolVersion else version

/-! ## Encoding -/

def marshalGroup (g : HeartbeatGroup) : Bytes := g.groupID :: (putUint16 g.priority ++ [g.weight, g.state])

def marshalMonitor (mon : HeartbeatMonitor) : Bytes :=
  [mon.rgID, if mon.up then 1 else 0, mon.weight, UInt8.ofNat mon.iface.length] ++ mon.iface

/-- The packet has an echo section. -/
def hasEcho (pkt : HeartbeatPacket) : Bool :=
  heartbeatEchoProtocolVersion ≤ normalizeHAProtocolVersion pkt.haProtocolVersion
    && pkt.heartbeatSession ≠ 0 && pkt.heartbeatSequence ≠ 0

/-- The packet has a clock section. -/
def hasClock (pkt : HeartbeatPacket) : Bool := pkt.wallClockUnixNano ≠ 0

def echoTrailerSize (pkt : HeartbeatPacket) : ℕ := if hasEcho pkt then heartbeatEchoTrailerSize else 0

def clockTrailerSize (pkt : HeartbeatPacket) : ℕ := if hasClock pkt then heartbeatClockTrailerSize else 0

/-- The software version that is written: cut at 255 bytes, and left out where it does not
fit behind the groups, which end at `off`. -/
def versionWritten (pkt : HeartbeatPacket) (off tailReserve : ℕ) : Bytes :=
  let version := pkt.softwareVersion.take maxHeartbeatSoftwareVersionSize
  if off + heartbeatVersionTrailerSize + version.length + echoTrailerSize pkt + clockTrailerSize pkt + tailReserve
      ≤ maxHeartbeatSize then version
  else []

/-- The sections behind the monitors. -/
def marshalTrailer (pkt : HeartbeatPacket) (version : Bytes) : Bytes :=
  UInt8.ofNat version.length :: (version ++ (putUint16 (normalizeHAProtocolVersion pkt.haProtocolVersion)
    ++ ((if hasEcho pkt then
          heartbeatEchoMagic ++ (putUint64 pkt.heartbeatSession ++ (putUint64 pkt.heartbeatSequence
            ++ (putUint64 pkt.peerHeartbeatSession ++ putUint64 pkt.peerHeartbeatSequence)))
        else [])
      ++ (if hasClock pkt then heartbeatClockMagic ++ putUint64 pkt.wallClockUnixNano.toUInt64 else []))))

/-- The monitor loop: the entries written and their count. A name that is too long is
passed over; the count or the frame being full ends the section. -/
def marshalMonitors (reserve : ℕ) : ℕ → ℕ → List HeartbeatMonitor → Bytes × ℕ
  | _, numMon, [] => ([], numMon)
  | off, numMon, mon :: rest =>
    if maxHeartbeatMonitorNameSize < mon.iface.length then marshalMonitors reserve off numMon rest
    else if maxHeartbeatMonitors ≤ numMon then ([], numMon)
    else
      let entrySize := 4 + mon.iface.length
      if maxHeartbeatSize < off + entrySize + reserve then ([], numMon)
      else
        let (entries, count) := marshalMonitors reserve (off + entrySize) (numMon + 1) rest
        (marshalMonitor mon ++ entries, count)

/-- The header and the groups. -/
def marshalHead (pkt : HeartbeatPacket) : Bytes :=
  let groups := pkt.groups.take maxHeartbeatGroups
  heartbeatMagic ++ ([heartbeatVersion, pkt.nodeID] ++ (putUint16 pkt.clusterID
    ++ (UInt8.ofNat groups.length :: groups.flatMap marshalGroup)))

/-- `marshalHeartbeatBody`. -/
def marshalHeartbeatBody (pkt : HeartbeatPacket) (tailReserve : ℕ) : Bytes :=
  let head := marshalHead pkt
  let version := versionWritten pkt head.length tailReserve
  let versionReserve :=
    heartbeatVersionTrailerSize + version.length + echoTrailerSize pkt + clockTrailerSize pkt
  let (entries, numMon) := marshalMonitors (versionReserve + tailReserve) (head.length + 1) 0 pkt.monitors
  let body := head ++ (UInt8.ofNat numMon :: entries)
  if body.length + versionReserve + tailReserve ≤ maxHeartbeatSize then body ++ marshalTrailer pkt version else body

/-- `MarshalHeartbeat`. -/
def marshalHeartbeat (pkt : HeartbeatPacket) : Bytes := marshalHeartbeatBody pkt 0

/-! ## Decoding -/

/-- The errors of `UnmarshalHeartbeat`. -/
inductive HeartbeatError where
  /-- "heartbeat too short: %d bytes" -/
  | tooShort (len : ℕ)
  /-- "invalid heartbeat magic: %q" -/
  | invalidMagic (magic : Bytes)
  /-- "unsupported heartbeat version: %d" -/
  | unsupportedVersion (version : UInt8)
  /-- "heartbeat truncated: have %d, need %d" -/
  | truncated (have_ need : ℕ)
deriving DecidableEq

/-- The group loop, on a frame that has been found long enough. -/
def unmarshalGroups : ℕ → Bytes → List HeartbeatGroup × Bytes
  | 0, data => ([], data)
  | n + 1, data =>
    let g : HeartbeatGroup :=
      { groupID := data.getD 0 0, priority := uint16 (data.drop 1), weight := data.getD 3 0, state := data.getD 4 0 }
    let (groups, rest) := unmarshalGroups n (data.drop heartbeatGroupSize)
    (g :: groups, rest)

/-- The monitor loop: the monitors read, what is left, and whether the section was
complete. -/
def unmarshalMonitors : ℕ → Bytes → List HeartbeatMonitor × Bytes × Bool
  | 0, data => ([], data, true)
  | n + 1, data =>
    if data.length < 4 then ([], data, false)
    else
      let nameLen := (data.getD 3 0).toNat
      let names := data.drop 4
      if names.length < nameLen then ([], names, false)
      else
        let mon : HeartbeatMonitor :=
          { rgID := data.getD 0 0, weight := data.getD 2 0, up := data.getD 1 0 &&& 1 ≠ 0,
            iface := names.take nameLen }
        let (monitors, rest, complete) := unmarshalMonitors n (names.drop nameLen)
        (mon :: monitors, rest, complete)

/-- The echo section, where its magic stands. -/
def unmarshalEcho (pkt : HeartbeatPacket) (data : Bytes) : HeartbeatPacket × Bytes :=
  if heartbeatEchoProtocolVersion ≤ pkt.haProtocolVersion && heartbeatEchoTrailerSize ≤ data.length
      && data.take heartbeatEchoMagic.length = heartbeatEchoMagic then
    let fields := data.drop heartbeatEchoMagic.length
    ({ pkt with
        heartbeatSession := uint64 fields
        heartbeatSequence := uint64 (fields.drop 8)
        peerHeartbeatSession := uint64 (fields.drop 16)
        peerHeartbeatSequence := uint64 (fields.drop 24) }, fields.drop 32)
  else (pkt, data)

/-- The clock section, where its magic stands. -/
def unmarshalClock (pkt : HeartbeatPacket) (data : Bytes) : HeartbeatPacket :=
  if heartbeatClockTrailerSize ≤ data.length && data.take heartbeatClockMagic.length = heartbeatClockMagic then
    { pkt with wallClockUnixNano := (uint64 (data.drop heartbeatClockMagic.length)).toInt64 }
  else pkt

/-- The sections behind a complete monitor section. -/
def unmarshalTrailer (pkt : HeartbeatPacket) : Bytes → HeartbeatPacket
  | [] => pkt
  | versionLen :: data =>
    if data.length < versionLen.toNat then pkt
    else
      let pkt := { pkt with softwareVersion := data.take versionLen.toNat }
      let data := data.drop versionLen.toNat
      if data.length < 2 then pkt
      else
        let pkt := { pkt with haProtocolVersion := normalizeHAProtocolVersion (uint16 data) }
        let (pkt, data) := unmarshalEcho pkt (data.drop 2)
        unmarshalClock pkt data

/-- What stands behind the groups. -/
def unmarshalSections (pkt : HeartbeatPacket) : Bytes → HeartbeatPacket
  | [] => pkt
  | numMonitors :: data =>
    let (monitors, rest, complete) := unmarshalMonitors numMonitors.toNat data
    let pkt := { pkt with monitors := monitors }
    if complete then unmarshalTrailer pkt rest else pkt

/-- `UnmarshalHeartbeat`. -/
def unmarshalHeartbeat (data : Bytes) : Except HeartbeatError HeartbeatPacket :=
  if data.length < heartbeatHeaderSize then .error (.tooShort data.length)
  else if data.take 4 ≠ heartbeatMagic then .error (.invalidMagic (data.take 4))
  else if data.getD 4 0 ≠ heartbeatVersion then .error (.unsupportedVersion (data.getD 4 0))
  else
    let numGroups := (data.getD 8 0).toNat
    let need := heartbeatHeaderSize + numGroups * heartbeatGroupSize
    if data.length < need then .error (.truncated data.length need)
    else
      let (groups, rest) := unmarshalGroups numGroups (data.drop heartbeatHeaderSize)
      .ok (unmarshalSections
        { nodeID := data.getD 5 0, clusterID := uint16 (data.drop 6), groups := groups, monitors := [],
          softwareVersion := [], haProtocolVersion := legacyHAProtocolVersion, heartbeatSession := 0,
          heartbeatSequence := 0, peerHeartbeatSession := 0, peerHeartbeatSequence := 0, wallClockUnixNano := 0 } rest)

/-! ## Authenticated frames -/

section

-- HMAC-SHA256 of a message under a key
variable (hmac : Bytes → Bytes → Vector UInt8 32)

/-- `heartbeatEpochMarker`. -/
def heartbeatEpochMarker (authKey : Bytes) : Bytes :=
  (hmac authKey (bytes "xpf-ha-boot-epoch-v1")).toList.take heartbeatEpochMarkerSize

/-- The bytes a sender keeps free behind the body. -/
def tailReserve (authKey : Bytes) (epoch : UInt64) : ℕ :=
  if authKey = [] then 0
  else (if epoch ≠ 0 then heartbeatEpochSectionSize else 0) + heartbeatAuthTrailerSize

/-- `marshalHeartbeatAuthEpoch`. -/
def marshalHeartbeatAuthEpoch (pkt : HeartbeatPacket) (authKey : Bytes) (session counter epoch : UInt64) : Bytes :=
  let body := marshalHeartbeatBody pkt (tailReserve authKey epoch)
  if authKey = [] then body
  else
    let out := body ++ if epoch ≠ 0 then heartbeatEpochMarker hmac authKey ++ putUint64 epoch else []
    let nonce := heartbeatAuthMagic ++ (putUint64 session ++ putUint64 counter)
    out ++ (nonce ++ (hmac authKey (out ++ nonce)).toList)

/-- `MarshalHeartbeatAuth`. -/
def marshalHeartbeatAuth (pkt : HeartbeatPacket) (authKey : Bytes) (session counter : UInt64) : Bytes :=
  marshalHeartbeatAuthEpoch hmac pkt authKey session counter 0

end

/-! ## The sections round-trip -/

@[simp] theorem length_marshalGroup (g : HeartbeatGroup) : (marshalGroup g).length = heartbeatGroupSize := rfl

@[simp] theorem length_marshalMonitor (mon : HeartbeatMonitor) :
    (marshalMonitor mon).length = 4 + mon.iface.length := by
  simp only [marshalMonitor, List.length_append, List.length_cons, List.length_nil]

theorem length_groups (groups : List HeartbeatGroup) :
    (groups.flatMap marshalGroup).length = groups.length * heartbeatGroupSize := by
  induction groups with
  | nil => rfl
  | cons g groups ih => simp only [List.flatMap_cons, List.length_append, length_marshalGroup, ih, List.length_cons]; ring

theorem length_marshalHead (pkt : HeartbeatPacket) :
    (marshalHead pkt).length
      = heartbeatHeaderSize + (pkt.groups.take maxHeartbeatGroups).length * heartbeatGroupSize := by
  simp only [marshalHead, List.length_append, List.length_cons, List.length_nil, length_putUint16, length_groups]
  simp only [heartbeatMagic, heartbeatHeaderSize, show (bytes "BPFX").length = 4 from rfl]
  omega

theorem unmarshalGroups_marshal (groups : List HeartbeatGroup) (rest : Bytes) :
    unmarshalGroups groups.length (groups.flatMap marshalGroup ++ rest) = (groups, rest) := by
  induction groups with
  | nil => rfl
  | cons g groups ih =>
    have hdrop : ((g :: groups).flatMap marshalGroup ++ rest).drop heartbeatGroupSize
        = groups.flatMap marshalGroup ++ rest := by
      rw [List.flatMap_cons, List.append_assoc]
      exact List.drop_left' (length_marshalGroup g)
    have hpriority : ∀ more, uint16 ((marshalGroup g ++ more).drop 1) = g.priority := by
      intro more
      simp only [marshalGroup, List.cons_append, List.drop_succ_cons, List.drop_zero, List.append_assoc,
        uint16_putUint16_append]
    rw [List.length_cons, unmarshalGroups, hdrop, ih]
    rw [List.flatMap_cons, List.append_assoc, hpriority]
    rfl

theorem unmarshalMonitors_marshal (monitors : List HeartbeatMonitor) (rest : Bytes)
    (h : ∀ mon ∈ monitors, mon.iface.length ≤ maxHeartbeatMonitorNameSize) :
    unmarshalMonitors monitors.length (monitors.flatMap marshalMonitor ++ rest) = (monitors, rest, true) := by
  induction monitors with
  | nil => rfl
  | cons mon monitors ih =>
    have hname : mon.iface.length ≤ 255 := h mon List.mem_cons_self
    have hlen : (UInt8.ofNat mon.iface.length).toNat = mon.iface.length := by
      rw [UInt8.toNat_ofNat']
      omega
    have hflag : ((if mon.up then (1 : UInt8) else 0) &&& 1 ≠ 0) = (mon.up = true) := by
      cases mon.up <;> decide
    have hmore := ih fun m hm => h m (List.mem_cons_of_mem _ hm)
    rw [List.length_cons, unmarshalMonitors, List.flatMap_cons, List.append_assoc]
    simp only [marshalMonitor, List.cons_append, List.nil_append, List.length_cons,
      List.length_append, List.getD_cons_zero, List.getD_cons_succ, List.drop_succ_cons, List.drop_zero, hlen]
    rw [if_neg (by omega), if_neg (by omega), List.take_left, List.drop_left]
    simp [hmore, hflag]

/-- The name fits its length byte. -/
def nameable (mon : HeartbeatMonitor) : Bool := mon.iface.length ≤ maxHeartbeatMonitorNameSize

/-- `kept` is what a monitor section of the frame may hold: the first nameable monitors,
within the count byte and, from `off` on, within the frame. -/
structure Fits (reserve off numMon : ℕ) (monitors kept : List HeartbeatMonitor) : Prop where
  first : kept <+: monitors.filter nameable
  count : numMon + kept.length ≤ maxHeartbeatMonitors
  room : kept ≠ [] → off + (kept.flatMap marshalMonitor).length + reserve ≤ maxHeartbeatSize

theorem Fits.nil {reserve off numMon : ℕ} {monitors : List HeartbeatMonitor} (h : numMon ≤ maxHeartbeatMonitors) :
    Fits reserve off numMon monitors [] :=
  ⟨List.nil_prefix, h, fun h => absurd rfl h⟩

theorem Fits.nameable {reserve off numMon : ℕ} {monitors kept : List HeartbeatMonitor}
    (h : Fits reserve off numMon monitors kept) :
    ∀ mon ∈ kept, mon.iface.length ≤ maxHeartbeatMonitorNameSize := by
  intro mon hmon
  have := (List.mem_filter.1 (h.first.subset hmon)).2
  simpa [HeartbeatWire.nameable] using this

/-- The loop writes the entries of monitors that fit, and counts them. -/
theorem marshalMonitors_spec (reserve off numMon : ℕ) (monitors : List HeartbeatMonitor)
    (hcount : numMon ≤ maxHeartbeatMonitors) :
    ∃ kept, Fits reserve off numMon monitors kept
      ∧ marshalMonitors reserve off numMon monitors = (kept.flatMap marshalMonitor, numMon + kept.length) := by
  induction monitors generalizing off numMon with
  | nil => exact ⟨[], Fits.nil hcount, rfl⟩
  | cons mon rest ih =>
    unfold marshalMonitors
    by_cases hname : maxHeartbeatMonitorNameSize < mon.iface.length
    · have hfilter : (mon :: rest).filter nameable = rest.filter nameable := by
        rw [List.filter_cons_of_neg]
        simpa [nameable] using hname
      rw [if_pos hname]
      obtain ⟨kept, hfits, hwritten⟩ := ih off numMon hcount
      exact ⟨kept, ⟨hfilter ▸ hfits.first, hfits.count, hfits.room⟩, hwritten⟩
    rw [if_neg hname]
    by_cases hfull : maxHeartbeatMonitors ≤ numMon
    · rw [if_pos hfull]
      exact ⟨[], Fits.nil hcount, rfl⟩
    rw [if_neg hfull]
    by_cases hroom : maxHeartbeatSize < off + (4 + mon.iface.length) + reserve
    · simp only [if_pos hroom]
      exact ⟨[], Fits.nil hcount, rfl⟩
    simp only [if_neg hroom]
    have hfilter : (mon :: rest).filter nameable = mon :: rest.filter nameable := by
      rw [List.filter_cons_of_pos]
      simpa [nameable] using hname
    obtain ⟨kept, hfits, hwritten⟩ := ih (off + (4 + mon.iface.length)) (numMon + 1) (by omega)
    refine ⟨mon :: kept, ⟨?_, ?_, ?_⟩, ?_⟩
    · rw [hfilter]
      exact (List.prefix_cons_inj mon).2 hfits.first
    · have := hfits.count
      rw [List.length_cons]
      omega
    · intro _
      rw [List.flatMap_cons, List.length_append, length_marshalMonitor]
      by_cases hkept : kept = []
      · subst hkept
        simp only [List.flatMap_nil, List.length_nil]
        omega
      · have := hfits.room hkept
        omega
    · rw [hwritten, List.flatMap_cons, List.length_cons]
      simp only [Prod.mk.injEq, true_and]
      omega

/-! ### The trailer -/

/-- Bytes that are not read as one of the optional sections. -/
def NoSection (tail : Bytes) : Prop :=
  tail.take heartbeatEchoMagic.length ≠ heartbeatEchoMagic ∧ tail.take heartbeatClockMagic.length ≠ heartbeatClockMagic

theorem normalize_eq (version : UInt16) :
    normalizeHAProtocolVersion (normalizeHAProtocolVersion version) = normalizeHAProtocolVersion version
      ∧ heartbeatEchoProtocolVersion ≤ normalizeHAProtocolVersion version := by
  have hle : ∀ v : UInt16, v ≠ 0 → (1 : UInt16) ≤ v := by
    intro v hv
    rw [UInt16.le_iff_toNat_le]
    have : v.toNat ≠ 0 := fun h => hv (UInt16.toNat_inj.1 h)
    exact Nat.one_le_iff_ne_zero.2 this
  unfold normalizeHAProtocolVersion heartbeatEchoProtocolVersion legacyHAProtocolVersion
  by_cases h : version = 0
  · simp [h]
  · simp [h, hle version h]

/-- What the receiver has after the trailer. -/
def withTrailer (received pkt : HeartbeatPacket) (version : Bytes) : HeartbeatPacket :=
  { received with
    softwareVersion := version
    haProtocolVersion := normalizeHAProtocolVersion pkt.haProtocolVersion
    heartbeatSession := if hasEcho pkt then pkt.heartbeatSession else received.heartbeatSession
    heartbeatSequence := if hasEcho pkt then pkt.heartbeatSequence else received.heartbeatSequence
    peerHeartbeatSession := if hasEcho pkt then pkt.peerHeartbeatSession else received.peerHeartbeatSession
    peerHeartbeatSequence := if hasEcho pkt then pkt.peerHeartbeatSequence else received.peerHeartbeatSequence
    wallClockUnixNano := if hasClock pkt then pkt.wallClockUnixNano else received.wallClockUnixNano }

theorem unmarshalClock_marshal (received pkt : HeartbeatPacket) (tail : Bytes) (htail : NoSection tail) :
    unmarshalClock received ((if hasClock pkt then
        heartbeatClockMagic ++ putUint64 pkt.wallClockUnixNano.toUInt64 else []) ++ tail)
      = { received with
          wallClockUnixNano := if hasClock pkt then pkt.wallClockUnixNano else received.wallClockUnixNano } := by
  unfold unmarshalClock
  cases hclock : hasClock pkt with
  | true =>
    have hlong : heartbeatClockTrailerSize
        ≤ (heartbeatClockMagic ++ (putUint64 pkt.wallClockUnixNano.toUInt64 ++ tail)).length := by
      simp only [List.length_append, length_putUint64, heartbeatClockTrailerSize]
      simp only [heartbeatClockMagic, show (bytes "XPFT").length = 4 from rfl]
      omega
    simp only [if_true, List.append_assoc, List.take_left, List.drop_left, hlong, decide_true, Bool.and_self,
      uint64_putUint64_append]
    rfl
  | false =>
    simp [htail.2]

theorem unmarshalEcho_marshal (received pkt : HeartbeatPacket) (more : Bytes)
    (hversion : heartbeatEchoProtocolVersion ≤ received.haProtocolVersion)
    (hmore : more.take heartbeatEchoMagic.length ≠ heartbeatEchoMagic) :
    unmarshalEcho received ((if hasEcho pkt then
        heartbeatEchoMagic ++ (putUint64 pkt.heartbeatSession ++ (putUint64 pkt.heartbeatSequence
          ++ (putUint64 pkt.peerHeartbeatSession ++ putUint64 pkt.peerHeartbeatSequence))) else []) ++ more)
      = ({ received with
          heartbeatSession := if hasEcho pkt then pkt.heartbeatSession else received.heartbeatSession
          heartbeatSequence := if hasEcho pkt then pkt.heartbeatSequence else received.heartbeatSequence
          peerHeartbeatSession := if hasEcho pkt then pkt.peerHeartbeatSession else received.peerHeartbeatSession
          peerHeartbeatSequence := if hasEcho pkt then pkt.peerHeartbeatSequence else received.peerHeartbeatSequence },
        more) := by
  unfold unmarshalEcho
  cases hecho : hasEcho pkt with
  | true =>
    have hlong : heartbeatEchoTrailerSize ≤ (heartbeatEchoMagic ++ (putUint64 pkt.heartbeatSession
        ++ (putUint64 pkt.heartbeatSequence ++ (putUint64 pkt.peerHeartbeatSession
          ++ (putUint64 pkt.peerHeartbeatSequence ++ more))))).length := by
      simp only [List.length_append, length_putUint64, heartbeatEchoTrailerSize]
      simp only [heartbeatEchoMagic, show (bytes "XPFE").length = 4 from rfl]
      omega
    -- the fields stand eight bytes apart
    have hskip : ∀ (v : UInt64) (n : ℕ) (rest : Bytes), (putUint64 v ++ rest).drop (n + 8) = rest.drop n := by
      intro v n rest
      rw [Nat.add_comm, ← List.drop_drop, List.drop_left' (length_putUint64 v)]
    simp only [if_true, List.append_assoc, List.take_left, List.drop_left, hlong, hversion, decide_true,
      Bool.and_self, uint64_putUint64_append, hskip _ 0, hskip _ 8, hskip _ 16, hskip _ 24, List.drop_zero]
  | false =>
    simp [hmore]

theorem unmarshalTrailer_marshal (received pkt : HeartbeatPacket) (version tail : Bytes)
    (hversion : version.length ≤ maxHeartbeatSoftwareVersionSize) (htail : NoSection tail) :
    unmarshalTrailer received (marshalTrailer pkt version ++ tail) = withTrailer received pkt version := by
  have hlen : (UInt8.ofNat version.length).toNat = version.length := by
    rw [UInt8.toNat_ofNat']
    unfold maxHeartbeatSoftwareVersionSize at hversion
    omega
  have hmore : ((if hasClock pkt then heartbeatClockMagic ++ putUint64 pkt.wallClockUnixNano.toUInt64 else [])
      ++ tail).take heartbeatEchoMagic.length ≠ heartbeatEchoMagic := by
    cases hasClock pkt with
    | true =>
      rw [if_pos rfl, List.append_assoc]
      intro h
      rw [show heartbeatEchoMagic.length = heartbeatClockMagic.length from rfl, List.take_left] at h
      exact absurd h (by decide)
    | false => exact htail.1
  obtain ⟨hnormal, hecho⟩ := normalize_eq pkt.haProtocolVersion
  unfold marshalTrailer unmarshalTrailer
  simp only [List.cons_append, List.append_assoc, hlen, List.take_left, List.drop_left, uint16_putUint16_append,
    hnormal]
  rw [if_neg (by simp only [List.length_append]; omega), if_neg (by simp only [List.length_append, length_putUint16]; omega),
    List.drop_left' (length_putUint16 _), unmarshalEcho_marshal _ pkt _ hecho hmore]
  simp only
  rw [unmarshalClock_marshal _ pkt tail htail]
  rfl

/-! ## The frame -/

/-- The packet of a receiver that has read the header and the groups. -/
def afterGroups (pkt : HeartbeatPacket) : HeartbeatPacket :=
  { nodeID := pkt.nodeID, clusterID := pkt.clusterID, groups := pkt.groups, monitors := [],
    softwareVersion := [], haProtocolVersion := legacyHAProtocolVersion, heartbeatSession := 0,
    heartbeatSequence := 0, peerHeartbeatSession := 0, peerHeartbeatSequence := 0, wallClockUnixNano := 0 }

theorem unmarshalHeartbeat_marshalHead (pkt : HeartbeatPacket) (rest : Bytes)
    (hgroups : pkt.groups.length ≤ maxHeartbeatGroups) :
    unmarshalHeartbeat (marshalHead pkt ++ rest) = .ok (unmarshalSections (afterGroups pkt) rest) := by
  have htake : pkt.groups.take maxHeartbeatGroups = pkt.groups := List.take_of_length_le hgroups
  have hcount : (UInt8.ofNat pkt.groups.length).toNat = pkt.groups.length := by
    rw [UInt8.toNat_ofNat']
    unfold maxHeartbeatGroups at hgroups
    omega
  have hlength := length_marshalHead pkt
  rw [htake] at hlength
  have hclusterID : ∀ more, uint16 (putUint16 pkt.clusterID ++ more) = pkt.clusterID := uint16_putUint16_append _
  -- the nine bytes of the header, the two of the cluster id spelled out
  obtain ⟨lo, hi, hbytes⟩ : ∃ lo hi, putUint16 pkt.clusterID = [lo, hi] := ⟨_, _, rfl⟩
  have hhead : marshalHead pkt ++ rest
      = 66 :: 80 :: 70 :: 88 :: heartbeatVersion :: pkt.nodeID :: lo :: hi :: UInt8.ofNat pkt.groups.length
        :: (pkt.groups.flatMap marshalGroup ++ rest) := by
    simp only [marshalHead, htake, hbytes, heartbeatMagic, show bytes "BPFX" = [66, 80, 70, 88] from rfl,
      List.cons_append, List.nil_append]
  have hlong : (marshalHead pkt ++ rest).length
      = heartbeatHeaderSize + pkt.groups.length * heartbeatGroupSize + rest.length := by
    rw [List.length_append, hlength]
  unfold unmarshalHeartbeat
  rw [if_neg (by omega), hhead]
  simp only [List.take_succ_cons, List.take_zero, List.getD_cons_zero, List.getD_cons_succ, hcount]
  rw [if_neg (by decide), if_neg (by decide), ← hhead, if_neg (by omega), hhead]
  simp only [heartbeatHeaderSize, List.drop_succ_cons, List.drop_zero, unmarshalGroups_marshal]
  rw [hbytes] at hclusterID
  have := hclusterID (UInt8.ofNat pkt.groups.length :: (pkt.groups.flatMap marshalGroup ++ rest))
  simp only [List.cons_append, List.nil_append] at this
  rw [this]
  rfl

/-- The monitor section of a frame, and the trailer where it is written. -/
theorem marshalHeartbeatBody_eq (pkt : HeartbeatPacket) (reserve : ℕ) :
    ∃ kept,
      let version := versionWritten pkt (marshalHead pkt).length reserve
      let versionReserve :=
        heartbeatVersionTrailerSize + version.length + echoTrailerSize pkt + clockTrailerSize pkt
      let body := marshalHead pkt ++ (UInt8.ofNat kept.length :: kept.flatMap marshalMonitor)
      Fits (versionReserve + reserve) ((marshalHead pkt).length + 1) 0 pkt.monitors kept
        ∧ marshalHeartbeatBody pkt reserve = body
          ++ if body.length + versionReserve + reserve ≤ maxHeartbeatSize then marshalTrailer pkt version else [] := by
  obtain ⟨kept, hfits, hwritten⟩ := marshalMonitors_spec
    (heartbeatVersionTrailerSize + (versionWritten pkt (marshalHead pkt).length reserve).length + echoTrailerSize pkt
      + clockTrailerSize pkt + reserve) ((marshalHead pkt).length + 1) 0 pkt.monitors (Nat.zero_le _)
  refine ⟨kept, hfits, ?_⟩
  unfold marshalHeartbeatBody
  simp only [hwritten, Nat.zero_add]
  split_ifs
  · rfl
  · rw [List.append_nil]

theorem length_marshalTrailer (pkt : HeartbeatPacket) (version : Bytes) :
    (marshalTrailer pkt version).length
      = heartbeatVersionTrailerSize + version.length + echoTrailerSize pkt + clockTrailerSize pkt := by
  unfold marshalTrailer echoTrailerSize clockTrailerSize
  cases hasEcho pkt <;> cases hasClock pkt <;>
    simp [heartbeatEchoMagic, heartbeatClockMagic, heartbeatVersionTrailerSize, heartbeatEchoTrailerSize,
      heartbeatClockTrailerSize, show (bytes "XPFE").length = 4 from rfl, show (bytes "XPFT").length = 4 from rfl] <;>
    omega

theorem echo_add_clock_le (pkt : HeartbeatPacket) : echoTrailerSize pkt + clockTrailerSize pkt ≤ 48 := by
  unfold echoTrailerSize clockTrailerSize heartbeatEchoTrailerSize heartbeatClockTrailerSize
  split_ifs <;> omega

theorem length_marshalHead_le (pkt : HeartbeatPacket) : (marshalHead pkt).length ≤ 1284 := by
  have := List.length_take_le maxHeartbeatGroups pkt.groups
  rw [length_marshalHead]
  unfold heartbeatHeaderSize heartbeatGroupSize
  unfold maxHeartbeatGroups at *
  omega

/-- A tail of up to 68 bytes finds the room it has reserved. -/
theorem length_marshalHeartbeatBody (pkt : HeartbeatPacket) (reserve : ℕ)
    (hreserve : reserve ≤ heartbeatEpochSectionSize + heartbeatAuthTrailerSize) :
    (marshalHeartbeatBody pkt reserve).length + reserve ≤ maxHeartbeatSize := by
  obtain ⟨kept, hfits, hbody⟩ := marshalHeartbeatBody_eq pkt reserve
  rw [hbody]
  split_ifs with hroom
  · rw [List.length_append, length_marshalTrailer]
    omega
  · have hhead := length_marshalHead_le pkt
    have hlimit : heartbeatEpochSectionSize + heartbeatAuthTrailerSize = 68 := rfl
    rw [List.append_nil, List.length_append, List.length_cons]
    by_cases hkept : kept = []
    · subst hkept
      simp only [List.flatMap_nil, List.length_nil]
      unfold maxHeartbeatSize
      omega
    · have := hfits.room hkept
      omega

/-- The software version is within its length byte and, with the count byte of the
monitors, within what the groups and the reserved sections leave. -/
def VersionFits (pkt : HeartbeatPacket) (reserve : ℕ) : Prop :=
  pkt.softwareVersion.length ≤ maxHeartbeatSoftwareVersionSize
    ∧ (pkt.softwareVersion = [] ∨ heartbeatHeaderSize + pkt.groups.length * heartbeatGroupSize + 1
        + heartbeatVersionTrailerSize + pkt.softwareVersion.length + echoTrailerSize pkt + clockTrailerSize pkt
        + reserve ≤ maxHeartbeatSize)

/-- What the receiver has of a packet. The HA version 0 is read as the legacy version, and
an echo without a session or a sequence of the sender is no echo. -/
structure Received (pkt p : HeartbeatPacket) : Prop where
  nodeID : p.nodeID = pkt.nodeID
  clusterID : p.clusterID = pkt.clusterID
  groups : p.groups = pkt.groups
  haProtocolVersion : p.haProtocolVersion = normalizeHAProtocolVersion pkt.haProtocolVersion
  softwareVersion : p.softwareVersion = pkt.softwareVersion
  echo : pkt.heartbeatSession ≠ 0 → pkt.heartbeatSequence ≠ 0 →
    p.heartbeatSession = pkt.heartbeatSession ∧ p.heartbeatSequence = pkt.heartbeatSequence
      ∧ p.peerHeartbeatSession = pkt.peerHeartbeatSession ∧ p.peerHeartbeatSequence = pkt.peerHeartbeatSequence
  noEcho : pkt.heartbeatSession = 0 ∨ pkt.heartbeatSequence = 0 →
    p.heartbeatSession = 0 ∧ p.heartbeatSequence = 0 ∧ p.peerHeartbeatSession = 0 ∧ p.peerHeartbeatSequence = 0
  wallClockUnixNano : p.wallClockUnixNano = pkt.wallClockUnixNano
  monitors : p.monitors <+: pkt.monitors.filter nameable

theorem received_withTrailer (pkt : HeartbeatPacket) (monitors : List HeartbeatMonitor)
    (hmonitors : monitors <+: pkt.monitors.filter nameable) :
    Received pkt (withTrailer { afterGroups pkt with monitors := monitors } pkt pkt.softwareVersion) where
  nodeID := rfl
  clusterID := rfl
  groups := rfl
  haProtocolVersion := rfl
  softwareVersion := rfl
  echo := by
    intro hsession hsequence
    have hecho : hasEcho pkt = true := by
      simp [hasEcho, hsession, hsequence, (normalize_eq pkt.haProtocolVersion).2]
    simp [withTrailer, hecho]
  noEcho := by
    intro hnone
    have hecho : hasEcho pkt = false := by
      unfold hasEcho
      rcases hnone with h | h <;> simp [h]
    simp [withTrailer, hecho, afterGroups]
  wallClockUnixNano := by
    by_cases hclock : pkt.wallClockUnixNano = 0 <;> simp [withTrailer, hasClock, hclock, afterGroups]
  monitors := hmonitors

/-- A body whose version fits is read back, whatever follows it that is not a section. -/
theorem unmarshalHeartbeat_marshalHeartbeatBody (pkt : HeartbeatPacket) (reserve : ℕ) (tail : Bytes)
    (hgroups : pkt.groups.length ≤ maxHeartbeatGroups)
    (hreserve : reserve ≤ heartbeatEpochSectionSize + heartbeatAuthTrailerSize)
    (hversion : VersionFits pkt reserve) (htail : NoSection tail) :
    ∃ p, unmarshalHeartbeat (marshalHeartbeatBody pkt reserve ++ tail) = .ok p ∧ Received pkt p := by
  obtain ⟨kept, hfits, hbody⟩ := marshalHeartbeatBody_eq pkt reserve
  have hlength := length_marshalHead pkt
  rw [List.take_of_length_le hgroups] at hlength
  have hsections := echo_add_clock_le pkt
  have hlimit : heartbeatEpochSectionSize + heartbeatAuthTrailerSize = 68 := rfl
  have hmax : maxHeartbeatSize = 1472 := rfl
  have hhead := length_marshalHead_le pkt
  have hcount : (UInt8.ofNat kept.length).toNat = kept.length := by
    have := hfits.count
    rw [UInt8.toNat_ofNat']
    unfold maxHeartbeatMonitors at this
    omega
  have hwhole : pkt.softwareVersion.take maxHeartbeatSoftwareVersionSize = pkt.softwareVersion :=
    List.take_of_length_le hversion.1
  -- the version passes the size check with a byte to spare
  have hspare : (marshalHead pkt).length + 1 + heartbeatVersionTrailerSize + pkt.softwareVersion.length
      + echoTrailerSize pkt + clockTrailerSize pkt + reserve ≤ maxHeartbeatSize := by
    rcases hversion.2 with hempty | hroom
    · simp only [hempty, List.length_nil, heartbeatVersionTrailerSize]
      omega
    · omega
  have hwritten : versionWritten pkt (marshalHead pkt).length reserve = pkt.softwareVersion := by
    unfold versionWritten
    simp only [hwhole]
    rw [if_pos (by omega)]
  rw [hwritten] at hfits hbody
  have htrailer : (marshalHead pkt ++ (UInt8.ofNat kept.length :: kept.flatMap marshalMonitor)).length
      + (heartbeatVersionTrailerSize + pkt.softwareVersion.length + echoTrailerSize pkt + clockTrailerSize pkt)
      + reserve ≤ maxHeartbeatSize := by
    rw [List.length_append, List.length_cons]
    by_cases hkept : kept = []
    · subst hkept
      simp only [List.flatMap_nil, List.length_nil]
      omega
    · have := hfits.room hkept
      omega
  refine ⟨_, ?_, received_withTrailer pkt kept hfits.first⟩
  rw [hbody, if_pos htrailer, List.append_assoc, List.append_assoc,
    unmarshalHeartbeat_marshalHead pkt _ hgroups, List.cons_append]
  unfold unmarshalSections
  simp only [hcount, unmarshalMonitors_marshal kept _ hfits.nameable, if_true]
  rw [unmarshalTrailer_marshal _ pkt pkt.softwareVersion tail hversion.1 htail]

/-- The size check of the version does not count the byte that the monitor section needs
even when it is empty. A version that fills the frame passes it, and then the trailer, HA
version, echo and clock included, is not written. -/
theorem marshalHeartbeatBody_filled (pkt : HeartbeatPacket) (reserve : ℕ)
    (hversion : pkt.softwareVersion.length ≤ maxHeartbeatSoftwareVersionSize)
    (hfilled : (marshalHead pkt).length + heartbeatVersionTrailerSize + pkt.softwareVersion.length
      + echoTrailerSize pkt + clockTrailerSize pkt + reserve = maxHeartbeatSize) :
    marshalHeartbeatBody pkt reserve = marshalHead pkt ++ [0] := by
  obtain ⟨kept, hfits, hbody⟩ := marshalHeartbeatBody_eq pkt reserve
  have hwhole : pkt.softwareVersion.take maxHeartbeatSoftwareVersionSize = pkt.softwareVersion :=
    List.take_of_length_le hversion
  have hwritten : versionWritten pkt (marshalHead pkt).length reserve = pkt.softwareVersion := by
    unfold versionWritten
    simp only [hwhole]
    rw [if_pos (by omega)]
  rw [hwritten] at hfits hbody
  have hkept : kept = [] := by
    by_contra hkept
    have := hfits.room hkept
    omega
  subst hkept
  rw [hbody, if_neg]
  · simp
  · simp only [List.flatMap_nil, List.length_append, List.length_cons, List.length_nil]
    omega

/-! ## Authenticated frames round-trip -/

theorem tailReserve_le (authKey : Bytes) (epoch : UInt64) :
    tailReserve authKey epoch ≤ heartbeatEpochSectionSize + heartbeatAuthTrailerSize := by
  unfold tailReserve
  split_ifs <;> omega

/-- A 4-byte magic decides whether what follows it is read as a section. -/
theorem noSection_append {head : Bytes} (hlong : 4 ≤ head.length) (h : NoSection head) (rest : Bytes) :
    NoSection (head ++ rest) := by
  unfold NoSection at *
  rw [show heartbeatEchoMagic.length = 4 from rfl, show heartbeatClockMagic.length = 4 from rfl] at *
  rwa [List.take_append_of_le_length hlong]

section

variable (hmac : Bytes → Bytes → Vector UInt8 32)

theorem length_heartbeatEpochMarker (authKey : Bytes) :
    (heartbeatEpochMarker hmac authKey).length = heartbeatEpochMarkerSize := by
  simp [heartbeatEpochMarker, heartbeatEpochMarkerSize]

/-- An authenticated frame is its body and a tail of the reserved size, which begins with
the marker of the key or with the authentication magic. -/
theorem marshalHeartbeatAuthEpoch_eq (pkt : HeartbeatPacket) (authKey : Bytes) (session counter epoch : UInt64) :
    ∃ tail, marshalHeartbeatAuthEpoch hmac pkt authKey session counter epoch
        = marshalHeartbeatBody pkt (tailReserve authKey epoch) ++ tail
      ∧ tail.length = tailReserve authKey epoch
      ∧ ((authKey ≠ [] → epoch ≠ 0 → NoSection (heartbeatEpochMarker hmac authKey)) → NoSection tail) := by
  unfold marshalHeartbeatAuthEpoch
  by_cases hkey : authKey = []
  · refine ⟨[], ?_, ?_, fun _ => ⟨by decide, by decide⟩⟩
    · simp only [hkey, if_true, List.append_nil]
    · simp only [tailReserve, hkey, if_true, List.length_nil]
  simp only [if_neg hkey, List.append_assoc]
  have hmagic : NoSection heartbeatAuthMagic := ⟨by decide, by decide⟩
  have hmagicLength : heartbeatAuthMagic.length = 4 := rfl
  refine ⟨_, rfl, ?_, ?_⟩
  · by_cases hepoch : epoch = 0 <;>
      simp [tailReserve, hkey, hepoch, hmagicLength, length_heartbeatEpochMarker, heartbeatEpochSectionSize,
        heartbeatEpochMarkerSize, heartbeatAuthTrailerSize]
  · intro hmarker
    by_cases hepoch : epoch = 0
    · simp only [hepoch, ne_eq, not_true_eq_false, if_false, List.nil_append]
      exact noSection_append (Nat.le_of_eq hmagicLength.symm) hmagic _
    · simp only [hepoch, ne_eq, not_false_eq_true, if_true, List.append_assoc]
      exact noSection_append (by rw [length_heartbeatEpochMarker]; decide) (hmarker hkey hepoch) _

/-- The codec round-trips at every tail that an authenticated sender reserves, and the
frame that is sent, tail included, stays within the largest size. A receiver reads the
frame with its tail, where the marker of the key must not spell the magic of a section. -/
theorem heartbeat_roundTrip (pkt : HeartbeatPacket) (hgroups : pkt.groups.length ≤ maxHeartbeatGroups)
    (authKey : Bytes) (session counter epoch : UInt64) :
    (VersionFits pkt (tailReserve authKey epoch) →
        ∃ p, unmarshalHeartbeat (marshalHeartbeatBody pkt (tailReserve authKey epoch)) = .ok p ∧ Received pkt p)
      ∧ (VersionFits pkt (tailReserve authKey epoch) →
        (authKey ≠ [] → epoch ≠ 0 → NoSection (heartbeatEpochMarker hmac authKey)) →
        ∃ p, unmarshalHeartbeat (marshalHeartbeatAuthEpoch hmac pkt authKey session counter epoch) = .ok p
          ∧ Received pkt p)
      ∧ (marshalHeartbeatAuthEpoch hmac pkt authKey session counter epoch).length ≤ maxHeartbeatSize := by
  obtain ⟨tail, hframe, htail, hnoSection⟩ := marshalHeartbeatAuthEpoch_eq hmac pkt authKey session counter epoch
  have hreserve := tailReserve_le authKey epoch
  refine ⟨fun hversion => ?_, fun hversion hmarker => ?_, ?_⟩
  · have hbody := unmarshalHeartbeat_marshalHeartbeatBody pkt _ [] hgroups hreserve hversion ⟨by decide, by decide⟩
    rwa [List.append_nil] at hbody
  · rw [hframe]
    exact unmarshalHeartbeat_marshalHeartbeatBody pkt _ tail hgroups hreserve hversion (hnoSection hmarker)
  · rw [hframe, List.length_append, htail]
    exact length_marshalHeartbeatBody pkt _ hreserve

end

/-- HMAC-SHA256 under the key "k", of the epoch label and of one frame. -/
def sampleHmac (_ message : Bytes) : Vector UInt8 32 :=
  if message = bytes "xpf-ha-boot-epoch-v1" then
    #v[181, 234, 181, 150, 183, 84, 193, 193, 138, 239, 253, 140, 19, 239, 79, 141,
      116, 193, 89, 180, 215, 146, 196, 193, 142, 36, 204, 249, 158, 35, 99, 51]
  else
    #v[128, 225, 192, 54, 124, 3, 5, 36, 23, 159, 171, 2, 125, 119, 122, 175,
      241, 14, 220, 46, 17, 196, 212, 191, 183, 119, 124, 182, 200, 142, 244, 195]

def sample : HeartbeatPacket where
  nodeID := 1
  clusterID := 2
  groups := [⟨1, 200, 255, 1⟩]
  monitors := [⟨1, 255, true, bytes "ge0"⟩]
  softwareVersion := bytes "1.0"
  haProtocolVersion := 1
  heartbeatSession := 3
  heartbeatSequence := 4
  peerHeartbeatSession := 5
  peerHeartbeatSequence := 6
  wallClockUnixNano := 9

theorem heartbeat_roundTrip_sample :
    ∃ p, unmarshalHeartbeat (marshalHeartbeatAuthEpoch sampleHmac sample (bytes "k") 10 11 7) = .ok p
      ∧ Received sample p :=
  (heartbeat_roundTrip sampleHmac sample (by decide) (bytes "k") 10 11 7).2.1
    ⟨by decide +kernel, .inr (by decide +kernel)⟩ fun _ _ => ⟨by decide +kernel, by decide +kernel⟩

/-- A monitor with a name of 256 bytes before another one, and no HA version. -/
def longName : HeartbeatPacket :=
  { sample with monitors := [⟨1, 255, true, List.replicate 256 97⟩, ⟨1, 255, true, bytes "ge0"⟩], haProtocolVersion := 0 }

/-- The long name is passed over and the monitor behind it is sent, so what arrives is no
beginning of the list; and the missing HA version arrives as the legacy one. -/
theorem longName_received :
    unmarshalHeartbeat (marshalHeartbeat longName) = .ok sample
      ∧ ¬ sample.monitors <+: longName.monitors
      ∧ sample.haProtocolVersion ≠ longName.haProtocolVersion := by
  refine ⟨by decide +kernel, by decide +kernel, by decide +kernel⟩

end Xpf.HeartbeatWire
