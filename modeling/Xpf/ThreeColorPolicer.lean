/-
The three-color policer: `userspace-dp/src/filter/policer.rs` and its runtime in
`filter/mod.rs`.

Two token buckets, refilled by the time that has passed and drawn on by each packet, decide
a packet's color, and the color's treatment whether it is dropped or its DSCP rewritten.
The source packs both buckets in one word and updates it with compare-and-swap loops under
a gate; here a call is one step and the word is the pair it stands for. Every quantity is
below `2 ^ 64` and the products are taken in 128 bits, so nothing wraps but the statistics.
-/
import Mathlib

set_option autoImplicit false

namespace Xpf.ThreeColorPolicer

/-- `PacketColor`. -/
inductive PacketColor where
  | green
  | yellow
  | red
deriving DecidableEq

/-- `ThreeColorMode`. -/
inductive ThreeColorMode where
  | singleRate
  | twoRate
  | unsupported
deriving DecidableEq

/-- `ColorTreatment`. -/
structure ColorTreatment where
  dscpRewrite : Option UInt8
  drop : Bool
deriving DecidableEq

/-- `ThreeColorTreatments`. -/
structure ThreeColorTreatments where
  green : ColorTreatment
  yellow : ColorTreatment
  red : ColorTreatment
deriving DecidableEq

/-- `treatment_for`. -/
def ThreeColorTreatments.treatmentFor (t : ThreeColorTreatments) : PacketColor → ColorTreatment
  | .green => t.green
  | .yellow => t.yellow
  | .red => t.red

/-- `ThreeColorDecision`. -/
structure ThreeColorDecision where
  color : PacketColor
  dscpRewrite : Option UInt8
  drop : Bool
deriving DecidableEq

/-- `ThreeColorPolicerConfig`. -/
structure ThreeColorPolicerConfig where
  mode : ThreeColorMode
  colorBlind : Bool
  committedRateBytesPerSec : ℕ
  committedBurstBytes : ℕ
  peakOrExcessRateBytesPerSec : ℕ
  peakOrExcessBurstBytes : ℕ
  treatments : ThreeColorTreatments
deriving DecidableEq

def tokenByteCap : ℕ := 2 ^ 32 - 1
def uninitializedNs : ℕ := 2 ^ 64 - 1
def nanosPerSec : ℕ := 1000000000

/-- `ThreeColorPolicerState`: the configuration, the tokens of the two buckets, and when
each was last refilled. -/
structure ThreeColorPolicerState where
  config : ThreeColorPolicerConfig
  committed : ℕ
  peak : ℕ
  committedLastRefillNs : ℕ
  peakLastRefillNs : ℕ
deriving DecidableEq

/-- `PolicerConfigError`. -/
inductive PolicerConfigError where
  | zeroRate
  | zeroBurst
  | peakRateBelowCommittedRate
  | peakBurstBelowCommittedBurst
deriving DecidableEq

/-- `clamp_burst`: a bucket is half of a 64-bit word. -/
def clampBurst (bytes : ℕ) : ℕ := min bytes tokenByteCap

/-- `ThreeColorPolicerHot::new` under a configuration: full buckets, clocks not yet set. -/
def ThreeColorPolicerState.new (config : ThreeColorPolicerConfig) : ThreeColorPolicerState :=
  ⟨config, config.committedBurstBytes, config.peakOrExcessBurstBytes, uninitializedNs, uninitializedNs⟩

/-- `fail_closed`. -/
def ThreeColorPolicerState.failClosed (colorBlind : Bool) : ThreeColorPolicerState :=
  .new ⟨.unsupported, colorBlind, 0, 0, 0, 0, ⟨⟨none, false⟩, ⟨none, false⟩, ⟨none, false⟩⟩⟩

/-- `sr_tcm_with_treatments`. -/
def ThreeColorPolicerState.srTcmWithTreatments
    (committedRateBytesPerSec committedBurstBytes excessBurstBytes : ℕ) (colorBlind : Bool)
    (treatments : ThreeColorTreatments) : Except PolicerConfigError ThreeColorPolicerState :=
  if committedRateBytesPerSec = 0 then .error .zeroRate
  else if committedBurstBytes = 0 || excessBurstBytes = 0 then .error .zeroBurst
  else .ok (.new ⟨.singleRate, colorBlind, committedRateBytesPerSec, clampBurst committedBurstBytes,
    0, clampBurst excessBurstBytes, treatments⟩)

/-- `tr_tcm_with_treatments`. -/
def ThreeColorPolicerState.trTcmWithTreatments
    (committedRateBytesPerSec committedBurstBytes peakRateBytesPerSec peakBurstBytes : ℕ) (colorBlind : Bool)
    (treatments : ThreeColorTreatments) : Except PolicerConfigError ThreeColorPolicerState :=
  if committedRateBytesPerSec = 0 || peakRateBytesPerSec = 0 then .error .zeroRate
  else if committedBurstBytes = 0 || peakBurstBytes = 0 then .error .zeroBurst
  else if peakRateBytesPerSec < committedRateBytesPerSec then .error .peakRateBelowCommittedRate
  else if peakBurstBytes < committedBurstBytes then .error .peakBurstBelowCommittedBurst
  else .ok (.new ⟨.twoRate, colorBlind, committedRateBytesPerSec, clampBurst committedBurstBytes,
    peakRateBytesPerSec, clampBurst peakBurstBytes, treatments⟩)

/-- `fresh_instance`. -/
def ThreeColorPolicerState.freshInstance (s : ThreeColorPolicerState) : ThreeColorPolicerState := .new s.config

/-- `compute_refill_add`: the bytes earned, and the time up to which they are. -/
def computeRefillAdd (rateBytesPerSec lastNs nowNs : ℕ) : Option (ℕ × ℕ) :=
  if nowNs ≤ lastNs || rateBytesPerSec = 0 then none
  else
    let scaled := (nowNs - lastNs) * rateBytesPerSec
    let addedFull := scaled / nanosPerSec
    if addedFull = 0 then none
    else
      let leftoverNs := (scaled - addedFull * nanosPerSec) / rateBytesPerSec
      some (min addedFull tokenByteCap, nowNs - leftoverNs)

namespace ThreeColorPolicerState

variable (s : ThreeColorPolicerState)

/-- `refill_sr_tcm`: what the committed bucket cannot hold goes to the other. -/
def refillSrTcm (nowNs : ℕ) : ThreeColorPolicerState :=
  if s.committedLastRefillNs = uninitializedNs then { s with committedLastRefillNs := nowNs }
  else
    match computeRefillAdd s.config.committedRateBytesPerSec s.committedLastRefillNs nowNs with
    | none => s
    | some (added, advanceTo) =>
      let committedAdd := min added (s.config.committedBurstBytes - s.committed)
      let excessAdd := added - committedAdd
      { s with
        committed := s.committed + committedAdd
        peak := s.peak + min excessAdd (s.config.peakOrExcessBurstBytes - s.peak)
        committedLastRefillNs := advanceTo }

/-- `refill_independent_bucket` for the committed bucket. -/
def refillCommitted (nowNs : ℕ) : ThreeColorPolicerState :=
  if s.committedLastRefillNs = uninitializedNs then { s with committedLastRefillNs := nowNs }
  else
    match computeRefillAdd s.config.committedRateBytesPerSec s.committedLastRefillNs nowNs with
    | none => s
    | some (added, advanceTo) =>
      { s with
        committed := s.committed + min added (s.config.committedBurstBytes - s.committed)
        committedLastRefillNs := advanceTo }

/-- `refill_independent_bucket` for the peak bucket. -/
def refillPeak (nowNs : ℕ) : ThreeColorPolicerState :=
  if s.peakLastRefillNs = uninitializedNs then { s with peakLastRefillNs := nowNs }
  else
    match computeRefillAdd s.config.peakOrExcessRateBytesPerSec s.peakLastRefillNs nowNs with
    | none => s
    | some (added, advanceTo) =>
      { s with
        peak := s.peak + min added (s.config.peakOrExcessBurstBytes - s.peak)
        peakLastRefillNs := advanceTo }

/-- `refill`. -/
def refill (nowNs : ℕ) : ThreeColorPolicerState :=
  match s.config.mode with
  | .singleRate => s.refillSrTcm nowNs
  | .twoRate => (s.refillCommitted nowNs).refillPeak nowNs
  | .unsupported => s

/-- `consume`. -/
def consume (cost : ℕ) (incomingColor : PacketColor) : PacketColor × ThreeColorPolicerState :=
  match s.config.mode with
  | .singleRate =>
    if incomingColor = .green && cost ≤ s.committed then (.green, { s with committed := s.committed - cost })
    else if incomingColor ≠ .red && cost ≤ s.peak then (.yellow, { s with peak := s.peak - cost })
    else (.red, s)
  | .twoRate =>
    if incomingColor = .green && cost ≤ s.peak && cost ≤ s.committed then
      (.green, { s with committed := s.committed - cost, peak := s.peak - cost })
    else if incomingColor ≠ .red && cost ≤ s.peak then (.yellow, { s with peak := s.peak - cost })
    else (.red, s)
  | .unsupported => (.red, s)

/-- `ThreeColorPolicerState::meter`. -/
def meter (nowNs packetBytes : ℕ) (incomingColor : PacketColor) : ThreeColorDecision × ThreeColorPolicerState :=
  if s.config.mode = .unsupported then (⟨.red, none, true⟩, s)
  else
    let effectiveIncomingColor := if s.config.colorBlind then .green else incomingColor
    let (color, s) := (s.refill nowNs).consume packetBytes effectiveIncomingColor
    let treatment := s.config.treatments.treatmentFor color
    (⟨color, treatment.dscpRewrite, treatment.drop⟩, s)

/-- Neither bucket holds more than its burst. -/
def Within : Prop := s.committed ≤ s.config.committedBurstBytes ∧ s.peak ≤ s.config.peakOrExcessBurstBytes

end ThreeColorPolicerState

open ThreeColorPolicerState

/-! ## The buckets stay within their bursts -/

section

variable {s : ThreeColorPolicerState}

theorem within_refillSrTcm (h : s.Within) (nowNs : ℕ) : (s.refillSrTcm nowNs).Within := by
  obtain ⟨hcommitted, hpeak⟩ := h
  unfold refillSrTcm
  split
  · exact ⟨hcommitted, hpeak⟩
  · split
    · exact ⟨hcommitted, hpeak⟩
    · refine ⟨?_, ?_⟩ <;> dsimp only <;> omega

theorem within_refillCommitted (h : s.Within) (nowNs : ℕ) : (s.refillCommitted nowNs).Within := by
  obtain ⟨hcommitted, hpeak⟩ := h
  unfold refillCommitted
  split
  · exact ⟨hcommitted, hpeak⟩
  · split
    · exact ⟨hcommitted, hpeak⟩
    · refine ⟨?_, hpeak⟩
      dsimp only
      omega

theorem within_refillPeak (h : s.Within) (nowNs : ℕ) : (s.refillPeak nowNs).Within := by
  obtain ⟨hcommitted, hpeak⟩ := h
  unfold refillPeak
  split
  · exact ⟨hcommitted, hpeak⟩
  · split
    · exact ⟨hcommitted, hpeak⟩
    · refine ⟨hcommitted, ?_⟩
      dsimp only
      omega

theorem within_refill (h : s.Within) (nowNs : ℕ) : (s.refill nowNs).Within := by
  unfold refill
  split
  · exact within_refillSrTcm h nowNs
  · exact within_refillPeak (within_refillCommitted h nowNs) nowNs
  · exact h

theorem within_consume (h : s.Within) (cost : ℕ) (incomingColor : PacketColor) :
    (s.consume cost incomingColor).2.Within := by
  obtain ⟨hcommitted, hpeak⟩ := h
  unfold consume
  split
  · split_ifs
    · exact ⟨Nat.le_trans (Nat.sub_le _ _) hcommitted, hpeak⟩
    · exact ⟨hcommitted, Nat.le_trans (Nat.sub_le _ _) hpeak⟩
    · exact ⟨hcommitted, hpeak⟩
  · split_ifs
    · exact ⟨Nat.le_trans (Nat.sub_le _ _) hcommitted, Nat.le_trans (Nat.sub_le _ _) hpeak⟩
    · exact ⟨hcommitted, Nat.le_trans (Nat.sub_le _ _) hpeak⟩
    · exact ⟨hcommitted, hpeak⟩
  · exact ⟨hcommitted, hpeak⟩

/-- A packet that is metered leaves both buckets within their bursts. -/
theorem within_meter (h : s.Within) (nowNs packetBytes : ℕ) (incomingColor : PacketColor) :
    (s.meter nowNs packetBytes incomingColor).2.Within := by
  unfold meter
  split
  · exact h
  · exact within_consume (within_refill h nowNs) packetBytes _

end

/-! ## The runtime -/

/-- `ThreeColorPolicerCounter`. -/
structure ThreeColorPolicerCounter where
  packets : UInt64
  bytes : UInt64
deriving DecidableEq

def ThreeColorPolicerCounter.record (c : ThreeColorPolicerCounter) (packetBytes : ℕ) : ThreeColorPolicerCounter :=
  ⟨c.packets + 1, c.bytes + UInt64.ofNat packetBytes⟩

/-- `ThreeColorPolicerCounters`. -/
structure ThreeColorPolicerCounters where
  green : ThreeColorPolicerCounter
  yellow : ThreeColorPolicerCounter
  red : ThreeColorPolicerCounter
  drop : ThreeColorPolicerCounter
deriving DecidableEq

/-- The color's statistics and, of a packet that is dropped, those of the drops. -/
def ThreeColorPolicerCounters.record (c : ThreeColorPolicerCounters) (decision : ThreeColorDecision) (packetBytes : ℕ) :
    ThreeColorPolicerCounters :=
  let c := match decision.color with
    | .green => { c with green := c.green.record packetBytes }
    | .yellow => { c with yellow := c.yellow.record packetBytes }
    | .red => { c with red := c.red.record packetBytes }
  if decision.drop then { c with drop := c.drop.record packetBytes } else c

/-- `ThreeColorPolicerRuntime`; it is referred to by its id. -/
structure ThreeColorPolicerRuntime where
  state : ThreeColorPolicerState
  counters : ThreeColorPolicerCounters
deriving DecidableEq

/-- `ThreeColorPolicerRuntime::meter`. -/
def ThreeColorPolicerRuntime.meter (r : ThreeColorPolicerRuntime) (nowNs packetBytes : ℕ) (incomingColor : PacketColor) :
    ThreeColorDecision × ThreeColorPolicerRuntime :=
  let (decision, state) := r.state.meter nowNs packetBytes incomingColor
  (decision, ⟨state, r.counters.record decision packetBytes⟩)

end Xpf.ThreeColorPolicer
