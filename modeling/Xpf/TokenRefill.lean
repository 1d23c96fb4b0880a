/-
Whether the refills of token buckets lose credit: the policer's, and
`refill_cos_tokens` of `userspace-dp/src/afxdp/cos/token_bucket.rs`.

Both grant whole bytes and set the bucket's clock back by the time that the rest is worth, so
that over many calls the bytes granted are those that the whole time is worth. That time is
rounded down to nanoseconds, and with most rates a part of each rest is lost. The file finds
the rates with which nothing is, over every sequence of calls in which the bucket does not
fill: those that divide 10^9, and those that are multiples of it for as long as a grant fits
its 64 bits.
-/
import Xpf.PolicerRuns

set_option autoImplicit false

namespace Xpf.TokenRefill

open Xpf.Accrual Xpf.ThreeColorPolicer Xpf.ThreeColorPolicer.ThreeColorPolicerState

/-! ## The policer -/

/-- A bucket of the policer that is refilled by a clock of its own. -/
inductive Bucket where
  | committed
  | peak
deriving DecidableEq

namespace Bucket

def tokens : Bucket → ThreeColorPolicerState → ℕ
  | .committed, s => s.committed
  | .peak, s => s.peak

def clock : Bucket → ThreeColorPolicerState → ℕ
  | .committed, s => s.committedLastRefillNs
  | .peak, s => s.peakLastRefillNs

def rate : Bucket → ThreeColorPolicerConfig → ℕ
  | .committed, config => config.committedRateBytesPerSec
  | .peak, config => config.peakOrExcessRateBytesPerSec

def burst : Bucket → ThreeColorPolicerConfig → ℕ
  | .committed, config => config.committedBurstBytes
  | .peak, config => config.peakOrExcessBurstBytes

/-- With a single rate the excess bucket has no clock: it takes what overflows. -/
def Clocked (b : Bucket) (config : ThreeColorPolicerConfig) : Prop := b = .committed ∨ config.mode = .twoRate

/-- The tokens that the refills of a sequence of packets add to the bucket. -/
def granted (b : Bucket) : ThreeColorPolicerState → List Packet → ℕ
  | _, [] => 0
  | s, p :: packets => (b.tokens (s.refill p.nowNs) - b.tokens s) + granted b (s.meterPacket p).2 packets

/-- No refill of the sequence brings the bucket to its burst. -/
def NeverFills (b : Bucket) : ThreeColorPolicerState → List Packet → Prop
  | _, [] => True
  | s, p :: packets =>
    b.tokens (s.refill p.nowNs) < b.burst s.config ∧ NeverFills b (s.meterPacket p).2 packets

end Bucket

/-- The readings of a sequence of packets. -/
def times (packets : List Packet) : List ℕ := packets.map (·.nowNs)

/-- The policer loses no credit at the rate: from the first packet on, which sets the clocks, the
tokens granted to a bucket with that rate are those that the whole time is worth, for all
increasing readings during which the bucket never fills. -/
def PolicerExact (rate : ℕ) : Prop :=
  ∀ (s : ThreeColorPolicerState) (b : Bucket) (first : Packet) (packets : List Packet),
    Built s → b.Clocked s.config → b.rate s.config = rate →
    (first.nowNs :: times packets).IsChain (· < ·) → (∀ t ∈ first.nowNs :: times packets, t < 2 ^ 64) →
    b.NeverFills (s.meterPacket first).2 packets →
    b.granted (s.meterPacket first).2 packets
      = (lastTime first.nowNs (times packets) - first.nowNs) * rate / nanosPerSec

/-! ## The queues -/

/-- `refill_cos_tokens`: the tokens and the time of the last refill, before and after. -/
def refillCosTokens (tokens rateBytesPerSec burstBytes lastRefillNs nowNs : ℕ) : ℕ × ℕ :=
  if burstBytes = 0 then (tokens, lastRefillNs)
  else if lastRefillNs = 0 then (burstBytes, nowNs)
  else if nowNs ≤ lastRefillNs || rateBytesPerSec = 0 then (tokens, lastRefillNs)
  else
    let scaled := (nowNs - lastRefillNs) * rateBytesPerSec
    -- `as u64`
    let added := scaled / 1000000000 % 2 ^ 64
    if added = 0 then (tokens, lastRefillNs)
    else
      let remainder := scaled - added * 1000000000
      let leftoverNs := remainder / rateBytesPerSec % 2 ^ 64
      (min (min (tokens + added) (2 ^ 64 - 1)) burstBytes, nowNs - leftoverNs)

/-- A call of the refill, and the tokens taken before the next one. -/
structure Call where
  nowNs : ℕ
  taken : ℕ
deriving DecidableEq

def callTimes (calls : List Call) : List ℕ := calls.map (·.nowNs)

/-- The tokens that a sequence of refills adds. -/
def cosGranted (rate burst : ℕ) : ℕ → ℕ → List Call → ℕ
  | _, _, [] => 0
  | tokens, last, c :: calls =>
    let (tokens', last') := refillCosTokens tokens rate burst last c.nowNs
    (tokens' - tokens) + cosGranted rate burst (tokens' - c.taken) last' calls

/-- No refill of the sequence brings the tokens to the burst. -/
def CosNeverFills (rate burst : ℕ) : ℕ → ℕ → List Call → Prop
  | _, _, [] => True
  | tokens, last, c :: calls =>
    let (tokens', last') := refillCosTokens tokens rate burst last c.nowNs
    tokens' < burst ∧ CosNeverFills rate burst (tokens' - c.taken) last' calls

/-- The refill of a queue loses no credit at the rate, from a clock at `start` on, for all
increasing times of which `limit` holds and during which the tokens never reach the burst. -/
def CosExact (limit : ℕ → Prop) (rate : ℕ) : Prop :=
  ∀ (burst tokens start : ℕ) (calls : List Call), burst < 2 ^ 64 →
    (start :: callTimes calls).IsChain (· < ·) → (∀ t ∈ start :: callTimes calls, t < 2 ^ 64) →
    limit (lastTime start (callTimes calls) - start) →
    CosNeverFills rate burst tokens start calls →
    cosGranted rate burst tokens start calls
      = (lastTime start (callTimes calls) - start) * rate / nanosPerSec

/-! ## A bucket of the policer that never fills -/

section

variable {s : ThreeColorPolicerState} {b : Bucket} {now : ℕ}

/-- The bytes earned by a settlement, when they do not fill a bucket, are added in full. -/
theorem added_of_room {rate last now tokens burst : ℕ} (hburst : burst ≤ tokenByteCap)
    {added advanceTo : ℕ} (h : computeRefillAdd rate last now = some (added, advanceTo))
    (hroom : tokens + min added (burst - tokens) < burst) :
    min added (burst - tokens) = (settle rate nanosPerSec last now).1
      ∧ advanceTo = (settle rate nanosPerSec last now).2 := by
  rw [computeRefillAdd_eq] at h
  split at h
  · cases h
  · rw [Option.some.injEq, Prod.mk.injEq] at h
    obtain ⟨hadded, hadvance⟩ := h
    refine ⟨?_, hadvance.symm⟩
    generalize (settle rate nanosPerSec last now).1 = due at hadded ⊢
    omega

theorem settle_of_none {rate last now : ℕ} (h : computeRefillAdd rate last now = none) :
    settle rate nanosPerSec last now = (0, last) := by
  rcases settle_cases rate nanosPerSec last now with ⟨-, hs⟩ | ⟨hdue, hs⟩
  · exact hs
  · rw [computeRefillAdd_eq, hs, if_neg (Nat.ne_of_gt hdue)] at h
    cases h

theorem refillCommitted_of_room (hset : s.committedLastRefillNs ≠ uninitializedNs)
    (hburst : s.config.committedBurstBytes ≤ tokenByteCap)
    (hroom : (s.refillCommitted now).committed < s.config.committedBurstBytes) :
    (s.refillCommitted now).committed
        = s.committed + (settle s.config.committedRateBytesPerSec nanosPerSec s.committedLastRefillNs now).1
      ∧ (s.refillCommitted now).committedLastRefillNs
        = (settle s.config.committedRateBytesPerSec nanosPerSec s.committedLastRefillNs now).2 := by
  rw [refillCommitted, if_neg hset] at hroom ⊢
  split
  · next hnone =>
    rw [settle_of_none hnone]
    exact ⟨rfl, rfl⟩
  · next hsome =>
    rw [hsome] at hroom
    obtain ⟨hadded, hadvance⟩ := added_of_room hburst hsome hroom
    exact ⟨congrArg _ hadded, hadvance⟩

theorem refillPeak_of_room (hset : s.peakLastRefillNs ≠ uninitializedNs)
    (hburst : s.config.peakOrExcessBurstBytes ≤ tokenByteCap)
    (hroom : (s.refillPeak now).peak < s.config.peakOrExcessBurstBytes) :
    (s.refillPeak now).peak
        = s.peak + (settle s.config.peakOrExcessRateBytesPerSec nanosPerSec s.peakLastRefillNs now).1
      ∧ (s.refillPeak now).peakLastRefillNs
        = (settle s.config.peakOrExcessRateBytesPerSec nanosPerSec s.peakLastRefillNs now).2 := by
  rw [refillPeak, if_neg hset] at hroom ⊢
  split
  · next hnone =>
    rw [settle_of_none hnone]
    exact ⟨rfl, rfl⟩
  · next hsome =>
    rw [hsome] at hroom
    obtain ⟨hadded, hadvance⟩ := added_of_room hburst hsome hroom
    exact ⟨congrArg _ hadded, hadvance⟩

theorem refillSrTcm_of_room (hset : s.committedLastRefillNs ≠ uninitializedNs)
    (hburst : s.config.committedBurstBytes ≤ tokenByteCap)
    (hroom : (s.refillSrTcm now).committed < s.config.committedBurstBytes) :
    (s.refillSrTcm now).committed
        = s.committed + (settle s.config.committedRateBytesPerSec nanosPerSec s.committedLastRefillNs now).1
      ∧ (s.refillSrTcm now).committedLastRefillNs
        = (settle s.config.committedRateBytesPerSec nanosPerSec s.committedLastRefillNs now).2 := by
  rw [refillSrTcm, if_neg hset] at hroom ⊢
  split
  · next hnone =>
    rw [settle_of_none hnone]
    exact ⟨rfl, rfl⟩
  · next hsome =>
    rw [hsome] at hroom
    obtain ⟨hadded, hadvance⟩ := added_of_room hburst hsome hroom
    exact ⟨congrArg _ hadded, hadvance⟩

/-- A refill that does not fill the bucket is a settlement of its clock. -/
theorem refill_of_room (hmode : s.config.mode ≠ .unsupported) (hclocked : b.Clocked s.config)
    (hset : b.clock s ≠ uninitializedNs) (hburst : b.burst s.config ≤ tokenByteCap)
    (hroom : b.tokens (s.refill now) < b.burst s.config) :
    b.tokens (s.refill now) = b.tokens s + (settle (b.rate s.config) nanosPerSec (b.clock s) now).1
      ∧ b.clock (s.refill now) = (settle (b.rate s.config) nanosPerSec (b.clock s) now).2 := by
  cases hm : s.config.mode with
  | unsupported => exact absurd hm hmode
  | singleRate =>
    rcases hclocked with rfl | htwo
    · rw [refill, hm] at hroom ⊢
      exact refillSrTcm_of_room hset hburst hroom
    · rw [hm] at htwo
      cases htwo
  | twoRate =>
    rw [refill, hm] at hroom ⊢
    cases b with
    | committed =>
      obtain ⟨htokens, hclock⟩ : _ ∧ _ := @refillPeak_committed (s.refillCommitted now) now
      dsimp only [Bucket.tokens, Bucket.clock] at hroom ⊢
      rw [htokens] at hroom ⊢
      rw [hclock]
      exact refillCommitted_of_room hset hburst hroom
    | peak =>
      obtain ⟨htokens, hclock⟩ : _ ∧ _ := @refillCommitted_peak s now
      have hconfig : (s.refillCommitted now).config = s.config := refillCommitted_config
      have hspec := @refillPeak_of_room (s.refillCommitted now) now (by rwa [hclock]) (by rwa [hconfig])
        (by rwa [hconfig])
      rw [htokens, hclock, hconfig] at hspec
      exact hspec

/-- What is taken from the buckets does not move a clock. -/
theorem clock_meterPacket (p : Packet) : b.clock (s.meterPacket p).2 = b.clock (s.refill p.nowNs) := by
  rw [meterPacket, (meter_eq s p.nowNs p.bytes p.color).2]
  rcases consume_cases (s.refill p.nowNs) p.bytes (effectiveColor s p.color) with
    ⟨-, -, -, h⟩ | ⟨-, -, -, -, h⟩ | ⟨-, -, h⟩ | h <;> rw [h] <;> cases b <;> rfl

/-- Over increasing readings, by induction on them: the clock stays behind the reading before,
so it is set, and each refill is a settlement. -/
theorem granted_eq (hmode : s.config.mode ≠ .unsupported) (hclocked : b.Clocked s.config)
    (hburst : b.burst s.config ≤ tokenByteCap) {prev : ℕ} {packets : List Packet}
    (hchain : (prev :: times packets).IsChain (· < ·)) (hwide : ∀ t ∈ prev :: times packets, t < 2 ^ 64)
    (hclock : b.clock s ≤ prev) (hroom : b.NeverFills s packets) :
    b.granted s packets = (settleAll (b.rate s.config) nanosPerSec (b.clock s) (times packets)).1 := by
  induction packets generalizing s prev with
  | nil => rfl
  | cons p packets ih =>
    obtain ⟨hfirst, hrest⟩ := hroom
    rw [times, List.map_cons, ← times] at hchain hwide ⊢
    rw [List.isChain_cons_cons] at hchain
    have hnow : p.nowNs < 2 ^ 64 := hwide _ (List.mem_cons_of_mem _ List.mem_cons_self)
    have hset : b.clock s ≠ uninitializedNs := by
      rw [uninitializedNs]
      omega
    obtain ⟨htokens, hnext⟩ := refill_of_room hmode hclocked hset hburst hfirst
    have hconfig : (s.meterPacket p).2.config = s.config := meter_config ..
    have hsettled : (settle (b.rate s.config) nanosPerSec (b.clock s) p.nowNs).2 ≤ p.nowNs :=
      settle_le.trans (Nat.max_le.mpr ⟨by omega, Nat.le_refl _⟩)
    have htail := ih (s := (s.meterPacket p).2) (by rwa [hconfig]) (by rwa [hconfig]) (by rwa [hconfig])
      hchain.2 (fun t ht => hwide t (List.mem_cons_of_mem _ ht))
      (by rwa [clock_meterPacket, hnext]) hrest
    rw [clock_meterPacket, hnext, hconfig] at htail
    rw [Bucket.granted, htail, htokens, settleAll_cons]
    dsimp only
    omega

end

/-- The first packet sets the clocks of a new policer. -/
theorem clock_first {s : ThreeColorPolicerState} (hbuilt : Built s) {b : Bucket} (hmode : s.config.mode ≠ .unsupported)
    (hclocked : b.Clocked s.config) (first : Packet) : b.clock (s.meterPacket first).2 = first.nowNs := by
  have hfull := refill_new first.nowNs hmode
  rw [← hbuilt.eq_new] at hfull
  rw [clock_meterPacket]
  rcases hclocked with rfl | htwo
  · exact hfull.2.2.1
  · cases b with
    | committed => exact hfull.2.2.1
    | peak => exact hfull.2.2.2 htwo

/-- The bursts of a policer fit half a word. -/
theorem burst_le {s : ThreeColorPolicerState} (hbuilt : Built s) (b : Bucket) : b.burst s.config ≤ tokenByteCap := by
  induction hbuilt with
  | srTcm h =>
    rw [srTcmWithTreatments] at h
    split_ifs at h
    cases h
    cases b <;> exact Nat.min_le_right _ _
  | trTcm h =>
    rw [trTcmWithTreatments] at h
    split_ifs at h
    cases h
    cases b <;> exact Nat.min_le_right _ _
  | failClosed blind => cases b <;> exact Nat.zero_le _
  | freshInstance _ ih => exact ih

theorem unsupported_burst {s : ThreeColorPolicerState} (hbuilt : Built s) (hmode : s.config.mode = .unsupported)
    (b : Bucket) : b.burst s.config = 0 := by
  induction hbuilt with
  | srTcm h =>
    rw [srTcmWithTreatments] at h
    split_ifs at h
    cases h
    cases hmode
  | trTcm h =>
    rw [trTcmWithTreatments] at h
    split_ifs at h
    cases h
    cases hmode
  | failClosed blind => cases b <;> rfl
  | freshInstance _ ih => exact ih hmode

/-- From the first packet on, the tokens granted are those of the settlements. -/
theorem granted_from_first {s : ThreeColorPolicerState} {b : Bucket} (hbuilt : Built s) (hclocked : b.Clocked s.config)
    {first : Packet} {packets : List Packet} (hchain : (first.nowNs :: times packets).IsChain (· < ·))
    (hwide : ∀ t ∈ first.nowNs :: times packets, t < 2 ^ 64)
    (hroom : b.NeverFills (s.meterPacket first).2 packets) :
    b.granted (s.meterPacket first).2 packets
      = (settleAll (b.rate s.config) nanosPerSec first.nowNs (times packets)).1 := by
  have hconfig : (s.meterPacket first).2.config = s.config := meter_config ..
  by_cases hmode : s.config.mode = .unsupported
  · cases packets with
    | nil => rfl
    | cons p packets =>
      have hfull := hroom.1
      rw [hconfig, unsupported_burst hbuilt hmode] at hfull
      exact absurd hfull (Nat.not_lt_zero _)
  · have hclock := clock_first hbuilt hmode hclocked first
    rw [granted_eq (by rwa [hconfig]) (by rwa [hconfig]) (by rw [hconfig]; exact burst_le hbuilt b) hchain hwide
      hclock.le hroom, hclock, hconfig]

/-! ## The rates at which the policer loses nothing -/

theorem policerExact_of_carried {rate : ℕ} (h : rate ∣ nanosPerSec ∨ nanosPerSec ∣ rate) : PolicerExact rate := by
  intro s b first packets hbuilt hclocked hrate hchain hwide hroom
  rw [granted_from_first hbuilt hclocked hchain hwide hroom, hrate]
  exact settleAll_granted nanosPerSec_pos h hchain

/-- At the highest rates every refill fills the bucket. -/
theorem policerExact_of_large {rate : ℕ} (h : tokenByteCap * nanosPerSec ≤ rate) : PolicerExact rate := by
  intro s b first packets hbuilt hclocked hrate hchain hwide hroom
  cases packets with
  | nil =>
    rw [times, List.map_nil, lastTime, List.getLastD_nil, Nat.sub_self, Nat.zero_mul, Nat.zero_div]
    rfl
  | cons p packets =>
    exfalso
    have hconfig : (s.meterPacket first).2.config = s.config := meter_config ..
    have hmode : s.config.mode ≠ .unsupported := by
      intro hm
      have hfull := hroom.1
      rw [hconfig, unsupported_burst hbuilt hm] at hfull
      exact Nat.not_lt_zero _ hfull
    have hclock := clock_first hbuilt hmode hclocked first
    rw [times, List.map_cons, List.isChain_cons_cons] at hchain
    have hlater : first.nowNs < p.nowNs := hchain.1
    have hnow : p.nowNs < 2 ^ 64 := hwide _ (List.mem_cons_of_mem _ List.mem_cons_self)
    have hset : b.clock (s.meterPacket first).2 ≠ uninitializedNs := by
      rw [hclock, uninitializedNs]
      omega
    have hburst := burst_le hbuilt b
    obtain ⟨htokens, -⟩ := refill_of_room (by rwa [hconfig]) (by rwa [hconfig]) hset (by rwa [hconfig]) hroom.1
    have hfirst := hroom.1
    rw [htokens, hconfig, hclock, hrate, settle_granted] at hfirst
    have hdue : tokenByteCap ≤ (p.nowNs - first.nowNs) * rate / nanosPerSec := by
      rw [Nat.le_div_iff_mul_le nanosPerSec_pos]
      calc tokenByteCap * nanosPerSec ≤ 1 * rate := by rwa [Nat.one_mul]
        _ ≤ (p.nowNs - first.nowNs) * rate := Nat.mul_le_mul_right _ (by omega)
    omega

/-- A policer that a first packet of the whole burst leaves without committed tokens. -/
def lossyConfig (rate : ℕ) : ThreeColorPolicerConfig :=
  ⟨.singleRate, true, rate, tokenByteCap, 0, 1, ⟨⟨none, false⟩, ⟨none, false⟩, ⟨none, true⟩⟩⟩

def drained (rate clock : ℕ) : ThreeColorPolicerState :=
  ⟨lossyConfig rate, 0, 1, clock, uninitializedNs⟩

/-- Packets one step apart, each of the bytes that a step grants. -/
def pacedPackets (step grant start count : ℕ) : List Packet :=
  (paced step start count).map fun t => ⟨t, grant, .green⟩

theorem times_pacedPackets (step grant start count : ℕ) :
    times (pacedPackets step grant start count) = paced step start count := by
  rw [times, pacedPackets, List.map_map]
  exact List.map_id _

theorem lossyConfig_built {rate : ℕ} (hpos : 0 < rate) : Built (new (lossyConfig rate)) := by
  have hcap : clampBurst tokenByteCap = tokenByteCap := Nat.min_self _
  have hone : clampBurst 1 = 1 := by decide
  have hne : tokenByteCap ≠ 0 := by decide
  have hnew : srTcmWithTreatments rate tokenByteCap 1 true (lossyConfig rate).treatments
      = .ok (new (lossyConfig rate)) := by
    rw [srTcmWithTreatments, if_neg (Nat.ne_of_gt hpos), if_neg (by simp [hne]), hcap, hone]
    rfl
  exact .srTcm hnew

theorem meterPacket_drains (rate : ℕ) :
    ((new (lossyConfig rate)).meterPacket ⟨0, tokenByteCap, .green⟩).2 = drained rate 0 := by
  have hrefill : (new (lossyConfig rate)).refill 0 = ⟨lossyConfig rate, tokenByteCap, 1, 0, uninitializedNs⟩ := rfl
  rw [meterPacket, (meter_eq _ _ _ _).2, hrefill]
  simp [consume, lossyConfig, effectiveColor, new, drained]

section

variable {rate clock : ℕ} (hcarried : ¬(rate ∣ nanosPerSec ∨ nanosPerSec ∣ rate))
  (hsmall : rate < tokenByteCap * nanosPerSec)

include hcarried hsmall

theorem refill_drained :
    (drained rate clock).refill (clock + lossyStep rate nanosPerSec)
      = ⟨lossyConfig rate, lossyGrant rate nanosPerSec, 1, clock + lossyStep rate nanosPerSec, uninitializedNs⟩
      ∨ clock = uninitializedNs := by
  by_cases hset : clock = uninitializedNs
  · exact .inr hset
  · left
    have hgrant := (lossyStep_rest nanosPerSec_pos hcarried).1
    have hlt := lossyGrant_lt nanosPerSec_pos hcarried (show 1 < tokenByteCap by decide) hsmall
    have hadd : computeRefillAdd rate clock (clock + lossyStep rate nanosPerSec)
        = some (lossyGrant rate nanosPerSec, clock + lossyStep rate nanosPerSec) := by
      rw [computeRefillAdd_eq, settle_lossy nanosPerSec_pos hcarried, if_neg (Nat.ne_of_gt hgrant),
        Nat.min_eq_left hlt.le]
    have hmin : min (lossyGrant rate nanosPerSec) tokenByteCap = lossyGrant rate nanosPerSec :=
      Nat.min_eq_left hlt.le
    simp [refill, refillSrTcm, drained, lossyConfig, hset, hadd, hmin]

/-- The packet takes what its refill granted. -/
theorem meterPacket_drained (hset : clock ≠ uninitializedNs) :
    ((drained rate clock).meterPacket
        ⟨clock + lossyStep rate nanosPerSec, lossyGrant rate nanosPerSec, .green⟩).2
      = drained rate (clock + lossyStep rate nanosPerSec) := by
  have hrefill := (refill_drained hcarried hsmall).resolve_right hset
  rw [meterPacket, (meter_eq _ _ _ _).2, hrefill]
  simp [consume, lossyConfig, effectiveColor, drained]

/-- By induction on the number of steps: each grants the same, and the bucket is far from full. -/
theorem granted_drained {count : ℕ} (hwide : clock + count * lossyStep rate nanosPerSec < uninitializedNs) :
    Bucket.granted .committed (drained rate clock)
        (pacedPackets (lossyStep rate nanosPerSec) (lossyGrant rate nanosPerSec) clock count)
          = count * lossyGrant rate nanosPerSec
      ∧ Bucket.NeverFills .committed (drained rate clock)
        (pacedPackets (lossyStep rate nanosPerSec) (lossyGrant rate nanosPerSec) clock count) := by
  induction count generalizing clock with
  | zero => exact ⟨(Nat.zero_mul _).symm, trivial⟩
  | succ count ih =>
    rw [Nat.succ_mul] at hwide
    have hset : clock ≠ uninitializedNs := by omega
    have hrefill := (refill_drained hcarried hsmall).resolve_right hset
    have hnext := meterPacket_drained hcarried hsmall hset
    obtain ⟨hgranted, hroom⟩ := @ih (clock + lossyStep rate nanosPerSec) (by omega)
    rw [pacedPackets, paced, List.map_cons, ← pacedPackets, Bucket.granted, Bucket.NeverFills, hrefill, hnext,
      hgranted]
    refine ⟨?_, lossyGrant_lt nanosPerSec_pos hcarried (show 1 < tokenByteCap by decide) hsmall, hroom⟩
    rw [Nat.succ_mul, Nat.add_comm]
    rfl

theorem not_policerExact : ¬ PolicerExact rate := by
  intro hexact
  have hpos : 0 < rate := by
    apply Nat.pos_of_ne_zero
    intro hzero
    exact hcarried (.inr (hzero ▸ Nat.dvd_zero _))
  have hle := lossyStep_le rate nanosPerSec
  have hwide : 0 + nanosPerSec * lossyStep rate nanosPerSec < uninitializedNs := by
    calc 0 + nanosPerSec * lossyStep rate nanosPerSec ≤ nanosPerSec * (nanosPerSec + 1) := by
          rw [Nat.zero_add]
          exact Nat.mul_le_mul_left _ hle
      _ < uninitializedNs := by decide
  obtain ⟨hgranted, hroom⟩ := granted_drained hcarried hsmall hwide
  have h := hexact _ .committed ⟨0, tokenByteCap, .green⟩
    (pacedPackets (lossyStep rate nanosPerSec) (lossyGrant rate nanosPerSec) 0 nanosPerSec)
    (lossyConfig_built hpos) (.inl rfl) rfl
  rw [times_pacedPackets, meterPacket_drains, hgranted, lastTime_paced, Nat.zero_add, Nat.sub_zero] at h
  have hshort := lossy_short nanosPerSec_pos hcarried
  refine Nat.lt_irrefl _ (hshort.trans_eq (h (isChain_paced (lossyStep_pos _ _) _ _) ?_ hroom).symm)
  intro t ht
  rcases List.mem_cons.mp ht with rfl | ht
  · decide
  · have htime := mem_paced_le ht
    rw [uninitializedNs] at hwide
    omega

end

/-- The policer loses no credit exactly at the rates that divide 10^9, at their multiples, and
at those so high that every refill fills the bucket. -/
theorem policerExact_iff (rate : ℕ) :
    PolicerExact rate
      ↔ rate ∣ nanosPerSec ∨ nanosPerSec ∣ rate ∨ tokenByteCap * nanosPerSec ≤ rate := by
  refine ⟨fun hexact => ?_, ?_⟩
  · by_contra hnone
    rw [← or_assoc, not_or, Nat.not_le] at hnone
    exact not_policerExact hnone.1 hnone.2 hexact
  · rintro (h | h | h)
    · exact policerExact_of_carried (.inl h)
    · exact policerExact_of_carried (.inr h)
    · exact policerExact_of_large h

/-! ## A queue that never fills -/

section

variable {rate burst tokens last now : ℕ}

/-- A refill that does not fill the bucket, and whose grant fits 64 bits, is a settlement. -/
theorem refillCosTokens_of_room (hburst : burst < 2 ^ 64) (hfits : (now - last) * rate / nanosPerSec < 2 ^ 64)
    (hnow : now < 2 ^ 64) (hroom : (refillCosTokens tokens rate burst last now).1 < burst) :
    refillCosTokens tokens rate burst last now
      = (tokens + (settle rate nanosPerSec last now).1, (settle rate nanosPerSec last now).2) := by
  have hsettle := settle_cases rate nanosPerSec last now
  have hcarried := carried_le rate nanosPerSec (now - last)
  have hrest : (now - last) * rate - (now - last) * rate / nanosPerSec * nanosPerSec
      = (now - last) * rate % nanosPerSec := by rw [Nat.mod_eq_sub_div_mul]
  have hidle : (now - last) * rate = 0 → settle rate nanosPerSec last now = (0, last) := by
    intro hzero
    rw [settle, hzero, Nat.zero_div]
    rfl
  rw [refillCosTokens, show (1000000000 : ℕ) = nanosPerSec from rfl] at hroom ⊢
  by_cases hzero : burst = 0
  · rw [if_pos hzero] at hroom
    omega
  rw [if_neg hzero] at hroom ⊢
  by_cases hlast : last = 0
  · rw [if_pos hlast] at hroom
    exact absurd hroom (Nat.lt_irrefl _)
  rw [if_neg hlast] at hroom ⊢
  by_cases hstopped : (decide (now ≤ last) || decide (rate = 0)) = true
  · rw [if_pos hstopped]
    rw [Bool.or_eq_true, decide_eq_true_eq, decide_eq_true_eq] at hstopped
    rw [hidle]
    · rfl
    · rcases hstopped with hback | hzero
      · rw [Nat.sub_eq_zero_of_le hback, Nat.zero_mul]
      · rw [hzero, Nat.mul_zero]
  rw [if_neg hstopped] at hroom ⊢
  dsimp only at hroom ⊢
  rw [Nat.mod_eq_of_lt hfits, hrest] at hroom ⊢
  rw [Nat.mod_eq_of_lt (show (now - last) * rate % nanosPerSec / rate < 2 ^ 64 by omega)] at hroom ⊢
  rcases hsettle with ⟨hnone, hs⟩ | ⟨hdue, hs⟩
  · rw [if_pos hnone, hs]
    rfl
  · rw [if_neg (Nat.ne_of_gt hdue)] at hroom ⊢
    rw [hs]
    dsimp only at hroom ⊢
    congr 1
    omega

theorem cosNeverFills_cons (c : Call) (calls : List Call) :
    CosNeverFills rate burst tokens last (c :: calls)
      ↔ (refillCosTokens tokens rate burst last c.nowNs).1 < burst
        ∧ CosNeverFills rate burst ((refillCosTokens tokens rate burst last c.nowNs).1 - c.taken)
          (refillCosTokens tokens rate burst last c.nowNs).2 calls := Iff.rfl

theorem cosGranted_cons (c : Call) (calls : List Call) :
    cosGranted rate burst tokens last (c :: calls)
      = ((refillCosTokens tokens rate burst last c.nowNs).1 - tokens)
        + cosGranted rate burst ((refillCosTokens tokens rate burst last c.nowNs).1 - c.taken)
          (refillCosTokens tokens rate burst last c.nowNs).2 calls := rfl

/-- Over increasing times, by induction on them: each refill is a settlement. -/
theorem cosGranted_eq (hburst : burst < 2 ^ 64) {prev : ℕ} {calls : List Call}
    (hchain : (prev :: callTimes calls).IsChain (· < ·)) (hwide : ∀ t ∈ prev :: callTimes calls, t < 2 ^ 64)
    (hlast : last ≤ prev) (hfits : (lastTime prev (callTimes calls) - last) * rate / nanosPerSec < 2 ^ 64)
    (hroom : CosNeverFills rate burst tokens last calls) :
    cosGranted rate burst tokens last calls = (settleAll rate nanosPerSec last (callTimes calls)).1 := by
  induction calls generalizing tokens last prev with
  | nil => rfl
  | cons c calls ih =>
    obtain ⟨hfirst, hrest⟩ := (cosNeverFills_cons c calls).mp hroom
    rw [callTimes, List.map_cons, ← callTimes] at hchain hwide hfits ⊢
    rw [List.isChain_cons_cons] at hchain
    rw [lastTime_cons] at hfits
    have hend := le_lastTime hchain.2
    have hnow : c.nowNs < 2 ^ 64 := hwide _ (List.mem_cons_of_mem _ List.mem_cons_self)
    have hdue : (c.nowNs - last) * rate / nanosPerSec < 2 ^ 64 := by
      refine (Nat.div_le_div_right (Nat.mul_le_mul_right _ ?_)).trans_lt hfits
      omega
    have hstep := refillCosTokens_of_room hburst hdue hnow hfirst
    have hforward : last ≤ (settle rate nanosPerSec last c.nowNs).2 := le_settle
    have hsettled : (settle rate nanosPerSec last c.nowNs).2 ≤ c.nowNs :=
      settle_le.trans (Nat.max_le.mpr ⟨by omega, Nat.le_refl _⟩)
    rw [hstep] at hrest
    have htail := ih hchain.2 (fun t ht => hwide t (List.mem_cons_of_mem _ ht)) hsettled
      ((Nat.div_le_div_right (Nat.mul_le_mul_right _ (by omega))).trans_lt hfits) hrest
    rw [cosGranted_cons, hstep, settleAll_cons]
    dsimp only
    rw [htail]
    omega

end

/-- A span whose whole credit fits 64 bits. -/
def Fits (rate elapsed : ℕ) : Prop := elapsed * rate / nanosPerSec < 2 ^ 64

theorem cosExact_of_carried {rate : ℕ} (h : rate ∣ nanosPerSec ∨ nanosPerSec ∣ rate) :
    CosExact (Fits rate) rate := by
  intro burst tokens start calls hburst hchain hwide hfits hroom
  rw [cosGranted_eq hburst hchain hwide (Nat.le_refl _) hfits hroom]
  exact settleAll_granted nanosPerSec_pos h hchain

/-- At a rate that divides 10^9 every span has its whole credit in 64 bits. -/
theorem fits_of_dvd {rate elapsed : ℕ} (h : rate ∣ nanosPerSec ∨ rate = 0) (hwide : elapsed < 2 ^ 64) :
    Fits rate elapsed := by
  have hle : rate ≤ nanosPerSec := by
    rcases h with hdvd | hzero
    · exact Nat.le_of_dvd nanosPerSec_pos hdvd
    · rw [hzero]
      exact Nat.zero_le _
  calc elapsed * rate / nanosPerSec ≤ elapsed * nanosPerSec / nanosPerSec :=
        Nat.div_le_div_right (Nat.mul_le_mul_left _ hle)
    _ = elapsed := Nat.mul_div_cancel _ nanosPerSec_pos
    _ < 2 ^ 64 := hwide

theorem lastTime_lt {start : ℕ} {ts : List ℕ} (hwide : ∀ t ∈ start :: ts, t < 2 ^ 64) :
    lastTime start ts < 2 ^ 64 := by
  induction ts generalizing start with
  | nil => exact hwide start List.mem_cons_self
  | cons t ts ih =>
    rw [lastTime_cons]
    exact ih fun u hu => hwide u (List.mem_cons_of_mem _ hu)

theorem cosExact_of_dvd {rate : ℕ} (h : rate ∣ nanosPerSec ∨ rate = 0) : CosExact (fun _ => True) rate := by
  intro burst tokens start calls hburst hchain hwide _ hroom
  have hcarried : rate ∣ nanosPerSec ∨ nanosPerSec ∣ rate := by
    rcases h with hdvd | hzero
    · exact .inl hdvd
    · exact .inr (hzero ▸ Nat.dvd_zero _)
  have hspan : lastTime start (callTimes calls) - start < 2 ^ 64 :=
    Nat.lt_of_le_of_lt (Nat.sub_le _ _) (lastTime_lt hwide)
  exact cosExact_of_carried hcarried burst tokens start calls hburst hchain hwide (fits_of_dvd h hspan) hroom

/-! ## The rates at which the queues lose nothing -/

/-- Calls one step apart, each followed by the taking of what a step grants. -/
def pacedCalls (step grant start count : ℕ) : List Call := (paced step start count).map fun t => ⟨t, grant⟩

theorem callTimes_pacedCalls (step grant start count : ℕ) :
    callTimes (pacedCalls step grant start count) = paced step start count := by
  rw [callTimes, pacedCalls, List.map_map]
  exact List.map_id _

section

variable {rate : ℕ} (hcarried : ¬(rate ∣ nanosPerSec ∨ nanosPerSec ∣ rate)) (hrate : rate < 2 ^ 64)

include hcarried hrate

/-- A lossy step, from an empty bucket with the largest burst. -/
theorem refillCosTokens_lossy {last : ℕ} (hlast : 0 < last) :
    refillCosTokens 0 rate (2 ^ 64 - 1) last (last + lossyStep rate nanosPerSec)
      = (lossyGrant rate nanosPerSec, last + lossyStep rate nanosPerSec) := by
  obtain ⟨hgrant, hleft, -⟩ := lossyStep_rest nanosPerSec_pos hcarried
  have hstep := lossyStep_pos rate nanosPerSec
  have hlt : lossyGrant rate nanosPerSec < 2 ^ 64 - 1 := by
    apply lossyGrant_lt nanosPerSec_pos hcarried (by omega)
    rw [nanosPerSec]
    omega
  have hpos : rate ≠ 0 := fun hzero => hcarried (.inr (hzero ▸ Nat.dvd_zero _))
  have hrest : lossyStep rate nanosPerSec * rate - lossyGrant rate nanosPerSec * nanosPerSec
      = lossyStep rate nanosPerSec * rate % nanosPerSec := by rw [lossyGrant, Nat.mod_eq_sub_div_mul]
  have hneither : ¬(decide (last + lossyStep rate nanosPerSec ≤ last) || decide (rate = 0)) = true := by
    rw [Bool.or_eq_true, decide_eq_true_eq, decide_eq_true_eq]
    omega
  rw [refillCosTokens, show (1000000000 : ℕ) = nanosPerSec from rfl, if_neg (by omega), if_neg (by omega),
    if_neg hneither, Nat.add_sub_cancel_left]
  dsimp only
  rw [← lossyGrant, Nat.mod_eq_of_lt (show lossyGrant rate nanosPerSec < 2 ^ 64 by omega),
    if_neg (Nat.ne_of_gt hgrant), hrest, hleft, Nat.zero_mod, Nat.sub_zero, Nat.zero_add]
  congr 1
  omega

/-- By induction on the number of steps: each grants the same, and the bucket is far from full. -/
theorem cosGranted_lossy {last : ℕ} (hlast : 0 < last) (count : ℕ) :
    cosGranted rate (2 ^ 64 - 1) 0 last
        (pacedCalls (lossyStep rate nanosPerSec) (lossyGrant rate nanosPerSec) last count)
          = count * lossyGrant rate nanosPerSec
      ∧ CosNeverFills rate (2 ^ 64 - 1) 0 last
        (pacedCalls (lossyStep rate nanosPerSec) (lossyGrant rate nanosPerSec) last count) := by
  induction count generalizing last with
  | zero => exact ⟨(Nat.zero_mul _).symm, trivial⟩
  | succ count ih =>
    have hlt : lossyGrant rate nanosPerSec < 2 ^ 64 - 1 := by
      apply lossyGrant_lt nanosPerSec_pos hcarried (by omega)
      rw [nanosPerSec]
      omega
    obtain ⟨hgranted, hroom⟩ := @ih (last + lossyStep rate nanosPerSec) (by omega)
    have hrefill := refillCosTokens_lossy hcarried hrate hlast
    rw [pacedCalls, paced, List.map_cons, ← pacedCalls, cosNeverFills_cons, cosGranted_cons, hrefill]
    dsimp only
    rw [Nat.sub_self, hgranted]
    refine ⟨?_, hlt, hroom⟩
    rw [Nat.succ_mul, Nat.add_comm, Nat.sub_zero]

/-- The lossy steps make a span whose whole credit fits 64 bits. -/
theorem not_cosExact {limit : ℕ → Prop} (hlimit : ∀ elapsed, Fits rate elapsed → limit elapsed) :
    ¬ CosExact limit rate := by
  intro hexact
  have hle := lossyStep_le rate nanosPerSec
  have hend : 1 + nanosPerSec * lossyStep rate nanosPerSec < 2 ^ 64 := by
    calc 1 + nanosPerSec * lossyStep rate nanosPerSec ≤ 1 + nanosPerSec * (nanosPerSec + 1) :=
          Nat.add_le_add_left (Nat.mul_le_mul_left _ hle) _
      _ < 2 ^ 64 := by decide
  obtain ⟨hgranted, hroom⟩ := cosGranted_lossy hcarried hrate Nat.one_pos nanosPerSec
  have h := hexact (2 ^ 64 - 1) 0 1
    (pacedCalls (lossyStep rate nanosPerSec) (lossyGrant rate nanosPerSec) 1 nanosPerSec) (by omega)
  rw [callTimes_pacedCalls, hgranted, lastTime_paced, Nat.add_sub_cancel_left] at h
  have hfits : Fits rate (nanosPerSec * lossyStep rate nanosPerSec) := by
    rw [Fits, Nat.mul_assoc, Nat.mul_div_cancel_left _ nanosPerSec_pos]
    rcases lossyStep_worth hcarried with hworth | hworth
    · rw [nanosPerSec] at hworth ⊢
      omega
    · rwa [hworth]
  have hshort := lossy_short nanosPerSec_pos hcarried
  refine Nat.lt_irrefl _ (hshort.trans_eq
    (h (isChain_paced (lossyStep_pos _ _) _ _) ?_ (hlimit _ hfits) hroom).symm)
  intro t ht
  rcases List.mem_cons.mp ht with rfl | ht
  · decide
  · have htime := mem_paced_le ht
    omega

end

/-- A grant of more than 64 bits is cut to them. -/
theorem refillCosTokens_cut {rate steps last due : ℕ} (hlast : 0 < last) (hdue : steps * rate / nanosPerSec = due)
    (hover : 2 ^ 64 < due) (hcut : due - 2 ^ 64 < 2 ^ 64 - 1) :
    (refillCosTokens 0 rate (2 ^ 64 - 1) last (last + steps)).1 = due - 2 ^ 64 := by
  have hlater : ¬(decide (last + steps ≤ last) || decide (rate = 0)) = true := by
    intro hstopped
    have hzero : steps * rate = 0 := by
      rw [Bool.or_eq_true, decide_eq_true_eq, decide_eq_true_eq] at hstopped
      rcases hstopped with hback | hzero
      · rw [show steps = 0 by omega, Nat.zero_mul]
      · rw [hzero, Nat.mul_zero]
    rw [hzero, Nat.zero_div] at hdue
    omega
  have hadded : due % 2 ^ 64 = due - 2 ^ 64 := by omega
  rw [refillCosTokens, show (1000000000 : ℕ) = nanosPerSec from rfl, if_neg (by omega), if_neg (by omega),
    if_neg hlater, Nat.add_sub_cancel_left]
  dsimp only
  rw [hdue, hadded, if_neg (by omega)]
  dsimp only
  omega

/-- At a multiple of 10^9 above it, a long enough span has its grant cut to 64 bits. -/
theorem not_cosExact_of_multiple {rate factor : ℕ} (hrate : rate = factor * nanosPerSec) (hfactor : 1 < factor)
    (hwide : rate < 2 ^ 64) : ¬ CosExact (fun _ => True) rate := by
  intro hexact
  have hsmall : factor < 2 ^ 63 := by
    rw [hrate, nanosPerSec] at hwide
    omega
  have hpos : 0 < factor := by omega
  -- one nanosecond more than 2^64 bytes take
  obtain ⟨steps, hsteps, hover, hcut⟩ :
      ∃ steps, steps ≤ 2 ^ 63 + 1 ∧ 2 ^ 64 < steps * factor ∧ steps * factor - 2 ^ 64 < 2 ^ 64 - 1 := by
    have hdiv := Nat.div_add_mod' (2 ^ 64) factor
    have hmod := Nat.mod_lt (2 ^ 64) hpos
    have hsteps : 2 ^ 64 / factor ≤ 2 ^ 63 := by
      rw [Nat.div_le_iff_le_mul_add_pred hpos]
      omega
    refine ⟨2 ^ 64 / factor + 1, Nat.succ_le_succ hsteps, ?_, ?_⟩ <;> rw [Nat.add_mul, Nat.one_mul] <;> omega
  have hdue : steps * rate / nanosPerSec = steps * factor := by
    rw [hrate, ← Nat.mul_assoc, Nat.mul_div_cancel _ nanosPerSec_pos]
  have hpositive : 0 < steps := by
    apply Nat.pos_of_ne_zero
    intro hzero
    rw [hzero, Nat.zero_mul] at hover
    exact Nat.not_lt_zero _ hover
  have hrefill := refillCosTokens_cut Nat.one_pos hdue hover hcut
  have hchain : (1 :: callTimes [⟨1 + steps, 0⟩]).IsChain (· < ·) :=
    List.isChain_pair.mpr (Nat.lt_add_of_pos_right hpositive)
  have htimes : ∀ t ∈ 1 :: callTimes [⟨1 + steps, 0⟩], t < 2 ^ 64 := by
    intro t ht
    rw [callTimes, List.map_cons, List.map_nil, List.mem_cons, List.mem_singleton] at ht
    dsimp only at ht
    rcases ht with rfl | rfl <;> omega
  have hroom : CosNeverFills rate (2 ^ 64 - 1) 0 1 [⟨1 + steps, 0⟩] := by
    rw [cosNeverFills_cons, hrefill]
    exact ⟨hcut, trivial⟩
  have h := hexact (2 ^ 64 - 1) 0 1 [⟨1 + steps, 0⟩] (by omega) hchain htimes trivial hroom
  rw [cosGranted_cons, hrefill, cosGranted, Nat.sub_zero, Nat.add_zero, callTimes, List.map_cons, List.map_nil,
    lastTime_cons, lastTime, List.getLastD_nil, Nat.add_sub_cancel_left, hdue] at h
  omega

/-- The refill of a queue loses no credit exactly at rate zero and at the rates that divide 10^9. -/
theorem cosExact_iff {rate : ℕ} (hrate : rate < 2 ^ 64) :
    CosExact (fun _ => True) rate ↔ rate ∣ nanosPerSec ∨ rate = 0 := by
  refine ⟨fun hexact => ?_, cosExact_of_dvd⟩
  by_contra hnone
  rw [not_or] at hnone
  by_cases hmultiple : nanosPerSec ∣ rate
  · obtain ⟨factor, hfactor⟩ := hmultiple
    rw [Nat.mul_comm] at hfactor
    have hone : 1 < factor := by
      rcases Nat.lt_or_ge 1 factor with hlt | hle
      · exact hlt
      · exfalso
        rcases Nat.le_one_iff_eq_zero_or_eq_one.mp hle with rfl | rfl
        · exact hnone.2 (by rw [hfactor, Nat.zero_mul])
        · exact hnone.1 (by rewrite [hfactor, Nat.one_mul]; exact Nat.dvd_refl _)
    exact not_cosExact_of_multiple hfactor hone hrate hexact
  · exact not_cosExact (by rw [not_or]; exact ⟨hnone.1, hmultiple⟩) hrate (fun _ _ => trivial) hexact

/-- While the whole credit fits 64 bits, also at the multiples of 10^9. -/
theorem cosExact_fits_iff {rate : ℕ} (hrate : rate < 2 ^ 64) :
    CosExact (Fits rate) rate ↔ rate ∣ nanosPerSec ∨ nanosPerSec ∣ rate := by
  refine ⟨fun hexact => ?_, cosExact_of_carried⟩
  by_contra hnone
  exact not_cosExact hnone hrate (fun _ h => h) hexact

/-- Exactly at which rates the tokens granted over every sequence of calls are those that the
whole time is worth, for the policer, for the queues, and for the queues while the credit fits
64 bits. -/
theorem refill_exact_iff {rate : ℕ} (hrate : rate < 2 ^ 64) :
    (PolicerExact rate ↔ rate ∣ nanosPerSec ∨ nanosPerSec ∣ rate ∨ tokenByteCap * nanosPerSec ≤ rate)
      ∧ (CosExact (fun _ => True) rate ↔ rate ∣ nanosPerSec ∨ rate = 0)
      ∧ (CosExact (Fits rate) rate ↔ rate ∣ nanosPerSec ∨ nanosPerSec ∣ rate) :=
  ⟨policerExact_iff rate, cosExact_iff hrate, cosExact_fits_iff hrate⟩

/-- 64 kbit/s. -/
theorem refill_exact_iff_eightThousand : PolicerExact 8000 ∧ CosExact (fun _ => True) 8000 := by
  obtain ⟨hpolicer, hcos, -⟩ := @refill_exact_iff 8000 (by omega)
  have hdvd : 8000 ∣ nanosPerSec := ⟨125000, by decide⟩
  exact ⟨hpolicer.mpr (.inl hdvd), hcos.mpr (.inl hdvd)⟩

/-- Three bytes in two nanoseconds: two calls a nanosecond apart grant one byte each, and the
half byte that each leaves is worth no whole nanosecond. -/
theorem threeHalves_loses :
    ¬ PolicerExact 1500000000 ∧ ¬ CosExact (fun _ => True) 1500000000 := by
  refine ⟨fun hexact => ?_, fun hexact => ?_⟩
  · have h := hexact (new (lossyConfig 1500000000)) .committed ⟨0, tokenByteCap, .green⟩
      [⟨1, 0, .green⟩, ⟨2, 0, .green⟩] (lossyConfig_built (by omega)) (.inl rfl) rfl (by decide)
      (by intro t ht; simp [times] at ht; omega) ⟨by decide +kernel, by decide +kernel, trivial⟩
    revert h
    decide +kernel
  · have h := hexact 1000 0 1 [⟨2, 0⟩, ⟨3, 0⟩] (by omega) (by decide)
      (by intro t ht; simp [callTimes] at ht; omega) trivial ⟨by decide +kernel, by decide +kernel, trivial⟩
    revert h
    decide +kernel

end Xpf.TokenRefill
