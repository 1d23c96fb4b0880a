/-
What a three-color policer lets through over a whole sequence of packets.

The bound on the bytes that leave green, or green and yellow, is an account of the tokens: a
refill adds no more than the advance of the bucket's clock is worth, and a packet takes from
the bucket what it is counted for. So tokens and bytes together, less what the clock's
advance is worth, never grow, whatever the order of the readings.
-/
import Xpf.Accrual
import Xpf.Runs
import Xpf.ThreeColorPolicer

set_option autoImplicit false

namespace Xpf.ThreeColorPolicer

open Xpf.Accrual Xpf.Runs ThreeColorPolicerState

/-- One call of `meter`. -/
structure Packet where
  nowNs : ℕ
  bytes : ℕ
  color : PacketColor
deriving DecidableEq

/-- A policer as the code makes one. -/
inductive Built : ThreeColorPolicerState → Prop
  | srTcm {rate burst excess : ℕ} {blind : Bool} {treatments : ThreeColorTreatments} {s : ThreeColorPolicerState} :
    srTcmWithTreatments rate burst excess blind treatments = .ok s → Built s
  | trTcm {rate burst peakRate peakBurst : ℕ} {blind : Bool} {treatments : ThreeColorTreatments}
      {s : ThreeColorPolicerState} :
    trTcmWithTreatments rate burst peakRate peakBurst blind treatments = .ok s → Built s
  | failClosed (blind : Bool) : Built (.failClosed blind)
  | freshInstance {s : ThreeColorPolicerState} : Built s → Built s.freshInstance

namespace ThreeColorPolicerState

variable (s : ThreeColorPolicerState)

def meterPacket (p : Packet) : ThreeColorDecision × ThreeColorPolicerState := s.meter p.nowNs p.bytes p.color

/-- The policer after a sequence of packets. -/
def after (packets : List Packet) : ThreeColorPolicerState := run (fun s p => (s.meterPacket p).2) s packets

/-- The bytes of the packets whose outgoing color is counted. -/
def bytesOf (counts : PacketColor → Bool) : ThreeColorPolicerState → List Packet → ℕ
  | _, [] => 0
  | s, p :: packets =>
    (if counts (s.meterPacket p).1.color then p.bytes else 0) + bytesOf counts (s.meterPacket p).2 packets

end ThreeColorPolicerState

def isGreen (color : PacketColor) : Bool := color = .green

def isGreenOrYellow (color : PacketColor) : Bool := color ≠ .red

/-- The largest reading of the sequence. -/
def latest (packets : List Packet) : ℕ := packets.foldr (fun p m => max p.nowNs m) 0

/-- The largest reading less the first. -/
def span : List Packet → ℕ
  | [] => 0
  | p :: packets => latest (p :: packets) - p.nowNs

/-- Green is better than yellow, and yellow than red. -/
def PacketColor.rank : PacketColor → ℕ
  | .green => 0
  | .yellow => 1
  | .red => 2

theorem le_latest {packets : List Packet} {p : Packet} (h : p ∈ packets) : p.nowNs ≤ latest packets := by
  induction packets with
  | nil => exact absurd h List.not_mem_nil
  | cons q packets ih =>
    rw [latest, List.foldr_cons]
    rcases List.mem_cons.mp h with rfl | h
    · exact Nat.le_max_left _ _
    · exact (ih h).trans (Nat.le_max_right _ _)

theorem latest_lt {packets : List Packet} (hreal : ∀ p ∈ packets, p.nowNs < uninitializedNs) :
    latest packets < uninitializedNs := by
  induction packets with
  | nil =>
    rw [latest, List.foldr_nil, uninitializedNs]
    omega
  | cons p packets ih =>
    rw [latest, List.foldr_cons]
    exact Nat.max_lt.mpr
      ⟨hreal p List.mem_cons_self, ih fun q hq => hreal q (List.mem_cons_of_mem _ hq)⟩

/-! ## The refills -/

theorem nanosPerSec_pos : 0 < nanosPerSec := by
  rw [nanosPerSec]
  omega

/-- The bytes earned are those that a settlement of the bucket's clock grants. -/
theorem computeRefillAdd_eq (rate last now : ℕ) :
    computeRefillAdd rate last now
      = if (settle rate nanosPerSec last now).1 = 0 then none
        else some (min (settle rate nanosPerSec last now).1 tokenByteCap, (settle rate nanosPerSec last now).2) := by
  rw [computeRefillAdd]
  rcases settle_cases rate nanosPerSec last now with ⟨hnone, h⟩ | ⟨hdue, h⟩
  · rw [h, if_pos rfl]
    split
    · rfl
    · exact if_pos hnone
  · have hneither : ¬(decide (now ≤ last) || decide (rate = 0)) = true := by
      intro hstopped
      rw [Bool.or_eq_true, decide_eq_true_eq, decide_eq_true_eq] at hstopped
      rcases hstopped with hback | hzero
      · rw [Nat.sub_eq_zero_of_le hback, Nat.zero_mul, Nat.zero_div] at hdue
        exact Nat.lt_irrefl _ hdue
      · rw [hzero, Nat.mul_zero, Nat.zero_div] at hdue
        exact Nat.lt_irrefl _ hdue
    have hrest : (now - last) * rate - (now - last) * rate / nanosPerSec * nanosPerSec
        = (now - last) * rate % nanosPerSec := by
      rw [Nat.mod_eq_sub_div_mul]
    rw [h, if_neg hneither, if_neg (Nat.ne_of_gt hdue)]
    dsimp only
    rw [if_neg (Nat.ne_of_gt hdue), hrest]

/-- A reading no later than the clock earns nothing. -/
theorem computeRefillAdd_of_le {rate last now : ℕ} (h : now ≤ last) : computeRefillAdd rate last now = none := by
  rw [computeRefillAdd, decide_eq_true h, Bool.true_or, if_pos rfl]

/-- Tokens go up by no more than the clock's advance is worth, and the clock goes on, but not
past the reading. -/
structure Paid (rate now level clock level' clock' : ℕ) : Prop where
  level : level' * nanosPerSec + clock * rate ≤ level * nanosPerSec + clock' * rate
  forward : clock ≤ clock'
  bounded : clock' ≤ max clock now

theorem Paid.none (rate now level clock : ℕ) : Paid rate now level clock level clock :=
  ⟨Nat.le_refl _, Nat.le_refl _, Nat.le_max_left _ _⟩

/-- Whatever part of the bytes earned is added, they are paid for. -/
theorem Paid.added {rate last now added advanceTo : ℕ} (h : computeRefillAdd rate last now = some (added, advanceTo))
    {part : ℕ} (hpart : part ≤ added) (level : ℕ) : Paid rate now level last (level + part) advanceTo := by
  rw [computeRefillAdd_eq] at h
  split at h
  · cases h
  · rw [Option.some.injEq, Prod.mk.injEq] at h
    obtain ⟨hadded, hadvance⟩ := h
    have hle : part * nanosPerSec ≤ (settle rate nanosPerSec last now).1 * nanosPerSec :=
      Nat.mul_le_mul_right _ (hpart.trans (hadded ▸ Nat.min_le_left _ _))
    have hearned : (settle rate nanosPerSec last now).1 * nanosPerSec + last * rate
        ≤ (settle rate nanosPerSec last now).2 * rate := settle_earned
    refine ⟨?_, hadvance ▸ le_settle, hadvance ▸ settle_le⟩
    rw [← hadvance, Nat.add_mul]
    omega

section

variable {s : ThreeColorPolicerState} {now : ℕ}

theorem refillCommitted_paid (hset : s.committedLastRefillNs ≠ uninitializedNs) :
    Paid s.config.committedRateBytesPerSec now s.committed s.committedLastRefillNs
      (s.refillCommitted now).committed (s.refillCommitted now).committedLastRefillNs := by
  rw [refillCommitted, if_neg hset]
  split
  · exact .none _ _ _ _
  · next hadd => exact .added hadd (Nat.min_le_left _ _) _

theorem refillPeak_paid (hset : s.peakLastRefillNs ≠ uninitializedNs) :
    Paid s.config.peakOrExcessRateBytesPerSec now s.peak s.peakLastRefillNs
      (s.refillPeak now).peak (s.refillPeak now).peakLastRefillNs := by
  rw [refillPeak, if_neg hset]
  split
  · exact .none _ _ _ _
  · next hadd => exact .added hadd (Nat.min_le_left _ _) _

theorem refillSrTcm_paid (hset : s.committedLastRefillNs ≠ uninitializedNs) :
    Paid s.config.committedRateBytesPerSec now s.committed s.committedLastRefillNs
      (s.refillSrTcm now).committed (s.refillSrTcm now).committedLastRefillNs := by
  rw [refillSrTcm, if_neg hset]
  split
  · exact .none _ _ _ _
  · next hadd => exact .added hadd (Nat.min_le_left _ _) _

/-- What overflows the committed bucket is credited once. -/
theorem refillSrTcm_paid_both (hset : s.committedLastRefillNs ≠ uninitializedNs) :
    Paid s.config.committedRateBytesPerSec now (s.committed + s.peak) s.committedLastRefillNs
      ((s.refillSrTcm now).committed + (s.refillSrTcm now).peak) (s.refillSrTcm now).committedLastRefillNs := by
  rw [refillSrTcm, if_neg hset]
  split
  · exact .none _ _ _ _
  · next added advanceTo hadd =>
    dsimp only
    have hboth : min added (s.config.committedBurstBytes - s.committed)
        + min (added - min added (s.config.committedBurstBytes - s.committed))
            (s.config.peakOrExcessBurstBytes - s.peak) ≤ added := by omega
    have hpaid := Paid.added hadd hboth (s.committed + s.peak)
    rwa [show ∀ c p d e : ℕ, c + p + (d + e) = c + d + (p + e) by omega] at hpaid

@[simp] theorem refillCommitted_config : (s.refillCommitted now).config = s.config := by
  rw [refillCommitted]
  split
  · rfl
  · split <;> rfl

@[simp] theorem refillPeak_config : (s.refillPeak now).config = s.config := by
  rw [refillPeak]
  split
  · rfl
  · split <;> rfl

@[simp] theorem refillSrTcm_config : (s.refillSrTcm now).config = s.config := by
  rw [refillSrTcm]
  split
  · rfl
  · split <;> rfl

@[simp] theorem refill_config : (s.refill now).config = s.config := by
  rw [refill]
  split
  · exact refillSrTcm_config
  · rw [refillPeak_config, refillCommitted_config]
  · rfl

/-- The two independent buckets leave each other alone. -/
theorem refillPeak_committed :
    (s.refillPeak now).committed = s.committed
      ∧ (s.refillPeak now).committedLastRefillNs = s.committedLastRefillNs := by
  rw [refillPeak]
  split
  · exact ⟨rfl, rfl⟩
  · split <;> exact ⟨rfl, rfl⟩

theorem refillCommitted_peak :
    (s.refillCommitted now).peak = s.peak ∧ (s.refillCommitted now).peakLastRefillNs = s.peakLastRefillNs := by
  rw [refillCommitted]
  split
  · exact ⟨rfl, rfl⟩
  · split <;> exact ⟨rfl, rfl⟩

end

/-! ## One packet -/

section

variable {s : ThreeColorPolicerState} {now cost : ℕ} {incoming : PacketColor}

/-- Green takes from the committed bucket and, with two rates, from the peak bucket as well;
yellow takes from the other bucket; red takes nothing. -/
theorem consume_cases (s : ThreeColorPolicerState) (cost : ℕ) (incoming : PacketColor) :
    (incoming = .green ∧ cost ≤ s.committed ∧ s.config.mode = .singleRate
        ∧ s.consume cost incoming = (.green, { s with committed := s.committed - cost }))
      ∨ (incoming = .green ∧ cost ≤ s.committed ∧ cost ≤ s.peak ∧ s.config.mode = .twoRate
        ∧ s.consume cost incoming
          = (.green, { s with committed := s.committed - cost, peak := s.peak - cost }))
      ∨ (incoming ≠ .red ∧ cost ≤ s.peak ∧ s.consume cost incoming = (.yellow, { s with peak := s.peak - cost }))
      ∨ s.consume cost incoming = (.red, s) := by
  cases hmode : s.config.mode with
  | singleRate =>
    simp only [consume, hmode, Bool.and_eq_true, decide_eq_true_eq]
    split_ifs with hgreen hyellow
    · exact .inl ⟨hgreen.1, hgreen.2, trivial, rfl⟩
    · exact .inr (.inr (.inl ⟨hyellow.1, hyellow.2, rfl⟩))
    · exact .inr (.inr (.inr rfl))
  | twoRate =>
    simp only [consume, hmode, Bool.and_eq_true, decide_eq_true_eq]
    split_ifs with hgreen hyellow
    · exact .inr (.inl ⟨hgreen.1.1, hgreen.2, hgreen.1.2, trivial, rfl⟩)
    · exact .inr (.inr (.inl ⟨hyellow.1, hyellow.2, rfl⟩))
    · exact .inr (.inr (.inr rfl))
  | unsupported =>
    simp only [consume, hmode]
    exact .inr (.inr (.inr trivial))

/-- The color a packet is metered under. -/
def effectiveColor (s : ThreeColorPolicerState) (incoming : PacketColor) : PacketColor :=
  if s.config.colorBlind then .green else incoming

/-- The color of a packet, and the policer after it, are those of the refilled policer. -/
theorem meter_eq (s : ThreeColorPolicerState) (now bytes : ℕ) (incoming : PacketColor) :
    (s.meter now bytes incoming).1.color = ((s.refill now).consume bytes (effectiveColor s incoming)).1
      ∧ (s.meter now bytes incoming).2 = ((s.refill now).consume bytes (effectiveColor s incoming)).2 := by
  by_cases hmode : s.config.mode = .unsupported
  · have hrefill : s.refill now = s := by rw [refill, hmode]
    rw [meter, if_pos hmode, hrefill, consume, hmode]
    exact ⟨rfl, rfl⟩
  · rw [meter, if_neg hmode]
    exact ⟨rfl, rfl⟩

theorem consume_config : (s.consume cost incoming).2.config = s.config := by
  rcases consume_cases s cost incoming with ⟨-, -, -, h⟩ | ⟨-, -, -, -, h⟩ | ⟨-, -, h⟩ | h <;> rw [h]

theorem meter_config (s : ThreeColorPolicerState) (now bytes : ℕ) (incoming : PacketColor) :
    (s.meter now bytes incoming).2.config = s.config := by
  rw [(meter_eq s now bytes incoming).2, consume_config, refill_config]

end

/-! ## Accounts -/

/-- A level of tokens, the clock and the rate of its refills, and the colors whose bytes are
taken from it. -/
structure Account where
  level : ThreeColorPolicerState → ℕ
  clock : ThreeColorPolicerState → ℕ
  rate : ThreeColorPolicerConfig → ℕ
  counts : PacketColor → Bool

/-- The committed bucket pays for green. -/
def committedAccount : Account where
  level s := s.committed
  clock s := s.committedLastRefillNs
  rate c := c.committedRateBytesPerSec
  counts := isGreen

/-- With a single rate, both buckets pay for green and yellow. -/
def bothAccount : Account where
  level s := s.committed + s.peak
  clock s := s.committedLastRefillNs
  rate c := c.committedRateBytesPerSec
  counts := isGreenOrYellow

/-- With two rates, the peak bucket pays for green and yellow. -/
def peakAccount : Account where
  level s := s.peak
  clock s := s.peakLastRefillNs
  rate c := c.peakOrExcessRateBytesPerSec
  counts := isGreenOrYellow

namespace Account

variable (a : Account)

/-- A refill is paid for by the clock. -/
def Refills (mode : ThreeColorMode) : Prop :=
  ∀ (s : ThreeColorPolicerState) (now : ℕ), s.config.mode = mode → a.clock s ≠ uninitializedNs →
    Paid (a.rate s.config) now (a.level s) (a.clock s) (a.level (s.refill now)) (a.clock (s.refill now))

/-- The bytes of a counted color are taken from the level, and the clock stands. -/
def Takes (mode : ThreeColorMode) : Prop :=
  ∀ (s : ThreeColorPolicerState) (cost : ℕ) (incoming : PacketColor), s.config.mode = mode →
    a.level (s.consume cost incoming).2 + (if a.counts (s.consume cost incoming).1 then cost else 0) ≤ a.level s
      ∧ a.clock (s.consume cost incoming).2 = a.clock s

variable {a} {mode : ThreeColorMode} {s : ThreeColorPolicerState}

/-- One packet: tokens and counted bytes against the advance of the clock. -/
theorem meterPacket_paid (hrefills : a.Refills mode) (htakes : a.Takes mode) (hmode : s.config.mode = mode)
    (hset : a.clock s ≠ uninitializedNs) (p : Packet) :
    Paid (a.rate s.config) p.nowNs (a.level s) (a.clock s)
      (a.level (s.meterPacket p).2 + (if a.counts (s.meterPacket p).1.color then p.bytes else 0))
      (a.clock (s.meterPacket p).2) := by
  obtain ⟨hcolor, hstate⟩ := meter_eq s p.nowNs p.bytes p.color
  obtain ⟨hlevel, hclock⟩ := htakes (s.refill p.nowNs) p.bytes (effectiveColor s p.color) (by rwa [refill_config])
  obtain ⟨hpaid, hforward, hbounded⟩ := hrefills s p.nowNs hmode hset
  rw [meterPacket, hcolor, hstate, hclock]
  refine ⟨?_, hforward, hbounded⟩
  exact (Nat.add_le_add_right (Nat.mul_le_mul_right _ hlevel) _).trans hpaid

/-- A sequence of packets, by induction on it: the counted bytes are paid for by the tokens at
its start and the time from the clock to the latest reading. -/
theorem bytesOf_le (hrefills : a.Refills mode) (htakes : a.Takes mode) (hmode : s.config.mode = mode)
    {limit : ℕ} (hlimit : limit < uninitializedNs) (hclock : a.clock s ≤ limit) {packets : List Packet}
    (htimes : ∀ p ∈ packets, p.nowNs ≤ limit) :
    s.bytesOf a.counts packets * nanosPerSec + a.clock s * a.rate s.config
      ≤ a.level s * nanosPerSec + limit * a.rate s.config := by
  induction packets generalizing s with
  | nil =>
    have hle := Nat.mul_le_mul_right (a.rate s.config) hclock
    rw [bytesOf, Nat.zero_mul]
    omega
  | cons p packets ih =>
    have hconfig : (s.meterPacket p).2.config = s.config := meter_config ..
    obtain ⟨hpaid, -, hbounded⟩ :=
      meterPacket_paid hrefills htakes hmode (Nat.ne_of_lt (Nat.lt_of_le_of_lt hclock hlimit)) p
    have hnow := htimes p List.mem_cons_self
    have hrest := ih (s := (s.meterPacket p).2) (by rw [hconfig, hmode])
      (hbounded.trans (Nat.max_le.mpr ⟨hclock, hnow⟩)) fun q hq => htimes q (List.mem_cons_of_mem _ hq)
    rw [hconfig] at hrest
    rw [bytesOf]
    rw [Nat.add_mul] at hpaid ⊢
    omega

end Account

theorem committedAccount_takes (mode : ThreeColorMode) : committedAccount.Takes mode := by
  intro s cost incoming _
  rcases consume_cases s cost incoming with ⟨-, hle, -, h⟩ | ⟨-, hle, -, -, h⟩ | ⟨-, -, h⟩ | h
  · rw [h]
    exact ⟨(Nat.sub_add_cancel hle).le, rfl⟩
  · rw [h]
    exact ⟨(Nat.sub_add_cancel hle).le, rfl⟩
  · rw [h]
    exact ⟨Nat.le_refl _, rfl⟩
  · rw [h]
    exact ⟨Nat.le_refl _, rfl⟩

theorem committedAccount_refills_singleRate : committedAccount.Refills .singleRate := by
  intro s now hmode hset
  rw [refill, hmode]
  exact refillSrTcm_paid hset

theorem committedAccount_refills_twoRate : committedAccount.Refills .twoRate := by
  intro s now hmode hset
  obtain ⟨hlevel, hclock⟩ : _ ∧ _ := @refillPeak_committed (s.refillCommitted now) now
  rw [refill, hmode]
  dsimp only [committedAccount]
  rw [hlevel, hclock]
  exact refillCommitted_paid hset

theorem bothAccount_takes : bothAccount.Takes .singleRate := by
  intro s cost incoming hmode
  rcases consume_cases s cost incoming with ⟨-, hle, -, h⟩ | ⟨-, -, -, htwo, -⟩ | ⟨-, hle, h⟩ | h
  · rw [h]
    exact ⟨show s.committed - cost + s.peak + cost ≤ s.committed + s.peak by omega, rfl⟩
  · rw [hmode] at htwo
    cases htwo
  · rw [h]
    exact ⟨show s.committed + (s.peak - cost) + cost ≤ s.committed + s.peak by omega, rfl⟩
  · rw [h]
    exact ⟨Nat.le_refl _, rfl⟩

theorem bothAccount_refills : bothAccount.Refills .singleRate := by
  intro s now hmode hset
  rw [refill, hmode]
  exact refillSrTcm_paid_both hset

theorem peakAccount_takes : peakAccount.Takes .twoRate := by
  intro s cost incoming hmode
  rcases consume_cases s cost incoming with ⟨-, -, hone, -⟩ | ⟨-, -, hle, -, h⟩ | ⟨-, hle, h⟩ | h
  · rw [hmode] at hone
    cases hone
  · rw [h]
    exact ⟨(Nat.sub_add_cancel hle).le, rfl⟩
  · rw [h]
    exact ⟨(Nat.sub_add_cancel hle).le, rfl⟩
  · rw [h]
    exact ⟨Nat.le_refl _, rfl⟩

theorem peakAccount_refills : peakAccount.Refills .twoRate := by
  intro s now hmode hset
  obtain ⟨hlevel, hclock⟩ : _ ∧ _ := @refillCommitted_peak s now
  have hpaid := @refillPeak_paid (s.refillCommitted now) now (by rwa [hclock])
  rw [refillCommitted_config, hlevel, hclock] at hpaid
  rw [refill, hmode]
  exact hpaid

/-! ## From a new policer -/

section

variable {config : ThreeColorPolicerConfig} {now : ℕ}

/-- The first reading sets the clocks in use and adds nothing. -/
theorem refill_new (now : ℕ) (hmode : config.mode ≠ .unsupported) :
    ((new config).refill now).committed = config.committedBurstBytes
      ∧ ((new config).refill now).peak = config.peakOrExcessBurstBytes
      ∧ ((new config).refill now).committedLastRefillNs = now
      ∧ (config.mode = .twoRate → ((new config).refill now).peakLastRefillNs = now) := by
  cases hm : config.mode with
  | singleRate => simp [refill, refillSrTcm, new, hm]
  | twoRate => simp [refill, refillCommitted, refillPeak, new, hm]
  | unsupported => exact absurd hm hmode

/-- The same reading again does nothing. -/
theorem refill_new_again (hmode : config.mode ≠ .unsupported) (hnow : now < uninitializedNs) :
    ((new config).refill now).refill now = (new config).refill now := by
  have hnone : ∀ rate, computeRefillAdd rate now now = none := fun _ => computeRefillAdd_of_le (Nat.le_refl _)
  have hset : now ≠ uninitializedNs := Nat.ne_of_lt hnow
  cases hm : config.mode with
  | singleRate => simp [refill, refillSrTcm, new, hm, hnone, hset]
  | twoRate => simp [refill, refillCommitted, refillPeak, new, hm, hnone, hset]
  | unsupported => exact absurd hm hmode

/-- So a new policer meters its first packet as one whose clocks are at that reading. -/
theorem meterPacket_new (hmode : config.mode ≠ .unsupported) {p : Packet} (hnow : p.nowNs < uninitializedNs) :
    (new config).meterPacket p = ((new config).refill p.nowNs).meterPacket p := by
  have hsupported : (new config).config.mode ≠ .unsupported := hmode
  rw [meterPacket, meterPacket, meter, meter, refill_config, refill_new_again hmode hnow, if_neg hsupported,
    if_neg hsupported]

theorem bytesOf_new (hmode : config.mode ≠ .unsupported) {p : Packet} (hnow : p.nowNs < uninitializedNs)
    (counts : PacketColor → Bool) (packets : List Packet) :
    (new config).bytesOf counts (p :: packets) = ((new config).refill p.nowNs).bytesOf counts (p :: packets) := by
  rw [bytesOf, bytesOf, meterPacket_new hmode hnow]

/-- The bound for an account that is full and whose clock is set at the first reading. -/
theorem Account.bytesOf_new_le {a : Account} {mode : ThreeColorMode} (hrefills : a.Refills mode) (htakes : a.Takes mode)
    (hmode : config.mode = mode) (hsupported : mode ≠ .unsupported) {burst : ℕ}
    (hlevel : ∀ now, a.level ((new config).refill now) = burst)
    (hclock : ∀ now, a.clock ((new config).refill now) = now) {packets : List Packet}
    (hreal : ∀ p ∈ packets, p.nowNs < uninitializedNs) :
    (new config).bytesOf a.counts packets ≤ burst + a.rate config * span packets / nanosPerSec := by
  cases packets with
  | nil => exact Nat.zero_le _
  | cons p packets =>
    have hnow := hreal p List.mem_cons_self
    have hfirst : p.nowNs ≤ latest (p :: packets) := le_latest List.mem_cons_self
    have hconfig : ((new config).refill p.nowNs).config = config := refill_config
    have hle := a.bytesOf_le hrefills htakes (by rw [hconfig, hmode]) (latest_lt hreal)
      ((hclock p.nowNs).le.trans hfirst) fun q hq => le_latest hq
    rw [hlevel, hclock, hconfig] at hle
    rw [bytesOf_new (by rwa [hmode]) hnow, ← Nat.mul_add_div nanosPerSec_pos, Nat.le_div_iff_mul_le nanosPerSec_pos,
      span, Nat.mul_comm nanosPerSec, Nat.mul_sub, Nat.mul_comm _ (latest _), Nat.mul_comm _ p.nowNs]
    have hspan := Nat.mul_le_mul_right (a.rate config) hfirst
    omega

end

/-! ## Conformance -/

theorem Built.eq_new {s : ThreeColorPolicerState} (h : Built s) : s = new s.config := by
  cases h with
  | srTcm h =>
    rw [srTcmWithTreatments] at h
    split_ifs at h
    cases h
    rfl
  | trTcm h =>
    rw [trTcmWithTreatments] at h
    split_ifs at h
    cases h
    rfl
  | failClosed blind => rfl
  | freshInstance h => rfl

theorem bytesOf_unsupported {s : ThreeColorPolicerState} (hmode : s.config.mode = .unsupported) (packets : List Packet) :
    s.bytesOf isGreen packets = 0 := by
  induction packets generalizing s with
  | nil => rfl
  | cons p packets ih =>
    have hstep : s.meterPacket p = (⟨.red, none, true⟩, s) := by rw [meterPacket, meter, if_pos hmode]
    rw [bytesOf, hstep]
    exact (Nat.zero_add _).trans (ih hmode)

theorem within_after {s : ThreeColorPolicerState} (h : s.Within) (packets : List Packet) : (s.after packets).Within :=
  run_invariant (P := Within) h (fun _ p hs => within_meter hs p.nowNs p.bytes p.color) packets

theorem after_config (s : ThreeColorPolicerState) (packets : List Packet) : (s.after packets).config = s.config :=
  run_invariant (P := fun t : ThreeColorPolicerState => t.config = s.config) rfl
    (fun _ p ht => (meter_config _ p.nowNs p.bytes p.color).trans ht) packets

/-- A red packet leaves the policer as its refill did. -/
theorem meter_red {s : ThreeColorPolicerState} {now bytes : ℕ} {incoming : PacketColor}
    (h : (s.meter now bytes incoming).1.color = .red) : (s.meter now bytes incoming).2 = s.refill now := by
  obtain ⟨hcolor, hstate⟩ := meter_eq s now bytes incoming
  rw [hcolor] at h
  rw [hstate]
  rcases consume_cases (s.refill now) bytes (effectiveColor s incoming) with
    ⟨-, -, -, hc⟩ | ⟨-, -, -, -, hc⟩ | ⟨-, -, hc⟩ | hc
  · rw [hc] at h
    cases h
  · rw [hc] at h
    cases h
  · rw [hc] at h
    cases h
  · rw [hc]

/-- A policer that heeds colors does not improve one. -/
theorem rank_le_meter {s : ThreeColorPolicerState} (haware : s.config.colorBlind = false) (now bytes : ℕ)
    (incoming : PacketColor) : incoming.rank ≤ (s.meter now bytes incoming).1.color.rank := by
  have heffective : effectiveColor s incoming = incoming := by
    rw [effectiveColor, haware]
    exact if_neg Bool.false_ne_true
  rw [(meter_eq s now bytes incoming).1, heffective]
  rcases consume_cases (s.refill now) bytes incoming with
    ⟨hgreen, -, -, hc⟩ | ⟨hgreen, -, -, -, hc⟩ | ⟨hred, -, hc⟩ | hc
  · rw [hc, hgreen]
  · rw [hc, hgreen]
  · rw [hc]
    cases incoming with
    | green => exact Nat.zero_le _
    | yellow => exact Nat.le_refl _
    | red => exact absurd rfl hred
  · rw [hc]
    change incoming.rank ≤ 2
    cases incoming <;> decide

/-- A policer made by the code, and packets of any lengths and in any order of readings, none
of them the reading that stands for a clock not yet set: what leaves green, and what leaves
green or yellow, is within the bursts and the rates over the span of the readings; the buckets
stay within their bursts; and whatever packet comes next, if it turns out red it takes nothing,
and unless the policer ignores colors it does not leave with a better one. -/
theorem policer_conforms {s : ThreeColorPolicerState} (hbuilt : Built s) (packets : List Packet)
    (hreal : ∀ p ∈ packets, p.nowNs < uninitializedNs) :
    s.bytesOf isGreen packets
        ≤ s.config.committedBurstBytes + s.config.committedRateBytesPerSec * span packets / nanosPerSec
      ∧ (s.config.mode = .singleRate → s.bytesOf isGreenOrYellow packets
        ≤ s.config.committedBurstBytes + s.config.peakOrExcessBurstBytes
          + s.config.committedRateBytesPerSec * span packets / nanosPerSec)
      ∧ (s.config.mode = .twoRate → s.bytesOf isGreenOrYellow packets
        ≤ s.config.peakOrExcessBurstBytes + s.config.peakOrExcessRateBytesPerSec * span packets / nanosPerSec)
      ∧ (s.after packets).Within
      ∧ ∀ (now bytes : ℕ) (incoming : PacketColor),
        (((s.after packets).meter now bytes incoming).1.color = .red →
            ((s.after packets).meter now bytes incoming).2 = (s.after packets).refill now)
          ∧ (s.config.colorBlind = false →
            incoming.rank ≤ ((s.after packets).meter now bytes incoming).1.color.rank) := by
  have hnew := hbuilt.eq_new
  generalize s.config = config at hnew
  subst hnew
  have hwithin : (new config).Within := ⟨Nat.le_refl _, Nat.le_refl _⟩
  refine ⟨?_, ?_, ?_, within_after hwithin packets, ?_⟩
  · cases hmode : config.mode with
    | singleRate =>
      have hfull := fun now => @refill_new config now (by rw [hmode]; decide)
      exact committedAccount.bytesOf_new_le committedAccount_refills_singleRate (committedAccount_takes _) hmode (by decide)
        (fun now => (hfull now).1) (fun now => (hfull now).2.2.1) hreal
    | twoRate =>
      have hfull := fun now => @refill_new config now (by rw [hmode]; decide)
      exact committedAccount.bytesOf_new_le committedAccount_refills_twoRate (committedAccount_takes _) hmode (by decide)
        (fun now => (hfull now).1) (fun now => (hfull now).2.2.1) hreal
    | unsupported =>
      rw [bytesOf_unsupported hmode]
      exact Nat.zero_le _
  · intro hmode
    have hfull := fun now => @refill_new config now (by rw [hmode]; decide)
    refine bothAccount.bytesOf_new_le bothAccount_refills bothAccount_takes hmode (by decide) ?_
      (fun now => (hfull now).2.2.1) hreal
    intro now
    dsimp only [bothAccount]
    rw [(hfull now).1, (hfull now).2.1]
  · intro hmode
    have hfull := fun now => @refill_new config now (by rw [hmode]; decide)
    exact peakAccount.bytesOf_new_le peakAccount_refills peakAccount_takes hmode (by decide)
      (fun now => (hfull now).2.1) (fun now => (hfull now).2.2.2 hmode) hreal
  · intro now bytes incoming
    have hafter : ((new config).after packets).config = config := after_config _ _
    refine ⟨meter_red, fun haware => rank_le_meter ?_ now bytes incoming⟩
    rwa [hafter]

/-- A single-rate policer of a thousand bytes a second with bursts of a thousand bytes. -/
def kilobyteConfig : ThreeColorPolicerConfig :=
  ⟨.singleRate, false, 1000, 1000, 0, 1000, ⟨⟨none, false⟩, ⟨none, false⟩, ⟨none, true⟩⟩⟩

theorem kilobyteConfig_built : Built (new kilobyteConfig) := by
  have hnew : srTcmWithTreatments 1000 1000 1000 false kilobyteConfig.treatments = .ok (new kilobyteConfig) := by
    decide +kernel
  exact .srTcm hnew

/-- Two packets, the second with an earlier reading. -/
theorem policer_conforms_kilobyte :
    (new kilobyteConfig).bytesOf isGreen [⟨700, 600, .green⟩, ⟨500, 600, .green⟩] ≤ 1000 + 1000 * 0 / 1000000000 := by
  have hreal : ∀ p ∈ [(⟨700, 600, .green⟩ : Packet), ⟨500, 600, .green⟩], p.nowNs < uninitializedNs := by
    intro p hp
    simp only [List.mem_cons, List.not_mem_nil, or_false] at hp
    rcases hp with rfl | rfl <;> decide +kernel
  exact (policer_conforms kilobyteConfig_built _ hreal).1

/-- A first reading of all ones leaves the clock unset, and the second reading sets it again:
a second later the policer has let through twice its burst in a span of zero. -/
theorem maxReading_exceeds :
    Built (new kilobyteConfig)
      ∧ span [⟨2 ^ 64 - 1, 1000, .green⟩, ⟨0, 1000, .green⟩, ⟨1000000000, 1000, .green⟩] = 0
      ∧ ¬ (new kilobyteConfig).bytesOf isGreen
          [⟨2 ^ 64 - 1, 1000, .green⟩, ⟨0, 1000, .green⟩, ⟨1000000000, 1000, .green⟩]
        ≤ 1000 + 1000 * span [⟨2 ^ 64 - 1, 1000, .green⟩, ⟨0, 1000, .green⟩, ⟨1000000000, 1000, .green⟩] / 1000000000 := by
  exact ⟨kilobyteConfig_built, by decide +kernel⟩

end Xpf.ThreeColorPolicer
