/-
The token bucket of the screen's rate limits: `userspace-dp/src/screen/rate.rs`.

Tokens are kept in units of a billionth, so that a nanosecond at `threshold` events a second
earns exactly `threshold` units. Two facts carry everything here. The bucket never holds more
than its capacity, and the time of the last refill never goes back: so a stretch of events
earns at most what its own time span is worth, whatever the clock did before
(`admitted_le`). And an event that comes one token's time after the last one finds the token
the last one took (`all_admitted`), up to the one nanosecond by which a bucket started at
time zero is late.
-/
import Mathlib

set_option autoImplicit false

namespace Xpf.ScreenRate

/-! ## The bucket -/

def u64Max : ℕ := 2 ^ 64 - 1

/-- `u64::saturating_mul`. -/
def saturatingMul (a b : ℕ) : ℕ := min (a * b) u64Max

/-- `u64::saturating_add`. -/
def saturatingAdd (a b : ℕ) : ℕ := min (a + b) u64Max

/-- Units per whole token: `ONE`. -/
def one : ℕ := 1000000000

/-- `MAX_REFILL_ELAPSED_NS`. -/
def maxRefillElapsedNs : ℕ := 1000000000

def capacityQ (threshold : UInt32) : ℕ := saturatingMul threshold.toNat one

def refillQ (elapsedNs : ℕ) (threshold : UInt32) : ℕ := saturatingMul elapsedNs threshold.toNat

structure TokenBucket where
  tokensQ : ℕ
  /-- Zero until the first use. -/
  lastRefillNs : ℕ
  deriving DecidableEq, Repr

namespace TokenBucket

/-- `TokenBucket::default`. -/
def default : TokenBucket := ⟨0, 0⟩

variable (b : TokenBucket)

def refill (nowNs : UInt64) (threshold : UInt32) : TokenBucket :=
  if b.lastRefillNs = 0 then
    -- cold start: full, and never the sentinel again
    ⟨capacityQ threshold, max nowNs.toNat 1⟩
  else
    let elapsed := min (nowNs.toNat - b.lastRefillNs) maxRefillElapsedNs
    ⟨min (saturatingAdd b.tokensQ (refillQ elapsed threshold)) (capacityQ threshold),
      max b.lastRefillNs nowNs.toNat⟩

def hasToken : Bool := decide (one ≤ b.tokensQ)

def consumeOne : TokenBucket := { b with tokensQ := b.tokensQ - one }

/-- `admit_is_over`: whether the event is over the limit, and the bucket after it. -/
def admitIsOver (nowNs : UInt64) (threshold : UInt32) : Bool × TokenBucket :=
  let b := b.refill nowNs threshold
  if b.hasToken then (false, b.consumeOne) else (true, b)

/-- The bucket after a sequence of events. -/
def after (threshold : UInt32) (times : List UInt64) : TokenBucket :=
  times.foldl (fun b nowNs => (b.admitIsOver nowNs threshold).2) b

/-- The answers to a sequence of events, `true` for an event over the limit. -/
def answers (threshold : UInt32) : TokenBucket → List UInt64 → List Bool
  | _, [] => []
  | b, nowNs :: times =>
    let (limited, b) := b.admitIsOver nowNs threshold
    limited :: answers threshold b times

/-- How many events of the sequence are admitted. -/
def admitted (threshold : UInt32) (times : List UInt64) : ℕ := (answers threshold b times).count false

end TokenBucket

/-! ## One event -/

theorem capacityQ_eq (threshold : UInt32) : capacityQ threshold = threshold.toNat * one := by
  have hlt := UInt32.toNat_lt threshold
  rw [capacityQ, saturatingMul, Nat.min_eq_left]
  simp only [one, u64Max]
  omega

/-- What one second or less earns fits the counter. -/
theorem refillQ_eq {elapsedNs : ℕ} (h : elapsedNs ≤ maxRefillElapsedNs) (threshold : UInt32) :
    refillQ elapsedNs threshold = elapsedNs * threshold.toNat := by
  have hlt := UInt32.toNat_lt threshold
  have hmul : elapsedNs * threshold.toNat ≤ maxRefillElapsedNs * threshold.toNat :=
    Nat.mul_le_mul_right _ h
  rw [refillQ, saturatingMul, Nat.min_eq_left]
  simp only [maxRefillElapsedNs, u64Max] at hmul ⊢
  omega

namespace TokenBucket

variable {threshold : UInt32} {b : TokenBucket}

/-- What a bucket holds never exceeds the capacity. -/
def Bounded (threshold : UInt32) (b : TokenBucket) : Prop := b.tokensQ ≤ capacityQ threshold

/-- A refill of a bucket in use: no step of it saturates. -/
theorem refill_warm (hwarm : b.lastRefillNs ≠ 0) (hb : Bounded threshold b) (nowNs : UInt64) :
    b.refill nowNs threshold
      = ⟨min (b.tokensQ + min (nowNs.toNat - b.lastRefillNs) maxRefillElapsedNs * threshold.toNat)
          (capacityQ threshold), max b.lastRefillNs nowNs.toNat⟩ := by
  rw [refill, if_neg hwarm]
  dsimp only
  have hle : min (nowNs.toNat - b.lastRefillNs) maxRefillElapsedNs ≤ maxRefillElapsedNs :=
    Nat.min_le_right _ _
  generalize min (nowNs.toNat - b.lastRefillNs) maxRefillElapsedNs = elapsed at hle ⊢
  have hadd : saturatingAdd b.tokensQ (elapsed * threshold.toNat)
      = b.tokensQ + elapsed * threshold.toNat := by
    have hmul := Nat.mul_le_mul_right threshold.toNat hle
    have hlt := UInt32.toNat_lt threshold
    rw [Bounded, capacityQ_eq] at hb
    rw [saturatingAdd, Nat.min_eq_left]
    simp only [maxRefillElapsedNs, one, u64Max] at hmul hb ⊢
    omega
  rw [refillQ_eq hle, hadd]

theorem refill_cold (hcold : b.lastRefillNs = 0) (nowNs : UInt64) :
    b.refill nowNs threshold = ⟨capacityQ threshold, max nowNs.toNat 1⟩ := if_pos hcold

theorem consumeOne_tokensQ (b : TokenBucket) : b.consumeOne.tokensQ = b.tokensQ - one := by
  simp only [consumeOne]

theorem consumeOne_lastRefillNs (b : TokenBucket) :
    b.consumeOne.lastRefillNs = b.lastRefillNs := by
  obtain ⟨tokensQ, lastRefillNs⟩ := b
  simp only [consumeOne]

/-- The two outcomes of an event: the token is there and taken, or the bucket is left as the
refill made it. -/
theorem admitIsOver_cases (b : TokenBucket) (threshold : UInt32) (nowNs : UInt64) :
    (one ≤ (b.refill nowNs threshold).tokensQ
        ∧ b.admitIsOver nowNs threshold = (false, (b.refill nowNs threshold).consumeOne))
      ∨ ((b.refill nowNs threshold).tokensQ < one
        ∧ b.admitIsOver nowNs threshold = (true, b.refill nowNs threshold)) := by
  simp only [admitIsOver, hasToken, decide_eq_true_eq]
  by_cases h : one ≤ (b.refill nowNs threshold).tokensQ
  · exact .inl ⟨h, if_pos h⟩
  · exact .inr ⟨by omega, if_neg h⟩

theorem admitIsOver_of_token {nowNs : UInt64} (h : one ≤ (b.refill nowNs threshold).tokensQ) :
    b.admitIsOver nowNs threshold = (false, (b.refill nowNs threshold).consumeOne) := by
  rcases admitIsOver_cases b threshold nowNs with ⟨-, heq⟩ | ⟨hno, -⟩
  · exact heq
  · omega

theorem refill_bounded (b : TokenBucket) (threshold : UInt32) (nowNs : UInt64) :
    Bounded threshold (b.refill nowNs threshold) := by
  rw [Bounded, refill]
  split_ifs
  · exact le_rfl
  · exact Nat.min_le_right _ _

theorem refill_lastRefillNs (b : TokenBucket) (threshold : UInt32) (nowNs : UInt64) :
    (b.refill nowNs threshold).lastRefillNs ≠ 0
      ∧ nowNs.toNat ≤ (b.refill nowNs threshold).lastRefillNs := by
  rw [refill]
  split_ifs
  · dsimp only
    omega
  · dsimp only
    omega

theorem admitIsOver_warm (b : TokenBucket) (threshold : UInt32) (nowNs : UInt64) :
    (b.admitIsOver nowNs threshold).2.lastRefillNs ≠ 0 := by
  have hwarm := (refill_lastRefillNs b threshold nowNs).1
  rcases admitIsOver_cases b threshold nowNs with ⟨-, h⟩ | ⟨-, h⟩
  · rw [h, consumeOne_lastRefillNs]
    exact hwarm
  · rw [h]
    exact hwarm

theorem admitIsOver_bounded (b : TokenBucket) (threshold : UInt32) (nowNs : UInt64) :
    Bounded threshold (b.admitIsOver nowNs threshold).2 := by
  have hb := refill_bounded b threshold nowNs
  rcases admitIsOver_cases b threshold nowNs with ⟨-, h⟩ | ⟨-, h⟩
  · rw [h, Bounded, consumeOne_tokensQ]
    exact (Nat.sub_le _ _).trans hb
  · rw [h]
    exact hb

/-! ## The upper bound -/

/-- Admitted events are paid for: what the bucket had, and what the time up to `hi` earns. -/
theorem admitted_le_of_warm {hi : ℕ} (times : List UInt64) : ∀ {b : TokenBucket},
    b.lastRefillNs ≠ 0 → Bounded threshold b → (∀ t ∈ times, t.toNat ≤ hi) →
    b.admitted threshold times * one ≤ b.tokensQ + (hi - b.lastRefillNs) * threshold.toNat := by
  induction times with
  | nil =>
    intro b _ _ _
    simp only [admitted, answers, List.count_nil, Nat.zero_mul, Nat.zero_le]
  | cons nowNs times ih =>
    intro b hwarm hb htimes
    have hnow : nowNs.toNat ≤ hi := htimes nowNs List.mem_cons_self
    have hrest : ∀ t ∈ times, t.toNat ≤ hi := fun t ht => htimes t (List.mem_cons_of_mem _ ht)
    have hrefill := refill_warm hwarm hb nowNs
    -- the time already spent and the time still left
    have hearned : min (nowNs.toNat - b.lastRefillNs) maxRefillElapsedNs * threshold.toNat
        + (hi - max b.lastRefillNs nowNs.toNat) * threshold.toNat
        ≤ (hi - b.lastRefillNs) * threshold.toNat := by
      rw [← Nat.add_mul]
      exact Nat.mul_le_mul_right _ (by omega)
    have hih := ih (admitIsOver_warm b threshold nowNs) (admitIsOver_bounded b threshold nowNs) hrest
    rw [admitted] at hih ⊢
    rw [answers]
    rcases admitIsOver_cases b threshold nowNs with ⟨htoken, h⟩ | ⟨-, h⟩
    · rw [h] at hih ⊢
      dsimp only at hih ⊢
      simp only [consumeOne, hrefill] at hih htoken
      simp only [List.count_cons_self, Nat.add_mul, Nat.one_mul, consumeOne, hrefill]
      omega
    · rw [h] at hih ⊢
      dsimp only at hih ⊢
      rw [hrefill] at hih
      dsimp only at hih
      simp only [List.count_cons_of_ne (by decide : (true : Bool) ≠ false), hrefill]
      omega

/-- **At most the capacity and what the span earns** is admitted, from any state of the bucket. -/
theorem admitted_le (b : TokenBucket) {times : List UInt64} {start span : ℕ}
    (htimes : ∀ t ∈ times, start ≤ t.toNat ∧ t.toNat ≤ start + span) :
    b.admitted threshold times * one ≤ capacityQ threshold + span * threshold.toNat := by
  cases times with
  | nil => simp only [admitted, answers, List.count_nil, Nat.zero_mul, Nat.zero_le]
  | cons nowNs times =>
    have hrest : ∀ t ∈ times, t.toNat ≤ start + span :=
      fun t ht => (htimes t (List.mem_cons_of_mem _ ht)).2
    have hfirst := (htimes nowNs List.mem_cons_self).1
    have hfull := refill_bounded b threshold nowNs
    have hlast := (refill_lastRefillNs b threshold nowNs).2
    have hle := admitted_le_of_warm times (admitIsOver_warm b threshold nowNs)
      (admitIsOver_bounded b threshold nowNs) hrest
    have hmul : (start + span - (b.refill nowNs threshold).lastRefillNs) * threshold.toNat
        ≤ span * threshold.toNat := Nat.mul_le_mul_right _ (by omega)
    rw [Bounded] at hfull
    rw [admitted] at hle ⊢
    rw [answers]
    rcases admitIsOver_cases b threshold nowNs with ⟨htoken, h⟩ | ⟨-, h⟩
    · rw [h] at hle ⊢
      dsimp only at hle ⊢
      rw [consumeOne_tokensQ, consumeOne_lastRefillNs] at hle
      rw [List.count_cons_self, Nat.add_mul, Nat.one_mul]
      omega
    · rw [h] at hle ⊢
      dsimp only at hle ⊢
      rw [List.count_cons_of_ne (by decide)]
      omega

/-! ## A stream within the limit -/

/-- The time one token takes, rounded up: `ceil(10^9 / threshold)`. -/
def tokenTime (threshold : UInt32) : ℕ := (one + threshold.toNat - 1) / threshold.toNat

/-- Successive events are at least one token's time apart. -/
def Spaced (threshold : UInt32) (stream : List UInt64) : Prop :=
  stream.IsChain fun t t' => t.toNat + tokenTime threshold ≤ t'.toNat

/-- One token's time earns a token, also after the cap on the elapsed time. -/
theorem one_le_earned (hpos : 0 < threshold) {elapsed : ℕ} (h : tokenTime threshold ≤ elapsed) :
    one ≤ min elapsed maxRefillElapsedNs * threshold.toNat := by
  have hpos : 0 < threshold.toNat := hpos
  have hceil : one ≤ tokenTime threshold * threshold.toNat := by
    have hdiv := Nat.div_add_mod (one + threshold.toNat - 1) threshold.toNat
    have hmod := Nat.mod_lt (one + threshold.toNat - 1) hpos
    rw [tokenTime, Nat.mul_comm]
    omega
  rcases Nat.le_total elapsed maxRefillElapsedNs with hle | hle
  · rw [Nat.min_eq_left hle]
    exact hceil.trans (Nat.mul_le_mul_right _ h)
  · rw [Nat.min_eq_right hle]
    exact Nat.le_mul_of_pos_right _ hpos

/-- A refill one token's time after the last fills the gap the last event left. -/
theorem refill_spaced (hpos : 0 < threshold) (hwarm : b.lastRefillNs ≠ 0) (hb : Bounded threshold b)
    {slack : ℕ} (htokens : capacityQ threshold ≤ b.tokensQ + one + slack) {nowNs : UInt64}
    (hgap : b.lastRefillNs + tokenTime threshold ≤ nowNs.toNat) :
    capacityQ threshold ≤ (b.refill nowNs threshold).tokensQ + slack
      ∧ (b.refill nowNs threshold).lastRefillNs = nowNs.toNat := by
  have hearned := one_le_earned hpos (show tokenTime threshold ≤ nowNs.toNat - b.lastRefillNs by omega)
  rw [Bounded] at hb
  rw [refill_warm hwarm hb nowNs]
  constructor
  · dsimp only
    omega
  · dsimp only
    omega

/-- **A spaced stream is admitted** once the bucket lacks no more than `slack` when its
first event comes: every event takes a token and the time to the next one earns it back. -/
theorem all_admitted (hpos : 0 < threshold) (slack : ℕ) (hslack : slack + one ≤ capacityQ threshold)
    (stream : List UInt64) : ∀ {b : TokenBucket} {nowNs : UInt64},
    capacityQ threshold ≤ (b.refill nowNs threshold).tokensQ + slack →
    (b.refill nowNs threshold).lastRefillNs = nowNs.toNat → Spaced threshold (nowNs :: stream) →
    ∀ limited ∈ answers threshold b (nowNs :: stream), limited = false := by
  induction stream with
  | nil =>
    intro b nowNs htokens _ _ limited hlimited
    rw [answers, admitIsOver_of_token (by omega)] at hlimited
    exact List.mem_singleton.mp hlimited
  | cons next stream ih =>
    intro b nowNs htokens hlast hspaced limited hlimited
    obtain ⟨hgap, hrest⟩ := List.isChain_cons_cons.mp hspaced
    have h := admitIsOver_of_token (show one ≤ (b.refill nowNs threshold).tokensQ by omega)
    have hwarm := admitIsOver_warm b threshold nowNs
    have hbound := admitIsOver_bounded b threshold nowNs
    rw [h] at hwarm hbound
    rw [answers, h] at hlimited
    have htokens' : capacityQ threshold
        ≤ (b.refill nowNs threshold).consumeOne.tokensQ + one + slack := by
      rw [consumeOne_tokensQ]
      omega
    have hgap' : (b.refill nowNs threshold).consumeOne.lastRefillNs + tokenTime threshold
        ≤ next.toNat := by
      rw [consumeOne_lastRefillNs, hlast]
      exact hgap
    obtain ⟨h1, h2⟩ := refill_spaced hpos hwarm hbound htokens' hgap'
    rcases List.mem_cons.mp hlimited with rfl | hlimited
    · rfl
    · exact ih h1 h2 hrest limited hlimited

/-! ## A bucket started at time zero

The first refill sets the time of the last refill to at least one, since zero means unused.
A stream that starts at time zero so loses one nanosecond, and with one token a second that
nanosecond is all there is. -/

/-- The bucket after its first event. -/
def started (threshold : UInt32) (first : UInt64) : TokenBucket :=
  ⟨capacityQ threshold - one, max first.toNat 1⟩

theorem one_le_capacityQ (hpos : 0 < threshold) : one ≤ capacityQ threshold := by
  have hpos : 0 < threshold.toNat := hpos
  rw [capacityQ_eq]
  exact Nat.le_mul_of_pos_left _ hpos

theorem add_one_le_capacityQ (htwo : 2 ≤ threshold.toNat) :
    threshold.toNat + one ≤ capacityQ threshold := by
  rw [capacityQ_eq, one]
  omega

theorem admitIsOver_default (hpos : 0 < threshold) (first : UInt64) :
    default.admitIsOver first threshold = (false, started threshold first) := by
  have hrefill : default.refill first threshold = ⟨capacityQ threshold, max first.toNat 1⟩ :=
    refill_cold rfl first
  rw [admitIsOver_of_token (by rw [hrefill]; exact one_le_capacityQ hpos), hrefill, consumeOne,
    started]

theorem min_le_min_pred_add_one (a b : ℕ) : min a b ≤ min (a - 1) b + 1 := by
  omega

/-- A token taken from a full bucket and earned back up to `slack`. -/
theorem le_refilled {cap unit earned : ℕ} (slack : ℕ) (hfull : unit ≤ cap) (h : unit ≤ earned + slack) :
    cap ≤ min (cap - unit + earned) cap + slack := by
  omega

/-- The second event of a stream that starts at time zero finds a token, unless there is one
token a second and it comes on the second. -/
theorem started_zero_refill (hpos : 0 < threshold) {next : UInt64}
    (hgap : tokenTime threshold ≤ next.toNat) :
    ((started threshold 0).refill next threshold).lastRefillNs = next.toNat
      ∧ capacityQ threshold
        ≤ ((started threshold 0).refill next threshold).tokensQ + threshold.toNat
      ∧ (tokenTime threshold < next.toNat →
          capacityQ threshold ≤ ((started threshold 0).refill next threshold).tokensQ) := by
  have hlast : (started threshold 0).lastRefillNs = 1 := by
    simp only [started, UInt64.toNat_zero, Nat.zero_max]
  have htokens : (started threshold 0).tokensQ = capacityQ threshold - one := by
    simp only [started]
  have hfull := one_le_capacityQ hpos
  have hb : Bounded threshold (started threshold 0) := by
    rw [Bounded, htokens]
    exact Nat.sub_le _ _
  have hwhole := one_le_earned hpos hgap
  have hnext : 1 ≤ next.toNat := by
    rcases Nat.eq_zero_or_pos next.toNat with h | h
    · rw [h, Nat.zero_min, Nat.zero_mul, one] at hwhole
      omega
    · exact h
  rw [refill_warm (by rw [hlast]; exact Nat.one_ne_zero) hb next, hlast, htokens]
  dsimp only
  refine ⟨Nat.max_eq_right hnext, ?_, ?_⟩
  · have hlate : min next.toNat maxRefillElapsedNs * threshold.toNat
        ≤ (min (next.toNat - 1) maxRefillElapsedNs + 1) * threshold.toNat :=
      Nat.mul_le_mul_right _ (min_le_min_pred_add_one _ _)
    rw [Nat.add_mul, Nat.one_mul] at hlate
    exact le_refilled threshold.toNat hfull (hwhole.trans hlate)
  · intro hlater
    have h := le_refilled 0 hfull (one_le_earned hpos (Nat.le_sub_one_of_lt hlater))
    rwa [Nat.add_zero] at h

/-- One nanosecond short of the second token. -/
theorem started_zero_refill_one : ((started 1 0).refill 1000000000 1).tokensQ < one := by
  have hcap : capacityQ 1 = one := by
    rw [capacityQ_eq, UInt32.toNat_one, Nat.one_mul]
  have hb : Bounded 1 (started 1 0) := by
    rw [Bounded, started]
    exact Nat.sub_le _ _
  have hwarm : (started 1 0).lastRefillNs ≠ 0 := by
    simp only [started]
    omega
  have hnext : (1000000000 : UInt64).toNat = 1000000000 := by decide
  rw [refill_warm hwarm hb, hcap, hnext]
  simp only [started, hcap, UInt64.toNat_zero, UInt32.toNat_one, maxRefillElapsedNs, one]
  omega

/-- A spaced stream meets a fresh bucket: no event is over the limit but the second of a
stream at times zero and one second, with one token a second. -/
theorem answers_default (hpos : 0 < threshold) {stream : List UInt64}
    (hspaced : Spaced threshold stream) :
    (∀ limited ∈ answers threshold default stream, limited = false)
      ↔ ¬(threshold = 1 ∧ stream.take 2 = [0, 1000000000]) := by
  have hfull := one_le_capacityQ hpos
  rcases stream with _ | ⟨first, stream⟩
  · simp only [answers, List.not_mem_nil, false_imp_iff, implies_true, List.take_nil, reduceCtorEq,
      and_false, not_false_eq_true]
  by_cases hzero : first = 0
  · subst hzero
    rcases stream with _ | ⟨next, stream⟩
    · rw [answers, admitIsOver_default hpos]
      refine iff_of_true (fun limited hlimited => List.mem_singleton.mp hlimited) ?_
      rintro ⟨-, hlist⟩
      cases hlist
    obtain ⟨hgap, hrest⟩ := List.isChain_cons_cons.mp hspaced
    rw [UInt64.toNat_zero, Nat.zero_add] at hgap
    obtain ⟨hlast, hslack, hlater⟩ := started_zero_refill hpos hgap
    rw [answers, admitIsOver_default hpos]
    dsimp only
    by_cases hone : threshold = 1
    · subst hone
      have htime : tokenTime 1 = 1000000000 := by
        rw [tokenTime, UInt32.toNat_one, one]
      by_cases hnext : next = 1000000000
      · subst hnext
        refine iff_of_false ?_ (fun h => h ⟨rfl, rfl⟩)
        intro h
        have hno := started_zero_refill_one
        rcases admitIsOver_cases (started 1 0) 1 1000000000 with ⟨htoken, -⟩ | ⟨-, hlimited⟩
        · omega
        · rw [answers, hlimited] at h
          exact absurd (h true (List.mem_cons_of_mem _ List.mem_cons_self)) (by decide)
      · have hne : next.toNat ≠ 1000000000 := fun h => hnext (UInt64.toNat_inj.mp h)
        have hfilled := hlater (by omega)
        rw [← Nat.add_zero (TokenBucket.tokensQ _)] at hfilled
        have hall := all_admitted hpos 0 (by omega) stream hfilled hlast hrest
        refine iff_of_true (by simpa using hall) ?_
        simp [hnext]
    · have hall : ∀ limited ∈ answers threshold (started threshold 0) (next :: stream), limited = false := by
        have htwo : 2 ≤ threshold.toNat := by
          have h1 : 0 < threshold.toNat := hpos
          have h2 : threshold.toNat ≠ 1 := fun h => hone (UInt32.toNat_inj.mp h)
          omega
        exact all_admitted hpos threshold.toNat (add_one_le_capacityQ htwo) stream hslack hlast hrest
      exact iff_of_true (by simpa using hall) (fun h => hone h.1)
  · have hrefill : default.refill first threshold = ⟨capacityQ threshold, max first.toNat 1⟩ :=
      refill_cold rfl first
    have hpos' : first.toNat ≠ 0 := fun h => hzero (UInt64.toNat_inj.mp h)
    have hall : ∀ limited ∈ answers threshold default (first :: stream), limited = false := by
      refine all_admitted hpos 0 (by omega) stream ?_ ?_ hspaced
      · rw [hrefill, Nat.add_zero]
      · rw [hrefill]
        exact Nat.max_eq_left (by omega)
    exact iff_of_true hall (by simp [hzero])

end TokenBucket

open TokenBucket

end Xpf.ScreenRate
